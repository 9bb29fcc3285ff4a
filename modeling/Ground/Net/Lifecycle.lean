import Ground.Net.Connect

/-! # The socket's registration

While the future holds its socket, the interest list has the socket's entry or
none for its descriptor. However the future ends, the descriptor is not listed.
-/

namespace Ground

open Mask

variable {T τ σ κ R : Type} [AsRawFd T] [InterestKernel κ]

theorem Nonblocking.poll_rewrites {this : Nonblocking T τ σ} {addr : Addr} {r : Reactor κ}
    (hListed : this.a.Listed addr r.list) (hCovered : this.a.Covered) (waker : Waker τ)
    {f : FnMut σ T R} (hFd : ∀ captured value, asRawFd (f captured value).2.2 = asRawFd value)
    (hFree : ∀ value, this.a.inner = some value → this.a.waiter.registerFor = 0#32 →
      r.list (asRawFd value) = none) :
    let polled := this.poll addr waker f r
    Granted polled.1 ∧ Async.Rewrites addr this.a r polled.2.1.a polled.2.2 ∧
      polled.2.1.a.Covered := by
  intro polled
  have hKeeps : this.held.KeepsEntry r.list this.interest f.closure := by
    rintro ⟨value, captured⟩ hHeld -
    refine ⟨.inl (hFd captured value), fun _ hReg => hFree value ?_ hReg⟩
    obtain ⟨value', hValue, hPair⟩ := Option.map_eq_some_iff.mp hHeld
    cases hPair
    exact hValue
  have hHeldListed : this.held.Listed addr r.list := by
    simpa only [Async.Listed, entry_held] using hListed
  have hHeldCovered : this.held.Covered := by
    intro hSome
    apply hCovered
    simpa [held] using hSome
  obtain ⟨outcome, held', r', hPoll, hGranted, hRewrites, hCovered'⟩ :=
    Async.pollNonblocking_rewrites hHeldListed hHeldCovered waker hKeeps
  have hPolled : polled = (outcome, this.release held', r') := by
    simp only [polled, poll, hPoll]
  rw [hPolled]
  refine ⟨hGranted, ?_, ?_⟩
  · simpa only [Async.Rewrites, entry_held, entry_release] using hRewrites
  · intro hSome
    apply hCovered'
    simpa [release] using hSome

namespace Net

structure Kept (addr : Addr) (fd : RawFd) (a : Async RawFd τ) (r : Reactor κ) : Prop where
  inner : a.inner = some fd
  listed : a.Listed addr r.list
  covered : a.Covered
  free : a.waiter.registerFor = 0#32 → r.list fd = none
  idle : r.isDispatching = false

variable {addr : Addr} {fd : RawFd} {a : Async RawFd τ} {r : Reactor κ}

theorem kept_new {fcntl : Fcntl} (h : Async.new fcntl fd = .ret a) (hFree : r.list fd = none)
    (hIdle : r.isDispatching = false) : Kept addr fd a r := by
  obtain rfl := Async.new_eq_ret h
  refine ⟨rfl, ?_, fun _ => within_refl _, fun _ => hFree, hIdle⟩
  rintro fd' event hEntry
  rw [Async.entry_of_registerFor_eq_zero addr rfl] at hEntry
  cases hEntry

theorem Kept.poll {socket : Nonblocking RawFd τ σ} (h : Kept addr fd socket.a r)
    (waker : Waker τ) {f : FnMut σ RawFd R}
    (hFd : ∀ captured value, (f captured value).2.2 = value) :
    let polled := socket.poll addr waker f r
    Granted polled.1 ∧ Kept addr fd polled.2.1.a polled.2.2 := by
  intro polled
  obtain ⟨hGranted, hRewrites, hCovered⟩ := Nonblocking.poll_rewrites h.listed h.covered waker
    (f := f) (fun captured value => hFd captured value) fun value hInner hReg => by
      cases h.inner.symm.trans hInner
      exact h.free hReg
  have hInner : polled.2.1.a.inner = some fd := by
    obtain ⟨-, hPoll⟩ | ⟨-, -, outcome, -, hPoll⟩ | ⟨-, -, hPoll⟩ :=
      Nonblocking.poll_cases h.inner addr waker f r
    · simp only [polled, hPoll]
      exact h.inner
    · simp only [polled, hPoll, Nonblocking.invoked, hFd]
    · simp only [polled, hPoll, Nonblocking.invoked, hFd]
  refine ⟨hGranted, hInner, hRewrites.listed h.listed, hCovered, fun hReg => ?_,
    hRewrites.2.trans h.idle⟩
  exact hRewrites.free h.inner h.free (Async.entry_of_registerFor_eq_zero addr hReg)

theorem Kept.deliver (h : Kept addr fd a r) (event : EpollEvent) :
    Kept addr fd { a with waiter := (Reactor.deliver event a.waiter).1 } r := by
  refine ⟨h.inner, fun fd' event' hEntry => h.listed fd' event' hEntry, fun hSome => ?_, h.free,
    h.idle⟩
  simp only [Reactor.deliver_waitingFor, Reactor.deliver_registerFor]
  exact within_andNot.trans (h.covered hSome)

theorem Kept.elsewhere (h : Kept addr fd a r) {r' : Reactor κ} (hList : r'.list fd = r.list fd)
    (hIdle : r'.isDispatching = false) : Kept addr fd a r' := by
  refine ⟨h.inner, ?_, h.covered, fun hReg => hList.trans (h.free hReg), hIdle⟩
  intro fd' event hEntry
  obtain ⟨inner, hInner, rfl, -⟩ := Async.entry_eq_some_iff.mp hEntry
  cases h.inner.symm.trans hInner
  exact hList.trans (h.listed _ _ hEntry)

theorem Kept.drop (h : Kept addr fd a r) :
    ∃ r', a.drop r = (.ret (), r') ∧ r'.list fd = none := by
  obtain ⟨a', r', hRun, hInner, hGone, hRewrites⟩ := Async.deregister_rewrites h.listed h.idle
  refine ⟨r', ?_, hRewrites.free h.inner h.free hGone⟩
  simp only [Async.drop, hRun]

theorem Kept.takeInner (h : Kept addr fd a r) :
    ∃ a' r', a.takeInner r = (.ret fd, a', r') ∧ a'.inner = none ∧ r'.list fd = none := by
  obtain ⟨a', r', hRun, hInner, hGone, hRewrites⟩ := Async.deregister_rewrites h.listed h.idle
  refine ⟨{ a' with inner := none }, r', ?_, rfl, hRewrites.free h.inner h.free hGone⟩
  simp only [Async.takeInner, hRun, hInner.trans h.inner]

/-- An `Async` that is registered for nothing and waits for nothing. -/
def Movable (a : Async RawFd τ) : Prop :=
  a.waiter.registerFor = 0#32 ∧ a.waiter.waitingFor = 0#32

/-- The descriptor is not listed, and what is returned may be moved. -/
def Left (fd : RawFd) (r : Reactor κ) (outcome : Outcome Panic (Except Error (Async RawFd τ))) :
    Prop :=
  r.list fd = none ∧ ∀ returned, outcome = .ret (.ok returned) → Movable returned

theorem Kept.conclude (h : Kept addr fd a r) (os : Os) (result : Except Error Unit) :
    Left fd (Net.conclude os a r result).2 (Net.conclude os a r result).1 := by
  cases result with
  | error e =>
    obtain ⟨r', hDrop, hGone⟩ := h.drop
    simp only [Net.conclude, hDrop, Outcome.ret_bind]
    exact ⟨hGone, by rintro returned ⟨⟩⟩
  | ok _ =>
    obtain ⟨a', r', hTake, hEmpty, hGone⟩ := h.takeInner
    have hDrop : a'.drop r' = (.ret (), r') := by
      simp only [Async.drop, Async.deregister_skipped r' (.inr hEmpty)]
    simp only [Net.conclude, hTake, hDrop]
    refine ⟨hGone, fun returned hReturned => ?_⟩
    cases hNew : (Async.new os.fcntl fd : Outcome Panic (Async RawFd τ)) with
    | panic p =>
      rw [hNew] at hReturned
      cases hReturned
    | ret a =>
      rw [hNew] at hReturned
      cases hReturned
      rw [Async.new_eq_ret hNew]
      exact ⟨rfl, rfl⟩

namespace Connect

variable {σ : Type} {s t : Connect τ σ κ} {connector : Connector σ}

theorem pollSocket_socket (s : Connect τ σ κ) (connector : Connector σ) (addr : Addr)
    (waker : Waker τ) (os : Os) (socket : Nonblocking RawFd τ σ) :
    (s.pollSocket connector addr waker os socket).socket = s.socket := by
  simp only [pollSocket]
  split <;> rfl

theorem pollSocket_kept {socket : Nonblocking RawFd τ σ} (h : Kept addr fd socket.a s.reactor)
    (connector : Connector σ) (waker : Waker τ) (os : Os) :
    let s' := s.pollSocket connector addr waker os socket
    (∃ socket', s'.stage = .connecting socket' ∧ Kept addr fd socket'.a s'.reactor) ∨
      ∃ outcome, s'.stage = .finished outcome ∧ Left fd s'.reactor outcome := by
  intro s'
  let traced : Nonblocking RawFd τ (σ × List Entry) :=
    { a := socket.a, interest := socket.interest, captured := (socket.captured, s.trace) }
  have hTraced : Kept addr fd traced.a s.reactor := h
  obtain ⟨-, hKept⟩ := hTraced.poll waker (f := connector.call os) fun _ _ => rfl
  simp only [s', pollSocket]
  generalize traced.poll addr waker (connector.call os) s.reactor = polled at hKept
  obtain ⟨(result | _) | p, traced', r'⟩ := polled
  · exact .inr ⟨_, rfl, hKept.conclude os result⟩
  · exact .inl ⟨_, rfl, hKept⟩
  · obtain ⟨r'', hDrop, hGone⟩ := hKept.drop
    refine .inr ⟨_, rfl, ?_, by rintro returned ⟨⟩⟩
    rw [hDrop]
    exact hGone

/-- The socket's entry is the future's own while the socket is, and is not there
when the future has ended. -/
def Tidy (addr : Addr) (s : Connect τ σ κ) : Prop :=
  match s.stage with
  | .unresumed => s.socket = none ∧ s.reactor.isDispatching = false
  | .connecting socket => ∃ fd, s.socket = some fd ∧ Kept addr fd socket.a s.reactor
  | .finished outcome => (∀ fd, s.socket = some fd → s.reactor.list fd = none) ∧
      ∀ returned, outcome = .ret (.ok returned) → Movable returned
  | .dropped _ => ∀ fd, s.socket = some fd → s.reactor.list fd = none

/-- A new descriptor is not listed, and nobody else writes the socket's entry. -/
def Private (s : Connect τ σ κ) : Act τ κ → Prop
  | .poll _ os => ∀ fd, s.stage = .unresumed → os.socket = .ok fd → s.reactor.list fd = none
  | .elsewhere effect => ∀ fd, s.socket = some fd →
      (s.elsewhere effect).reactor.list fd = s.reactor.list fd
  | .event _ | .drop => True

theorem Tidy.pollSocket {socket : Nonblocking RawFd τ σ} (hSocket : s.socket = some fd)
    (h : Kept addr fd socket.a s.reactor) (connector : Connector σ) (waker : Waker τ) (os : Os) :
    (s.pollSocket connector addr waker os socket).Tidy addr := by
  have hSame := (s.pollSocket_socket connector addr waker os socket).trans hSocket
  obtain ⟨socket', hStage, hKept⟩ | ⟨outcome, hStage, hGone, hBits⟩ :=
    pollSocket_kept h connector waker os
  · simp only [Tidy, hStage]
    exact ⟨fd, hSame, hKept⟩
  · simp only [Tidy, hStage, hSame]
    refine ⟨?_, hBits⟩
    rintro _ ⟨⟩
    exact hGone

theorem Tidy.poll (h : s.Tidy addr) (connector : Connector σ) (waker : Waker τ) {os : Os}
    (hPrivate : s.Private (.poll waker os)) : (s.poll connector addr waker os).Tidy addr := by
  unfold Connect.poll
  cases hStage : s.stage with
  | unresumed =>
    simp only [Tidy, hStage] at h
    obtain ⟨hNone, hIdle⟩ := h
    simp only
    split
    · simp [Tidy, hNone]
    · rename_i fd hNew
      have hFree := hPrivate fd hStage hNew
      have hOnly : ∀ fd', some fd = some fd' → s.reactor.list fd' = none := by
        rintro _ ⟨⟩
        exact hFree
      split
      · exact ⟨hOnly, by rintro returned ⟨⟩⟩
      · rename_i a hA
        have hKept : Kept addr fd a s.reactor := kept_new hA hFree hIdle
        split
        · obtain ⟨r', hDrop, hGone⟩ := hKept.drop
          simp only [hDrop, Outcome.ret_bind]
          refine ⟨?_, by rintro returned ⟨⟩⟩
          rintro _ ⟨⟩
          exact hGone
        · exact Tidy.pollSocket rfl hKept connector waker os
  | connecting socket =>
    simp only [Tidy, hStage] at h
    obtain ⟨fd, hSocket, hKept⟩ := h
    exact Tidy.pollSocket hSocket hKept connector waker os
  | finished outcome => exact h
  | dropped outcome => exact h

theorem Tidy.step (h : s.Tidy addr) {act : Act τ κ} (hPrivate : s.Private act)
    (hStep : s.step connector addr act = some t) : t.Tidy addr := by
  unfold Connect.step at hStep
  split at hStep
  · cases hStep
  · cases act with
    | poll waker os =>
      cases hStep
      exact h.poll connector waker hPrivate
    | event events =>
      cases hStep
      unfold Connect.deliver
      cases hStage : s.stage with
      | connecting socket =>
        simp only [Tidy, hStage] at h ⊢
        obtain ⟨fd, hSocket, hKept⟩ := h
        exact ⟨fd, hSocket, hKept.deliver _⟩
      | _ => exact h
    | elsewhere effect =>
      cases hStep
      cases hStage : s.stage with
      | connecting socket =>
        simp only [Tidy, Connect.elsewhere, hStage] at h ⊢
        obtain ⟨fd, hSocket, hKept⟩ := h
        exact ⟨fd, hSocket, hKept.elsewhere (hPrivate fd hSocket) hKept.idle⟩
      | unresumed => simpa [Tidy, Connect.elsewhere, hStage] using h
      | finished outcome =>
        simp only [Tidy, Connect.elsewhere, hStage] at h ⊢
        exact ⟨fun fd hSocket => (hPrivate fd hSocket).trans (h.1 fd hSocket), h.2⟩
      | dropped outcome =>
        simp only [Tidy, Connect.elsewhere, hStage] at h ⊢
        exact fun fd hSocket => (hPrivate fd hSocket).trans (h fd hSocket)
    | drop =>
      cases hStep
      unfold Connect.drop
      cases hStage : s.stage with
      | connecting socket =>
        simp only [Tidy, hStage] at h ⊢
        obtain ⟨fd, hSocket, hKept⟩ := h
        obtain ⟨r', hDrop, hGone⟩ := hKept.drop
        rw [hDrop, hSocket]
        rintro _ ⟨⟩
        exact hGone
      | _ => simp_all [Tidy]

end Connect

end Net

end Ground
