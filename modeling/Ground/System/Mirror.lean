import Ground.System.World

/-! # The interest list mirrors the live `Async`s

Every step that leaves registered descriptors in place keeps the list equal to
the entries of the `Async`s in memory. Delivery changes no entry, so the data
of every reported event points to a live waiter.
-/

namespace Ground

open Mask Transition

variable {T τ κ R : Type} [AsRawFd T]

/-- What a batch of deliveries may do to the waiter at an address. -/
inductive Delivered : Option (Waiter τ) → Option (Waiter τ) → Prop where
  | none : Delivered none none
  | some {waiter waiter' : Waiter τ} : waiter'.waker = waiter.waker →
      waiter'.registerFor = waiter.registerFor →
      Within waiter'.waitingFor waiter.waitingFor → Delivered (some waiter) (some waiter')

theorem Delivered.refl (waiter : Option (Waiter τ)) : Delivered waiter waiter := by
  cases waiter with
  | none => exact .none
  | some waiter => exact .some rfl rfl (within_refl _)

theorem Delivered.trans {a b c : Option (Waiter τ)} (h : Delivered a b) (h' : Delivered b c) :
    Delivered a c := by
  cases h with
  | none => exact h'
  | some hWaker hReg hWithin =>
    cases h' with
    | some hWaker' hReg' hWithin' =>
      exact .some (hWaker'.trans hWaker) (hReg'.trans hReg) (hWithin'.trans hWithin)

theorem Delivered.isSome {a b : Option (Waiter τ)} (h : Delivered a b) (ha : a.isSome) :
    b.isSome := by
  cases h with
  | none => exact ha
  | some _ _ _ => rfl

theorem deliverAll_cons {event : EpollEvent} {events : List EpollEvent} {waiters : Waiters τ}
    {waiter : Waiter τ} (hWaiter : waiters event.data = some waiter) :
    Reactor.deliverAll (event :: events) waiters =
      (Reactor.deliverAll events
        (Function.update waiters event.data (some (Reactor.deliver event waiter).1))).map
          fun (waiters', woken) => (waiters', waiter.waker.wakeByRef ++ woken) := by
  simp only [Reactor.deliverAll, hWaiter, Option.bind_eq_bind, Option.bind_some]
  exact (Option.map_eq_bind ..).symm

theorem delivered_update {event : EpollEvent} {waiters : Waiters τ} {waiter : Waiter τ}
    (hWaiter : waiters event.data = some waiter) (addr : Addr) : Delivered (waiters addr)
      (Function.update waiters event.data (some (Reactor.deliver event waiter).1) addr) := by
  obtain rfl | hAddr := eq_or_ne addr event.data
  · rw [Function.update_self, hWaiter]
    exact .some rfl rfl within_andNot
  · rw [Function.update_of_ne hAddr]
    exact .refl _

theorem deliverAll_delivered {events : List EpollEvent} {waiters : Waiters τ}
    (hLive : ∀ event ∈ events, (waiters event.data).isSome) :
    ∃ waiters' woken, Reactor.deliverAll events waiters = some (waiters', woken) ∧
      ∀ addr, Delivered (waiters addr) (waiters' addr) := by
  induction events generalizing waiters with
  | nil => exact ⟨waiters, [], rfl, fun addr => .refl _⟩
  | cons event events ih =>
    obtain ⟨waiter, hWaiter⟩ := Option.isSome_iff_exists.mp (hLive event List.mem_cons_self)
    have hNext := delivered_update hWaiter
    obtain ⟨waiters', woken, hRun, hAll⟩ := ih fun e he =>
      (hNext e.data).isSome (hLive e (List.mem_cons_of_mem _ he))
    refine ⟨waiters', waiter.waker.wakeByRef ++ woken, ?_, fun addr => ?_⟩
    · rw [deliverAll_cons hWaiter, hRun, Option.map_some]
    · exact (hNext addr).trans (hAll addr)

theorem deliverAll_wakes {events : List EpollEvent} {waiters : Waiters τ} {event : EpollEvent}
    {waiter : Waiter τ} (hLive : ∀ event ∈ events, (waiters event.data).isSome)
    (hMem : event ∈ events) (hWaiter : waiters event.data = some waiter) :
    ∃ waiters' woken waiter', Reactor.deliverAll events waiters = some (waiters', woken) ∧
      waiter.waker.wakeByRef ⊆ woken ∧ waiters' event.data = some waiter' ∧
      ∀ b, Has event.events b → ¬ Has waiter'.waitingFor b := by
  induction events generalizing waiters waiter with
  | nil => cases hMem
  | cons first events ih =>
    obtain ⟨firstWaiter, hFirst⟩ := Option.isSome_iff_exists.mp (hLive first List.mem_cons_self)
    have hNext := delivered_update hFirst
    have hLive' := fun e he => (hNext e.data).isSome (hLive e (List.mem_cons_of_mem _ he))
    rw [deliverAll_cons hFirst]
    obtain rfl | hMem := List.mem_cons.mp hMem
    · obtain rfl := Option.some.inj (hFirst.symm.trans hWaiter)
      obtain ⟨waiters', woken, hRun, hAll⟩ := deliverAll_delivered hLive'
      have hLast := hAll event.data
      rw [Function.update_self] at hLast
      generalize hThen : waiters' event.data = last at hLast
      cases hLast with
      | some _ _ hWithin =>
        rw [hRun, Option.map_some]
        refine ⟨waiters', _, _, rfl, List.subset_append_left .., hThen, fun b hBit hWaits => ?_⟩
        exact (has_and_not.mp (hWithin.has hWaits)).2 hBit
    · have hStep := hNext event.data
      rw [hWaiter] at hStep
      generalize hThen : Function.update waiters first.data _ event.data = next at hStep
      cases hStep with
      | some hWaker _ _ =>
        obtain ⟨waiters', woken, waiter', hRun, hWoken, hEnd, hClear⟩ := ih hLive' hMem hThen
        rw [hRun, Option.map_some]
        refine ⟨waiters', _, waiter', rfl, ?_, hEnd, hClear⟩
        exact List.Subset.trans (hWaker ▸ hWoken) (List.subset_append_right ..)

theorem Granted.quiet {α : Type} {outcome : Outcome Panic α} (h : Granted outcome) :
    Granted (World.quiet outcome : World.Response τ) := by
  cases outcome with
  | ret value => simp [World.quiet, Granted]
  | panic p => simpa [World.quiet, Granted] using h

namespace World

def entries (w : World T τ κ) : Addr → Option (RawFd × EpollEvent) := fun addr =>
  (w.asyncs addr).bind (·.entry addr)

theorem entries_of_asyncs {w : World T τ κ} {addr : Addr} {this : Async T τ}
    (h : w.asyncs addr = some this) : w.entries addr = this.entry addr := by
  simp [entries, h]

@[simp] theorem entries_update (asyncs : Addr → Option (Async T τ)) (r r' : Reactor κ)
    (addr : Addr) (new : Option (Async T τ)) :
    entries { asyncs := Function.update asyncs addr new, reactor := r' } =
      Function.update (entries { asyncs, reactor := r }) addr (new.bind (·.entry addr)) := by
  funext addr'
  obtain rfl | h := eq_or_ne addr' addr
  · simp [entries]
  · simp [entries, h]

omit [AsRawFd T] in
theorem withWaiters_cases {w : World T τ κ} {waiters' : Waiters τ}
    (hAll : ∀ addr, Delivered (w.waiters addr) (waiters' addr)) (addr : Addr) :
    (w.asyncs addr = none ∧ w.withWaiters waiters' addr = none) ∨
    ∃ this that, w.asyncs addr = some this ∧ w.withWaiters waiters' addr = some that ∧
      that.inner = this.inner ∧ that.waiter.registerFor = this.waiter.registerFor ∧
      Within that.waiter.waitingFor this.waiter.waitingFor := by
  cases hThis : w.asyncs addr with
  | none => exact .inl ⟨rfl, by simp [withWaiters, hThis]⟩
  | some this =>
    have hAddr : Delivered (some this.waiter) (waiters' addr) := by
      simpa [waiters, hThis] using hAll addr
    generalize hNew : waiters' addr = new at hAddr
    cases hAddr with
    | some hWaker hReg hWithin =>
      rename_i waiter'
      exact .inr ⟨this, { this with waiter := waiter' }, rfl, by simp [withWaiters, hThis, hNew],
        rfl, hReg, hWithin⟩

variable [InterestKernel κ]

def Mirrored (w : World T τ κ) : Prop := Mirrors EpollEvent.data w.reactor.list w.entries

namespace Mirrored

variable {w : World T τ κ}

theorem listed (h : w.Mirrored) {addr : Addr} {this : Async T τ}
    (hThis : w.asyncs addr = some this) : this.Listed addr w.reactor.list := fun _ _ hEntry =>
  Mirrors.lookup_of_entry h ((entries_of_asyncs hThis).trans hEntry)

theorem live (h : w.Mirrored) {fd : RawFd} {event : EpollEvent}
    (hList : w.reactor.list fd = some event) :
    ∃ this, w.asyncs event.data = some this ∧ this.entry event.data = some (fd, event) := by
  obtain ⟨this, hThis, hOwn⟩ := Option.bind_eq_some_iff.mp ((h.lookup fd event).mp hList)
  exact ⟨this, hThis, hOwn⟩

theorem update (h : w.Mirrored) {addr : Addr} {new : Option (Async T τ)} {r : Reactor κ}
    (hChange : Change EpollEvent.data addr w.reactor.list (w.entries addr) r.list
      (new.bind (·.entry addr))) :
    Mirrored { asyncs := Function.update w.asyncs addr new, reactor := r } := by
  rw [Mirrored, entries_update w.asyncs w.reactor]
  exact Mirrors.change h hChange

end Mirrored

/-- Every entry points to an `Async` in memory. -/
def Live (w : World T τ κ) : Prop :=
  ∀ fd event, w.reactor.list fd = some event → (w.asyncs event.data).isSome

omit [AsRawFd T] in
theorem Live.epollWait {w : World T τ κ} (h : w.Live)
    {answer : Except Errno (List (RawFd × Events))} {length : Nat} {events : List EpollEvent}
    (hWait : w.epollWait answer length = .ok events) :
    ∀ event ∈ events, (w.waiters event.data).isSome := by
  intro event hMem
  obtain errno | reports := answer
  · cases hWait
  · cases hWait
    obtain ⟨⟨fd, mask⟩, -, hReport⟩ := List.mem_filterMap.mp (List.mem_of_mem_take hMem)
    obtain ⟨entry, hList, rfl⟩ := Option.map_eq_some_iff.mp hReport
    simpa [waiters] using h fd entry hList

theorem Live.dispatch {w : World T τ κ} (h : w.Live) (hIdle : w.reactor.isDispatching = false)
    (answer : Except Errno (List (RawFd × Events))) :
    ∃ woken waiters', (∀ addr, Delivered (w.waiters addr) (waiters' addr)) ∧
      w.perform (R := R) (.dispatch answer) =
        some (.ret woken, { asyncs := w.withWaiters waiters', reactor := w.reactor }) := by
  simp only [perform, Reactor.dispatch, hIdle, Bool.false_eq_true, if_false]
  cases hWait : w.epollWait answer Reactor.eventBuffer with
  | error errno => exact ⟨[], w.waiters, fun addr => .refl _, rfl⟩
  | ok events =>
    obtain ⟨waiters', woken, hRun, hAll⟩ := deliverAll_delivered (h.epollWait hWait)
    refine ⟨woken, waiters', hAll, ?_⟩
    have hReactor : { w.reactor with isDispatching := false } = w.reactor := by rw [← hIdle]
    simp only [hRun, Option.bind_eq_bind, Option.bind_some, hReactor]

/-- The list is in step with memory, and so is what each waiter waits for. -/
structure InStep (w : World T τ κ) : Prop where
  mirrors : w.Mirrored
  covered : ∀ addr this, w.asyncs addr = some this → this.Covered
  idle : w.reactor.isDispatching = false

theorem inStep_init {kernel : κ} (hEmpty : InterestKernel.interest kernel = .empty) :
    (init kernel : World T τ κ).InStep where
  mirrors := by
    change Mirrors _ (InterestKernel.interest kernel) _
    rw [hEmpty]
    exact mirrors_empty EpollEvent.data
  covered := by rintro addr this ⟨⟩
  idle := rfl

namespace InStep

variable {w : World T τ κ} {addr : Addr} {this this' mid : Async T τ}
  {r rMid : Reactor κ}

theorem update (h : w.InStep) {new : Option (Async T τ)}
    (hChange : Change EpollEvent.data addr w.reactor.list (w.entries addr) r.list
      (new.bind (·.entry addr)))
    (hIdle : r.isDispatching = false) (hCovered : ∀ this, new = some this → this.Covered) :
    InStep { asyncs := Function.update w.asyncs addr new, reactor := r } where
  mirrors := h.mirrors.update hChange
  covered := by
    intro addr' that hThat
    obtain rfl | hAddr := eq_or_ne addr' addr
    · exact hCovered that (by simpa using hThat)
    · exact h.covered addr' that (by simpa [hAddr] using hThat)
  idle := hIdle

theorem set (h : w.InStep) (hThis : w.asyncs addr = some this)
    (hRewrites : this.Rewrites addr w.reactor this' r) (hCovered : this'.Covered) :
    (w.set addr this' r).InStep := by
  apply h.update
  · rw [entries_of_asyncs hThis]
    exact hRewrites.1
  · exact hRewrites.2.trans h.idle
  · rintro _ ⟨⟩
    exact hCovered

theorem live (h : w.InStep) : w.Live := by
  intro fd event hList
  obtain ⟨this, hThis, -⟩ := h.mirrors.live hList
  simp [hThis]

end InStep

theorem InStep.withWaiters {w : World T τ κ} (h : w.InStep) {waiters' : Waiters τ}
    (hAll : ∀ addr, Delivered (w.waiters addr) (waiters' addr)) :
    InStep { asyncs := w.withWaiters waiters', reactor := w.reactor } where
  mirrors := by
    have hEntries : entries { asyncs := w.withWaiters waiters', reactor := w.reactor } =
        w.entries := by
      funext addr
      obtain ⟨hThis, hThat⟩ | ⟨this, that, hThis, hThat, hInner, hReg, -⟩ :=
        withWaiters_cases hAll addr
      · simp [entries, hThis, hThat]
      · simp only [entries, hThis, hThat, Option.bind_some, Async.entry, hInner, hReg]
    rw [Mirrored, hEntries]
    exact h.mirrors
  covered := by
    intro addr that hThat hHeld
    obtain ⟨-, hNone⟩ | ⟨this, that', hThis, hThat', hInner, hReg, hWithin⟩ :=
      withWaiters_cases hAll addr
    · cases hNone.symm.trans hThat
    · obtain rfl := Option.some.inj (hThat'.symm.trans hThat)
      rw [hReg]
      exact hWithin.trans (h.covered addr this hThis (hInner ▸ hHeld))
  idle := h.idle

/-- The step moves no registered value to another descriptor, and a first
registration finds its descriptor free. -/
def Keeps (w : World T τ κ) : Act T τ R → Prop
  | .poll addr _ interest f =>
    ∀ this, w.asyncs addr = some this → this.KeepsEntry w.reactor.list interest f
  | .close addr _ flush =>
    ∀ this, w.asyncs addr = some this → this.KeepsEntry w.reactor.list .write flush
  | .replace addr value =>
    ∀ this inner, w.asyncs addr = some this → this.inner = some inner →
      asRawFd value = asRawFd inner ∨ this.waiter.registerFor = 0#32
  | .swap addr addr' =>
    ∀ this that inner inner', w.asyncs addr = some this → w.asyncs addr' = some that →
      this.inner = some inner → that.inner = some inner' → asRawFd inner = asRawFd inner' ∨
        (this.waiter.registerFor = 0#32 ∧ that.waiter.registerFor = 0#32)
  | _ => True

theorem InStep.new {w : World T τ κ} (h : w.InStep) {addr : Addr} {this : Async T τ}
    {fcntl : Fcntl} {value : T} (hFree : w.asyncs addr = none)
    (hNew : Async.new fcntl value = .ret this) : (w.set addr this w.reactor).InStep := by
  have hFresh : this.waiter.registerFor = 0#32 ∧ this.waiter.waitingFor = 0#32 := by
    rw [Async.new_eq_ret hNew]
    exact ⟨rfl, rfl⟩
  apply h.update
  · have hNone : w.entries addr = none := by simp [entries, hFree]
    rw [hNone, Option.bind_some, Async.entry_of_registerFor_eq_zero addr hFresh.1]
    exact .keep
  · exact h.idle
  · rintro _ ⟨⟩ -
    rw [hFresh.1, hFresh.2]
    exact within_refl _

theorem InStep.drop {w : World T τ κ} (h : w.InStep) {addr : Addr} {this : Async T τ}
    (hThis : w.asyncs addr = some this) :
    ∃ r, this.drop w.reactor = (.ret (), r) ∧
      InStep { asyncs := Function.update w.asyncs addr none, reactor := r } := by
  obtain ⟨this', r, hRun, -, hGone, hChange, hDispatching⟩ :=
    Async.deregister_rewrites (h.mirrors.listed hThis) h.idle
  refine ⟨r, by simp only [Async.drop, hRun], h.update ?_ (hDispatching.trans h.idle) nofun⟩
  rw [entries_of_asyncs hThis, Option.bind_none, ← hGone]
  exact hChange

theorem InStep.swap {w : World T τ κ} (h : w.InStep) {addr addr' : Addr} {this that : Async T τ}
    {value value' : T} (hAddr : addr ≠ addr') (hThis : w.asyncs addr = some this)
    (hThat : w.asyncs addr' = some that) (hInner : this.inner = some value)
    (hInner' : that.inner = some value')
    (hKeeps : asRawFd value = asRawFd value' ∨
      (this.waiter.registerFor = 0#32 ∧ that.waiter.registerFor = 0#32)) :
    ((w.set addr { this with inner := some value' } w.reactor).set addr'
      { that with inner := some value } w.reactor).InStep := by
  have hFirst : (w.set addr { this with inner := some value' } w.reactor).InStep := by
    apply h.set hThis
    · exact .of_entry_eq _ (Async.entry_replace hInner addr (hKeeps.imp Eq.symm And.left))
    · exact fun _ => h.covered addr this hThis (by simp [hInner])
  apply hFirst.set
  · simpa [World.set, Ne.symm hAddr] using hThat
  · exact .of_entry_eq _ (Async.entry_replace hInner' addr' (hKeeps.imp_right And.right))
  · exact fun _ => h.covered addr' that hThat (by simp [hInner'])

/-- Every step that keeps registered descriptors in place keeps the list in
step, and neither `expect()` on `epoll_ctl` fires in it. -/
theorem InStep.perform {w w' : World T τ κ} {act : Act T τ R} {response : Response τ}
    (h : w.InStep) (hKeeps : w.Keeps act) (hPerform : w.perform act = some (response, w')) :
    w'.InStep ∧ Granted response := by
  cases act with
  | new addr fcntl value =>
    obtain ⟨hFree, ⟨p, hNew, rfl, rfl⟩ | ⟨this, hNew, rfl, rfl⟩⟩ := perform_new hPerform
    · refine ⟨h, ?_⟩
      rw [Async.new_eq_panic hNew]
      simp [Granted]
    · exact ⟨h.new hFree hNew, by simp [Granted]⟩
  | poll addr waker interest f =>
    obtain ⟨this, hThis, hRun⟩ := Option.bind_eq_some_iff.mp hPerform
    obtain ⟨outcome, this', r, hPoll, hGranted, hRewrites, hCovered⟩ :=
      Async.pollNonblocking_rewrites (h.mirrors.listed hThis) (h.covered addr this hThis) waker
        (hKeeps this hThis)
    rw [hPoll] at hRun
    cases hRun
    exact ⟨h.set hThis hRewrites hCovered, hGranted.quiet⟩
  | close addr waker flush =>
    obtain ⟨this, hThis, hRun⟩ := Option.bind_eq_some_iff.mp hPerform
    obtain ⟨outcome, mid, rMid, this', r, hClose, hGranted, hRewrites, hRewrites', hMid,
      hCovered⟩ := Async.pollClose_rewrites (h.mirrors.listed hThis) (h.covered addr this hThis)
        h.idle waker (hKeeps this hThis)
    rw [hClose] at hRun
    cases hRun
    have hHalf := h.set hThis hRewrites hMid
    have hWhole : ((w.set addr mid rMid).set addr this' r).InStep :=
      hHalf.set (by simp [World.set]) hRewrites' hCovered
    simp only [World.set, Function.update_idem] at hWhole
    exact ⟨hWhole, hGranted.quiet⟩
  | take addr =>
    obtain ⟨this, hThis, hRun⟩ := Option.bind_eq_some_iff.mp hPerform
    obtain ⟨outcome, this', r, hTake, hGranted, hInner, hRewrites⟩ :=
      Async.takeInner_rewrites (h.mirrors.listed hThis) h.idle
    rw [hTake] at hRun
    cases hRun
    exact ⟨h.set hThis hRewrites (by simp [Async.Covered, hInner]), hGranted.quiet⟩
  | drop addr =>
    obtain ⟨this, hThis, hRun⟩ := Option.bind_eq_some_iff.mp hPerform
    obtain ⟨r, hDrop, hNext⟩ := h.drop hThis
    rw [hDrop] at hRun
    cases hRun
    exact ⟨hNext, by simp [Granted, quiet]⟩
  | dispatch answer =>
    obtain ⟨woken, waiters', hAll, hRun⟩ := h.live.dispatch (R := R) h.idle answer
    cases hRun.symm.trans hPerform
    exact ⟨h.withWaiters hAll, by simp [Granted]⟩
  | replace addr value =>
    obtain ⟨this, hThis, ⟨-, rfl, rfl⟩ | ⟨inner, hInner, rfl, rfl⟩⟩ := perform_replace hPerform
    · exact ⟨h.set hThis (.refl addr this _) (h.covered addr this hThis), by simp [Granted]⟩
    · refine ⟨h.set hThis ?_ fun _ => h.covered addr this hThis (by simp [hInner]),
        by simp [Granted]⟩
      exact .of_entry_eq _ (Async.entry_replace hInner addr (hKeeps this inner hThis hInner))
  | swap addr addr' =>
    obtain ⟨this, that, hThis, hThat, hAddr, hSwap⟩ := perform_swap hPerform
    obtain ⟨rfl, rfl⟩ | ⟨value, value', hInner, hInner', rfl, rfl⟩ := hSwap
    · exact ⟨h, by simp [Granted]⟩
    · exact ⟨h.swap hAddr hThis hThat hInner hInner'
        (hKeeps this that value value' hThis hThat hInner hInner'), by simp [Granted]⟩

theorem InStep.step {w w' : World T τ κ} {act : Act T τ R} (h : w.InStep) (hKeeps : w.Keeps act)
    (hStep : w.step act = some w') : w'.InStep := by
  obtain ⟨⟨response, _⟩, hPerform, rfl⟩ := Option.map_eq_some_iff.mp hStep
  exact (h.perform hKeeps hPerform).1

end World

end Ground
