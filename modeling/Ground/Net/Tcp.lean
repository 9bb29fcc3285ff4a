import Ground.Net.Lifecycle
import Ground.Net.Trace

/-! # Connecting over TCP

A future that waits has called `connect` once, and reads `SO_ERROR` only when an
event has cleared `EPOLLOUT` in its waiter.
-/

namespace Ground.Net

open History Mask Transition

variable {τ κ : Type}

namespace Connect

variable [Epoll κ] {s t : Connect τ Bool κ} {addr : Addr}

structure Asking (socket : Nonblocking RawFd τ Bool) (trace : List Entry) : Prop where
  inner : socket.a.inner.isSome
  interest : socket.interest = .write
  calledConnect : socket.captured = true
  undecided : Undecided trace
  judged : Each Judged trace
  awaits : EPOLLOUT &&& socket.a.waiter.waitingFor ≠ 0#32 ∨ Writable trace

/-- `connect` was called at most once, and `SO_ERROR` read only when the socket
had become writable. -/
structure Orderly (trace : List Entry) : Prop where
  once : trace.countP Entry.isConnect ≤ 1
  judged : Each Judged trace

def Conducted (s : Connect τ Bool κ) : Prop :=
  match s.stage with
  | .unresumed => s.trace = []
  | .connecting socket => Asking socket s.trace
  | .finished outcome => Orderly s.trace ∧
      ∀ returned, outcome = .ret (.ok returned) → Succeeded s.trace
  | .dropped _ => Orderly s.trace

theorem pollSocket_first {socket : Nonblocking RawFd τ Bool} {fd : RawFd}
    (hInner : socket.a.inner = some fd) (hInterest : socket.interest = .write)
    (hCalled : socket.captured = false) (hTrace : s.trace = [])
    (hWaiting : socket.a.waiter.waitingFor = 0#32) (waker : Waker τ) (os : Os) :
    (s.pollSocket tcp addr waker os socket).Conducted := by
  have hAnswered : tcp.attempt os socket.captured = tcpAttempt os false := by rw [hCalled]; rfl
  have hOrderly : Orderly [(tcpAttempt os false).1] :=
    ⟨by simp [tcpAttempt, Entry.isConnect], each_snoc.mpr ⟨each_nil, trivial⟩⟩
  obtain ⟨hSkip, -⟩ | ⟨-, hBlocks, -, hTrace', hStage⟩ | ⟨-, -, hEnd⟩ :=
    pollSocket_cases hInner s tcp addr waker os
  · rw [hWaiting] at hSkip
    exact absurd BitVec.and_zero hSkip
  · rw [hAnswered] at hBlocks hTrace' hStage
    rw [hTrace, List.nil_append] at hTrace'
    obtain ⟨-, hStage⟩ | ⟨-, -, hStage⟩ := hStage
    · simp only [Conducted, hStage, hTrace']
      exact ⟨hOrderly, by rintro returned ⟨⟩⟩
    · simp only [Conducted, hStage, hTrace']
      refine ⟨rfl, hInterest, rfl, ?_, hOrderly.judged, ?_⟩
      · refine ⟨os.connect, [], rfl, by simp, ?_⟩
        simpa using (tcpAttempt_first_blocks_iff os).mp hBlocks
      · exact .inl (socket.awaits_blockedWaiter hInterest waker)
  · rw [hAnswered, hTrace, List.nil_append] at hEnd
    rw [hEnd]
    simp only [Conducted]
    refine ⟨hOrderly, fun returned hReturned => .inl ?_⟩
    rw [(tcpAttempt_first_ok_iff os).mp (conclude_eq_ok hReturned)]

theorem Asking.pollSocket {socket : Nonblocking RawFd τ Bool} (h : Asking socket s.trace)
    (waker : Waker τ) (os : Os) : (s.pollSocket tcp addr waker os socket).Conducted := by
  have hAnswered : tcp.attempt os socket.captured = tcpAttempt os true := by
    rw [h.calledConnect]
    rfl
  obtain ⟨fd, hInner⟩ := Option.isSome_iff_exists.mp h.inner
  have hJudged : socket.interest.asEvents &&& socket.a.waiter.waitingFor = 0#32 →
      Each Judged (s.trace ++ [(tcpAttempt os true).1]) := by
    intro hTry
    rw [h.interest] at hTry
    exact each_snoc.mpr ⟨h.judged, h.awaits.resolve_left (not_not.mpr hTry)⟩
  have hOnce : (s.trace ++ [(tcpAttempt os true).1]).countP Entry.isConnect ≤ 1 := by
    rw [List.countP_append, h.undecided.count]
    simp [tcpAttempt, Entry.isConnect]
  obtain ⟨-, hSkipped⟩ | ⟨hTry, hBlocks, -, hTrace, hStage⟩ | ⟨hTry, -, hEnd⟩ :=
    pollSocket_cases hInner s tcp addr waker os
  · rw [hSkipped]
    exact h
  · rw [hAnswered] at hBlocks hTrace hStage
    obtain ⟨-, hStage⟩ | ⟨-, -, hStage⟩ := hStage
    · simp only [Conducted, hStage, hTrace]
      exact ⟨⟨hOnce, hJudged hTry⟩, by rintro returned ⟨⟩⟩
    · simp only [Conducted, hStage, hTrace]
      refine ⟨rfl, h.interest, rfl, ?_, hJudged hTry, ?_⟩
      · exact h.undecided.snoc rfl ((tcpAttempt_again_blocks_iff os).mp hBlocks)
      · exact .inl (socket.awaits_blockedWaiter h.interest waker)
  · rw [hAnswered] at hEnd
    rw [hEnd]
    simp only [Conducted]
    refine ⟨⟨hOnce, hJudged hTry⟩, fun returned hReturned => .inr ⟨s.trace, h.undecided, ?_⟩⟩
    rw [(tcpAttempt_again_ok_iff os).mp (conclude_eq_ok hReturned)]

omit [Epoll κ] in
theorem Asking.deliver {socket : Nonblocking RawFd τ Bool} (h : Asking socket s.trace)
    (hStage : s.stage = .connecting socket) (addr : Addr) (events : Events) :
    (s.deliver addr events).Conducted := by
  simp only [Connect.deliver, hStage, Conducted]
  refine ⟨h.inner, h.interest, h.calledConnect, h.undecided.snoc rfl trivial,
    each_snoc.mpr ⟨h.judged, trivial⟩, ?_⟩
  obtain hAwaits | hWritable := h.awaits
  · by_cases hOut : events &&& EPOLLOUT = 0#32
    · left
      obtain ⟨b, hb, hWaits⟩ := meet_ne_zero_iff.mp hAwaits
      have hKept : ¬ Has events b := fun hEvent => meet_eq_zero_iff.mp hOut b hEvent hb
      exact meet_ne_zero_iff.mpr ⟨b, hb, has_and_not.mpr ⟨hWaits, hKept⟩⟩
    · exact .inr (h.undecided.writable hOut)
  · exact .inr (hWritable.snoc _)

theorem Asking.orderly {socket : Nonblocking RawFd τ Bool} {trace : List Entry}
    (h : Asking socket trace) : Orderly trace :=
  ⟨h.undecided.count.le, h.judged⟩

theorem Conducted.poll (h : s.Conducted) (addr : Addr) (waker : Waker τ) (os : Os) :
    (s.poll tcp addr waker os).Conducted := by
  unfold Connect.poll
  cases hStage : s.stage with
  | unresumed =>
    simp only [Conducted, hStage] at h
    have hNone : Orderly s.trace := by
      rw [h]
      exact ⟨by simp, each_nil⟩
    simp only
    split
    · exact ⟨hNone, by rintro returned ⟨⟩⟩
    · rename_i fd hSocket
      split
      · exact ⟨hNone, by rintro returned ⟨⟩⟩
      · rename_i a hNew
        have hFresh := Async.new_eq_ret hNew
        apply pollSocket_first
        · exact congrArg Async.inner hFresh
        · rfl
        · rfl
        · exact h
        · exact congrArg (fun a : Async RawFd τ => a.waiter.waitingFor) hFresh
  | connecting socket =>
    simp only [Conducted, hStage] at h
    exact h.pollSocket waker os
  | finished outcome => exact h
  | dropped outcome => exact h

theorem Conducted.step (h : s.Conducted) {act : Act τ κ} (hStep : s.step tcp addr act = some t) :
    t.Conducted := by
  unfold Connect.step at hStep
  split at hStep
  · cases hStep
  · cases act with
    | poll waker os =>
      cases hStep
      exact h.poll addr waker os
    | event events =>
      cases hStep
      cases hStage : s.stage with
      | connecting socket =>
        simp only [Conducted, hStage] at h
        exact h.deliver hStage addr events
      | _ => simpa only [Connect.deliver, hStage] using h
    | elsewhere effect =>
      cases hStep
      exact h
    | drop =>
      cases hStep
      unfold Connect.drop
      cases hStage : s.stage with
      | unresumed =>
        simp only [Conducted, hStage] at h ⊢
        rw [h]
        exact ⟨by simp, each_nil⟩
      | connecting socket =>
        simp only [Conducted, hStage] at h
        exact h.orderly
      | finished outcome =>
        simp only [Conducted, hStage] at h
        exact h.1
      | dropped outcome =>
        simp only [Conducted, hStage] at h
        exact h

omit [Epoll κ] in
theorem conducted_start (r : Reactor κ) : (start r : Connect τ Bool κ).Conducted := rfl

theorem Conducted.run (h : s.Conducted) {acts : List (Act τ κ)}
    (hRun : Transition.run (Connect.step tcp addr) s acts = some t) : t.Conducted :=
  invariant_of_run (I := Conducted) (fun _ _ _ h hStep => h.step hStep) h hRun

omit [Epoll κ] in
theorem Conducted.orderly (h : s.Conducted) : Orderly s.trace := by
  unfold Conducted at h
  split at h
  · rw [h]
    exact ⟨by simp, each_nil⟩
  · exact h.orderly
  · exact h.1
  · exact h

/-- A future that has returned `Ok` made its connection exactly when neither
`connect` nor `SO_ERROR` answered `EAGAIN`. -/
theorem made_iff_neverAgain {r : Reactor κ} {acts : List (Act τ κ)} {returned : Async RawFd τ}
    (hRun : run (step tcp addr) (start r) acts = some t)
    (hOk : t.stage = .finished (.ret (.ok returned))) : Made t.trace ↔ NeverAgain t.trace := by
  have hConducted := (conducted_start r).run hRun
  simp only [Conducted, hOk] at hConducted
  exact (hConducted.2 returned rfl).made_iff hConducted.1.judged

theorem made_in_progress :
    let acts : List (Act Nat InterestList) :=
      [.poll (.task 1) (.answering (.error EINPROGRESS)), .event EPOLLOUT,
        .poll (.task 1) (.answering (.error EINPROGRESS))]
    ∃ t : Connect Nat Bool InterestList, run (step tcp 0) (start (.new .empty)) acts = some t ∧
      Made t.trace := by
  intro acts
  have hMade := (made_iff_neverAgain (rfl : run (step tcp 0)
    (start (.new .empty) : Connect Nat Bool InterestList) acts = some _) rfl).mpr
  refine ⟨_, rfl, hMade ⟨?_, ?_⟩⟩
  · decide
  · decide

/-- There is nothing to connect with, which an unconnected socket does not hold as
an error: it hangs up, and reads as connected. -/
theorem unmade_resources :
    let acts : List (Act Nat InterestList) :=
      [.poll (.task 1) (.answering (.error EAGAIN)), .event (EPOLLOUT ||| EPOLLHUP),
        .poll (.task 1) (.answering (.error EAGAIN))]
    ∃ (t : Connect Nat Bool InterestList) (returned : Async RawFd Nat),
      run (step tcp 0) (start (.new .empty)) acts = some t ∧
        t.stage = .finished (.ret (.ok returned)) ∧ ¬ Made t.trace := by
  intro acts
  refine ⟨_, _, rfl, rfl, ?_⟩
  rintro (hOnce | ⟨hProgress, -⟩)
  · revert hOnce
    decide
  · revert hProgress
    decide

end Connect

namespace Connect

variable [InterestKernel κ] {t : Connect τ Bool κ} {addr : Addr}

/-- `connect` is called at most once, `SO_ERROR` is read when the socket has become
writable since, and the future leaves no entry of its socket behind. -/
theorem connects_once {epfd : κ} {acts : List (Act τ κ)}
    (hPrivate : Meets (step tcp addr) Private (start (.new epfd)) acts)
    (hRun : run (step tcp addr) (start (.new epfd)) acts = some t) :
    t.trace.countP Entry.isConnect ≤ 1 ∧
      (∀ before answer after, t.trace = before ++ .takeError answer :: after → Writable before) ∧
      (t.ended = true → ∀ fd, t.socket = some fd → t.reactor.list fd = none) ∧
      ∀ returned, t.stage = .finished (.ret (.ok returned)) → Movable returned := by
  have hOrderly := ((conducted_start (Reactor.new epfd)).run hRun).orderly
  have hStart : (start (.new epfd) : Connect τ Bool κ).Tidy addr := ⟨rfl, rfl⟩
  have hTidy : t.Tidy addr :=
    invariant_of_meets (I := Tidy addr) (fun _ _ _ h hPrivate hStep => h.step hPrivate hStep)
      hStart hPrivate hRun
  refine ⟨hOrderly.once, fun before answer after h => hOrderly.judged _ _ _ h, ?_, ?_⟩
  · intro hEnded
    unfold Tidy at hTidy
    unfold ended at hEnded
    split at hTidy
    · simp_all
    · simp_all
    · exact hTidy.1
    · exact hTidy
  · intro returned hOk
    simp only [Tidy, hOk] at hTidy
    exact hTidy.2 returned rfl

/-- The first event carries no `EPOLLOUT`, and the poll after it asks nothing. -/
theorem connects_once_in_progress :
    let acts : List (Act Nat InterestList) :=
      [.poll (.task 1) (.answering (.error EINPROGRESS)), .event EPOLLIN,
        .poll (.task 2) (.answering (.error EINPROGRESS)), .event EPOLLOUT,
        .poll (.task 2) (.answering (.error EINPROGRESS))]
    ∃ t : Connect Nat Bool InterestList, run (step tcp 0) (start (.new .empty)) acts = some t ∧
      t.ended = true ∧ t.trace.countP Entry.isConnect ≤ 1 ∧ t.reactor.list 3 = none := by
  intro acts
  have hPrivate : Meets (step tcp 0) Private
      (start (.new .empty) : Connect Nat Bool InterestList) acts := by
    refine .cons ?_ rfl (.cons trivial rfl (.cons ?_ rfl ?_))
    · rintro fd - ⟨⟩
      rfl
    · rintro fd ⟨⟩
    · refine .cons trivial rfl (.cons ?_ rfl trivial)
      rintro fd ⟨⟩
  obtain ⟨hOnce, -, hGone, -⟩ := connects_once hPrivate rfl
  exact ⟨_, rfl, by decide, hOnce, hGone (by decide) 3 (by decide)⟩

end Connect

end Ground.Net
