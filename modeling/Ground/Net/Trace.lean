import Ground.Foundation.History
import Ground.Net.Connect

/-! # What the trace of a TCP connection shows

The first poll calls `connect`, later polls read `SO_ERROR`. Nothing asked is
answered for good until the last entry, and success is told by that entry.
-/

namespace Ground.Net

open History Mask

variable {τ κ : Type}

def Entry.isConnect : Entry → Bool
  | .connect _ => true
  | .takeError _ | .delivered _ => false

/-- An event carrying `EPOLLOUT` was delivered since `connect` was called. -/
def Writable (trace : List Entry) : Prop :=
  ∃ earlier answer between events, trace = earlier ++ .connect answer :: between ∧
    .delivered events ∈ between ∧ events &&& EPOLLOUT ≠ 0#32

/-- `SO_ERROR` is read after the socket has become writable. -/
def Judged (before : List Entry) : Entry → Prop
  | .takeError _ => Writable before
  | .connect _ | .delivered _ => True

theorem Writable.snoc {trace : List Entry} (h : Writable trace) (entry : Entry) :
    Writable (trace ++ [entry]) := by
  obtain ⟨earlier, answer, between, events, rfl, hMem, hOut⟩ := h
  exact ⟨earlier, answer, between ++ [entry], events, by simp, by simp [hMem], hOut⟩

def Entry.Blocks : Entry → Prop
  | .connect answer => answer = .error EINPROGRESS ∨ answer = .error EAGAIN
  | .takeError answer => answer = .error EAGAIN ∨ answer = .ok EAGAIN
  | .delivered _ => True

def Undecided (trace : List Entry) : Prop :=
  ∃ answer rest, trace = .connect answer :: rest ∧ (∀ entry ∈ rest, entry.isConnect = false) ∧
    ∀ entry ∈ trace, entry.Blocks

theorem Undecided.snoc {trace : List Entry} (h : Undecided trace) {entry : Entry}
    (hOther : entry.isConnect = false) (hBlocks : entry.Blocks) :
    Undecided (trace ++ [entry]) := by
  obtain ⟨answer, rest, rfl, hRest, hAll⟩ := h
  refine ⟨answer, rest ++ [entry], rfl, ?_, ?_⟩
  · simpa [or_imp, forall_and] using ⟨hRest, hOther⟩
  · simp only [List.mem_append, List.mem_singleton]
    rintro entry' (hMem | rfl)
    · exact hAll entry' hMem
    · exact hBlocks

theorem Undecided.count {trace : List Entry} (h : Undecided trace) :
    trace.countP Entry.isConnect = 1 := by
  obtain ⟨answer, rest, rfl, hRest, -⟩ := h
  have hNone : rest.countP Entry.isConnect = 0 := by
    rw [List.countP_eq_zero]
    intro entry hMem
    simp [hRest entry hMem]
  rw [List.countP_cons_of_pos rfl, hNone]

theorem Undecided.writable {trace : List Entry} (h : Undecided trace) {events : Events}
    (hOut : events &&& EPOLLOUT ≠ 0#32) : Writable (trace ++ [.delivered events]) := by
  obtain ⟨answer, rest, rfl, -, -⟩ := h
  exact ⟨[], answer, rest ++ [.delivered events], events, rfl, by simp, hOut⟩

theorem tcpAttempt_first_blocks_iff (os : Os) :
    (∃ e, (tcpAttempt os false).2.1 = .error e ∧ e.kind = .wouldBlock) ↔
      (tcpAttempt os false).1.Blocks := by
  rcases hAnswer : os.connect with errno | _
  · obtain rfl | hErrno := eq_or_ne errno EINPROGRESS
    · simp [tcpAttempt, Os.connectSocket, hAnswer, Except.mapError, Entry.Blocks,
        Error.fromRawOsError, decodeErrorKind_eq_wouldBlock_iff]
    · simp [tcpAttempt, Os.connectSocket, hAnswer, Except.mapError, Entry.Blocks,
        Error.fromRawOsError, hErrno, decodeErrorKind_eq_wouldBlock_iff]
  · simp [tcpAttempt, Os.connectSocket, hAnswer, Except.mapError, Entry.Blocks]

theorem tcpAttempt_again_blocks_iff (os : Os) :
    (∃ e, (tcpAttempt os true).2.1 = .error e ∧ e.kind = .wouldBlock) ↔
      (tcpAttempt os true).1.Blocks := by
  rcases hAnswer : os.soError with errno | errno
  · simp [tcpAttempt, Os.takeError, hAnswer, Entry.Blocks, Error.fromRawOsError,
      decodeErrorKind_eq_wouldBlock_iff]
  · obtain rfl | hErrno := eq_or_ne errno 0
    · simp [tcpAttempt, Os.takeError, hAnswer, Entry.Blocks, EAGAIN]
    · simp [tcpAttempt, Os.takeError, hAnswer, Entry.Blocks, Error.fromRawOsError, hErrno,
        decodeErrorKind_eq_wouldBlock_iff]

/-- A read of `SO_ERROR` after the socket became writable found no error. -/
def Cleared (trace : List Entry) : Prop :=
  ∃ before after, trace = before ++ .takeError (.ok 0) :: after ∧ Writable before

/-- The connection that the trace shows was made: at once, or in progress until
the socket was writable, with no error in any read of `SO_ERROR`. -/
def Made (trace : List Entry) : Prop :=
  .connect (.ok ()) ∈ trace ∨ (.connect (.error EINPROGRESS) ∈ trace ∧
    Cleared trace ∧ ∀ errno, .takeError (.ok errno) ∈ trace → errno = 0)

/-- `EAGAIN` was never the answer to `connect` nor the value of `SO_ERROR`. -/
def NeverAgain (trace : List Entry) : Prop :=
  .connect (.error EAGAIN) ∉ trace ∧ .takeError (.ok EAGAIN) ∉ trace

def Succeeded (trace : List Entry) : Prop :=
  trace = [.connect (.ok ())] ∨
    ∃ before, Undecided before ∧ trace = before ++ [.takeError (.ok 0)]

theorem Succeeded.made_iff {trace : List Entry} (h : Succeeded trace)
    (hJudged : Each Judged trace) : Made trace ↔ NeverAgain trace := by
  obtain rfl | ⟨before, ⟨answer, rest, rfl, hRest, hBlocks⟩, rfl⟩ := h
  · simp [Made, NeverAgain]
  · have hFirst : answer = .error EINPROGRESS ∨ answer = .error EAGAIN :=
      hBlocks (.connect answer) (by simp)
    have hOnly : ∀ answer', .connect answer' ∉ rest := by
      intro answer' hMem
      exact absurd (hRest _ hMem) (by simp [Entry.isConnect])
    have hReads : ∀ errno, .takeError (.ok errno) ∈ rest → errno = EAGAIN := by
      intro errno hMem
      have hAgain : (.ok errno : Except Errno Errno) = .error EAGAIN ∨
          (.ok errno : Except Errno Errno) = .ok EAGAIN :=
        hBlocks (.takeError (.ok errno)) (by simp [hMem])
      simpa using hAgain
    have hAgain : (∀ errno, .takeError (.ok errno) ∈ rest → errno = 0) ↔
        .takeError (.ok EAGAIN) ∉ rest := by
      constructor
      · intro hAll hMem
        exact absurd (hAll EAGAIN hMem) (by decide)
      · intro hNone errno hMem
        exact absurd (hReads errno hMem ▸ hMem) hNone
    have hCleared : Cleared (.connect answer :: rest ++ [.takeError (.ok 0)]) :=
      ⟨_, [], rfl, hJudged _ _ [] rfl⟩
    rw [Made, and_iff_right hCleared]
    obtain rfl | rfl := hFirst
    · simpa [NeverAgain, hOnly, EINPROGRESS, EAGAIN, or_imp] using hAgain
    · simp [NeverAgain, hOnly, EINPROGRESS, EAGAIN]

theorem tcpAttempt_first_ok_iff (os : Os) :
    (tcpAttempt os false).2.1 = .ok () ↔ (tcpAttempt os false).1 = .connect (.ok ()) := by
  rcases hAnswer : os.connect with errno | _
  · simp only [tcpAttempt, Os.connectSocket, hAnswer, Except.mapError, Bool.not_false, if_true]
    split <;> simp
  · simp [tcpAttempt, Os.connectSocket, hAnswer, Except.mapError]

theorem tcpAttempt_again_ok_iff (os : Os) :
    (tcpAttempt os true).2.1 = .ok () ↔ (tcpAttempt os true).1 = .takeError (.ok 0) := by
  rcases hAnswer : os.soError with errno | errno
  · simp [tcpAttempt, Os.takeError, hAnswer]
  · obtain rfl | hErrno := eq_or_ne errno 0
    · simp [tcpAttempt, Os.takeError, hAnswer]
    · simp [tcpAttempt, Os.takeError, hAnswer, hErrno]

theorem conclude_eq_ok [Epoll κ] {os : Os} {a returned : Async RawFd τ} {r : Reactor κ}
    {result : Except Error Unit} (h : (conclude os a r result).1 = .ret (.ok returned)) :
    result = .ok () := by
  obtain e | ⟨⟩ := result
  · rcases hDrop : a.drop r with ⟨_ | p, r'⟩
    · simp [conclude, hDrop] at h
    · simp [conclude, hDrop] at h
  · rfl

end Ground.Net
