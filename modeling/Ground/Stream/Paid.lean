import Ground.Edge.Paid
import Ground.Stream.Frame

/-! # Deliveries are paid by the peer

The system calls turn nothing ready, so that what is delivered to an `Async` is paid by
its requests and by what the peer of its descriptor does.
-/

namespace Ground

open Mask Transition

variable {T τ φ α R : Type} [AsRawFd T]

namespace Edge

variable {s s' : Edge T τ} {addr : Addr} {fd : RawFd} {this : Async T τ}

/-- The deliveries still to come if nothing turns ready any more. -/
def reserve (addr : Addr) (fd : RawFd) (s : Edge T τ) : Nat := onTheWay addr fd s + unasked addr s

theorem Holds.pays (h : Holds addr fd s this) {act : Act T τ R} (hAssumed : s.Assumed act)
    (hKeeps : act.Keeps addr) (hStep : s.step act = some s') :
    ∃ this', Holds addr fd s' this' ∧
      deliveries addr s act + reserve addr fd s' ≤ reserve addr fd s + rises fd s act := by
  obtain ⟨this', h', hSettles⟩ := h.step hAssumed hKeeps hStep
  have hDelivered := hSettles.delivered
  have hAsked := hSettles.asked h.flagged
  refine ⟨this', h', ?_⟩
  rw [reserve, reserve, h.unasked_eq, h'.unasked_eq]
  omega

omit [AsRawFd T] in
theorem reserve_withKernel (addr : Addr) (fd : RawFd) (s : Edge T τ) (kernel : EdgeKernel) :
    reserve addr fd (s.withKernel kernel) + (s.kernel.queued fd).toNat =
      reserve addr fd s + (kernel.queued fd).toNat := by
  have hFlight : (s.withKernel kernel).inFlight addr = s.inFlight addr := rfl
  have hAsked : unasked addr (s.withKernel kernel) = unasked addr s := rfl
  have hQueued : (s.withKernel kernel).kernel.queued fd = kernel.queued fd := rfl
  rw [reserve, reserve, onTheWay, onTheWay, hFlight, hAsked, hQueued]
  omega

theorem Holds.notify (h : Holds addr fd s this) (fd' : RawFd) :
    Holds addr fd (s.notify fd') this :=
  ⟨h.safe.notify fd', h.pinned, h.held, h.flagged⟩

end Edge

def Call.Calm [File φ α] (call : Call φ α R) : Prop :=
  ∀ file, Within (File.readiness (call.run file).2) (File.readiness file)

/-- What the kernel turns ready it does by itself, and not within a call. -/
class CalmFile (φ : Type) (α : outParam Type) [File φ α] : Prop where
  read (length : Nat) : (File.read length : Call φ α (List α)).Calm
  next : (File.next : Call φ α α).Calm
  write (buf : List α) : (File.write buf : Call φ α Nat).Calm

namespace File

variable [File φ α]

theorem readiness_within {file file' : φ} (hRead : readable file' = true → readable file = true)
    (hWrite : writable file' = true → writable file = true) :
    Within (readiness file') (readiness file) := by
  refine within_iff.mpr fun b hBit => ?_
  have hBits : b = 0 ∨ b = 2 := by
    obtain hIn | hOut := has_or.mp hBit
    · split at hIn
      · exact .inl (has_read_iff.mp hIn)
      · exact absurd hIn not_has_zero
    · split at hOut
      · exact .inr (has_write_iff.mp hOut)
      · exact absurd hOut not_has_zero
  obtain rfl | rfl := hBits
  · exact has_directions_read.mpr (hRead (has_directions_read.mp hBit))
  · exact has_directions_write.mpr (hWrite (has_directions_write.mp hBit))

theorem length_unread_le {call : Call φ α R} (hObeys : call.Obeys) (file : φ) :
    (unread (call.run file).2).length ≤ (unread file).length := by
  cases hCall : (call.run file).1 with
  | ok result =>
    have hMoved := congrArg List.length (hObeys.ok file result hCall).1
    rw [List.length_append] at hMoved
    omega
  | error errno => rw [(hObeys.error file errno hCall).1]

end File

namespace Buffered

theorem recv_calm (length : Nat) :
    (File.read length : Call (Buffered α) α (List α)).Calm := by
  intro file
  simp only [File.read, File.recv]
  obtain ⟨-, hRecv⟩ | ⟨-, hRecv⟩ | ⟨⟨-, hUnread⟩, hRecv⟩ := recv_cases length file
  · rw [hRecv]
    exact within_refl _
  · rw [hRecv]
    exact within_refl _
  · rw [hRecv]
    refine File.readiness_within (fun _ => ?_) id
    have hSome : File.unread file ≠ [] := hUnread
    exact LawfulFile.readable_of_unread hSome

theorem next_calm : (File.next : Call (Buffered α) α α).Calm := by
  intro file
  simp only [File.next, File.accept]
  cases hUnread : file.unread with
  | nil =>
    simp only [accept, hUnread]
    exact within_refl _
  | cons connection unread =>
    simp only [accept, hUnread]
    refine File.readiness_within (fun _ => ?_) id
    have hSome : File.unread file ≠ [] := by simp [File.unread, hUnread]
    exact LawfulFile.readable_of_unread hSome

theorem write_calm (buf : List α) : (File.write buf : Call (Buffered α) α Nat).Calm := by
  intro file
  simp only [File.write, File.send]
  obtain ⟨-, hSend⟩ | ⟨-, hSend⟩ | ⟨count, -, -, -, hSend⟩ := send_cases buf file
  · rw [hSend]
    exact within_refl _
  · rw [hSend]
    exact within_refl _
  · rw [hSend]
    refine File.readiness_within id fun hWritable => ?_
    simp only [File.writable, List.length_append, decide_eq_true_eq] at hWritable ⊢
    omega

instance : CalmFile (Buffered α) α where
  read := recv_calm
  next := next_calm
  write := write_calm

end Buffered

namespace Traffic

variable [File φ α] {s s' : Traffic T τ φ α} {addr : Addr} {fd : RawFd} {this : Async T τ}

/-- Counts the deliveries to this address. -/
def deliveries (addr : Addr) (s : Traffic T τ φ α) : Act T τ φ α → Nat
  | .deliver => Edge.deliveries addr s.edge (.deliver : Edge.Act T τ Unit)
  | _ => 0

def Act.changes (fd : RawFd) : Act T τ φ α → Nat
  | .change fd' _ _ _ _ => if fd' = fd then 1 else 0
  | _ => 0

def Act.arrivals (fd : RawFd) : Act T τ φ α → Nat
  | .change fd' _ arrived _ _ => if fd' = fd then arrived.length else 0
  | _ => 0

theorem setFile_holds (hHolds : Edge.Holds addr fd s.edge this) (fd' : RawFd) (file : φ) :
    ∃ this', Edge.Holds addr fd (s.setFile fd' file).edge this' := by
  let act : Edge.Act T τ Unit := .become fd' (File.readable file) (File.writable file)
  have hStep : s.edge.step act = some (s.setFile fd' file).edge := by
    simp only [act, Edge.step]
    rfl
  have hAssumed : s.edge.Assumed act := trivial
  obtain ⟨this', hHolds', -⟩ := hHolds.pays hAssumed trivial hStep
  exact ⟨this', hHolds'⟩

omit [AsRawFd T] in
theorem setFile_calm (h : ∀ fd, s.edge.kernel.ready fd = File.readiness (s.files fd))
    {fd' : RawFd} {file : φ}
    (hWithin : Within (File.readiness file) (File.readiness (s.files fd'))) :
    Edge.reserve addr fd (s.setFile fd' file).edge = Edge.reserve addr fd s.edge := by
  have hPaid := Edge.reserve_withKernel addr fd s.edge
    (s.edge.kernel.become fd' (File.readiness file))
  have hQueued : (s.edge.kernel.become fd' (File.readiness file)).queued fd =
      s.edge.kernel.queued fd := by
    obtain rfl | hFd := eq_or_ne fd fd'
    · rw [← h] at hWithin
      have hFalls : s.edge.kernel.rises fd (File.readiness file) = false := by
        unfold EdgeKernel.rises
        split
        · rfl
        · simp [show File.readiness file &&& ~~~s.edge.kernel.ready fd = 0#32 from hWithin]
      rw [EdgeKernel.become_queued, hFalls, Bool.or_false]
    · exact Function.update_of_ne hFd ..
  rw [hQueued] at hPaid
  exact Nat.add_right_cancel hPaid

theorem poll_pays (h : s.Accurate) (hHolds : Edge.Holds addr fd s.edge this) {addr' : Addr}
    {waker : Waker τ} {call : Call φ α R} (hObeys : call.Obeys) (hCalm : call.Calm)
    {reported : Option (RawFd × Except Errno R)}
    (hPoll : s.poll addr' waker call = some (reported, s')) :
    (∃ this', Edge.Holds addr fd s'.edge this') ∧
      Edge.reserve addr fd s'.edge ≤ Edge.reserve addr fd s.edge ∧
      (File.unread (s'.files fd)).length ≤ (File.unread (s.files fd)).length := by
  obtain ⟨that, that', edge, -, hStep, -, hCases⟩ := poll_cases hPoll
  have hAssumed := h.assumed_poll hObeys addr' waker
  obtain ⟨this', hHolds', hPaid⟩ := hHolds.pays hAssumed trivial hStep
  have hEdge := h.edge hStep hAssumed (Edge.step_ready hStep (by simp))
  have hReserve : Edge.reserve addr fd edge ≤ Edge.reserve addr fd s.edge := by
    have hNone :
        Edge.rises fd s.edge (.poll addr' waker call.interest (syscall s.files call)) = 0 := rfl
    omega
  obtain ⟨-, -, rfl, -⟩ | ⟨inner, -, rfl, -⟩ := hCases
  · exact ⟨⟨this', hHolds'⟩, hReserve, Nat.le_refl _⟩
  · refine ⟨setFile_holds hHolds' (asRawFd inner) _, ?_, ?_⟩
    · rw [setFile_calm hEdge.ready (hCalm (s.files (asRawFd inner)))]
      exact hReserve
    · obtain rfl | hFd := eq_or_ne fd (asRawFd inner)
      · simpa [setFile] using File.length_unread_le hObeys (s.files (asRawFd inner))
      · simp [setFile, hFd]

theorem below_pays (hHolds : Edge.Holds addr fd s.edge this) {act : Edge.Act T τ Unit}
    (hBelow : s.below act = some s') (hAssumed : s.edge.Assumed act) (hKeeps : act.Keeps addr)
    (hThread : Edge.rises fd s.edge act = 0) :
    (∃ this', Edge.Holds addr fd s'.edge this') ∧
      Edge.deliveries addr s.edge act + Edge.reserve addr fd s'.edge ≤
        Edge.reserve addr fd s.edge ∧
      (File.unread (s'.files fd)).length ≤ (File.unread (s.files fd)).length := by
  obtain ⟨edge, hStep, rfl⟩ := Option.map_eq_some_iff.mp hBelow
  obtain ⟨this', hHolds', hPaid⟩ := hHolds.pays hAssumed hKeeps hStep
  rw [hThread] at hPaid
  exact ⟨⟨this', hHolds'⟩, hPaid, Nat.le_refl _⟩

/-- A change of the file, which may queue its descriptor, once. -/
theorem change_pays (hHolds : Edge.Holds addr fd s.edge this) (fd' : RawFd) (file : φ)
    (again : Bool) :
    (∃ this', Edge.Holds addr fd ((s.setFile fd' file).notify fd' again).edge this') ∧
      Edge.reserve addr fd ((s.setFile fd' file).notify fd' again).edge ≤
        Edge.reserve addr fd s.edge + if fd' = fd then 1 else 0 := by
  obtain ⟨this', hHolds'⟩ := setFile_holds hHolds fd' file
  constructor
  · cases again with
    | false => exact ⟨this', hHolds'⟩
    | true => exact ⟨this', hHolds'.notify fd'⟩
  · obtain ⟨kernel, hKernel, hOther⟩ : ∃ kernel,
        ((s.setFile fd' file).notify fd' again).edge = s.edge.withKernel kernel ∧
          (fd' ≠ fd → kernel.queued fd = s.edge.kernel.queued fd) := by
      cases again with
      | false => exact ⟨_, rfl, fun hFd => Function.update_of_ne hFd.symm ..⟩
      | true =>
        refine ⟨_, rfl, fun hFd => ?_⟩
        exact (Function.update_of_ne hFd.symm ..).trans (Function.update_of_ne hFd.symm ..)
    have hPaid := Edge.reserve_withKernel addr fd s.edge kernel
    rw [hKernel]
    by_cases hFd : fd' = fd
    · have hOnce : (kernel.queued fd).toNat ≤ 1 := Bool.toNat_le _
      rw [if_pos hFd]
      omega
    · rw [hOther hFd] at hPaid
      rw [if_neg hFd]
      omega

theorem orderly_poll (h : s.edge.kernel.Orderly) {waker : Waker τ} {call : Call φ α R}
    {reported : Option (RawFd × Except Errno R)}
    (hPoll : s.poll addr waker call = some (reported, s')) : s'.edge.kernel.Orderly := by
  obtain ⟨this, this', edge, -, hStep, -, hCases⟩ := poll_cases hPoll
  have hEdge : edge.kernel.Orderly := Edge.orderly_step h hStep
  obtain ⟨-, -, rfl, -⟩ | ⟨inner, -, rfl, -⟩ := hCases
  · exact hEdge
  · exact hEdge.become (asRawFd inner) _

theorem orderly_step (h : s.edge.kernel.Orderly) {act : Act T τ φ α}
    (hStep : s.step act = some s') : s'.edge.kernel.Orderly := by
  have hPolled : ∀ {R : Type} {addr : Addr} {waker : Waker τ} {call : Call φ α R},
      s.polled addr waker call = some s' → s'.edge.kernel.Orderly := by
    intro R addr waker call hPolled
    obtain ⟨⟨reported, s''⟩, hHalf, rfl⟩ := Option.map_eq_some_iff.mp hPolled
    rw [booked_edge]
    exact orderly_poll h hHalf
  have hBelow : ∀ {act : Edge.Act T τ Unit}, s.below act = some s' →
      s'.edge.kernel.Orderly := by
    intro act hBelow
    obtain ⟨edge, hEdge, rfl⟩ := Option.map_eq_some_iff.mp hBelow
    exact Edge.orderly_step h hEdge
  cases act with
  | new addr fcntl value => exact hBelow hStep
  | take addr => exact hBelow hStep
  | drop addr => exact hBelow hStep
  | read addr waker length => exact hPolled hStep
  | accept addr waker => exact hPolled hStep
  | write addr waker buf => exact hPolled hStep
  | register => exact hBelow hStep
  | wait fds => exact hBelow hStep
  | deliver => exact hBelow hStep
  | reopen fd file =>
    cases hStep
    exact h.become fd _
  | change fd file arrived fetched again =>
    cases hStep
    have hBecome : (s.setFile fd file).edge.kernel.Orderly := h.become fd _
    cases again with
    | false => exact hBecome
    | true => exact Edge.orderly_notify hBecome fd

variable [LawfulFile φ α] [CalmFile φ α]

theorem step_pays (h : s.Accurate) (hHolds : Edge.Holds addr fd s.edge this) {act : Act T τ φ α}
    (hAssumed : s.Assumed act) (hOther : act.target ≠ some addr) (hStep : s.step act = some s') :
    (∃ this', Edge.Holds addr fd s'.edge this') ∧
      s.deliveries addr act + Edge.reserve addr fd s'.edge ≤
        Edge.reserve addr fd s.edge + act.changes fd ∧
      (File.unread (s'.files fd)).length ≤
        (File.unread (s.files fd)).length + act.arrivals fd := by
  have hPolled : ∀ {R : Type} {addr' : Addr} {waker : Waker τ} {call : Call φ α R},
      call.Obeys → call.Calm → s.polled addr' waker call = some s' →
      (∃ this', Edge.Holds addr fd s'.edge this') ∧
        0 + Edge.reserve addr fd s'.edge ≤ Edge.reserve addr fd s.edge + 0 ∧
        (File.unread (s'.files fd)).length ≤ (File.unread (s.files fd)).length + 0 := by
    intro R addr' waker call hObeys hCalm hPolled
    obtain ⟨⟨reported, s''⟩, hHalf, rfl⟩ := Option.map_eq_some_iff.mp hPolled
    obtain ⟨hHeld, hPaid, hUnread⟩ := poll_pays h hHolds hObeys hCalm hHalf
    rw [booked_edge, booked_files]
    exact ⟨hHeld, (Nat.zero_add _).trans_le hPaid, hUnread⟩
  cases act with
  | new addr' fcntl value =>
    exact below_pays hHolds hStep hAssumed trivial rfl
  | take addr' =>
    have hKeeps : (Edge.Act.take addr' : Edge.Act T τ Unit).Keeps addr :=
      fun hAddr => hOther (congrArg some hAddr)
    exact below_pays hHolds hStep trivial hKeeps rfl
  | drop addr' =>
    have hKeeps : (Edge.Act.drop addr' : Edge.Act T τ Unit).Keeps addr :=
      fun hAddr => hOther (congrArg some hAddr)
    exact below_pays hHolds hStep trivial hKeeps rfl
  | read addr' waker length =>
    exact hPolled (LawfulFile.read length) (CalmFile.read length) hStep
  | accept addr' waker => exact hPolled LawfulFile.next CalmFile.next hStep
  | write addr' waker buf => exact hPolled (LawfulFile.write buf) (CalmFile.write buf) hStep
  | register => exact below_pays hHolds hStep trivial trivial rfl
  | wait fds => exact below_pays hHolds hStep trivial trivial rfl
  | deliver => exact below_pays hHolds hStep trivial trivial rfl
  | reopen fd' file =>
    cases hStep
    have hFd : fd' ≠ fd := by
      rintro rfl
      refine hAssumed addr ?_
      rw [World.held_of_asyncs hHolds.pinned, hHolds.held]
    obtain ⟨hHeld, hPaid⟩ := change_pays hHolds fd' file false
    rw [if_neg hFd] at hPaid
    refine ⟨hHeld, (Nat.zero_add _).trans_le hPaid, ?_⟩
    simp [book, setFile, hFd.symm]
  | change fd' file arrived fetched again =>
    cases hStep
    obtain ⟨hHeld, hPaid⟩ := change_pays hHolds fd' file again
    refine ⟨hHeld, (Nat.zero_add _).trans_le hPaid, ?_⟩
    obtain rfl | hFd := eq_or_ne fd fd'
    · simp [book, setFile, Act.arrivals, hAssumed.unread]
    · simp [book, setFile, hFd]

end Traffic

end Ground
