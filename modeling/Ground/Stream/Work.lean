import Ground.Stream.Echo
import Ground.Stream.Paid

/-! # The work of an `echo`

A poll of an `echo` that is awake moves a byte at least, or ends it, or puts it to
sleep. What wakes it again is paid by the peer.
-/

namespace Ground

open Mask Transition

variable {T φ ρ ω R : Type} [AsRawFd T] [File φ UInt8]

namespace Echo

variable [AsyncReadExt ρ] [AsyncWriteExt ω]

def unwritten (future : ω) : Nat :=
  match AsyncWriteExt.next future with
  | .inl buf => buf.length
  | .inr _ => 0

/-- As many polls as an `echo` still makes while it is awake, if nothing more arrives and
it is not woken: a byte that is unread is for a read and a write. -/
def debt (unread : Nat) (awake : Bool) : Echo ρ ω → Nat
  | .reading _ => 2 * unread + awake.toNat
  | .writing future => 2 * unread + unwritten future + awake.toNat
  | .returned _ => 0

omit [AsyncReadExt ρ] in
theorem debt_awake {echo : Echo ρ ω} {interest : Interest} (h : echo.interest = some interest)
    (unread : Nat) (awake : Bool) :
    echo.debt unread awake = echo.debt unread false + awake.toNat := by
  cases echo with
  | reading future => rfl
  | writing future => rfl
  | returned result => cases h

omit [AsyncReadExt ρ] in
theorem debt_le (echo : Echo ρ ω) {unread unread' : Nat} {awake awake' : Bool} (count more : Nat)
    (hUnread : unread' ≤ unread + count) (hAwake : awake'.toNat ≤ awake.toNat + more) :
    echo.debt unread' awake' ≤ echo.debt unread awake + (2 * count + more) := by
  cases echo with
  | reading future =>
    simp only [debt]
    omega
  | writing future =>
    simp only [debt]
    omega
  | returned result => exact Nat.zero_le _

theorem debt_afterWrite {future : ω} {buf : List UInt8}
    (hNext : AsyncWriteExt.next future = .inl buf) (unread : Nat) (awake : Bool) :
    (afterWrite future : Echo ρ ω).debt unread awake =
      2 * unread + buf.length + awake.toNat := by
  rw [afterWrite_writing hNext]
  simp only [debt, unwritten, hNext]

def Spends (echo : Echo ρ ω) (call : Call φ UInt8 R) (next : Except Error R → Echo ρ ω) : Prop :=
  ∀ file,
    1 + (next ((call.run file).1.mapError .fromRawOsError)).debt
        (File.unread (call.run file).2).length true ≤
      echo.debt (File.unread file).length true

variable [LawfulFile φ UInt8] [LawfulAsyncReadExt ρ] [LawfulAsyncWriteExt ω]

theorem spends_read {future : ρ} (hNext : AsyncReadExt.next future = .inl bufLen) :
    Spends (.reading future : Echo ρ ω) (File.read bufLen : Call φ UInt8 (List UInt8))
      fun result => afterRead (AsyncReadExt.resume future result) := by
  intro file
  have hAfter : ∀ result, (afterRead (AsyncReadExt.resume future result) : Echo ρ ω) = _ :=
    fun result => afterRead_eq (LawfulAsyncReadExt.next_resume result hNext)
  cases hCall : ((File.read bufLen : Call φ UInt8 (List UInt8)).run file).1 with
  | error errno =>
    simp only [Except.mapError, hAfter, debt, Bool.toNat_true]
    omega
  | ok items =>
    have hMoved := congrArg List.length ((LawfulFile.read (φ := φ) bufLen).ok file items hCall).1
    simp only [Except.mapError, hAfter]
    cases items with
    | nil =>
      simp only [debt, Bool.toNat_true]
      omega
    | cons byte buf =>
      have hWrites := LawfulAsyncWriteExt.next_writeAll (ω := ω) (List.cons_ne_nil byte buf)
      simp only [File.read, List.length_append, List.length_cons] at hMoved ⊢
      rw [debt_afterWrite hWrites]
      simp only [debt, Bool.toNat_true, List.length_cons]
      omega

omit [LawfulAsyncReadExt ρ] in
theorem spends_write {future : ω} {buf : List UInt8} (hBuf : buf ≠ [])
    (hNext : AsyncWriteExt.next future = .inl buf) :
    Spends (.writing future : Echo ρ ω) (File.write buf : Call φ UInt8 Nat)
      fun result => afterWrite (AsyncWriteExt.resume future result) := by
  intro file
  have hPositive := List.length_pos_iff.mpr hBuf
  have hUnwritten : unwritten future = buf.length := by simp only [unwritten, hNext]
  cases hCall : ((File.write buf : Call φ UInt8 Nat).run file).1 with
  | error errno =>
    have hFails := LawfulAsyncWriteExt.next_error (e := .fromRawOsError errno) hNext
    simp only [Except.mapError, afterWrite_failed hFails, debt, Bool.toNat_true]
    omega
  | ok count =>
    have hMoved := congrArg List.length ((LawfulFile.write (φ := φ) buf).ok file count hCall).1
    obtain ⟨hSome, hBound⟩ := LawfulFile.send_ok hBuf hCall
    simp only [File.write, List.nil_append] at hMoved
    simp only [Except.mapError, File.write, hMoved]
    obtain hPart | rfl := hBound.lt_or_eq
    · rw [debt_afterWrite (LawfulAsyncWriteExt.next_part hNext hSome hPart)]
      simp only [debt, hUnwritten, Bool.toNat_true, List.length_drop]
      omega
    · rw [afterWrite_done (LawfulAsyncWriteExt.next_whole hNext hBuf)]
      simp only [start, debt, hUnwritten, Bool.toNat_true]
      omega

end Echo

namespace EchoServer

variable {s s' : EchoServer T φ ρ ω} {addr : Addr} {fd : RawFd} {this : Async T Addr}

/-- Counts the polls of this `echo` while it is awake. -/
def calls (addr : Addr) (s : EchoServer T φ ρ ω) : Act T φ → Nat
  | .poll addr' => if addr' = addr then (!s.asleep addr).toNat else 0
  | _ => 0

/-- Counts what is done for this `echo`: a byte that arrives is for a read and a write, and
what the peer does may wake it. So may a delivery to another `Async`. -/
def income (addr : Addr) (fd : RawFd) (s : EchoServer T φ ρ ω) : Act T φ → Nat
  | .beside act =>
    2 * act.arrivals fd + act.changes fd +
      if addr ∈ s.traffic.woken act ∧ s.traffic.deliveries addr act = 0 then 1 else 0
  | _ => 0

variable [AsyncReadExt ρ] [AsyncWriteExt ω]

def debt (addr : Addr) (fd : RawFd) (s : EchoServer T φ ρ ω) : Nat :=
  ((s.echoes addr).map fun echo =>
    echo.debt (File.unread (s.traffic.files fd)).length (!s.asleep addr)).getD 0

def potential (addr : Addr) (fd : RawFd) (s : EchoServer T φ ρ ω) : Nat :=
  s.debt addr fd + Edge.reserve addr fd s.traffic.edge

structure Follows (addr : Addr) (fd : RawFd) (s : EchoServer T φ ρ ω) : Prop where
  sound : s.Sound
  held : ∃ this, Edge.Holds addr fd s.traffic.edge this
  echo : ∃ echo, s.echoes addr = some echo

omit [AsRawFd T] [AsyncReadExt ρ] in
theorem debt_eq {echo : Echo ρ ω} (hEcho : s.echoes addr = some echo) : s.debt addr fd =
    echo.debt (File.unread (s.traffic.files fd)).length (!s.asleep addr) := by
  rw [debt, hEcho, Option.map_some, Option.getD_some]

theorem polled_file {traffic traffic' : Traffic T Addr φ UInt8}
    (hHolds : Edge.Holds addr fd traffic.edge this) {waker : Waker Addr} {call : Call φ UInt8 R}
    {fd' : RawFd} {result : Except Errno R}
    (hPoll : traffic.poll addr waker call = some (some (fd', result), traffic')) :
    result = (call.run (traffic.files fd)).1 ∧
      traffic'.files fd = (call.run (traffic.files fd)).2 := by
  obtain ⟨that, that', edge, hThat, -, -, ⟨-, ⟨⟩, -⟩ | ⟨inner, hInner, rfl, hReported⟩⟩ :=
    Traffic.poll_cases hPoll
  obtain rfl := Option.some.inj (hHolds.pinned.symm.trans hThat)
  obtain rfl : asRawFd inner = fd := by simpa [Async.heldFd, hInner] using hHolds.held
  obtain ⟨-, ⟨⟩, -⟩ | ⟨-, hReported⟩ := hReported
  simp only [Option.some.injEq, Prod.mk.injEq] at hReported
  exact ⟨hReported.2, by simp [Traffic.setFile]⟩

omit [AsRawFd T] [File φ UInt8] [AsyncReadExt ρ] [AsyncWriteExt ω] in
theorem income_quiet {act : Traffic.Act T Addr φ UInt8} (hArrivals : act.arrivals fd = 0)
    (hChanges : act.changes fd = 0) (hWoken : s.traffic.woken act = []) :
    s.income addr fd (.beside act) = 0 := by
  simp [income, hArrivals, hChanges, hWoken]

theorem orderly_step (h : s.traffic.edge.kernel.Orderly) {act : Act T φ}
    (hStep : s.step act = some s') : s'.traffic.edge.kernel.Orderly := by
  have hTurn : ∀ {R : Type} {addr : Addr} {call : Call φ UInt8 R}
      {next : Except Error R → Echo ρ ω}, s.turn addr call next = some s' →
      s'.traffic.edge.kernel.Orderly := by
    intro R addr call next hTurn
    obtain ⟨reported, polled, hPoll, hTraffic, -⟩ := turn_cases hTurn
    rw [hTraffic, Traffic.booked_edge]
    exact Traffic.orderly_poll h hPoll
  cases act with
  | spawn addr fcntl value file =>
    obtain ⟨traffic, hNew, hRun⟩ := Option.bind_eq_some_iff.mp hStep
    let opened :=
      (s.traffic.setFile (asRawFd value) file).book (asRawFd value) fun _ => .new file
    have hOpened : opened.edge.kernel.Orderly := h.become (asRawFd value) _
    have hAfter : traffic.edge.kernel.Orderly := Traffic.orderly_step hOpened hNew
    split at hRun
    · cases hRun
      exact hAfter
    · cases hRun
      exact hAfter
  | poll addr =>
    obtain ⟨echo, -, hRun⟩ := Option.bind_eq_some_iff.mp hStep
    cases echo with
    | reading future =>
      simp only [poll] at hRun
      split at hRun
      · exact hTurn hRun
      · cases hRun
    | writing future =>
      simp only [poll] at hRun
      split at hRun
      · exact hTurn hRun
      · cases hRun
    | returned result => cases hRun
  | drop addr =>
    obtain ⟨echo, -, hRun⟩ := Option.bind_eq_some_iff.mp hStep
    cases echo with
    | reading future => cases hRun
    | writing future => cases hRun
    | returned result =>
      obtain ⟨traffic, hDrop, hRun⟩ := Option.bind_eq_some_iff.mp hRun
      cases hRun
      exact Traffic.orderly_step h hDrop
  | beside act =>
    obtain ⟨-, hRun⟩ := Option.ite_none_left_eq_some.mp hStep
    obtain ⟨traffic, hBeside, hRun⟩ := Option.bind_eq_some_iff.mp hRun
    cases hRun
    exact Traffic.orderly_step h hBeside

variable [LawfulFile φ UInt8] [CalmFile φ UInt8]

theorem Follows.beside (h : s.Follows addr fd) (hSound : s'.Sound)
    {act : Traffic.Act T Addr φ UInt8} (hAssumed : s.traffic.Assumed act)
    (hOther : act.target ≠ some addr) (hStep : s.traffic.step act = some s'.traffic)
    (hEchoes : s'.echoes addr = s.echoes addr)
    (hAsleep : s.asleep addr = true → addr ∉ s.traffic.woken act → s'.asleep addr = true) :
    s'.Follows addr fd ∧
      s'.potential addr fd ≤ s.potential addr fd + s.income addr fd (.beside act) := by
  obtain ⟨this, hHolds⟩ := h.held
  obtain ⟨echo, hEcho⟩ := h.echo
  obtain ⟨hHeld, hPaid, hUnread⟩ :=
    Traffic.step_pays h.sound.traffic.accurate hHolds hAssumed hOther hStep
  refine ⟨⟨hSound, hHeld, ⟨echo, hEchoes.trans hEcho⟩⟩, ?_⟩
  have hAwake : (!s'.asleep addr).toNat ≤
      (!s.asleep addr).toNat + if addr ∈ s.traffic.woken act then 1 else 0 := by
    by_cases hWoken : addr ∈ s.traffic.woken act
    · rw [if_pos hWoken]
      exact (Bool.toNat_le _).trans (Nat.le_add_left ..)
    · cases hBefore : s.asleep addr with
      | false => exact (Bool.toNat_le _).trans (Nat.le_add_right ..)
      | true => simp [hAsleep hBefore hWoken]
  have hDebt := echo.debt_le _ _ hUnread hAwake
  simp only [potential, debt_eq hEcho, debt_eq (hEchoes.trans hEcho), income]
  by_cases hWoken : addr ∈ s.traffic.woken act
  · by_cases hOwn : s.traffic.deliveries addr act = 0
    · simp only [hWoken, hOwn, and_self, if_true] at hDebt ⊢
      omega
    · simp only [hWoken, if_true] at hDebt
      omega
  · simp only [hWoken, if_false] at hDebt
    omega

omit [LawfulFile φ UInt8] [CalmFile φ UInt8] in
theorem Follows.turn (h : s.Follows addr fd) (hSound : s'.Sound) {addr' : Addr} {echo : Echo ρ ω}
    (hEcho : s.echoes addr' = some echo) {call : Call φ UInt8 R} {next : Except Error R → Echo ρ ω}
    (hConducts : Conducts echo call next) (hCalm : call.Calm) (hSpends : echo.Spends call next)
    (hTurn : s.turn addr' call next = some s') :
    s'.Follows addr fd ∧
      (if addr' = addr then (!s.asleep addr).toNat else 0) + s'.potential addr fd ≤
        s.potential addr fd := by
  obtain ⟨this, hHolds⟩ := h.held
  obtain ⟨reported, polled, hPoll, hTraffic, hCases⟩ := turn_cases hTurn
  obtain ⟨hHeld, hReserve, hUnread⟩ :=
    Traffic.poll_pays h.sound.traffic.accurate hHolds hConducts.obeys hCalm hPoll
  rw [← Traffic.booked_edge call (reported, polled), ← hTraffic] at hHeld hReserve
  have hFiles : s'.traffic.files = polled.files := by rw [hTraffic, Traffic.booked_files]
  rw [← hFiles] at hUnread
  obtain rfl | hAddr := eq_or_ne addr' addr
  · have hDebt := (debt_eq hEcho).trans
      (Echo.debt_awake hConducts.interest (File.unread (s.traffic.files fd)).length _)
    rw [if_pos rfl, potential, potential, hDebt]
    obtain ⟨-, hEchoes, hAsleep⟩ | ⟨fd', result, rfl, hEchoes, hAsleep⟩ := hCases
    · have hStays : s'.echoes addr' = some echo := by rw [hEchoes, hEcho]
      refine ⟨⟨hSound, hHeld, ⟨echo, hStays⟩⟩, ?_⟩
      have hLess := echo.debt_le 0 0 hUnread (show false.toNat ≤ false.toNat + 0 from Nat.le_refl 0)
      rw [debt_eq hStays, hAsleep, Function.update_self]
      simp only [Bool.not_true]
      omega
    · have hNext := (congrFun hEchoes addr').trans (Function.update_self ..)
      refine ⟨⟨hSound, hHeld, ⟨_, hNext⟩⟩, ?_⟩
      obtain ⟨rfl, hFile⟩ := polled_file hHolds hPoll
      have hWorth := hSpends (s.traffic.files fd)
      rw [Echo.debt_awake hConducts.interest, ← hFile, ← hFiles] at hWorth
      rw [debt_eq hNext, hAsleep, Function.update_self]
      simp only [Bool.not_false, Bool.toNat_true] at hWorth ⊢
      omega
  · obtain ⟨hEchoes, hAsleep⟩ := turn_others hTurn hAddr.symm
    obtain ⟨echo', hEcho'⟩ := h.echo
    refine ⟨⟨hSound, hHeld, ⟨echo', hEchoes.trans hEcho'⟩⟩, ?_⟩
    have hLess := echo'.debt_le 0 0 hUnread (Nat.le_refl (!s.asleep addr).toNat)
    rw [if_neg hAddr, potential, potential, debt_eq hEcho', debt_eq (hEchoes.trans hEcho'), hAsleep]
    omega

variable [LawfulAsyncReadExt ρ] [LawfulAsyncWriteExt ω]

theorem Follows.spawn (h : s.Follows addr fd) {addr' : Addr} {fcntl : Fcntl} {value : T}
    {file : φ} (hAssumed : s.Assumed (.spawn addr' fcntl value file))
    (hStep : s.step (.spawn addr' fcntl value file) = some s') :
    s'.Follows addr fd ∧ s'.potential addr fd ≤ s.potential addr fd := by
  have hSound := h.sound.step hAssumed hStep
  obtain ⟨-, hFresh⟩ := hAssumed
  obtain ⟨traffic, hNew, hRun⟩ := Option.bind_eq_some_iff.mp hStep
  let opened : EchoServer T φ ρ ω :=
    { s with
      traffic := (s.traffic.setFile (asRawFd value) file).book (asRawFd value) fun _ => .new file }
  have hReopen : s.traffic.Assumed (.reopen (asRawFd value) file) := hFresh
  have hSoundOpened : opened.Sound := h.sound.opened file hFresh
  obtain ⟨hOpened, hFirst⟩ := h.beside hSoundOpened hReopen (by simp [Traffic.Act.target]) rfl rfl
    fun hAsleep _ => hAsleep
  have hBelow : opened.traffic.Assumed (.new addr' fcntl value) := hFresh
  obtain ⟨this, hHolds⟩ := hOpened.held
  obtain ⟨edge, hEdge, rfl⟩ := Option.map_eq_some_iff.mp hNew
  have hOther : addr ≠ addr' := by
    rintro rfl
    obtain ⟨-, hFree, -⟩ := Edge.step_new hEdge
    cases hFree.symm.trans hHolds.pinned
  have hTarget : (Traffic.Act.new addr' fcntl value : Traffic.Act T Addr φ UInt8).target ≠
      some addr := by simpa [Traffic.Act.target] using hOther.symm
  rw [income_quiet rfl rfl rfl] at hFirst
  have hEnd : s'.traffic = { opened.traffic with edge } ∧ s'.echoes addr = opened.echoes addr ∧
      s'.asleep addr = opened.asleep addr := by
    split at hRun
    · cases hRun
      exact ⟨rfl, Function.update_of_ne hOther .., Function.update_of_ne hOther ..⟩
    · cases hRun
      exact ⟨rfl, rfl, rfl⟩
  obtain ⟨hTraffic, hEchoes, hAsleep⟩ := hEnd
  rw [← hTraffic] at hNew
  obtain ⟨hFollows, hSecond⟩ := hOpened.beside hSound hBelow hTarget hNew hEchoes
    fun hBefore _ => hAsleep.trans hBefore
  rw [income_quiet rfl rfl rfl] at hSecond
  exact ⟨hFollows, hSecond.trans hFirst⟩

theorem Follows.drop (h : s.Follows addr fd) {addr' : Addr} (hAddr : addr' ≠ addr)
    (hStep : s.step (.drop addr') = some s') :
    s'.Follows addr fd ∧ s'.potential addr fd ≤ s.potential addr fd := by
  have hAssumed : s.Assumed (.drop addr') := trivial
  have hSound := h.sound.step hAssumed hStep
  obtain ⟨echo, hEcho, hRun⟩ := Option.bind_eq_some_iff.mp hStep
  cases echo with
  | reading future => cases hRun
  | writing future => cases hRun
  | returned result =>
    obtain ⟨traffic, hDrop, hRun⟩ := Option.bind_eq_some_iff.mp hRun
    cases hRun
    have hBelow : s.traffic.Assumed (.drop addr') := trivial
    have hTarget : (Traffic.Act.drop addr' : Traffic.Act T Addr φ UInt8).target ≠ some addr := by
      simpa [Traffic.Act.target] using hAddr
    obtain ⟨hFollows, hPaid⟩ := h.beside hSound hBelow hTarget hDrop
      (Function.update_of_ne hAddr.symm ..) fun hAsleep _ =>
        (Function.update_of_ne hAddr.symm ..).trans hAsleep
    rw [income_quiet rfl rfl rfl] at hPaid
    exact ⟨hFollows, hPaid⟩

theorem Follows.step (h : s.Follows addr fd) {act : Act T φ} (hAssumed : s.Assumed act)
    (hKeeps : act ≠ .drop addr) (hStep : s.step act = some s') :
    s'.Follows addr fd ∧
      s.calls addr act + s'.potential addr fd ≤ s.potential addr fd + s.income addr fd act := by
  have hSound := h.sound.step hAssumed hStep
  cases act with
  | spawn addr' fcntl value file =>
    obtain ⟨hFollows, hPaid⟩ := h.spawn hAssumed hStep
    exact ⟨hFollows, (Nat.zero_add _).trans_le hPaid⟩
  | poll addr' =>
    obtain ⟨echo, hEcho, hRun⟩ := Option.bind_eq_some_iff.mp hStep
    obtain ⟨future, rfl, hNext, hTurn⟩ | ⟨future, buf, rfl, hBuf, hNext, hTurn⟩ :=
      h.sound.poll_cases hEcho hRun
    · exact h.turn hSound hEcho (conducts_read hNext) (CalmFile.read Echo.bufLen)
        (Echo.spends_read hNext) hTurn
    · exact h.turn hSound hEcho (conducts_write hBuf hNext) (CalmFile.write buf)
        (Echo.spends_write hBuf hNext) hTurn
  | drop addr' =>
    have hAddr : addr' ≠ addr := by
      rintro rfl
      exact hKeeps rfl
    obtain ⟨hFollows, hPaid⟩ := h.drop hAddr hStep
    exact ⟨hFollows, (Nat.zero_add _).trans_le hPaid⟩
  | beside act =>
    obtain ⟨hOther, hRun⟩ := Option.ite_none_left_eq_some.mp hStep
    obtain ⟨traffic, hBeside, hRun⟩ := Option.bind_eq_some_iff.mp hRun
    cases hRun
    obtain ⟨echo, hEcho⟩ := h.echo
    have hTarget : act.target ≠ some addr := by
      intro hTarget
      rw [hTarget, Option.bind_some, hEcho] at hOther
      exact hOther rfl
    obtain ⟨hFollows, hPaid⟩ := h.beside hSound hAssumed hTarget hBeside rfl
      fun hAsleep hWoken => by simp [hAsleep, hWoken]
    exact ⟨hFollows, (Nat.zero_add _).trans_le hPaid⟩

omit [CalmFile φ UInt8] in
theorem follows_spawn (h : s.Sound) (hOrderly : s.traffic.edge.kernel.Orderly) {fcntl : Fcntl}
    {value : T} {file : φ} (hAssumed : s.Assumed (.spawn addr fcntl value file))
    (hStep : s.step (.spawn addr fcntl value file) = some s')
    (hWrapped : (s'.traffic.edge.world.asyncs addr).isSome) :
    s'.Follows addr (asRawFd value) ∧
      s'.potential addr (asRawFd value) ≤ 2 * (File.unread file).length + 3 := by
  have hSound := h.step hAssumed hStep
  obtain ⟨-, hFresh⟩ := hAssumed
  obtain ⟨traffic, hNew, hRun⟩ := Option.bind_eq_some_iff.mp hStep
  obtain ⟨edge, hEdge, rfl⟩ := Option.map_eq_some_iff.mp hNew
  have hOpened := (h.opened file hFresh).traffic.accurate.safe
  have hOrderly' := hOrderly.become (asRawFd value) (File.readiness file)
  split at hRun
  · cases hRun
    obtain ⟨this, hHolds, hNothing⟩ := Edge.holds_new hOpened hOrderly' hFresh hEdge hWrapped
    have hTwo := hHolds.unasked_le
    have hEcho : Function.update s.echoes addr (some .start) addr = some (.start : Echo ρ ω) :=
      Function.update_self ..
    refine ⟨⟨hSound, ⟨this, hHolds⟩, ⟨.start, hEcho⟩⟩, ?_⟩
    rw [potential, debt_eq hEcho, Edge.reserve, hNothing]
    simp only [Traffic.book, Traffic.setFile, Function.update_self, Echo.start, Echo.debt,
      Bool.not_false, Bool.toNat_true]
    omega
  · rename_i hUnwound
    cases hRun
    exact absurd hWrapped hUnwound

/-- From its spawn until its stream is dropped, whatever is done beside it: an `echo` is
polled while it is awake at most three times, twice for each byte that is there or
arrives, once for each act of its peer, and once for each delivery to another `Async`
that wakes its task. -/
theorem work_paid {files : RawFd → φ} {before after : List (Act T φ)} {s₀ t : EchoServer T φ ρ ω}
    (hBefore : Meets step Assumed (init files : EchoServer T φ ρ ω) before)
    (hRun : run step (init files) before = some s₀) {fcntl : Fcntl} {value : T} {file : φ}
    (hAssumed : s₀.Assumed (.spawn addr fcntl value file))
    (hSpawn : s₀.step (.spawn addr fcntl value file) = some s)
    (hWrapped : (s.traffic.edge.world.asyncs addr).isSome)
    (hAfter : Meets step (fun s act => s.Assumed act ∧ act ≠ .drop addr) s after)
    (hRun' : run step s after = some t) :
    tally step (calls addr) s after ≤
      2 * (File.unread file).length + 3 + tally step (income addr (asRawFd value)) s after := by
  have hInvariant : s₀.Sound ∧ s₀.traffic.edge.kernel.Orderly :=
    invariant_of_meets (I := fun s : EchoServer T φ ρ ω => s.Sound ∧ s.traffic.edge.kernel.Orderly)
      (fun _ _ _ h hOk hStep => ⟨h.1.step hOk hStep, orderly_step h.2 hStep⟩)
      ⟨sound_init files, by rintro fd ⟨⟩⟩ hBefore hRun
  obtain ⟨hFollows, hStart⟩ := follows_spawn hInvariant.1 hInvariant.2 hAssumed hSpawn hWrapped
  have hPaid := tally_le_of_potential (calls addr) (income addr (asRawFd value))
    (potential addr (asRawFd value)) (fun s act s' h hOk hStep => (h.step hOk.1 hOk.2 hStep).1)
    (fun s act s' h hOk hStep => (h.step hOk.1 hOk.2 hStep).2) hFollows hAfter hRun'
  omega

theorem work_paid_one_byte :
    let fcntl : Fcntl := ⟨fun _ => .ok 0#32, fun _ _ => .ok ()⟩
    let file (unread : List UInt8) : Buffered UInt8 := ⟨unread, false, [], 4⟩
    let after : List (Act RawFd (Buffered UInt8)) :=
      [.beside (.change 3 (file [104]) [104] [] true), .poll 0, .poll 0, .poll 0,
        .beside .register]
    ∃ s t : EchoServer RawFd (Buffered UInt8) ReadOnce WriteOn,
      step (init fun _ => file []) (.spawn 0 fcntl 3 (file [])) = some s ∧
      run step s after = some t ∧ tally step (calls 0) s after = 3 ∧
      3 ≤ 2 * (file []).unread.length + 3 + tally step (income 0 3) s after := by
  intro fcntl file after
  let s : EchoServer RawFd (Buffered UInt8) ReadOnce WriteOn :=
    (step (init fun _ => file []) (.spawn 0 fcntl 3 (file []))).get (by decide)
  have hSpawn : step (init fun _ => file []) (.spawn 0 fcntl 3 (file [])) = some s :=
    (Option.some_get _).symm
  let t : EchoServer RawFd (Buffered UInt8) ReadOnce WriteOn :=
    (run step s after).get (by decide)
  have hRun' : run step s after = some t := (Option.some_get _).symm
  have hAssumed : (init fun _ => file [] :
      EchoServer RawFd (Buffered UInt8) ReadOnce WriteOn).Assumed
        (.spawn 0 fcntl 3 (file [])) :=
    ⟨rfl, by simp [World.held, init, Traffic.init, Edge.init, World.init]⟩
  have hAfter : Meets step (fun s act => s.Assumed act ∧ act ≠ .drop 0) s after := by
    refine .cons ⟨⟨rfl, rfl, by rintro ⟨⟩⟩, by simp⟩ rfl ?_
    exact ⟨⟨trivial, by simp⟩, fun _ _ => ⟨⟨trivial, by simp⟩, fun _ _ => ⟨⟨trivial, by simp⟩,
      fun _ _ => ⟨⟨trivial, by simp⟩, fun _ _ => trivial⟩⟩⟩⟩
  have hCalls : tally step (calls 0) s after = 3 := by decide
  have hBefore : Meets step Assumed
      (init fun _ => file [] : EchoServer RawFd (Buffered UInt8) ReadOnce WriteOn) [] := trivial
  have hPaid := work_paid hBefore rfl hAssumed hSpawn rfl hAfter hRun'
  rw [hCalls] at hPaid
  exact ⟨s, t, hSpawn, hRun', hCalls, hPaid⟩

end EchoServer

end Ground
