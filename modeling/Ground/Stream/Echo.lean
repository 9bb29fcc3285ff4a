import Ground.Stream.Ext
import Ground.Stream.Frame

/-! # The echo server

`echo` of `echo-server.rs`, over the futures of `futures::io`. Its tasks are named by
the addresses of their streams. What is done beside them, by the main task with its
listener, the reactor and the peers, is any step of the traffic.
-/

namespace Ground

open Mask Transition

variable {T φ ρ ω R : Type} [AsRawFd T]

inductive Echo (ρ ω : Type) where
  | reading (future : ρ)
  | writing (future : ω)
  | returned (result : Except Error Unit)

namespace Echo

def bufLen : Nat := 512

def interest : Echo ρ ω → Option Interest
  | .reading _ => some .read
  | .writing _ => some .write
  | .returned _ => none

variable [AsyncReadExt ρ] [AsyncWriteExt ω]

def start : Echo ρ ω := .reading (AsyncReadExt.read bufLen)

def afterWrite (future : ω) : Echo ρ ω :=
  match AsyncWriteExt.next future with
  | .inl _ => .writing future
  | .inr (.ok ()) => start
  | .inr (.error e) => .returned (.error e)

def afterRead (future : ρ) : Echo ρ ω :=
  match AsyncReadExt.next future with
  | .inl _ => .reading future
  | .inr (.ok []) => .returned (.ok ())
  | .inr (.ok (byte :: buf)) => afterWrite (AsyncWriteExt.writeAll (byte :: buf))
  | .inr (.error e) => .returned (.error e)

end Echo

/-- `asleep` are those whose latest poll was pending, and that are not woken since. -/
structure EchoServer (T φ ρ ω : Type) where
  traffic : Traffic T Addr φ UInt8
  echoes : Addr → Option (Echo ρ ω)
  asleep : Addr → Bool

namespace EchoServer

variable [File φ UInt8]

def init (files : RawFd → φ) : EchoServer T φ ρ ω where
  traffic := .init files
  echoes _ := none
  asleep _ := false

/-- The main task wraps a connection that it has accepted, and spawns its `echo`; an
`echo` polls its stream, and its stream is dropped when it has returned. -/
inductive Act (T φ : Type) where
  | spawn (addr : Addr) (fcntl : Fcntl) (value : T) (file : φ)
  | poll (addr : Addr)
  | drop (addr : Addr)
  | beside (act : Traffic.Act T Addr φ UInt8)

/-- A poll of the `echo` at this address, with what follows if it is ready. -/
def turn (s : EchoServer T φ ρ ω) (addr : Addr) (call : Call φ UInt8 R)
    (next : Except Error R → Echo ρ ω) : Option (EchoServer T φ ρ ω) := do
  let polled ← s.traffic.poll addr (.task addr) call
  let traffic := Traffic.booked call polled
  match polled.1 with
  | none => some { s with traffic, asleep := Function.update s.asleep addr true }
  | some (_, result) =>
    some
      { traffic
        echoes := Function.update s.echoes addr (next (result.mapError .fromRawOsError))
        asleep := Function.update s.asleep addr false }

variable [AsyncReadExt ρ] [AsyncWriteExt ω]

def poll (s : EchoServer T φ ρ ω) (addr : Addr) : Echo ρ ω → Option (EchoServer T φ ρ ω)
  | .reading future =>
    match AsyncReadExt.next future with
    | .inl length =>
      s.turn addr (File.read length) fun result => .afterRead (AsyncReadExt.resume future result)
    | .inr _ => none
  | .writing future =>
    match AsyncWriteExt.next future with
    | .inl buf =>
      s.turn addr (File.write buf) fun result => .afterWrite (AsyncWriteExt.resume future result)
    | .inr _ => none
  | .returned _ => none

/-- The main task unwinds if `Async::new` panics. -/
def step (s : EchoServer T φ ρ ω) : Act T φ → Option (EchoServer T φ ρ ω)
  | .spawn addr fcntl value file => do
    let opened ← s.traffic.step (.reopen (asRawFd value) file)
    let traffic ← opened.step (.new addr fcntl value)
    if (traffic.edge.world.asyncs addr).isSome then
      some
        { traffic
          echoes := Function.update s.echoes addr (some .start)
          asleep := Function.update s.asleep addr false }
    else some { s with traffic }
  | .poll addr => do
    let echo ← s.echoes addr
    s.poll addr echo
  | .drop addr => do
    match ← s.echoes addr with
    | .returned _ =>
      let traffic ← s.traffic.step (.drop addr)
      some
        { traffic
          echoes := Function.update s.echoes addr none
          asleep := Function.update s.asleep addr false }
    | _ => none
  | .beside act => do
    if (act.target.bind s.echoes).isSome then none
    else
      let traffic ← s.traffic.step act
      some
        { s with
          traffic
          asleep := fun addr => s.asleep addr && decide (addr ∉ s.traffic.woken act) }

/-- What `accept` returns is an unused descriptor to which nothing is written yet;
below, the assumptions about descriptors and peers. -/
def Assumed (s : EchoServer T φ ρ ω) : Act T φ → Prop
  | .spawn _ _ value file => File.unsent file = [] ∧
      ∀ addr, s.traffic.edge.world.held addr ≠ some (asRawFd value)
  | .beside act => s.traffic.Assumed act
  | _ => True

end EchoServer

namespace Echo

variable [AsyncReadExt ρ] [AsyncWriteExt ω]

def Echoed (received accepted : List UInt8) : Echo ρ ω → Prop
  | .reading future => AsyncReadExt.next future = .inl bufLen ∧ accepted = received
  | .writing future => ∃ buf ≠ [], AsyncWriteExt.next future = .inl buf ∧ accepted ++ buf = received
  | .returned (.ok ()) => accepted = received
  | .returned (.error _) => accepted <+: received

theorem Echoed.begins {echo : Echo ρ ω} {received accepted : List UInt8}
    (h : echo.Echoed received accepted) : accepted <+: received := by
  cases echo with
  | reading future => exact h.2 ▸ List.prefix_refl _
  | writing future =>
    obtain ⟨buf, -, -, rfl⟩ := h
    exact List.prefix_append _ _
  | returned result =>
    obtain e | ⟨⟨⟩⟩ := result
    · exact h
    · exact h ▸ List.prefix_refl _

theorem afterWrite_writing {future : ω} {buf : List UInt8}
    (hNext : AsyncWriteExt.next future = .inl buf) :
    (afterWrite future : Echo ρ ω) = .writing future := by
  simp only [afterWrite, hNext]

theorem afterWrite_done {future : ω} (hNext : AsyncWriteExt.next future = .inr (.ok ())) :
    (afterWrite future : Echo ρ ω) = start := by
  simp only [afterWrite, hNext]

theorem afterWrite_failed {future : ω} {e : Error}
    (hNext : AsyncWriteExt.next future = .inr (.error e)) :
    (afterWrite future : Echo ρ ω) = .returned (.error e) := by
  simp only [afterWrite, hNext]

theorem afterRead_eq {future : ρ} {result : Except Error (List UInt8)}
    (hNext : AsyncReadExt.next future = .inr result) :
    (afterRead future : Echo ρ ω) =
      match result with
      | .ok [] => .returned (.ok ())
      | .ok (byte :: buf) => afterWrite (AsyncWriteExt.writeAll (byte :: buf))
      | .error e => .returned (.error e) := by
  simp only [afterRead, hNext]
  split
  · cases ‹_ = _›
  · cases ‹_ = _›; rfl
  · cases ‹_ = _›; rfl
  · cases ‹_ = _›; rfl

end Echo

namespace EchoServer

variable [File φ UInt8] {s s' : EchoServer T φ ρ ω}

theorem turn_cases {addr : Addr} {call : Call φ UInt8 R} {next : Except Error R → Echo ρ ω}
    (hTurn : s.turn addr call next = some s') :
    ∃ reported polled,
      s.traffic.poll addr (.task addr) call = some (reported, polled) ∧
      s'.traffic = Traffic.booked call (reported, polled) ∧
      ((reported = none ∧ s'.echoes = s.echoes ∧
          s'.asleep = Function.update s.asleep addr true) ∨
        ∃ fd result, reported = some (fd, result) ∧
          s'.echoes =
            Function.update s.echoes addr (some (next (result.mapError .fromRawOsError))) ∧
          s'.asleep = Function.update s.asleep addr false) := by
  obtain ⟨⟨reported, polled⟩, hPoll, hRun⟩ := Option.bind_eq_some_iff.mp hTurn
  obtain _ | ⟨fd, result⟩ := reported
  · cases hRun
    exact ⟨none, polled, hPoll, rfl, .inl ⟨rfl, rfl, rfl⟩⟩
  · cases hRun
    exact ⟨some (fd, result), polled, hPoll, rfl, .inr ⟨fd, result, rfl, rfl, rfl⟩⟩

theorem turn_others {addr addr' : Addr} {call : Call φ UInt8 R} {next : Except Error R → Echo ρ ω}
    (hTurn : s.turn addr call next = some s') (hAddr : addr' ≠ addr) :
    s'.echoes addr' = s.echoes addr' ∧ s'.asleep addr' = s.asleep addr' := by
  obtain ⟨_, _, -, -, ⟨-, hEchoes, hAsleep⟩ | ⟨_, _, -, hEchoes, hAsleep⟩⟩ := turn_cases hTurn
  · rw [hEchoes, hAsleep]
    exact ⟨rfl, Function.update_of_ne hAddr ..⟩
  · rw [hEchoes, hAsleep]
    exact ⟨Function.update_of_ne hAddr .., Function.update_of_ne hAddr ..⟩

variable [AsyncReadExt ρ] [AsyncWriteExt ω]

structure Serves (s : EchoServer T φ ρ ω) (addr : Addr) (echo : Echo ρ ω) (this : Async T Addr)
    (inner : T) : Prop where
  pinned : s.traffic.edge.world.asyncs addr = some this
  wraps : this.inner = some inner
  echoed : echo.Echoed (s.traffic.accounts (asRawFd inner)).received
    (s.traffic.accounts (asRawFd inner)).accepted
  ended : echo = .returned (.ok ()) → File.ended (s.traffic.files (asRawFd inner)) ∧
    File.unread (s.traffic.files (asRawFd inner)) = []
  waker : this.waiter.waitingFor ≠ 0#32 → this.waiter.waker = .task addr
  waits : s.asleep addr = true → ∃ interest, echo.interest = some interest ∧
    interest.asEvents &&& this.waiter.waitingFor ≠ 0#32

/-- What a system call needs for the `echo` to go on with it. -/
structure Conducts (echo : Echo ρ ω) (call : Call φ UInt8 R) (next : Except Error R → Echo ρ ω) :
    Prop where
  obeys : call.Obeys
  interest : echo.interest = some call.interest
  ok : ∀ file received accepted result, (call.run file).1 = .ok result →
    echo.Echoed received accepted →
      (next (.ok result)).Echoed (received ++ call.received result)
        (accepted ++ call.sent result) ∧
        (next (.ok result) = .returned (.ok ()) →
          File.ended (call.run file).2 ∧ File.unread (call.run file).2 = [])
  error : ∀ e received accepted, echo.Echoed received accepted →
    (next (.error e)).Echoed received accepted ∧ next (.error e) ≠ .returned (.ok ())

namespace Serves

variable {addr : Addr} {echo : Echo ρ ω} {this this' : Async T Addr} {inner : T}

theorem follows (h : s.Serves addr echo this inner) {woken : List Addr}
    (hThis : s'.traffic.edge.world.asyncs addr = some this') (hFollows : this.Follows this' woken)
    (hSpares : s.traffic.Spares s'.traffic (asRawFd inner))
    (hAsleep : s'.asleep addr = true → s.asleep addr = true ∧ addr ∉ woken) :
    s'.Serves addr echo this' inner where
  pinned := hThis
  wraps := hFollows.inner.trans h.wraps
  echoed := by
    rw [hSpares.received, hSpares.accepted]
    exact h.echoed
  ended hReturned := hSpares.ended (h.ended hReturned).1 (h.ended hReturned).2
  waker hWaits := by
    rw [hFollows.waker]
    refine h.waker ?_
    obtain hSame | ⟨hWithin, -⟩ := hFollows.waits
    · rwa [← hSame]
    · exact hWithin.ne_zero hWaits
  waits hAsleep' := by
    obtain ⟨hBefore, hNotWoken⟩ := hAsleep hAsleep'
    obtain ⟨interest, hInterest, hMeet⟩ := h.waits hBefore
    obtain hSame | ⟨-, hWoken⟩ := hFollows.waits
    · exact ⟨interest, hInterest, hSame ▸ hMeet⟩
    · have hWaiting : this.waiter.waitingFor ≠ 0#32 := by
        intro hZero
        simp [hZero] at hMeet
      rw [h.waker hWaiting] at hWoken
      exact absurd (hWoken List.mem_cons_self) hNotWoken

theorem turn (h : s.Serves addr echo this inner) (hEcho : s.echoes addr = some echo)
    {call : Call φ UInt8 R} {next : Except Error R → Echo ρ ω}
    (hConducts : Conducts echo call next) (hTurn : s.turn addr call next = some s') :
    ∃ echo' this', s'.echoes addr = some echo' ∧ s'.Serves addr echo' this' inner := by
  obtain ⟨⟨reported, polled⟩, hPoll, hRun⟩ := Option.bind_eq_some_iff.mp hTurn
  obtain ⟨that, that', edge, hThat, -, hAsyncs, hCases⟩ := Traffic.poll_cases hPoll
  obtain rfl := Option.some.inj (h.pinned.symm.trans hThat)
  have hPinned : edge.world.asyncs addr = some that' := by rw [hAsyncs, Function.update_self]
  have hNotReturned : echo ≠ .returned (.ok ()) := by
    rintro rfl
    cases hConducts.interest
  obtain ⟨rfl, rfl, rfl, hSkip⟩ | ⟨inner', hInner', rfl, hReported⟩ := hCases
  · cases hRun
    refine ⟨echo, _, hEcho, hPinned, h.wraps, h.echoed, h.ended, h.waker, fun _ => ?_⟩
    exact ⟨call.interest, hConducts.interest, hSkip (by simp [h.wraps])⟩
  · obtain rfl := Option.some.inj (h.wraps.symm.trans hInner')
    obtain ⟨rfl, rfl, -⟩ | ⟨rfl, rfl⟩ := hReported
    · cases hRun
      refine ⟨echo, _, hEcho, hPinned, h.wraps, h.echoed, fun hEnds => absurd hEnds hNotReturned,
        fun _ => rfl, fun _ => ⟨call.interest, hConducts.interest, ?_⟩⟩
      obtain ⟨b, hBit⟩ := ne_zero_iff.mp call.interest.asEvents_ne_zero
      exact ne_zero_iff.mpr ⟨b, has_and.mpr ⟨hBit, has_or.mpr (.inr hBit)⟩⟩
    · cases hRun
      cases hCall : (call.run (s.traffic.files (asRawFd inner))).1 with
      | error errno =>
        obtain ⟨hEchoed, hGoesOn⟩ := hConducts.error (.fromRawOsError errno) _ _ h.echoed
        refine ⟨_, _, Function.update_self .., hPinned, h.wraps, hEchoed,
          fun hEnds => absurd hEnds hGoesOn, h.waker, fun hAsleep => ?_⟩
        simp at hAsleep
      | ok result =>
        obtain ⟨hEchoed, hEnded⟩ := hConducts.ok _ _ _ result hCall h.echoed
        refine ⟨_, _, Function.update_self .., hPinned, h.wraps, ?_, ?_, h.waker,
          fun hAsleep => ?_⟩
        · simpa [Traffic.booked, Traffic.book, Traffic.setFile, Account.report, Except.mapError]
            using hEchoed
        · simpa [Traffic.booked, Traffic.book, Traffic.setFile, Except.mapError] using hEnded
        · simp at hAsleep

end Serves

structure Sound (s : EchoServer T φ ρ ω) : Prop where
  traffic : s.traffic.Sound
  serves : ∀ addr echo, s.echoes addr = some echo → ∃ this inner, s.Serves addr echo this inner

theorem sound_init (files : RawFd → φ) : (init files : EchoServer T φ ρ ω).Sound where
  traffic := ⟨Traffic.accurate_init files, Traffic.balanced_init files⟩
  serves := by rintro addr echo ⟨⟩

theorem Sound.poll_cases (h : s.Sound) {addr : Addr} {echo : Echo ρ ω}
    (hEcho : s.echoes addr = some echo) (hPoll : s.poll addr echo = some s') :
    (∃ future, echo = .reading future ∧ AsyncReadExt.next future = .inl Echo.bufLen ∧
      s.turn addr (File.read Echo.bufLen)
        (fun result => .afterRead (AsyncReadExt.resume future result)) = some s') ∨
    ∃ future buf, echo = .writing future ∧ buf ≠ [] ∧ AsyncWriteExt.next future = .inl buf ∧
      s.turn addr (File.write buf)
        (fun result => .afterWrite (AsyncWriteExt.resume future result)) = some s' := by
  obtain ⟨this, inner, hServes⟩ := h.serves addr echo hEcho
  have hEchoed := hServes.echoed
  cases echo with
  | reading future =>
    obtain ⟨hNext, -⟩ := hEchoed
    simp only [EchoServer.poll, hNext] at hPoll
    exact .inl ⟨future, rfl, hNext, hPoll⟩
  | writing future =>
    obtain ⟨buf, unwritten, hNext, -⟩ := hEchoed
    simp only [EchoServer.poll, hNext] at hPoll
    exact .inr ⟨future, buf, rfl, unwritten, hNext, hPoll⟩
  | returned result => cases hPoll

namespace Sound

theorem turn (h : s.Sound) {addr : Addr} {echo : Echo ρ ω} (hEcho : s.echoes addr = some echo)
    {call : Call φ UInt8 R} {next : Except Error R → Echo ρ ω}
    (hConducts : Conducts echo call next) (hTurn : s.turn addr call next = some s') :
    s'.Sound := by
  obtain ⟨reported, polled, hPoll, hTraffic, -⟩ := turn_cases hTurn
  have hPolled : s.traffic.polled addr (.task addr) call = some s'.traffic := by
    rw [Traffic.polled, hPoll, hTraffic, Option.map_some]
  refine ⟨h.traffic.polled hConducts.obeys hPolled, ?_⟩
  intro addr' echo' hEcho'
  obtain rfl | hAddr := eq_or_ne addr' addr
  · obtain ⟨this, inner, hServes⟩ := h.serves addr' echo hEcho
    obtain ⟨next, this', hNext, hServes'⟩ := hServes.turn hEcho hConducts hTurn
    obtain rfl := Option.some.inj (hNext.symm.trans hEcho')
    exact ⟨this', inner, hServes'⟩
  · obtain ⟨hSameEcho, hSameSleep⟩ := turn_others hTurn hAddr
    obtain ⟨this, inner, hServes⟩ := h.serves addr' echo' (hSameEcho ▸ hEcho')
    obtain ⟨hPinned, hSpares⟩ :=
      Traffic.poll_elsewhere h.traffic.accurate hServes.pinned hServes.wraps hAddr hPolled
    refine ⟨this, inner, hServes.follows hPinned (.refl this []) hSpares fun hAsleep => ?_⟩
    exact ⟨hSameSleep ▸ hAsleep, List.not_mem_nil⟩

variable [LawfulFile φ UInt8]

theorem beside (h : s.Sound) {act : Traffic.Act T Addr φ UInt8} (hAssumed : s.traffic.Assumed act)
    (hStep : s.traffic.step act = some s'.traffic)
    (hServes : ∀ addr echo, s'.echoes addr = some echo →
      (∃ this inner, s'.Serves addr echo this inner) ∨
        s.echoes addr = some echo ∧ act.target ≠ some addr ∧
          (s'.asleep addr = true → s.asleep addr = true ∧ addr ∉ s.traffic.woken act)) :
    s'.Sound := by
  refine ⟨h.traffic.step hAssumed hStep, fun addr echo hEcho' => ?_⟩
  obtain hDone | ⟨hEcho, hOther, hAsleep⟩ := hServes addr echo hEcho'
  · exact hDone
  · obtain ⟨this, inner, hServes⟩ := h.serves addr echo hEcho
    obtain ⟨this', hPinned, hFollows, hSpares⟩ := Traffic.step_elsewhere h.traffic.accurate
      hAssumed hStep hServes.pinned hServes.wraps hOther
    exact ⟨this', inner, hServes.follows hPinned hFollows hSpares hAsleep⟩

theorem opened (h : s.Sound) {fd : RawFd} (file : φ)
    (hFresh : ∀ addr, s.traffic.edge.world.held addr ≠ some fd) :
    Sound { s with traffic := (s.traffic.setFile fd file).book fd fun _ => .new file } := by
  have hAssumed : s.traffic.Assumed (.reopen fd file) := hFresh
  exact h.beside hAssumed rfl fun addr echo hEcho =>
    .inr ⟨hEcho, by simp [Traffic.Act.target], fun hAsleep => ⟨hAsleep, List.not_mem_nil⟩⟩

theorem spawn [LawfulAsyncReadExt ρ] (h : s.Sound) {addr : Addr} {fcntl : Fcntl} {value : T}
    {file : φ} (hAssumed : s.Assumed (.spawn addr fcntl value file))
    (hStep : s.step (.spawn addr fcntl value file) = some s') : s'.Sound := by
  obtain ⟨hUnsent, hFresh⟩ := hAssumed
  obtain ⟨traffic, hNew, hRun⟩ := Option.bind_eq_some_iff.mp hStep
  have hOpened := h.opened file hFresh
  have hBelow : ((s.traffic.setFile (asRawFd value) file).book (asRawFd value) fun _ =>
      .new file).Assumed (.new addr fcntl value) := hFresh
  split at hRun
  · rename_i hWrapped
    cases hRun
    obtain ⟨this, hThis⟩ := Option.isSome_iff_exists.mp hWrapped
    obtain ⟨edge, hEdge, rfl⟩ := Option.map_eq_some_iff.mp hNew
    obtain ⟨hFree, rfl⟩ := Edge.new_wraps hEdge hThis
    refine hOpened.beside hBelow hNew fun addr' echo hEcho => ?_
    obtain rfl | hAddr := eq_or_ne addr' addr
    · simp only [Function.update_self, Option.some.injEq] at hEcho
      subst hEcho
      refine .inl ⟨_, value, hThis, rfl, ⟨LawfulAsyncReadExt.next_read Echo.bufLen, ?_⟩,
        by rintro ⟨⟩, fun hWaits => absurd rfl hWaits, ?_⟩
      · simp [Traffic.book, Traffic.setFile, Account.new, hUnsent]
      · simp
    · simp only [Function.update_of_ne hAddr] at hEcho ⊢
      refine .inr ⟨hEcho, ?_, fun hAsleep => ⟨hAsleep, List.not_mem_nil⟩⟩
      simpa [Traffic.Act.target] using hAddr.symm
  · rename_i hUnwound
    cases hRun
    refine hOpened.beside hBelow hNew fun addr' echo hEcho => .inr ⟨hEcho, ?_, ?_⟩
    · rintro ⟨⟩
      -- an `echo` has its `Async` here, so that nothing new can be pinned
      obtain ⟨this, inner, hServes⟩ := hOpened.serves addr echo hEcho
      obtain ⟨edge, hEdge, rfl⟩ := Option.map_eq_some_iff.mp hNew
      have hStill := Edge.new_asyncs hEdge hServes.pinned
      simp [hStill] at hUnwound
    · exact fun hAsleep => ⟨hAsleep, List.not_mem_nil⟩

theorem drop (h : s.Sound) {addr : Addr} (hStep : s.step (.drop addr) = some s') : s'.Sound := by
  obtain ⟨echo, hEcho, hRun⟩ := Option.bind_eq_some_iff.mp hStep
  cases echo with
  | reading future => cases hRun
  | writing future => cases hRun
  | returned result =>
    obtain ⟨traffic, hDrop, hRun⟩ := Option.bind_eq_some_iff.mp hRun
    cases hRun
    have hAssumed : s.traffic.Assumed (.drop addr) := trivial
    refine h.beside hAssumed hDrop fun addr' echo hEcho => ?_
    obtain rfl | hAddr := eq_or_ne addr' addr
    · simp at hEcho
    · simp only [Function.update_of_ne hAddr] at hEcho ⊢
      refine .inr ⟨hEcho, ?_, fun hAsleep => ⟨hAsleep, List.not_mem_nil⟩⟩
      simpa [Traffic.Act.target] using hAddr.symm

end Sound

variable [LawfulFile φ UInt8] [LawfulAsyncReadExt ρ] [LawfulAsyncWriteExt ω]

theorem conducts_read {future : ρ} (hNext : AsyncReadExt.next future = .inl Echo.bufLen) :
    Conducts (.reading future : Echo ρ ω) (File.read Echo.bufLen : Call φ UInt8 (List UInt8))
      fun result => .afterRead (AsyncReadExt.resume future result) where
  obeys := LawfulFile.read Echo.bufLen
  interest := rfl
  ok file received accepted items hCall hEchoed := by
    obtain ⟨-, rfl⟩ := hEchoed
    rw [Echo.afterRead_eq (LawfulAsyncReadExt.next_resume (.ok items) hNext)]
    cases items with
    | nil =>
      obtain ⟨hUnread, hEnded⟩ := LawfulFile.recv_nil (by decide) hCall
      refine ⟨by simp [Echo.Echoed, File.read], fun _ => ?_⟩
      have hRead := LawfulFile.read (φ := φ) Echo.bufLen
      have hMoved := (hRead.ok file [] hCall).1
      exact ⟨hRead.ended file hEnded, hMoved.trans hUnread⟩
    | cons byte buf =>
      have hWrites := LawfulAsyncWriteExt.next_writeAll (ω := ω) (List.cons_ne_nil byte buf)
      simp only [Echo.afterWrite_writing hWrites]
      refine ⟨⟨byte :: buf, List.cons_ne_nil byte buf, hWrites, ?_⟩, by rintro ⟨⟩⟩
      simp [File.read]
  error e received accepted hEchoed := by
    obtain ⟨-, rfl⟩ := hEchoed
    rw [Echo.afterRead_eq (LawfulAsyncReadExt.next_resume (.error e) hNext)]
    exact ⟨List.prefix_refl _, by simp⟩

theorem conducts_write {future : ω} {buf : List UInt8} (unwritten : buf ≠ [])
    (hNext : AsyncWriteExt.next future = .inl buf) :
    Conducts (.writing future : Echo ρ ω) (File.write buf : Call φ UInt8 Nat)
      fun result => .afterWrite (AsyncWriteExt.resume future result) where
  obeys := LawfulFile.write buf
  interest := rfl
  ok file received accepted count hCall hEchoed := by
    obtain ⟨buf', -, hNext', rfl⟩ := hEchoed
    obtain rfl := Sum.inl.inj (hNext.symm.trans hNext')
    obtain ⟨hPositive, hBound⟩ := LawfulFile.send_ok unwritten hCall
    obtain hPart | rfl := hBound.lt_or_eq
    · have hWrites := LawfulAsyncWriteExt.next_part hNext hPositive hPart
      rw [Echo.afterWrite_writing hWrites]
      refine ⟨⟨_, List.drop_eq_nil_iff.not.mpr (by omega), hWrites, ?_⟩, by rintro ⟨⟩⟩
      simp [File.write, List.append_assoc]
    · rw [Echo.afterWrite_done (LawfulAsyncWriteExt.next_whole hNext unwritten)]
      refine ⟨⟨LawfulAsyncReadExt.next_read Echo.bufLen, ?_⟩, by rintro ⟨⟩⟩
      simp [File.write]
  error e received accepted hEchoed := by
    rw [Echo.afterWrite_failed (LawfulAsyncWriteExt.next_error hNext)]
    exact ⟨hEchoed.begins, by simp⟩

namespace Sound

theorem step (h : s.Sound) {act : Act T φ} (hAssumed : s.Assumed act)
    (hStep : s.step act = some s') : s'.Sound := by
  cases act with
  | spawn addr fcntl value file => exact h.spawn hAssumed hStep
  | poll addr =>
    obtain ⟨echo, hEcho, hRun⟩ := Option.bind_eq_some_iff.mp hStep
    obtain ⟨future, rfl, hNext, hTurn⟩ | ⟨future, buf, rfl, unwritten, hNext, hTurn⟩ :=
      h.poll_cases hEcho hRun
    · exact h.turn hEcho (conducts_read hNext) hTurn
    · exact h.turn hEcho (conducts_write unwritten hNext) hTurn
  | drop addr => exact h.drop hStep
  | beside act =>
    obtain ⟨hOther, hRun⟩ := Option.ite_none_left_eq_some.mp hStep
    obtain ⟨traffic, hBeside, hRun⟩ := Option.bind_eq_some_iff.mp hRun
    cases hRun
    refine h.beside hAssumed hBeside fun addr echo hEcho => .inr ⟨hEcho, fun hTarget => ?_, ?_⟩
    · rw [hTarget, Option.bind_some, hEcho] at hOther
      exact hOther rfl
    · intro hAsleep
      simpa using hAsleep

end Sound

/-- What the peer gets back and what is still to be echoed are what it has sent. -/
def EchoesAll (file : φ) (account : Account UInt8) : Echo ρ ω → Prop
  | .reading _ => account.fetched ++ File.unsent file ++ File.unread file = account.arrived
  | .writing future => ∃ buf, AsyncWriteExt.next future = .inl buf ∧
      account.fetched ++ File.unsent file ++ buf ++ File.unread file = account.arrived
  | .returned (.ok ()) =>
      account.fetched ++ File.unsent file = account.arrived ∧ File.ended file
  | .returned (.error _) => True

/-- There is nothing to read, or no room to write. -/
def Idles (file : φ) (account : Account UInt8) : Echo ρ ω → Prop
  | .reading _ =>
      account.fetched ++ File.unsent file = account.arrived ∧ File.readable file = false
  | .writing _ => File.writable file = false
  | .returned _ => False

/-- In every run, what the peer of an `echo` has fetched or can fetch, what `write_all`
still holds and what is unread make up what the peer has sent, in its order. An `echo`
that returns without an error has echoed everything up to the end of the stream. One
that is asleep between the operations has its descriptor queued, or has nothing to read
or no room to write. -/
theorem echoes_back {files : RawFd → φ} {acts : List (Act T φ)}
    (hAssumed : Meets step Assumed (init files : EchoServer T φ ρ ω) acts)
    (hRun : run step (init files) acts = some s) {addr : Addr} {echo : Echo ρ ω}
    (hEcho : s.echoes addr = some echo) :
    ∃ this inner, s.traffic.edge.world.asyncs addr = some this ∧ this.inner = some inner ∧
      let account := s.traffic.accounts (asRawFd inner)
      let file := s.traffic.files (asRawFd inner)
      account.fetched ++ File.unsent file <+: account.arrived ∧
      EchoesAll file account echo ∧
      (s.traffic.edge.phase = .idle → s.asleep addr = true →
        s.traffic.edge.kernel.queued (asRawFd inner) = true ∨ Idles file account echo) := by
  have hSound : s.Sound := invariant_of_meets (I := Sound)
    (fun _ _ _ h hOk hStep => h.step hOk hStep) (sound_init files) hAssumed hRun
  obtain ⟨this, inner, hServes⟩ := hSound.serves addr echo hEcho
  have hEchoed := hServes.echoed
  obtain ⟨hIncoming, hOutgoing⟩ := hSound.traffic.balanced (asRawFd inner)
  refine ⟨this, inner, hServes.pinned, hServes.wraps, ?_, ?_, fun hIdle hAsleep => ?_⟩
  · rw [hOutgoing, ← hIncoming]
    exact hEchoed.begins.trans (List.prefix_append _ _)
  · cases echo with
    | reading future => simp only [EchoesAll, hOutgoing, hEchoed.2, hIncoming]
    | writing future =>
      obtain ⟨buf, -, hNext, hWritten⟩ := hEchoed
      exact ⟨buf, hNext, by rw [hOutgoing, hWritten, hIncoming]⟩
    | returned result =>
      obtain e | ⟨⟨⟩⟩ := result
      · trivial
      · obtain ⟨hEnded, hUnread⟩ := hServes.ended rfl
        rw [hUnread, List.append_nil] at hIncoming
        simp only [Echo.Echoed] at hEchoed
        exact ⟨by rw [hOutgoing, hEchoed, hIncoming], hEnded⟩
  · obtain ⟨interest, hInterest, hMeet⟩ := hServes.waits hAsleep
    obtain ⟨b, hBit⟩ := ne_zero_iff.mp hMeet
    obtain ⟨hDirection, hWaits⟩ := has_and.mp hBit
    have hQueued := hSound.traffic.queued hIdle hServes.pinned hServes.wraps hWaits
    cases echo with
    | reading future =>
      obtain rfl := Option.some.inj hInterest
      obtain rfl := has_read_iff.mp hDirection
      cases hReadable : File.readable (s.traffic.files (asRawFd inner)) with
      | true => exact .inl (hQueued (has_directions_read.mpr hReadable))
      | false =>
        have hUnread : File.unread (s.traffic.files (asRawFd inner)) = [] := by
          by_contra hSome
          cases hReadable.symm.trans (LawfulFile.readable_of_unread hSome)
        rw [hUnread, List.append_nil] at hIncoming
        exact .inr ⟨by rw [hOutgoing, hEchoed.2, hIncoming], hReadable⟩
    | writing future =>
      obtain rfl := Option.some.inj hInterest
      obtain rfl := has_write_iff.mp hDirection
      cases hWritable : File.writable (s.traffic.files (asRawFd inner)) with
      | true => exact .inl (hQueued (has_directions_write.mpr hWritable))
      | false => exact .inr hWritable
    | returned result => cases hInterest

theorem echoes_back_asleep :
    let fcntl : Fcntl := ⟨fun _ => .ok 0#32, fun _ _ => .ok ()⟩
    let file (unread : List UInt8) : Buffered UInt8 := ⟨unread, false, [], 4⟩
    let acts : List (Act RawFd (Buffered UInt8)) :=
      [.spawn 0 fcntl 3 (file []), .beside (.change 3 (file [104, 105]) [104, 105] [] false),
        .poll 0, .poll 0, .poll 0, .beside .register]
    ∃ s : EchoServer RawFd (Buffered UInt8) ReadOnce WriteOn,
      run step (init fun _ => file []) acts = some s ∧
      (s.traffic.accounts 3).fetched ++ (s.traffic.files 3).unsent ++ (s.traffic.files 3).unread =
        [104, 105] := by
  intro fcntl file acts
  let s : EchoServer RawFd (Buffered UInt8) ReadOnce WriteOn :=
    (run step (init fun _ => file []) acts).get (by decide)
  have hRun : run step (init fun _ => file []) acts = some s := (Option.some_get _).symm
  have hAssumed : Meets step Assumed
      (init fun _ => file [] : EchoServer RawFd (Buffered UInt8) ReadOnce WriteOn) acts := by
    refine .cons ⟨rfl, by simp [World.held, init, Traffic.init, Edge.init, World.init]⟩ rfl ?_
    refine .cons ⟨rfl, rfl, by rintro ⟨⟩⟩ rfl ?_
    exact ⟨trivial, fun _ _ => ⟨trivial, fun _ _ => ⟨trivial, fun _ _ => ⟨trivial, fun _ _ =>
      trivial⟩⟩⟩⟩
  have hEcho : s.echoes 0 = some .start := by rfl
  obtain ⟨this, inner, hThis, hInner, -, hAll, -⟩ := echoes_back hAssumed hRun hEcho
  have hHeld : (s.traffic.edge.world.asyncs 0).map Async.inner = some (some 3) := by decide
  rw [hThis, Option.map_some, hInner] at hHeld
  cases hHeld
  have hArrived : (s.traffic.accounts 3).arrived = [104, 105] := by decide
  have hSame : asRawFd (3 : RawFd) = 3 := rfl
  rw [Echo.start, EchoesAll, hSame, hArrived] at hAll
  exact ⟨s, hRun, hAll⟩

end EchoServer

end Ground
