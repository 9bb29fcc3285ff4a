import Ground.Io.Nonblocking

/-! # Connecting

`Async::<TcpStream>::connect` and `Async::<UnixStream>::connect`. The two futures
differ in the address they build and in the closure they pass to `nonblocking`.
-/

namespace Ground.Net

def EINPROGRESS : Errno := 115

/-- The answers of the operating system to what one poll may ask. The value of
`SO_ERROR` is 0 when there is no error. -/
structure Os where
  socket : Except Errno RawFd
  fcntl : Fcntl
  connect : Except Errno Unit
  soError : Except Errno Errno

def Os.connectSocket (os : Os) : Except Error Unit := os.connect.mapError .fromRawOsError

def Os.takeError (os : Os) : Except Error (Option Error) :=
  match os.soError with
  | .error errno => .error (.fromRawOsError errno)
  | .ok errno => .ok (if errno = 0 then none else some (.fromRawOsError errno))

def Os.answering (connect : Except Errno Unit) : Os where
  socket := .ok 3
  fcntl := ⟨fun _ => .ok O_NONBLOCK, fun _ _ => .ok ()⟩
  connect := connect
  soError := .ok 0

/-- What a closure asked and was answered, and what was delivered to the waiter. -/
inductive Entry where
  | connect (answer : Except Errno Unit)
  | takeError (answer : Except Errno Errno)
  | delivered (events : Events)
  deriving DecidableEq

structure Connector (σ : Type) where
  address : Except Error Unit
  captured : σ
  attempt : Os → σ → Entry × Except Error Unit × σ

/-- The closure of `Async::<TcpStream>::connect`. -/
def tcpAttempt (os : Os) (calledConnect : Bool) : Entry × Except Error Unit × Bool :=
  if !calledConnect then
    let result :=
      match os.connectSocket with
      | .error e =>
        if e.rawOsError = some EINPROGRESS then .error (.fromRawOsError EAGAIN) else .error e
      | .ok () => .ok ()
    (.connect os.connect, result, true)
  else
    let result :=
      match os.takeError with
      | .error e => .error e
      | .ok (some err) => .error err
      | .ok none => .ok ()
    (.takeError os.soError, result, calledConnect)

def tcp : Connector Bool where
  address := .ok ()
  captured := false
  attempt := tcpAttempt

/-- The closure of `Async::<UnixStream>::connect`. -/
def unixAttempt (os : Os) (_captured : Unit) : Entry × Except Error Unit × Unit :=
  (.connect os.connect, os.connectSocket, ())

def unix (address : Except Error Unit) : Connector Unit where
  address := address
  captured := ()
  attempt := unixAttempt

variable {τ σ κ : Type}

def Connector.call (connector : Connector σ) (os : Os) : FnMut (σ × List Entry) RawFd Unit :=
  fun (captured, trace) socket =>
    let (entry, result, captured) := connector.attempt os captured
    (.ret result, (captured, trace ++ [entry]), socket)

inductive Stage (τ σ : Type) where
  | unresumed
  | connecting (socket : Nonblocking RawFd τ σ)
  | finished (outcome : Outcome Panic (Except Error (Async RawFd τ)))
  | dropped (outcome : Outcome Panic Unit)

structure Connect (τ σ κ : Type) where
  stage : Stage τ σ
  socket : Option RawFd
  reactor : Reactor κ
  trace : List Entry

variable [Epoll κ]

def conclude (os : Os) (a : Async RawFd τ) (r : Reactor κ) :
    Except Error Unit → Outcome Panic (Except Error (Async RawFd τ)) × Reactor κ
  | .error e =>
    let (dropped, r) := a.drop r
    (dropped >>= fun () => .ret (.error e), r)
  | .ok () =>
    match a.takeInner r with
    | (.panic p, a, r) => (.panic p, (a.drop r).2)
    | (.ret stream, a, r) =>
      let returned := Async.new os.fcntl stream
      let (dropped, r) := a.drop r
      (returned >>= fun returned => dropped >>= fun () => .ret (.ok returned), r)

namespace Connect

def start (r : Reactor κ) : Connect τ σ κ where
  stage := .unresumed
  socket := none
  reactor := r
  trace := []

def pollSocket (s : Connect τ σ κ) (connector : Connector σ) (addr : Addr) (waker : Waker τ)
    (os : Os) (socket : Nonblocking RawFd τ σ) : Connect τ σ κ :=
  let traced : Nonblocking RawFd τ (σ × List Entry) :=
    { a := socket.a, interest := socket.interest, captured := (socket.captured, s.trace) }
  let (outcome, traced, reactor) := traced.poll addr waker (connector.call os) s.reactor
  let s := { s with reactor, trace := traced.captured.2 }
  match outcome with
  | .ret .pending =>
    let socket :=
      { a := traced.a, interest := traced.interest, captured := traced.captured.1 }
    { s with stage := .connecting socket }
  | .ret (.ready result) =>
    let (outcome, reactor) := conclude os traced.a reactor result
    { s with stage := .finished outcome, reactor }
  | .panic p => { s with stage := .finished (.panic p), reactor := (traced.a.drop reactor).2 }

def poll (s : Connect τ σ κ) (connector : Connector σ) (addr : Addr) (waker : Waker τ) (os : Os) :
    Connect τ σ κ :=
  match s.stage with
  | .unresumed =>
    match os.socket with
    | .error errno => { s with stage := .finished (.ret (.error (.fromRawOsError errno))) }
    | .ok fd =>
      let s := { s with socket := some fd }
      match Async.new os.fcntl fd with
      | .panic p => { s with stage := .finished (.panic p) }
      | .ret a =>
        match connector.address with
        | .error e =>
          let (dropped, reactor) := a.drop s.reactor
          { s with stage := .finished (dropped >>= fun () => .ret (.error e)), reactor }
        | .ok () =>
          s.pollSocket connector addr waker os
            { a, interest := .write, captured := connector.captured }
  | .connecting socket => s.pollSocket connector addr waker os socket
  | .finished _ | .dropped _ => s

def deliver (s : Connect τ σ κ) (addr : Addr) (events : Events) : Connect τ σ κ :=
  match s.stage with
  | .connecting socket =>
    let (waiter, _) := Reactor.deliver { events, data := addr } socket.a.waiter
    let socket := { socket with a := { socket.a with waiter } }
    { s with stage := .connecting socket, trace := s.trace ++ [.delivered events] }
  | .unresumed | .finished _ | .dropped _ => s

def drop (s : Connect τ σ κ) : Connect τ σ κ :=
  match s.stage with
  | .connecting socket =>
    let (outcome, reactor) := socket.a.drop s.reactor
    { s with stage := .dropped outcome, reactor }
  | .unresumed | .finished _ | .dropped _ => { s with stage := .dropped (.ret ()) }

def ended (s : Connect τ σ κ) : Bool :=
  match s.stage with
  | .unresumed | .connecting _ => false
  | .finished _ | .dropped _ => true

inductive Act (τ κ : Type) where
  | poll (waker : Waker τ) (os : Os)
  | event (events : Events)
  | elsewhere (effect : κ → κ)
  | drop

def elsewhere (s : Connect τ σ κ) (effect : κ → κ) : Connect τ σ κ :=
  { s with reactor := { s.reactor with epfd := effect s.reactor.epfd } }

def step (connector : Connector σ) (addr : Addr) (s : Connect τ σ κ) (act : Act τ κ) :
    Option (Connect τ σ κ) :=
  if s.ended then none
  else
    match act with
    | .poll waker os => some (s.poll connector addr waker os)
    | .event events => some (s.deliver addr events)
    | .elsewhere effect => some (s.elsewhere effect)
    | .drop => some s.drop

omit [Epoll κ] in
theorem ended_of_connecting {s : Connect τ σ κ} {socket : Nonblocking RawFd τ σ}
    (h : s.stage = .connecting socket) : s.ended = false := by
  simp only [ended, h]

/-- A poll of the socket leaves it as it is, blocks on the answer it gets, or ends
the future with that answer. -/
theorem pollSocket_cases {socket : Nonblocking RawFd τ σ} {fd : RawFd}
    (hInner : socket.a.inner = some fd) (s : Connect τ σ κ) (connector : Connector σ) (addr : Addr)
    (waker : Waker τ) (os : Os) :
    let answered := connector.attempt os socket.captured
    let trace := s.trace ++ [answered.1]
    let registered := ensureRegistered fd addr (socket.a.block waker socket.interest).waiter
      socket.interest s.reactor
    let s' := s.pollSocket connector addr waker os socket
    (socket.interest.asEvents &&& socket.a.waiter.waitingFor ≠ 0#32 ∧
      s' = { s with stage := .connecting socket }) ∨
    (socket.interest.asEvents &&& socket.a.waiter.waitingFor = 0#32 ∧
      (∃ e, answered.2.1 = .error e ∧ e.kind = .wouldBlock) ∧ s'.socket = s.socket ∧
      s'.trace = trace ∧
      ((registered.1 = .panic .register ∧ s'.stage = .finished (.panic .register)) ∨
        (registered.1 = .ret () ∧ s'.reactor = registered.2.2 ∧ s'.stage = .connecting
          { socket with
            a := { inner := some fd, waiter := socket.blockedWaiter waker }
            captured := answered.2.2 }))) ∨
    (socket.interest.asEvents &&& socket.a.waiter.waitingFor = 0#32 ∧
      (∀ e, answered.2.1 = .error e → e.kind ≠ .wouldBlock) ∧
      s' =
        { s with
          stage := .finished (conclude os socket.a s.reactor answered.2.1).1
          reactor := (conclude os socket.a s.reactor answered.2.1).2
          trace }) := by
  intro answered trace registered s'
  let traced : Nonblocking RawFd τ (σ × List Entry) :=
    { a := socket.a, interest := socket.interest, captured := (socket.captured, s.trace) }
  have hTraced : traced.a.inner = some fd := hInner
  obtain ⟨hSkip, hPoll⟩ | ⟨hTry, hBlocks, outcome, hOutcome, hPoll⟩ | ⟨hTry, hEnd, hPoll⟩ :=
    Nonblocking.poll_cases hTraced addr waker (connector.call os) s.reactor
  · refine .inl ⟨hSkip, ?_⟩
    simp only [s', pollSocket]
    rw [hPoll]
  · refine .inr (.inl ⟨hTry, ?_, ?_⟩)
    · exact wouldBlock_ret_iff.mp hBlocks
    · simp only [s', pollSocket]
      rw [hPoll]
      obtain ⟨hRegistered, rfl⟩ | ⟨hRefused, rfl⟩ := hOutcome
      · exact ⟨rfl, rfl, .inr ⟨hRegistered, rfl, rfl⟩⟩
      · exact ⟨rfl, rfl, .inl ⟨hRefused, rfl⟩⟩
  · refine .inr (.inr ⟨hTry, ?_, ?_⟩)
    · intro e hError hKind
      have hBlocks : Outcome.wouldBlock (.ret answered.2.1) = true :=
        wouldBlock_ret_iff.mpr ⟨e, hError, hKind⟩
      exact absurd (hBlocks.symm.trans hEnd) (by decide)
    · have hSame : ({ socket.a with inner := some fd } : Async RawFd τ) = socket.a := by
        rw [← hInner]
      simp only [s', pollSocket]
      rw [hPoll]
      simp only [Nonblocking.invoked, Connector.call, Outcome.resolved, traced, hSame]
      rfl

end Connect

end Ground.Net
