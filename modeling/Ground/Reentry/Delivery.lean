import Ground.Reentry.Machine

/-! # Delivery reaches live waiters

An event that is not delivered yet keeps its entry, because nothing is removed
from the list while the reactor is borrowed. Its waiter is registered, so a waker
that would free it panics, and that ends the dispatch.
-/

namespace Ground

open Mask Transition

variable {T τ κ R : Type} [AsRawFd T]

namespace Async

omit [AsRawFd T] in
theorem deregisterBorrowed_ret {this : Async T τ} (h : this.deregisterBorrowed = .ret ()) :
    this.waiter.registerFor = 0#32 ∨ this.inner = none := by
  unfold deregisterBorrowed at h
  split at h
  · rename_i hReg
    exact .inl hReg
  · split at h
    · rename_i hInner
      exact .inr hInner
    · cases h

theorem Claims.cleared {this : Async T τ} {addr : Addr} {list : InterestList}
    (h : this.Claims addr list) (hFree : this.waiter.registerFor = 0#32 ∨ this.inner = none) :
    Cleared addr list := by
  intro fd event hEvent hOwn
  obtain ⟨hFd, hWithin, hSome⟩ := h fd event hEvent hOwn
  obtain hReg | hInner := hFree
  · obtain ⟨b, hb⟩ := ne_zero_iff.mp hSome
    have hBit := hWithin.has hb
    rw [hReg] at hBit
    exact not_has_zero hBit
  · simp [heldFd, hInner] at hFd

theorem ensureRegisteredBorrowed_within (waiter : Waiter τ) (interest : Interest) :
    Within waiter.registerFor (ensureRegisteredBorrowed waiter interest).2.registerFor := by
  unfold ensureRegisteredBorrowed
  simp only
  split
  · exact within_refl _
  · exact within_or_left.trans within_or_left

theorem pollNonblockingBorrowed_keeps {this : Async T τ} {f : Closure T R} (hFixed : this.Fixed f)
    (waker : Waker τ) (interest : Interest) :
    let polled := this.pollNonblockingBorrowed waker interest f
    polled.2.heldFd = this.heldFd ∧
      Within this.waiter.registerFor polled.2.waiter.registerFor := by
  intro polled
  simp only [polled, pollNonblockingBorrowed]
  cases hInner : this.inner with
  | none =>
    rw [pollAttempt_taken hInner]
    exact ⟨rfl, within_refl _⟩
  | some inner =>
    have hFd := hFixed inner hInner
    obtain ⟨-, hAttempt⟩ | ⟨-, -, hAttempt⟩ | ⟨-, -, hAttempt⟩ :=
      pollAttempt_cases hInner waker interest f
    · rw [hAttempt]
      exact ⟨rfl, within_refl _⟩
    · rw [hAttempt]
      let blocked := { this with inner := some (f inner).2 }.block waker interest
      have hWithin := ensureRegisteredBorrowed_within blocked.waiter interest
      have hHeld : blocked.heldFd = this.heldFd := by simp [blocked, heldFd, hInner, hFd]
      simp only
      generalize ensureRegisteredBorrowed blocked.waiter interest = result at hWithin
      obtain ⟨_ | p, waiter⟩ := result
      · exact ⟨hHeld, hWithin⟩
      · exact ⟨hHeld, hWithin⟩
    · rw [hAttempt]
      have hHeld : { this with inner := some (f inner).2 }.heldFd = this.heldFd := by
        simp [heldFd, hInner, hFd]
      obtain value | p := (f inner).1
      · exact ⟨hHeld, within_refl _⟩
      · exact ⟨hHeld, within_refl _⟩

theorem Claims.takeBorrowed {this : Async T τ} {addr : Addr} {list : InterestList}
    (h : this.Claims addr list) : this.takeInnerBorrowed.2.Claims addr list := by
  unfold takeInnerBorrowed
  split
  · exact h
  · rename_i hFree
    split
    · exact h
    · exact (h.cleared (deregisterBorrowed_ret hFree)).claims _

theorem Claims.pollBorrowed {this : Async T τ} {addr : Addr} {list : InterestList}
    (h : this.Claims addr list) (waker : Waker τ) (interest : Interest) {f : Closure T R}
    (hFixed : this.Fixed f) :
    (this.pollNonblockingBorrowed waker interest f).2.Claims addr list := by
  obtain ⟨hFd, hReg⟩ := pollNonblockingBorrowed_keeps hFixed waker interest
  exact h.grow hFd hReg

theorem Claims.closeBorrowed {this : Async T τ} {addr : Addr} {list : InterestList}
    (h : this.Claims addr list) (waker : Waker τ) {flush : Closure T Unit}
    (hFixed : this.Fixed flush) : (this.pollCloseBorrowed waker flush).2.Claims addr list := by
  have hPolled := h.pollBorrowed waker .write hFixed
  unfold pollCloseBorrowed
  split
  · rename_i mid hPoll
    rw [hPoll] at hPolled
    have hTaken := hPolled.takeBorrowed
    split
    · rename_i hTake
      rwa [hTake] at hTaken
    · rename_i hTake
      rwa [hTake] at hTaken
  · rename_i hPoll
    rwa [hPoll] at hPolled

end Async

namespace World

def settled (w : World T τ κ) : World T τ κ :=
  { w with reactor := { w.reactor with isDispatching := false } }

variable [InterestKernel κ] {w w' : World T τ κ}

theorem performBorrowed_reactor {act : Act T τ R} {outcome : Ended}
    (h : w.performBorrowed act = some (outcome, w')) : w'.reactor = w.reactor := by
  cases act with
  | new addr fcntl value =>
    obtain ⟨⟨response, world⟩, hPerform, hRun⟩ := Option.bind_eq_some_iff.mp h
    cases hRun
    obtain ⟨-, ⟨p, -, -, rfl⟩ | ⟨this, -, -, rfl⟩⟩ := perform_new hPerform
    · rfl
    · rfl
  | replace addr value =>
    obtain ⟨⟨response, world⟩, hPerform, hRun⟩ := Option.bind_eq_some_iff.mp h
    cases hRun
    obtain ⟨this, -, ⟨-, -, rfl⟩ | ⟨inner, -, -, rfl⟩⟩ := perform_replace hPerform
    · rfl
    · rfl
  | swap addr addr' =>
    obtain ⟨⟨response, world⟩, hPerform, hRun⟩ := Option.bind_eq_some_iff.mp h
    cases hRun
    obtain ⟨this, that, -, -, -, ⟨-, rfl⟩ | ⟨value, value', -, -, -, rfl⟩⟩ :=
      perform_swap hPerform
    · rfl
    · rfl
  | dispatch answer =>
    cases h
    rfl
  | poll addr waker interest f =>
    obtain ⟨this, -, hRun⟩ := Option.bind_eq_some_iff.mp h
    cases hRun
    rfl
  | close addr waker flush =>
    obtain ⟨this, -, hRun⟩ := Option.bind_eq_some_iff.mp h
    cases hRun
    rfl
  | take addr =>
    obtain ⟨this, -, hRun⟩ := Option.bind_eq_some_iff.mp h
    cases hRun
    rfl
  | drop addr =>
    obtain ⟨this, -, hRun⟩ := Option.bind_eq_some_iff.mp h
    cases hRun
    rfl

omit [AsRawFd T] [InterestKernel κ] in
theorem set_kept {addr : Addr} (h : (w.asyncs addr).isSome) (addr' : Addr) (this : Async T τ)
    (r : Reactor κ) : ((w.set addr' this r).asyncs addr).isSome := by
  simp only [set, Function.update_apply]
  split
  · rfl
  · exact h

theorem performBorrowed_kept {addr : Addr} (hLive : (w.asyncs addr).isSome) {act : Act T τ R}
    {outcome : Ended} (h : w.performBorrowed act = some (outcome, w'))
    (hOther : act ≠ .drop addr) : (w'.asyncs addr).isSome := by
  cases act with
  | new addr' fcntl value =>
    obtain ⟨⟨response, world⟩, hPerform, hRun⟩ := Option.bind_eq_some_iff.mp h
    cases hRun
    obtain ⟨-, ⟨p, -, -, rfl⟩ | ⟨this, -, -, rfl⟩⟩ := perform_new hPerform
    · exact hLive
    · exact set_kept hLive ..
  | replace addr' value =>
    obtain ⟨⟨response, world⟩, hPerform, hRun⟩ := Option.bind_eq_some_iff.mp h
    cases hRun
    obtain ⟨this, -, ⟨-, -, rfl⟩ | ⟨inner, -, -, rfl⟩⟩ := perform_replace hPerform
    · exact set_kept hLive ..
    · exact set_kept hLive ..
  | swap addr' addr'' =>
    obtain ⟨⟨response, world⟩, hPerform, hRun⟩ := Option.bind_eq_some_iff.mp h
    cases hRun
    obtain ⟨this, that, -, -, -, ⟨-, rfl⟩ | ⟨value, value', -, -, -, rfl⟩⟩ :=
      perform_swap hPerform
    · exact hLive
    · exact set_kept (set_kept hLive ..) ..
  | dispatch answer =>
    cases h
    exact hLive
  | poll addr' waker interest f =>
    obtain ⟨this, -, hRun⟩ := Option.bind_eq_some_iff.mp h
    cases hRun
    exact set_kept hLive ..
  | close addr' waker flush =>
    obtain ⟨this, -, hRun⟩ := Option.bind_eq_some_iff.mp h
    cases hRun
    exact set_kept hLive ..
  | take addr' =>
    obtain ⟨this, -, hRun⟩ := Option.bind_eq_some_iff.mp h
    cases hRun
    exact set_kept hLive ..
  | drop addr' =>
    obtain ⟨this, -, hRun⟩ := Option.bind_eq_some_iff.mp h
    cases hRun
    have hAddr : addr ≠ addr' := fun hSame => hOther (hSame ▸ rfl)
    simp only [Function.update_of_ne hAddr, hLive]

theorem perform_isDispatching {act : Act T τ R} (hPlain : ∀ answer, act ≠ .dispatch answer)
    {response : Response τ} (h : w.perform act = some (response, w')) :
    w'.reactor.isDispatching = w.reactor.isDispatching := by
  cases act with
  | new addr fcntl value =>
    obtain ⟨-, ⟨p, -, -, rfl⟩ | ⟨this, -, -, rfl⟩⟩ := perform_new h
    · rfl
    · rfl
  | replace addr value =>
    obtain ⟨this, -, ⟨-, -, rfl⟩ | ⟨inner, -, -, rfl⟩⟩ := perform_replace h
    · rfl
    · rfl
  | swap addr addr' =>
    obtain ⟨this, that, -, -, -, ⟨-, rfl⟩ | ⟨value, value', -, -, -, rfl⟩⟩ := perform_swap h
    · rfl
    · rfl
  | dispatch answer => exact absurd rfl (hPlain answer)
  | poll addr waker interest f =>
    obtain ⟨this, -, hRun⟩ := Option.bind_eq_some_iff.mp h
    cases hRun
    exact this.pollNonblocking_isDispatching addr waker interest f w.reactor
  | close addr waker flush =>
    obtain ⟨this, -, hRun⟩ := Option.bind_eq_some_iff.mp h
    cases hRun
    exact this.pollClose_isDispatching addr waker flush w.reactor
  | take addr =>
    obtain ⟨this, -, hRun⟩ := Option.bind_eq_some_iff.mp h
    cases hRun
    exact this.takeInner_isDispatching w.reactor
  | drop addr =>
    obtain ⟨this, -, hRun⟩ := Option.bind_eq_some_iff.mp h
    cases hRun
    exact this.deregister_isDispatching w.reactor

theorem attempt_isDispatching {trial : Trial T τ R}
    (hPlain : ∀ answer, trial ≠ .call (.dispatch answer)) {response : Response τ}
    (h : w.attempt trial = some (response, w')) :
    w'.reactor.isDispatching = w.reactor.isDispatching := by
  cases trial with
  | call act => exact perform_isDispatching (fun answer hAct => hPlain answer (hAct ▸ rfl)) h
  | refused errno act =>
    cases act with
    | poll addr waker interest f =>
      obtain ⟨this, -, hRun⟩ := Option.bind_eq_some_iff.mp h
      cases hRun
      exact this.pollNonblocking_isDispatching addr waker interest f (w.reactor.refusing errno)
    | close addr waker flush =>
      obtain ⟨this, -, hRun⟩ := Option.bind_eq_some_iff.mp h
      cases hRun
      exact this.pollClose_isDispatching addr waker flush (w.reactor.refusing errno)
    | _ => cases h

/-- A call in a waker leaves every entry with its `Async`, unless it is a drop
that panics: the memory is gone all the same. -/
theorem Claimed.performBorrowed (h : w.settled.Claimed) {act : Act T τ R}
    (hStays : w.Stays (.call act)) {outcome : Ended}
    (hPerform : w.performBorrowed act = some (outcome, w'))
    (hDrop : ∀ addr, act = .drop addr → outcome = .ret ()) : w'.settled.Claimed := by
  have hSet : ∀ {addr : Addr} {this : Async T τ}, this.Claims addr w.settled.reactor.list →
      (w.setAsync addr this).settled.Claimed := fun {addr} {this} hClaims =>
    h.set (r := w.settled.reactor) h.idle ⟨hClaims, .refl addr _⟩
  cases act with
  | new addr fcntl value =>
    obtain ⟨⟨response, world⟩, hNew, hRun⟩ := Option.bind_eq_some_iff.mp hPerform
    cases hRun
    obtain ⟨hFree, ⟨p, -, -, rfl⟩ | ⟨this, -, -, rfl⟩⟩ := perform_new hNew
    · exact h
    · exact hSet ((h.cleared hFree).claims this)
  | replace addr value =>
    obtain ⟨⟨response, world⟩, hReplace, hRun⟩ := Option.bind_eq_some_iff.mp hPerform
    cases hRun
    obtain ⟨this, hThis, ⟨-, -, rfl⟩ | ⟨inner, hInner, -, rfl⟩⟩ := perform_replace hReplace
    · exact hSet (h.claims addr this hThis)
    · apply hSet
      apply (h.claims addr this hThis).grow
      · simp only [Async.heldFd, hInner, Option.map_some, hStays this inner hThis hInner]
      · exact within_refl _
  | swap addr addr' =>
    obtain ⟨⟨response, world⟩, hSwap, hRun⟩ := Option.bind_eq_some_iff.mp hPerform
    cases hRun
    obtain ⟨this, that, hThis, hThat, -, hCases⟩ := perform_swap hSwap
    obtain ⟨-, rfl⟩ | ⟨value, value', hInner, hInner', -, rfl⟩ := hCases
    · exact h
    · have hSame := hStays this that value value' hThis hThat hInner hInner'
      have hFirst : (w.setAsync addr { this with inner := some value' }).settled.Claimed := by
        apply hSet
        apply (h.claims addr this hThis).grow
        · simp only [Async.heldFd, hInner, Option.map_some, hSame]
        · exact within_refl _
      have hClaims : { that with inner := some value }.Claims addr' w.settled.reactor.list := by
        apply (h.claims addr' that hThat).grow
        · simp only [Async.heldFd, hInner', Option.map_some, hSame]
        · exact within_refl _
      exact hFirst.set hFirst.idle ⟨hClaims, .refl addr' _⟩
  | dispatch answer =>
    cases hPerform
    exact h
  | poll addr waker interest f =>
    obtain ⟨this, hThis, hRun⟩ := Option.bind_eq_some_iff.mp hPerform
    cases hRun
    exact hSet ((h.claims addr this hThis).pollBorrowed waker interest (hStays this hThis))
  | close addr waker flush =>
    obtain ⟨this, hThis, hRun⟩ := Option.bind_eq_some_iff.mp hPerform
    cases hRun
    exact hSet ((h.claims addr this hThis).closeBorrowed waker (hStays this hThis))
  | take addr =>
    obtain ⟨this, hThis, hRun⟩ := Option.bind_eq_some_iff.mp hPerform
    cases hRun
    exact hSet (h.claims addr this hThis).takeBorrowed
  | drop addr =>
    obtain ⟨this, hThis, hRun⟩ := Option.bind_eq_some_iff.mp hPerform
    obtain ⟨hOutcome, rfl⟩ := Prod.mk.inj (Option.some.inj hRun)
    have hReturns := hOutcome.trans (hDrop addr rfl)
    have hCleared := (h.claims addr this hThis).cleared (Async.deregisterBorrowed_ret hReturns)
    exact h.update (r := w.settled.reactor) h.idle (.refl addr _) (by simp) fun _ => hCleared

omit [AsRawFd T] in
theorem epollWait_listed {answer : Except Errno (List (RawFd × Events))} {length : Nat}
    {events : List EpollEvent} (hWait : w.epollWait answer length = .ok events) :
    ∀ event ∈ events, ∃ fd entry, w.reactor.list fd = some entry ∧ entry.data = event.data := by
  intro event hMem
  obtain errno | reports := answer
  · cases hWait
  · cases hWait
    obtain ⟨⟨fd, mask⟩, -, hReport⟩ := List.mem_filterMap.mp (List.mem_of_mem_take hMem)
    obtain ⟨entry, hList, rfl⟩ := Option.map_eq_some_iff.mp hReport
    exact ⟨fd, entry, hList, rfl⟩

end World

def Stack.undelivered : Stack → List EpollEvent
  | .idle => []
  | .delivering events | .waking events => events

namespace Thread

variable [InterestKernel κ] {s s' : Thread T τ κ}

def Poisoned (s : Thread T τ κ) : Prop :=
  s.stack = .idle ∧ s.world.reactor.isDispatching = true

/-- Every undelivered event has its entry still. -/
def Pointed (s : Thread T τ κ) (events : List EpollEvent) : Prop :=
  ∀ event ∈ events, ∃ fd entry,
    s.world.reactor.list fd = some entry ∧ entry.data = event.data

/-- Unless the thread is poisoned, every entry belongs to a live `Async`. -/
def Sound (s : Thread T τ κ) : Prop :=
  match s.stack with
  | .idle => s.world.reactor.isDispatching = false → s.world.Claimed
  | .delivering events | .waking events =>
    s.world.reactor.isDispatching = true ∧ s.world.settled.Claimed ∧ s.Pointed events

/-- A wrapped value keeps its descriptor, and no waker goes on after a drop
that panicked. -/
def Stays (s : Thread T τ κ) : Act T τ R → Prop
  | .call trial => s.world.Stays trial
  | .caught act => s.world.Stays (.call act) ∧ ∀ addr this, act = .drop addr →
      s.world.asyncs addr = some this → this.deregisterBorrowed = .ret ()
  | .deliver | .wakerReturns | .wakerPanics => True

theorem sound_init {kernel : κ} (hEmpty : InterestKernel.interest kernel = .empty) :
    (init kernel : Thread T τ κ).Sound := fun _ => World.claimed_init hEmpty

namespace Sound

theorem busy {events : List EpollEvent} (hBusy : s.world.reactor.isDispatching = true)
    (hClaimed : s.world.settled.Claimed) (hPointed : s.Pointed events)
    (hStack : s.stack = .delivering events ∨ s.stack = .waking events) : s.Sound := by
  obtain hStack | hStack := hStack
  · simp only [Sound, hStack]
    exact ⟨hBusy, hClaimed, hPointed⟩
  · simp only [Sound, hStack]
    exact ⟨hBusy, hClaimed, hPointed⟩

theorem dispatch (h : s.Sound) (hIdle : s.stack = .idle)
    (answer : Except Errno (List (RawFd × Events))) : (s.dispatch answer).2.Sound := by
  unfold Thread.dispatch
  split
  · exact h
  · rename_i hFree
    split
    · exact h
    · rename_i events hWait
      simp only [Sound, hIdle] at h
      have hFree := eq_false_of_ne_true hFree
      have hSettled : s.world.settled.Claimed := by
        have hSame : s.world.settled = s.world := by
          simp only [World.settled, ← hFree]
        rw [hSame]
        exact h hFree
      exact ⟨rfl, hSettled, World.epollWait_listed hWait⟩

theorem attempt (h : s.Sound) (hIdle : s.stack = .idle) {trial : World.Trial T τ R}
    (hPlain : ∀ answer, trial ≠ .call (.dispatch answer)) (hStays : s.world.Stays trial)
    {response : World.Response τ} {w' : World T τ κ}
    (hAttempt : s.world.attempt trial = some (response, w')) :
    Sound { s with world := w' } := by
  have hSame := World.attempt_isDispatching hPlain hAttempt
  simp only [Sound, hIdle] at h ⊢
  intro hFree
  exact (h (hSame.symm.trans hFree)).attempt hStays hAttempt

theorem deliver (h : s.Sound) {events : List EpollEvent} (hStack : s.stack = .delivering events)
    {outcome : Ended} (hDeliver : s.deliver events = some (outcome, s')) : s'.Sound := by
  simp only [Sound, hStack] at h
  obtain ⟨hBusy, hClaimed, hPointed⟩ := h
  cases events with
  | nil =>
    cases hDeliver
    exact fun _ => hClaimed
  | cons event events =>
    obtain ⟨this, hThis, hRun⟩ := Option.bind_eq_some_iff.mp hDeliver
    cases hRun
    have hThat : { this with waiter := (Reactor.deliver event this.waiter).1 }.Claims event.data
        s.world.settled.reactor.list :=
      (hClaimed.claims event.data this hThis).grow rfl (within_refl _)
    have hNext := hClaimed.set (r := s.world.settled.reactor) hClaimed.idle
      ⟨hThat, .refl event.data _⟩
    have hLater := fun e hMem => hPointed e (List.mem_cons_of_mem event hMem)
    refine busy hBusy hNext hLater (?_ : _ = Stack.delivering events ∨ _)
    simp only
    split
    · exact .inl rfl
    · exact .inr rfl

theorem waking (h : s.Sound) {events : List EpollEvent} (hStack : s.stack = .waking events)
    {act : World.Act T τ R} (hStays : s.world.Stays (.call act)) {outcome : Ended}
    {w' : World T τ κ} (hPerform : s.world.performBorrowed act = some (outcome, w'))
    (hDrop : ∀ addr, act = .drop addr → outcome = .ret ()) :
    Sound { world := w', stack := .waking events } := by
  simp only [Sound, hStack] at h
  obtain ⟨hBusy, hClaimed, hPointed⟩ := h
  have hReactor := World.performBorrowed_reactor hPerform
  refine ⟨hReactor ▸ hBusy, hClaimed.performBorrowed hStays hPerform hDrop, ?_⟩
  simp only [Pointed, hReactor]
  exact hPointed

theorem unwound (h : s.Sound) {events : List EpollEvent} (hStack : s.stack = .waking events)
    {w' : World T τ κ} (hSame : w'.reactor = s.world.reactor) :
    Sound { world := w', stack := .idle } := by
  simp only [Sound, hStack] at h
  intro hFree
  rw [hSame, h.1] at hFree
  cases hFree

theorem nested (h : s.Sound) {events : List EpollEvent} (hStack : s.stack = .waking events)
    {act : World.Act T τ R} (hStays : s.world.Stays (.call act)) {outcome : Ended}
    {w' : World T τ κ} (hPerform : s.world.performBorrowed act = some (outcome, w')) :
    (Thread.nested events (outcome, w')).2.Sound := by
  cases outcome with
  | panic p => exact h.unwound hStack (World.performBorrowed_reactor hPerform)
  | ret value => exact h.waking hStack hStays hPerform fun _ _ => rfl

theorem step {act : Act T τ R} (h : s.Sound) (hStays : s.Stays act)
    (hStep : s.step act = some s') : s'.Sound := by
  obtain ⟨⟨outcome, _⟩, hPerform, rfl⟩ := Option.map_eq_some_iff.mp hStep
  obtain ⟨hIdle, ⟨answer, rfl, hRun⟩ | ⟨trial, response, w', rfl, hPlain, hRun, -, rfl⟩⟩ |
    ⟨events, hStack, hCases⟩ | ⟨events, hStack, rfl, hRun⟩ := perform_cases hPerform
  · have hDispatch := h.dispatch hIdle answer
    rwa [hRun] at hDispatch
  · exact h.attempt hIdle hPlain hStays hRun
  · obtain ⟨trial, outcome', w', rfl, hRun, hEnd⟩ | ⟨call, w', rfl, hRun, rfl⟩ |
      ⟨rfl, -, rfl⟩ | ⟨rfl, hEnd⟩ := hCases
    · have hNested := h.nested hStack hStays hRun
      rwa [← hEnd] at hNested
    · refine h.waking hStack hStays.1 hRun fun addr hDrop => ?_
      subst hDrop
      obtain ⟨this, hThis, hEnd⟩ := Option.bind_eq_some_iff.mp hRun
      cases hEnd
      exact hStays.2 addr this rfl hThis
    · simp only [Sound, hStack] at h
      exact h
    · cases hEnd
      exact h.unwound hStack rfl
  · exact h.deliver hStack hRun

end Sound

theorem sound_of_run {kernel : κ} (hEmpty : InterestKernel.interest kernel = .empty)
    {acts : List (Act T τ R)} (hStays : Meets step Stays (init kernel) acts)
    (hRun : run step (init kernel) acts = some s) : s.Sound :=
  invariant_of_meets (I := Sound) (fun _ _ _ h hStays hStep => h.step hStays hStep)
    (sound_init hEmpty) hStays hRun

/-- The waiter of an undelivered event is alive and registered. -/
theorem Sound.undelivered (h : s.Sound) {event : EpollEvent}
    (hMem : event ∈ s.stack.undelivered) :
    ∃ fd entry this, s.world.reactor.list fd = some entry ∧ entry.data = event.data ∧
      s.world.asyncs event.data = some this ∧ this.heldFd = some fd ∧
      this.waiter.registerFor ≠ 0#32 := by
  have hBoth : s.world.settled.Claimed ∧ s.Pointed s.stack.undelivered := by
    unfold Sound at h
    split at h
    · rename_i hStack
      rw [hStack] at hMem
      cases hMem
    · rename_i hStack
      exact ⟨h.2.1, hStack ▸ h.2.2⟩
    · rename_i hStack
      exact ⟨h.2.1, hStack ▸ h.2.2⟩
  obtain ⟨hClaimed, hPointed⟩ := hBoth
  obtain ⟨fd, entry, hList, hData⟩ := hPointed event hMem
  have hLive := hClaimed.live fd entry hList
  rw [hData] at hLive
  obtain ⟨this, hThis⟩ := Option.isSome_iff_exists.mp hLive
  obtain ⟨hFd, hWithin, hSome⟩ := hClaimed.claims event.data this hThis fd entry hList hData
  exact ⟨fd, entry, this, hList, hData, hThis, hFd, hWithin.ne_zero hSome⟩

omit [AsRawFd T] [InterestKernel κ] in
theorem deliver_isSome_iff {event : EpollEvent} {events : List EpollEvent} :
    (s.deliver (event :: events)).isSome ↔ (s.world.asyncs event.data).isSome := by
  simp only [deliver]
  cases s.world.asyncs event.data with
  | none => simp
  | some this => simp

/-- However wakers call back into the thread, each event that is still to be
delivered has its entry and a live waiter, so the delivery loop always goes on.
Wakers may drop, close or poll anything, start a dispatch of their own or panic,
and registrations may be refused; descriptors may be shared. -/
theorem delivery_goes_on {kernel : κ} (hEmpty : InterestKernel.interest kernel = .empty)
    {acts : List (Act T τ R)} (hStays : Meets step Stays (init kernel) acts)
    (hRun : run step (init kernel) acts = some s) :
    (∀ event ∈ s.stack.undelivered, ∃ fd entry this, s.world.reactor.list fd = some entry ∧
      entry.data = event.data ∧ s.world.asyncs event.data = some this) ∧
    ∀ events, s.stack = .delivering events → (s.step (R := R) .deliver).isSome := by
  have hSound := sound_of_run hEmpty hStays hRun
  refine ⟨fun event hMem => ?_, fun events hStack => ?_⟩
  · obtain ⟨fd, entry, this, hList, hData, hThis, -⟩ := hSound.undelivered hMem
    exact ⟨fd, entry, this, hList, hData, hThis⟩
  · simp only [step, perform, hStack, Option.isSome_map]
    cases events with
    | nil => rfl
    | cons event events =>
      obtain ⟨-, -, this, -, -, hThis, -⟩ :=
        hSound.undelivered (by simp [hStack, Stack.undelivered] : event ∈ s.stack.undelivered)
      simp only [deliver_isSome_iff, hThis, Option.isSome_some]

/-- The waker of the first event polls a new `Async`, closes the second one, whose
value has been flushed, and catches the panic of that. -/
theorem delivery_goes_on_closing :
    let fcntl : Fcntl := ⟨fun _ => .ok 0#32, fun _ _ => .ok ()⟩
    let acts : List (Act RawFd Nat Unit) :=
      [.call (.call (.new 0 fcntl 3)), .call (.call (.poll 0 (.task 1) .read .wouldBlock)),
        .call (.call (.new 1 fcntl 4)), .call (.call (.poll 1 (.task 2) .read .wouldBlock)),
        .call (.call (.dispatch (.ok [(3, EPOLLIN), (4, EPOLLIN)]))), .deliver,
        .call (.call (.new 2 fcntl 5)), .call (.call (.poll 2 (.task 1) .read (.done ()))),
        .caught (.close 1 (.task 1) (.done ())), .wakerReturns]
    ∃ s : Thread RawFd Nat InterestList, run step (init InterestList.empty) acts = some s ∧
      s.stack = .delivering [⟨EPOLLIN, 1⟩] ∧ (s.step (R := Unit) .deliver).isSome := by
  intro fcntl acts
  have hRun : run step (init InterestList.empty) acts =
      some (_ : Thread RawFd Nat InterestList) := rfl
  refine ⟨_, hRun, rfl, (delivery_goes_on rfl ?_ hRun).2 _ rfl⟩
  refine .cons trivial rfl (.cons (fun this _ inner _ => rfl) rfl ?_)
  refine .cons trivial rfl (.cons (fun this _ inner _ => rfl) rfl ?_)
  refine .cons trivial rfl (.cons trivial rfl (.cons trivial rfl ?_))
  refine .cons (fun this _ inner _ => rfl) rfl (.cons ⟨fun this _ inner _ => rfl, ?_⟩ rfl ?_)
  · rintro addr this ⟨⟩
  · exact .cons trivial rfl trivial

def Act.Quiet : Act T τ R → Prop
  | .deliver | .wakerReturns => True
  | .call _ | .caught _ | .wakerPanics => False

def Dangles (s : Thread T τ κ) : Prop :=
  ∃ event events, s.stack = .delivering (event :: events) ∧ s.world.asyncs event.data = none

omit [AsRawFd T] [InterestKernel κ] in
theorem deliver_asyncs {event : EpollEvent} (hLive : (s.world.asyncs event.data).isSome)
    (events : List EpollEvent) :
    ∃ s', s.deliver (event :: events) = some (.ret (), s') ∧
      (s'.stack = .delivering events ∨ s'.stack = .waking events) ∧
      ∀ addr, (s'.world.asyncs addr).isSome = (s.world.asyncs addr).isSome := by
  obtain ⟨this, hThis⟩ := Option.isSome_iff_exists.mp hLive
  refine ⟨_, by simp only [deliver, hThis, Option.bind_eq_bind, Option.bind_some]; rfl, ?_, ?_⟩
  · simp only
    split
    · exact .inl rfl
    · exact .inr rfl
  · intro addr
    simp only [World.setAsync, World.set, Function.update_apply]
    split
    · rename_i hAddr
      rw [hAddr, hThis, Option.isSome_some, Option.isSome_some]
    · rfl

theorem quiet_step {act : Act T τ R} (hQuiet : act.Quiet) (hStep : s.step act = some s') :
    (∀ addr, (s'.world.asyncs addr).isSome = (s.world.asyncs addr).isSome) ∧
      ∀ event ∈ s'.stack.undelivered, event ∈ s.stack.undelivered := by
  obtain ⟨⟨outcome, _⟩, hPerform, rfl⟩ := Option.map_eq_some_iff.mp hStep
  obtain ⟨hIdle, ⟨answer, rfl, -⟩ | ⟨trial, response, w', rfl, -⟩⟩ | ⟨events, hStack, hCases⟩ |
    ⟨events, hStack, rfl, hRun⟩ := perform_cases hPerform
  · exact hQuiet.elim
  · exact hQuiet.elim
  · obtain ⟨trial, outcome', w', rfl, -⟩ | ⟨call, w', rfl, -⟩ | ⟨rfl, -, rfl⟩ | ⟨rfl, -⟩ := hCases
    · exact hQuiet.elim
    · exact hQuiet.elim
    · rw [hStack]
      exact ⟨fun _ => rfl, fun _ => id⟩
    · exact hQuiet.elim
  · cases events with
    | nil =>
      cases hRun
      exact ⟨fun _ => rfl, fun _ hMem => absurd hMem List.not_mem_nil⟩
    | cons event events =>
      have hLive : (s.world.asyncs event.data).isSome :=
        deliver_isSome_iff.mp (Option.isSome_iff_exists.mpr ⟨_, hRun⟩)
      obtain ⟨t, hDeliver, hNext, hAsyncs⟩ := deliver_asyncs hLive events
      cases hRun.symm.trans hDeliver
      refine ⟨hAsyncs, fun e hMem => ?_⟩
      rw [hStack]
      obtain hNext | hNext := hNext
      · rw [hNext] at hMem
        exact List.mem_cons_of_mem event hMem
      · rw [hNext] at hMem
        exact List.mem_cons_of_mem event hMem

theorem quiet_run {before after : List EpollEvent} {event : EpollEvent}
    (hStack : s.stack = .delivering (before ++ event :: after) ∨
      s.stack = .waking (before ++ event :: after))
    (hLive : ∀ e ∈ before, (s.world.asyncs e.data).isSome)
    (hGone : s.world.asyncs event.data = none) :
    ∃ (acts : List (Act T τ R)) (t : Thread T τ κ), (∀ act ∈ acts, act.Quiet) ∧
      run step s acts = some t ∧ t.Dangles := by
  induction before generalizing s with
  | nil =>
    obtain hStack | hStack := hStack
    · exact ⟨[], s, by simp, rfl, event, after, hStack, hGone⟩
    · refine ⟨[.wakerReturns], { s with stack := .delivering (event :: after) }, ?_, ?_, event,
        after, rfl, hGone⟩
      · simp [Act.Quiet]
      · simp only [run, step, perform, hStack]
        rfl
  | cons e before ih =>
    have hDeliver : ∀ s : Thread T τ κ, s.stack = .delivering (e :: before ++ event :: after) →
        (∀ e' ∈ e :: before, (s.world.asyncs e'.data).isSome) →
        s.world.asyncs event.data = none →
        ∃ (acts : List (Act T τ R)) (t : Thread T τ κ), (∀ act ∈ acts, act.Quiet) ∧
          run step s acts = some t ∧ t.Dangles := by
      intro s hStack hLive hGone
      obtain ⟨s', hRun, hNext, hAsyncs⟩ :=
        deliver_asyncs (hLive e List.mem_cons_self) (before ++ event :: after)
      have hStep : s.step (.deliver : Act T τ R) = some s' := by
        simp only [step, perform, hStack, List.cons_append, hRun, Option.map_some]
      have hGone' : s'.world.asyncs event.data = none := by
        rw [← Option.not_isSome_iff_eq_none, hAsyncs, Option.not_isSome_iff_eq_none]
        exact hGone
      obtain ⟨acts, t, hQuiet, hRest, hDangles⟩ := ih hNext
        (fun e' hMem => (hAsyncs e'.data).trans (hLive e' (List.mem_cons_of_mem e hMem))) hGone'
      exact ⟨.deliver :: acts, t, List.forall_mem_cons.mpr ⟨trivial, hQuiet⟩,
        run_cons_eq_some.mpr ⟨s', hStep, hRest⟩, hDangles⟩
    obtain hStack | hStack := hStack
    · exact hDeliver s hStack hLive hGone
    · let s' : Thread T τ κ := { s with stack := .delivering (e :: before ++ event :: after) }
      have hStep : s.step (.wakerReturns : Act T τ R) = some s' := by
        simp only [step, perform, hStack]
        rfl
      obtain ⟨acts, t, hQuiet, hRest, hDangles⟩ := hDeliver s' rfl hLive hGone
      exact ⟨.wakerReturns :: acts, t, List.forall_mem_cons.mpr ⟨trivial, hQuiet⟩,
        run_cons_eq_some.mpr ⟨s', hStep, hRest⟩, hDangles⟩

omit [AsRawFd T] in
theorem exists_first_gone (asyncs : Addr → Option (Async T τ)) {events : List EpollEvent}
    (h : ∃ event ∈ events, asyncs event.data = none) :
    ∃ before event after, events = before ++ event :: after ∧ asyncs event.data = none ∧
      ∀ e ∈ before, (asyncs e.data).isSome := by
  induction events with
  | nil => simp at h
  | cons e events ih =>
    cases hThis : asyncs e.data with
    | none => exact ⟨[], e, events, rfl, hThis, by simp⟩
    | some this =>
      obtain ⟨event, hMem, hGone⟩ := h
      obtain rfl | hMem := List.mem_cons.mp hMem
      · cases hThis.symm.trans hGone
      · obtain ⟨before, event', after, rfl, hFirst, hLive⟩ := ih ⟨event, hMem, hGone⟩
        refine ⟨e :: before, event', after, rfl, hFirst, List.forall_mem_cons.mpr ⟨?_, hLive⟩⟩
        simp [hThis]

/-- A waker makes a call and goes on although it panicked. If the other wakers do
nothing, the dispatch comes to write through a dangling pointer exactly when the
call was the drop of an `Async` that one of the undelivered events is for. -/
theorem caught_dangles_iff {kernel : κ} (hEmpty : InterestKernel.interest kernel = .empty)
    {acts : List (Act T τ R)} (hStays : Meets step Stays (init kernel) acts)
    (hRun : run step (init kernel) acts = some s) {events : List EpollEvent}
    (hStack : s.stack = .waking events) {act : World.Act T τ R} {outcome : Ended}
    (hPerform : s.perform (.caught act) = some (outcome, s')) :
    (∃ (later : List (Act T τ R)) (t : Thread T τ κ), (∀ act ∈ later, act.Quiet) ∧
      run step s' later = some t ∧ t.Dangles) ↔
      ∃ event ∈ events, act = .drop event.data := by
  have hSound := sound_of_run hEmpty hStays hRun
  simp only [perform, hStack] at hPerform
  obtain ⟨⟨_, w'⟩, hCall, hEnd⟩ := Option.map_eq_some_iff.mp hPerform
  cases hEnd
  constructor
  · rintro ⟨later, t, hQuiet, hLater, event, rest, hThere, hGone⟩
    let I (t : Thread T τ κ) : Prop :=
      (∀ addr, (t.world.asyncs addr).isSome = (w'.asyncs addr).isSome) ∧
        ∀ event ∈ t.stack.undelivered, event ∈ events
    have hInv : I t := invariant_of_meets (I := I) (fun t act t' hInv hOk hStep => by
        obtain ⟨hAsyncs, hEvents⟩ := quiet_step hOk hStep
        exact ⟨fun addr => (hAsyncs addr).trans (hInv.1 addr),
          fun event hMem => hInv.2 event (hEvents event hMem)⟩)
      ⟨fun _ => rfl, fun _ => id⟩ (meets_of_mem hQuiet _) hLater
    have hMem : event ∈ events := hInv.2 event (by simp [hThere, Stack.undelivered])
    refine ⟨event, hMem, ?_⟩
    obtain ⟨fd, entry, this, -, -, hThis, -⟩ :=
      hSound.undelivered (by simpa [hStack, Stack.undelivered] using hMem)
    by_contra hOther
    have hLive := World.performBorrowed_kept (by simp [hThis]) hCall hOther
    rw [← hInv.1, hGone] at hLive
    cases hLive
  · rintro ⟨event, hMem, rfl⟩
    obtain ⟨that, -, hEnd⟩ := Option.bind_eq_some_iff.mp hCall
    cases hEnd
    obtain ⟨before, event', after, hSplit, hGone, hLive⟩ :=
      exists_first_gone (Function.update s.world.asyncs event.data none)
        ⟨event, hMem, Function.update_self ..⟩
    exact quiet_run (.inr (congrArg Stack.waking hSplit)) hLive hGone

/-- The waker of the first event drops the `Async` of the third. -/
theorem caught_dangles_iff_dropped :
    let fcntl : Fcntl := ⟨fun _ => .ok 0#32, fun _ _ => .ok ()⟩
    let acts : List (Act RawFd Nat Unit) :=
      [.call (.call (.new 0 fcntl 3)), .call (.call (.poll 0 (.task 1) .read .wouldBlock)),
        .call (.call (.new 1 fcntl 4)), .call (.call (.poll 1 (.task 2) .read .wouldBlock)),
        .call (.call (.new 2 fcntl 5)), .call (.call (.poll 2 (.task 3) .read .wouldBlock)),
        .call (.call (.dispatch (.ok [(3, EPOLLIN), (4, EPOLLIN), (5, EPOLLIN)]))), .deliver]
    ∃ s s' : Thread RawFd Nat InterestList,
      run step (init InterestList.empty) acts = some s ∧
      s.perform (R := Unit) (.caught (.drop 2)) = some (.panic .borrow, s') ∧
      ∃ (later : List (Act RawFd Nat Unit)) (t : Thread RawFd Nat InterestList),
        run step s' later = some t ∧ t.Dangles := by
  intro fcntl acts
  let s : Thread RawFd Nat InterestList :=
    (run step (init InterestList.empty) acts).getD (init InterestList.empty)
  have hRun : run step (init InterestList.empty) acts = some s := rfl
  have hStack : s.stack = .waking [⟨EPOLLIN, 1⟩, ⟨EPOLLIN, 2⟩] := rfl
  have hStays : Meets step Stays (init InterestList.empty : Thread RawFd Nat InterestList)
      acts := by
    refine .cons trivial rfl (.cons (fun this _ inner _ => rfl) rfl ?_)
    refine .cons trivial rfl (.cons (fun this _ inner _ => rfl) rfl ?_)
    refine .cons trivial rfl (.cons (fun this _ inner _ => rfl) rfl ?_)
    exact .cons trivial rfl (.cons trivial rfl trivial)
  obtain ⟨later, t, -, hLater, hDangles⟩ :=
    (caught_dangles_iff rfl hStays hRun hStack rfl).mpr ⟨⟨EPOLLIN, 2⟩, by simp, rfl⟩
  exact ⟨s, _, hRun, rfl, later, t, hLater, hDangles⟩

end Thread

end Ground
