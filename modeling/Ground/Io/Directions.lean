import Ground.Io.Effects
import Ground.Io.Nonblocking
import Ground.Io.Skips

/-! # The two directions of one `Async`

Reading and writing share a waiter and have one bit of it each. A run and the
same run without the other direction are compared bit by bit.
-/

namespace Ground

open Mask

variable {T τ κ κ' σ R : Type} [AsRawFd T] [Epoll κ]

def Interest.opposite : Interest → Interest
  | .read => .write
  | .write => .read
  | .readWrite => .readWrite

theorem Interest.opposite_apart {interest : Interest} (h : interest ≠ .readWrite) {b : Nat}
    (hb : Has interest.asEvents b) : ¬ Has interest.opposite.asEvents b := by
  have hApart : interest.asEvents &&& interest.opposite.asEvents = 0#32 := by
    cases interest
    · decide
    · decide
    · exact absurd rfl h
  exact meet_eq_zero_iff.mp hApart b hb

theorem Interest.eq_opposite {interest other : Interest} (h : interest ≠ .readWrite)
    (hOther : other ≠ .readWrite) (hNe : other ≠ interest) : other = interest.opposite := by
  cases interest <;> cases other <;> simp_all [opposite]

def Attempt.Agrees : Attempt R → Attempt R → Prop
  | .blocked _, .blocked _ => True
  | attempt, attempt' => attempt = attempt'

namespace Session

def Act.only (interest : Interest) : Act T τ κ R → Option (Act T τ κ R)
  | .poll waker interest' f => if interest' = interest then some (.poll waker interest' f) else none
  | .event events => some (.event (events &&& ~~~interest.opposite.asEvents))
  | .elsewhere effect => some (.elsewhere effect)

namespace Entry

def isPollOn (interest : Interest) : Entry τ R → Bool
  | .polled _ interest' _ _ => interest' = interest
  | _ => false

/-- Two polls invoke their closures alike, and return alike unless the kernel
refuses the registration of one of them. -/
def Agrees : Entry τ R → Entry τ R → Prop
  | .polled waker interest attempt outcome, .polled waker' interest' attempt' outcome' =>
    waker = waker' ∧ interest = interest' ∧ attempt.Agrees attempt' ∧
      (outcome = outcome' ∨ outcome = .panic .register ∨ outcome' = .panic .register)
  | _, _ => False

theorem Agrees.blocks_iff {e e' : Entry τ R} (h : e.Agrees e') (b : Nat) :
    e.Blocks b ↔ e'.Blocks b := by
  obtain ⟨waker, interest, attempt, outcome⟩ | _ | _ := e
  · obtain ⟨waker', interest', attempt', outcome'⟩ | _ | _ := e'
    · obtain ⟨-, rfl, hAttempt, -⟩ := h
      cases attempt <;> cases attempt' <;> first | exact Iff.rfl | cases hAttempt
    · exact absurd h id
    · exact absurd h id
  · exact absurd h id
  · exact absurd h id

end Entry

def SameBits (interest : Interest) (s s' : Session T τ κ) : Prop :=
  s.Holds ∧ s'.Holds ∧ ∀ b, Has interest.asEvents b →
    (Has s.this.waiter.waitingFor b ↔ Has s'.this.waiter.waitingFor b)

variable {addr : Addr} {s s' : Session T τ κ} {interest : Interest}

theorem poll_agrees (hSame : SameBits interest s s') (addr : Addr) (waker : Waker τ)
    {f : Closure T R} (hOutcome : ∀ value value', (f value).1 = (f value').1) :
    (s.step addr (.poll waker interest f)).1.Agrees (s'.step addr (.poll waker interest f)).1 := by
  obtain ⟨hHolds, hHolds', hBits⟩ := hSame
  obtain ⟨inner, hInner⟩ := Option.isSome_iff_exists.mp hHolds
  obtain ⟨inner', hInner'⟩ := Option.isSome_iff_exists.mp hHolds'
  have hMeet : interest.asEvents &&& s.this.waiter.waitingFor = 0#32 ↔
      interest.asEvents &&& s'.this.waiter.waitingFor = 0#32 := by
    rw [meet_eq_zero_iff, meet_eq_zero_iff]
    exact forall_congr' fun b => imp_congr_right fun hb => not_congr (hBits b hb)
  have hBlocks : Closure.Blocks f inner ↔ Closure.Blocks f inner' := by
    rw [Closure.Blocks, Closure.Blocks, hOutcome inner inner']
  rw [step_poll_entry, step_poll_entry, Async.pollNonblocking_eq, Async.pollNonblocking_eq]
  obtain ⟨hSkip, hAttempt⟩ | ⟨hTry, hBlocked, hAttempt⟩ | ⟨hTry, hFinished, hAttempt⟩ :=
    Async.pollAttempt_cases hInner waker interest f
  · obtain ⟨-, hAttempt'⟩ | ⟨hTry', -⟩ | ⟨hTry', -⟩ :=
      Async.pollAttempt_cases hInner' waker interest f
    · rw [hAttempt, hAttempt']
      exact ⟨rfl, rfl, rfl, .inl rfl⟩
    · exact absurd (hMeet.mpr hTry') hSkip
    · exact absurd (hMeet.mpr hTry') hSkip
  · obtain ⟨hSkip', -⟩ | ⟨-, -, hAttempt'⟩ | ⟨-, hFinished', -⟩ :=
      Async.pollAttempt_cases hInner' waker interest f
    · exact absurd (hMeet.mp hTry) hSkip'
    · rw [hAttempt, hAttempt']
      refine ⟨rfl, rfl, trivial, ?_⟩
      obtain ⟨-, hPending⟩ | ⟨-, hRefused⟩ :=
        Async.pollFinish_blocked_outcome (R := R) addr interest s.reactor (asRawFd inner)
          ({ s.this with inner := some (f inner).2 }.block waker interest)
      · obtain ⟨-, hPending'⟩ | ⟨-, hRefused'⟩ :=
          Async.pollFinish_blocked_outcome (R := R) addr interest s'.reactor (asRawFd inner')
            ({ s'.this with inner := some (f inner').2 }.block waker interest)
        · exact .inl (hPending.trans hPending'.symm)
        · exact .inr (.inr hRefused')
      · exact .inr (.inl hRefused)
    · exact absurd (hBlocks.mp hBlocked) hFinished'
  · obtain ⟨hSkip', -⟩ | ⟨-, hBlocked', -⟩ | ⟨-, -, hAttempt'⟩ :=
      Async.pollAttempt_cases hInner' waker interest f
    · exact absurd (hMeet.mp hTry) hSkip'
    · exact absurd (hBlocks.mpr hBlocked') hFinished
    · rw [hAttempt, hAttempt', hOutcome inner inner']
      refine ⟨rfl, rfl, rfl, .inl ?_⟩
      cases (f inner').1 <;> rfl

theorem SameBits.poll (hSame : SameBits interest s s') (addr : Addr) (waker : Waker τ)
    {f : Closure T R} (hOutcome : ∀ value value', (f value).1 = (f value').1) :
    SameBits interest (s.step addr (.poll waker interest f)).2
      (s'.step addr (.poll waker interest f)).2 := by
  have hAgrees := poll_agrees hSame addr waker hOutcome
  refine ⟨hSame.1.step _, hSame.2.1.step _, fun b hb => ?_⟩
  rw [has_waitingFor_step hSame.1, has_waitingFor_step hSame.2.1, hAgrees.blocks_iff b,
    hSame.2.2 b hb]
  exact Iff.rfl

theorem SameBits.erased (hSame : SameBits interest s s') (hDirection : interest ≠ .readWrite)
    (addr : Addr) (waker : Waker τ) (f : Closure T R) :
    SameBits interest (s.step addr (.poll waker interest.opposite f)).2 s' := by
  refine ⟨hSame.1.step _, hSame.2.1, fun b hb => ?_⟩
  have hOther : ¬ (s.step addr (.poll waker interest.opposite f)).1.Blocks b := by
    rw [step_poll_entry]
    cases (s.this.pollAttempt waker interest.opposite f).1 with
    | blocked fd => exact Interest.opposite_apart hDirection hb
    | taken => exact id
    | skipped => exact id
    | finished outcome => exact id
  rw [has_waitingFor_step hSame.1, ← hSame.2.2 b hb]
  constructor
  · rintro (hBlocks | ⟨hWaits, -⟩)
    · exact absurd hBlocks hOther
    · exact hWaits
  · exact fun hWaits => .inr ⟨hWaits, id⟩

theorem SameBits.event (hSame : SameBits interest s s') (hDirection : interest ≠ .readWrite)
    (addr : Addr) (events : Events) :
    SameBits interest (s.step addr (.event (R := R) events)).2
      (s'.step addr (.event (R := R) (events &&& ~~~interest.opposite.asEvents))).2 := by
  refine ⟨hSame.1.step _, hSame.2.1.step _, fun b hb => ?_⟩
  have hOther := Interest.opposite_apart hDirection hb
  simp only [step, Reactor.deliver_waitingFor, has_and_not, hSame.2.2 b hb, hOther,
    not_false_eq_true, and_true]

theorem history_only_agrees (hDirection : interest ≠ .readWrite) (addr : Addr)
    {acts : List (Act T τ κ R)} (hPolls : ∀ waker i f, Act.poll waker i f ∈ acts → i ≠ .readWrite)
    (hOutcome : ∀ waker f, Act.poll waker interest f ∈ acts →
      ∀ value value', (f value).1 = (f value').1) (hSame : SameBits interest s s') :
    List.Forall₂ Entry.Agrees ((s.history addr acts).filter (Entry.isPollOn interest))
      ((s'.history addr (acts.filterMap (Act.only interest))).filter
        (Entry.isPollOn interest)) := by
  induction acts generalizing s s' with
  | nil => exact .nil
  | cons act acts ih =>
    have hPolls' : ∀ waker i f, Act.poll waker i f ∈ acts → i ≠ .readWrite :=
      fun waker i f hMem => hPolls waker i f (List.mem_cons_of_mem _ hMem)
    have hOutcome' : ∀ waker f, Act.poll waker interest f ∈ acts →
        ∀ value value', (f value).1 = (f value').1 :=
      fun waker f hMem => hOutcome waker f (List.mem_cons_of_mem _ hMem)
    cases act with
    | event events => exact ih hPolls' hOutcome' (hSame.event (R := R) hDirection addr events)
    | elsewhere effect =>
      have hSame' : SameBits interest { s with reactor := effect s.reactor }
          { s' with reactor := effect s'.reactor } := hSame
      exact ih hPolls' hOutcome' hSame'
    | poll waker i f =>
      obtain rfl | hOther := eq_or_ne i interest
      · have hClosure := hOutcome waker f List.mem_cons_self
        have hErased : (Act.poll waker i f :: acts).filterMap (Act.only i) =
            .poll waker i f :: acts.filterMap (Act.only i) := by
          simp [Act.only]
        rw [hErased]
        have hShown : ∀ t : Session T τ κ,
            Entry.isPollOn i (t.step addr (.poll waker i f)).1 = true := by
          intro t
          simp [step_poll_entry, Entry.isPollOn]
        simp only [history, exec, List.filter_cons, hShown, if_true]
        exact .cons (poll_agrees hSame addr waker hClosure)
          (ih hPolls' hOutcome' (hSame.poll addr waker hClosure))
      · obtain rfl := Interest.eq_opposite hDirection (hPolls waker i f List.mem_cons_self) hOther
        have hErased : (Act.poll waker interest.opposite f :: acts).filterMap (Act.only interest) =
            acts.filterMap (Act.only interest) := by
          simp [Act.only, hOther]
        have hHidden : Entry.isPollOn interest
            (s.step addr (.poll waker interest.opposite f)).1 = false := by
          simp [step_poll_entry, Entry.isPollOn, hOther]
        rw [hErased]
        simp only [history, exec, List.filter_cons, hHidden, Bool.false_eq_true, if_false]
        exact ih hPolls' hOutcome' (hSame.erased hDirection addr waker f)

/-- The closures keep this descriptor, and nothing else touches its entry. -/
def Act.Keeps (fd : RawFd) [InterestKernel κ'] : Act T τ κ' R → Prop
  | .poll _ _ f => ∀ value, asRawFd (f value).2 = asRawFd value
  | .event _ => True
  | .elsewhere effect => ∀ r, (effect r).list fd = r.list fd

/-- The session's own entry is in the list if it has one, and no other is. -/
structure Owned [InterestKernel κ'] (addr : Addr) (fd : RawFd) (s : Session T τ κ') : Prop where
  value : s.this.heldFd = some fd
  listed : s.this.Listed addr s.reactor.list
  covered : s.this.Covered
  free : s.this.waiter.registerFor = 0#32 → s.reactor.list fd = none

def Entry.Registers (fd : RawFd) : Entry τ R → Prop
  | .polled _ _ attempt outcome =>
    (∀ fd', attempt = .blocked fd' → fd' = fd) ∧ outcome ≠ .panic .register
  | _ => True

theorem Entry.Agrees.eq {fd : RawFd} {e e' : Entry τ R} (h : e.Agrees e')
    (hRegisters : e.Registers fd) (hRegisters' : e'.Registers fd) : e = e' := by
  obtain ⟨waker, interest, attempt, outcome⟩ | _ | _ := e
  case delivered => exact absurd h id
  case elsewhere => exact absurd h id
  obtain ⟨waker', interest', attempt', outcome'⟩ | _ | _ := e'
  case delivered => exact absurd h id
  case elsewhere => exact absurd h id
  obtain ⟨rfl, rfl, hAttempt, hOutcome⟩ := h
  obtain rfl := (hOutcome.resolve_right fun h => h.elim hRegisters.2 hRegisters'.2)
  obtain rfl : attempt = attempt' := by
    cases attempt with
    | blocked fd' =>
      cases attempt' with
      | blocked fd'' => rw [hRegisters.1 fd' rfl, hRegisters'.1 fd'' rfl]
      | _ => cases hAttempt
    | _ => cases attempt' <;> exact hAttempt
  rfl

theorem forall₂_agrees_eq {fd : RawFd} {entries entries' : List (Entry τ R)}
    (h : List.Forall₂ Entry.Agrees entries entries') (hAll : ∀ e ∈ entries, e.Registers fd)
    (hAll' : ∀ e ∈ entries', e.Registers fd) : entries = entries' := by
  induction h with
  | nil => rfl
  | cons hHead _ ih =>
    rw [hHead.eq (hAll _ List.mem_cons_self) (hAll' _ List.mem_cons_self),
      ih (fun e he => hAll e (List.mem_cons_of_mem _ he))
        fun e he => hAll' e (List.mem_cons_of_mem _ he)]

section

variable [InterestKernel κ'] {fd : RawFd} {t : Session T τ κ'}

theorem owned_fresh {inner : T} {r : Reactor κ'} (hFree : r.list (asRawFd inner) = none)
    (addr : Addr) : (fresh inner r : Session T τ κ').Owned addr (asRawFd inner) := by
  refine ⟨rfl, ?_, fun _ => within_refl _, fun _ => hFree⟩
  intro fd event hEntry
  rw [Async.entry_of_registerFor_eq_zero addr rfl] at hEntry
  cases hEntry

theorem Owned.poll (h : t.Owned addr fd) (waker : Waker τ) (interest : Interest) {f : Closure T R}
    (hFd : ∀ value, asRawFd (f value).2 = asRawFd value) :
    (t.step addr (.poll waker interest f)).1.Registers fd ∧
      (t.step addr (.poll waker interest f)).2.Owned addr fd := by
  obtain ⟨inner, hInner, rfl⟩ := Option.map_eq_some_iff.mp h.value
  have hKeeps : t.this.KeepsEntry t.reactor.list interest f := by
    intro value hValue _
    obtain rfl := Option.some.inj (hInner.symm.trans hValue)
    exact ⟨.inl (hFd inner), fun _ => h.free⟩
  have hFixed : t.this.Fixed f := fun value _ => hFd value
  have hHeld := Async.pollNonblocking_heldFd hFixed addr waker interest t.reactor
  obtain ⟨outcome, this', r', hPoll, hGranted, hRewrites, hCovered⟩ :=
    Async.pollNonblocking_rewrites h.listed h.covered waker hKeeps
  have hStep : t.step addr (.poll waker interest f) =
      (.polled waker interest (t.this.pollAttempt waker interest f).1 outcome, ⟨this', r'⟩) := by
    simp only [step, hPoll]
  rw [hPoll] at hHeld
  rw [hStep]
  refine ⟨⟨fun fd' hBlocked => ?_, hGranted.1⟩, hHeld.trans h.value,
    hRewrites.listed h.listed, hCovered, fun hReg => ?_⟩
  · obtain ⟨-, hAttempt⟩ | ⟨-, -, hAttempt⟩ | ⟨-, -, hAttempt⟩ :=
      Async.pollAttempt_cases hInner waker interest f
    · rw [hAttempt] at hBlocked
      cases hBlocked
    · rw [hAttempt] at hBlocked
      cases hBlocked
      rfl
    · rw [hAttempt] at hBlocked
      cases hBlocked
  · exact hRewrites.free hInner h.free (Async.entry_of_registerFor_eq_zero addr hReg)

theorem Owned.step (h : t.Owned addr fd) {act : Act T τ κ' R} (hKeeps : act.Keeps fd) :
    (t.step addr act).1.Registers fd ∧ (t.step addr act).2.Owned addr fd := by
  cases act with
  | poll waker interest f => exact h.poll waker interest hKeeps
  | event events =>
    refine ⟨trivial, h.value, h.listed, fun hSome => ?_, h.free⟩
    simp only [Session.step, Reactor.deliver_waitingFor, Reactor.deliver_registerFor]
    exact within_andNot.trans (h.covered hSome)
  | elsewhere effect =>
    have hList : (effect t.reactor).list fd = t.reactor.list fd := hKeeps t.reactor
    refine ⟨trivial, h.value, fun fd' event hEntry => ?_, h.covered, fun hReg =>
      hList.trans (h.free hReg)⟩
    obtain ⟨inner, hInner, rfl, -⟩ := Async.entry_eq_some_iff.mp hEntry
    obtain rfl := Option.some.inj ((congrArg (Option.map asRawFd) hInner).symm.trans h.value)
    exact hList.trans (h.listed _ _ hEntry)

theorem Owned.history (h : t.Owned addr fd) {acts : List (Act T τ κ' R)}
    (hKeeps : ∀ act ∈ acts, act.Keeps fd) : ∀ e ∈ t.history addr acts, e.Registers fd := by
  induction acts generalizing t with
  | nil => simp [Session.history, exec]
  | cons act acts ih =>
    obtain ⟨hNow, hAfter⟩ := h.step (hKeeps act (by simp))
    rintro e (_ | ⟨_, hMem⟩)
    · exact hNow
    · exact ih hAfter (fun act hMem => hKeeps act (List.mem_cons_of_mem _ hMem)) e hMem

theorem Act.Keeps.only {acts : List (Act T τ κ' R)}
    (hKeeps : ∀ act ∈ acts, act.Keeps fd) (interest : Interest) :
    ∀ act ∈ acts.filterMap (Act.only interest), act.Keeps fd := by
  intro act hMem
  obtain ⟨act', hMem', hOnly⟩ := List.mem_filterMap.mp hMem
  have hKept := hKeeps act' hMem'
  cases act' with
  | event events =>
    cases hOnly
    trivial
  | elsewhere effect =>
    cases hOnly
    exact hKept
  | poll waker i f =>
    obtain ⟨-, hSome⟩ := Option.ite_none_right_eq_some.mp hOnly
    cases hSome
    exact hKept

/-- A kernel that refuses no valid request shows no difference at all. -/
theorem history_only_eq {inner : T} {r : Reactor κ'} (hFree : r.list (asRawFd inner) = none)
    (addr : Addr) {interest : Interest} {acts : List (Act T τ κ' R)}
    (hDirection : interest ≠ .readWrite)
    (hPolls : ∀ waker i f, Act.poll waker i f ∈ acts → i ≠ .readWrite)
    (hOutcome : ∀ waker f, Act.poll waker interest f ∈ acts →
      ∀ value value', (f value).1 = (f value').1)
    (hKeeps : ∀ act ∈ acts, act.Keeps (asRawFd inner)) :
    ((fresh inner r).history addr acts).filter (Entry.isPollOn interest) =
      ((fresh inner r).history addr (acts.filterMap (Act.only interest))).filter
        (Entry.isPollOn interest) := by
  have hFresh : (fresh inner r : Session T τ κ').Holds := holds_fresh inner r
  have hAgrees := history_only_agrees hDirection addr hPolls hOutcome
    ⟨hFresh, hFresh, fun b _ => Iff.rfl⟩
  have hOwned : (fresh inner r : Session T τ κ').Owned addr (asRawFd inner) :=
    owned_fresh hFree addr
  exact forall₂_agrees_eq hAgrees
    (fun e he => hOwned.history hKeeps e (List.mem_filter.mp he).1)
    fun e he => hOwned.history (Act.Keeps.only hKeeps interest) e (List.mem_filter.mp he).1

end

/-- Each `WouldBlock` of an interest but the first needs an event of its own. -/
theorem blocked_le_carried (h : s.Holds) (addr : Addr) (acts : List (Act T τ κ R)) {b : Nat}
    (hb : Has interest.asEvents b) :
    (s.history addr acts).countP (fun e => e.BlockedOn interest) ≤
      (s.history addr acts).countP (fun e => e.Carries b) +
        if Has (s.after addr acts).this.waiter.waitingFor b then 1 else 0 := by
  induction acts using List.reverseRecOn with
  | nil => simp [history, exec]
  | append_singleton acts act ih =>
    have hHolds : (s.after addr acts).Holds := h.after acts
    have hStep := has_waitingFor_step hHolds addr act b
    rw [history_snoc, after_snoc, List.countP_append, List.countP_append, List.countP_singleton,
      List.countP_singleton]
    by_cases hBlocked : ((s.after addr acts).step addr act).1.BlockedOn interest
    · have hBefore : ¬ Has (s.after addr acts).this.waiter.waitingFor b := fun hWaits =>
        (not_invoked_of_waits hHolds hb hWaits act).1 hBlocked
      have hAfter := hStep.mpr (.inl (hBlocked.blocks hb))
      simp only [hBefore, hAfter, hBlocked, decide_true, if_true, if_false] at ih ⊢
      omega
    · by_cases hCarries : ((s.after addr acts).step addr act).1.Carries b
      · simp only [hBlocked, hCarries, decide_true, decide_false, Bool.false_eq_true, if_true,
          if_false]
        split at ih <;> omega
      · have hKept : Has (s.after addr acts).this.waiter.waitingFor b →
            Has ((s.after addr acts).step addr act).2.this.waiter.waitingFor b := fun hWaits =>
          hStep.mpr (.inr ⟨hWaits, hCarries⟩)
        simp only [hBlocked, hCarries, decide_false, Bool.false_eq_true, if_false]
        split at ih
        · rename_i hWaits
          rw [if_pos (hKept hWaits)]
          omega
        · omega

/-- Erasing the other direction changes neither the attempts of a direction nor
what they return, on a kernel that refuses no valid request, and on any other up
to its refusals; each `WouldBlock` but the first is paid for by an event; and a
future resolves with the first other outcome of its closure. -/
theorem directions_apart (inner : T) (r : Reactor κ) (addr : Addr) :
    (∀ {κ' : Type} [InterestKernel κ'] (r' : Reactor κ') (interest : Interest)
      (acts : List (Act T τ κ' R)), r'.list (asRawFd inner) = none →
      interest ≠ .readWrite → (∀ waker i f, Act.poll waker i f ∈ acts → i ≠ .readWrite) →
      (∀ waker f, Act.poll waker interest f ∈ acts → ∀ value value', (f value).1 = (f value').1) →
      (∀ act ∈ acts, act.Keeps (asRawFd inner)) →
      ((fresh inner r').history addr acts).filter (Entry.isPollOn interest) =
        ((fresh inner r').history addr (acts.filterMap (Act.only interest))).filter
          (Entry.isPollOn interest)) ∧
    (∀ (interest : Interest) (acts : List (Act T τ κ R)), interest ≠ .readWrite →
      (∀ waker i f, Act.poll waker i f ∈ acts → i ≠ .readWrite) →
      (∀ waker f, Act.poll waker interest f ∈ acts → ∀ value value', (f value).1 = (f value').1) →
      List.Forall₂ Entry.Agrees
        (((fresh inner r).history addr acts).filter (Entry.isPollOn interest))
        (((fresh inner r).history addr (acts.filterMap (Act.only interest))).filter
          (Entry.isPollOn interest))) ∧
    (∀ (interest : Interest) (acts : List (Act T τ κ R)) (b : Nat), Has interest.asEvents b →
      ((fresh inner r).history addr acts).countP (fun e => e.BlockedOn interest) ≤
        ((fresh inner r).history addr acts).countP (fun e => e.Carries b) + 1) ∧
    ∀ (s t : Awaiting T τ (σ × List (Outcome Unit (Except Error R))) κ)
      (acts : List (Awaiting.Act T τ σ κ R)), s.future.a.inner.isSome → s.future.captured.2 = [] →
      Transition.run (Awaiting.step addr) s acts = some t →
      ∀ (waker : Waker τ) (f : FnMut σ T R) (result : Except Error R),
        let polled := t.future.poll addr waker f.recorded t.reactor
        polled.1 = .ret (.ready result) ↔
          polled.2.1.captured.2.find? (fun outcome => !outcome.wouldBlock) =
            some (.ret result) := by
  have hFresh : (fresh inner r : Session T τ κ).Holds := holds_fresh inner r
  refine ⟨?_, ?_, ?_, ?_⟩
  · intro κ' _ r' interest acts hFree hDirection hPolls hOutcome hKeeps
    exact history_only_eq hFree addr hDirection hPolls hOutcome hKeeps
  · intro interest acts hDirection hPolls hOutcome
    exact history_only_agrees hDirection addr hPolls hOutcome ⟨hFresh, hFresh, fun b _ => Iff.rfl⟩
  · intro interest acts b hb
    have hCount := blocked_le_carried hFresh addr acts hb
    split at hCount <;> omega
  · intro s t acts hInner hRecord hRun waker f result
    have hBlocked : s.Blocked := ⟨hInner, by simp [hRecord]⟩
    exact (hBlocked.run hRun).resolves_first waker f result

theorem directions_apart_alternating :
    let acts : List (Act RawFd Nat InterestList Nat) :=
      [.poll (.task 1) .read .wouldBlock, .poll (.task 2) .write .wouldBlock,
        .event (EPOLLIN ||| EPOLLOUT), .poll (.task 1) .read (.done 5)]
    let s : Session RawFd Nat InterestList := fresh 3 (Reactor.new InterestList.empty)
    (s.history 0 acts).filter (Entry.isPollOn .read) =
      (s.history 0 [.poll (.task 1) .read .wouldBlock, .event EPOLLIN,
        .poll (.task 1) .read (.done 5)]).filter (Entry.isPollOn .read) := by
  intro acts s
  refine (directions_apart (T := RawFd) (σ := Unit) 3 (Reactor.new InterestList.empty) 0).1
    (Reactor.new InterestList.empty) .read acts rfl (by decide) ?_ ?_ ?_
  · simp only [acts, List.mem_cons, List.not_mem_nil, or_false]
    rintro waker i f (h | h | h | h) <;> cases h <;> decide
  · simp only [acts, List.mem_cons, List.not_mem_nil, or_false]
    rintro waker f (h | h | h | h) <;> cases h <;> exact fun _ _ => rfl
  · simp only [acts, List.mem_cons, List.not_mem_nil, or_false]
    rintro act (rfl | rfl | rfl | rfl)
    · exact fun _ => rfl
    · exact fun _ => rfl
    · trivial
    · exact fun _ => rfl

end Session

end Ground
