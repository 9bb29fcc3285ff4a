import Ground.Io.Wakers

/-! # When a poll is skipped

One word records what three overlapping interests are blocked on. A poll is
skipped for a bit that it shares with any of them, so the word speaks for an
interest only while that interest itself has set all of its bits.
-/

namespace Ground

open Mask History

variable {T τ κ R : Type} [AsRawFd T] [Epoll κ]

namespace Session

namespace Entry

/-- The closure ran for this interest and returned `WouldBlock`. -/
def BlockedOn (interest : Interest) : Entry τ R → Prop
  | .polled _ interest' (.blocked _) _ => interest' = interest
  | _ => False

instance (interest : Interest) : DecidablePred (BlockedOn (τ := τ) (R := R) interest)
  | .polled _ interest' (.blocked _) _ => inferInstanceAs (Decidable (interest' = interest))
  | .polled _ _ .taken _ => inferInstanceAs (Decidable False)
  | .polled _ _ .skipped _ => inferInstanceAs (Decidable False)
  | .polled _ _ (.finished _) _ => inferInstanceAs (Decidable False)
  | .delivered _ _ => inferInstanceAs (Decidable False)
  | .elsewhere => inferInstanceAs (Decidable False)

instance (b : Nat) : DecidablePred (Carries (τ := τ) (R := R) b)
  | .delivered events _ => inferInstanceAs (Decidable (Has events b))
  | .polled _ _ _ _ => inferInstanceAs (Decidable False)
  | .elsewhere => inferInstanceAs (Decidable False)

def FinishedOn (interest : Interest) : Entry τ R → Prop
  | .polled _ interest' (.finished _) _ => interest' = interest
  | _ => False

theorem BlockedOn.blocks {interest : Interest} {e : Entry τ R} (h : e.BlockedOn interest) {b : Nat}
    (hb : Has interest.asEvents b) : e.Blocks b := by
  obtain ⟨waker, interest', _ | _ | fd | outcome, _⟩ | _ | _ := e
  case polled.blocked =>
    obtain rfl := h
    exact hb
  all_goals exact absurd h id

theorem BlockedOn.interest_eq {interest interest' : Interest} {waker : Waker τ}
    {attempt : Attempt R} {outcome : Outcome Panic (Poll (Except Error R))}
    (h : BlockedOn interest (.polled waker interest' attempt outcome)) :
    interest' = interest := by
  cases attempt with
  | blocked fd => exact h
  | taken => exact absurd h id
  | skipped => exact absurd h id
  | finished outcome => exact absurd h id

end Entry

/-- The closure of the latest such poll returned `WouldBlock`, unless it was
skipped, and no event in a direction of the interest has been delivered since. -/
def LeftBlocked (interest : Interest) (entries : List (Entry τ R)) : Prop :=
  Since (Entry.BlockedOn interest) (fun e => e.FinishedOn interest ∨ e.CarriesAny interest) entries

variable {addr : Addr} {s : Session T τ κ}

theorem not_invoked_of_waits (h : s.Holds) {interest : Interest} {b : Nat}
    (hb : Has interest.asEvents b) (hWaits : Has s.this.waiter.waitingFor b)
    (act : Act T τ κ R) :
    ¬ (s.step addr act).1.BlockedOn interest ∧ ¬ (s.step addr act).1.FinishedOn interest := by
  cases act with
  | event events => exact ⟨id, id⟩
  | elsewhere effect => exact ⟨id, id⟩
  | poll waker interest' f =>
    obtain ⟨inner, hInner⟩ := Option.isSome_iff_exists.mp h
    rw [step_poll_entry]
    obtain ⟨-, hAttempt⟩ | ⟨hTry, -, hAttempt⟩ | ⟨hTry, -, hAttempt⟩ :=
      Async.pollAttempt_cases hInner waker interest' f
    · rw [hAttempt]
      exact ⟨id, id⟩
    · rw [hAttempt]
      refine ⟨?_, id⟩
      rintro rfl
      exact meet_eq_zero_iff.mp hTry b hb hWaits
    · rw [hAttempt]
      refine ⟨id, ?_⟩
      rintro rfl
      exact meet_eq_zero_iff.mp hTry b hb hWaits

theorem leftBlocked_of_each (h : s.Holds) {interest : Interest} {acts : List (Act T τ κ R)}
    (hEach : ∀ b, Has interest.asEvents b →
      Since (Entry.BlockedOn interest) (Entry.Carries b) (s.history addr acts)) :
    LeftBlocked interest (s.history addr acts) := by
  obtain ⟨b, hb⟩ := ne_zero_iff.mp interest.asEvents_ne_zero
  induction acts using List.reverseRecOn with
  | nil => exact absurd (hEach b hb) not_since_nil
  | append_singleton acts act ih =>
    simp only [history_snoc, LeftBlocked, since_snoc] at hEach ⊢
    by_cases hNow : ((s.after addr acts).step addr act).1.BlockedOn interest
    · exact .inl hNow
    · have hEarlier := fun b hb => (hEach b hb).resolve_left hNow
      refine .inr ⟨ih fun b hb => (hEarlier b hb).1, ?_⟩
      rintro (hFinished | ⟨b', hb', hCarries⟩)
      · -- the interest's bit is still awaited, so the closure did not run
        have hWaits : Has (s.after addr acts).this.waiter.waitingFor b :=
          (has_waitingFor_after h acts b).mpr
            (.inl ((hEarlier b hb).1.mono (fun e he => he.blocks hb) fun _ => id))
        exact (not_invoked_of_waits (h.after acts) hb hWaits act).2 hFinished
      · exact (hEarlier b' hb').2 hCarries

omit [Epoll κ] in
theorem skipped_iff (h : s.Holds) (waker : Waker τ) (interest : Interest) (f : Closure T R) :
    (s.this.pollAttempt waker interest f).1 = .skipped ↔
      interest.asEvents &&& s.this.waiter.waitingFor ≠ 0#32 := by
  obtain ⟨inner, hInner⟩ := Option.isSome_iff_exists.mp h
  obtain ⟨hSkip, hAttempt⟩ | ⟨hTry, -, hAttempt⟩ | ⟨hTry, -, hAttempt⟩ :=
    Async.pollAttempt_cases hInner waker interest f
  · simp [hAttempt, hSkip]
  · simp [hAttempt, hTry]
  · simp [hAttempt, hTry]

/-- What a run is made of when it is left open what its closures do. -/
inductive Label where
  | poll (interest : Interest)
  | event (events : Events)
  | elsewhere

def Act.label : Act T τ κ R → Label
  | .poll _ interest _ => .poll interest
  | .event events => .event events
  | .elsewhere _ => .elsewhere

def Entry.label : Entry τ R → Label
  | .polled _ interest _ _ => .poll interest
  | .delivered events _ => .event events
  | .elsewhere => .elsewhere

def Label.Carries (b : Nat) : Label → Prop
  | .event events => Has events b
  | _ => False

theorem Entry.label_carries {e : Entry τ R} {b : Nat} : e.label.Carries b ↔ e.Carries b := by
  cases e <;> rfl

theorem step_label (act : Act T τ κ R) : (s.step addr act).1.label = act.label := by
  cases act <;> rfl

theorem history_labels (acts : List (Act T τ κ R)) :
    (s.history addr acts).map Entry.label = acts.map Act.label := by
  induction acts using List.reverseRecOn with
  | nil => rfl
  | append_singleton acts act ih =>
    rw [history_snoc, List.map_append, List.map_append, ih]
    exact congrArg (_ ++ [·]) (step_label act)

/-- Two polls that share a direction have an event with that direction between
them, or else the same interest and no event with any of its directions. -/
def Apart (schedule : List Label) : Prop :=
  ∀ earlier j between i later,
    schedule = earlier ++ .poll j :: between ++ .poll i :: later →
    ∀ b, Has i.asEvents b → Has j.asEvents b →
      (∃ l ∈ between, l.Carries b) ∨
        (j = i ∧ ∀ l ∈ between, ∀ b', Has i.asEvents b' → ¬ l.Carries b')

/-- Every poll of the run is skipped only for what its own interest is blocked on. -/
def SkipsOnlyBlocked (inner : T) (r : Reactor κ) (addr : Addr) (acts : List (Act T τ κ R)) : Prop :=
  ∀ before waker interest f, before ++ [.poll waker interest f] <+: acts →
    (((fresh inner r).after addr before).this.pollAttempt waker interest f).1 = .skipped →
    LeftBlocked interest ((fresh inner r).history addr before)

theorem Apart.skipsOnlyBlocked {acts : List (Act T τ κ R)} (h : Apart (acts.map Act.label))
    (inner : T) (r : Reactor κ) (addr : Addr) : SkipsOnlyBlocked inner r addr acts := by
  rintro before waker interest f ⟨later, rfl⟩ hSkip
  have hFresh : (fresh inner r : Session T τ κ).Holds := holds_fresh inner r
  obtain ⟨b, hb, hWaits⟩ := meet_ne_zero_iff.mp ((skipped_iff (hFresh.after before) _ _ _).mp hSkip)
  obtain ⟨earlier, e, between, hHistory, hBlocks, hNone⟩ :=
    ((has_waitingFor_after hFresh before b).mp hWaits).resolve_right fun hInit =>
      not_has_zero hInit.1
  obtain ⟨waker', j, attempt, outcome⟩ | _ | _ := e
  case delivered => exact absurd hBlocks id
  case elsewhere => exact absurd hBlocks id
  cases attempt with
  | taken => exact absurd hBlocks id
  | skipped => exact absurd hBlocks id
  | finished outcome => exact absurd hBlocks id
  | blocked fd =>
    have hLabels : (before ++ [Act.poll waker interest f] ++ later).map Act.label =
        earlier.map Entry.label ++ .poll j :: between.map Entry.label ++
          .poll interest :: later.map Act.label := by
      have hEarlier :
          ((fresh inner r).history addr before).map Entry.label = before.map Act.label :=
        history_labels before
      rw [List.map_append, List.map_append, ← hEarlier, hHistory]
      simp [Entry.label, Act.label]
    obtain ⟨l, hMem, hCarries⟩ | ⟨rfl, hQuiet⟩ := h _ j _ interest _ hLabels b hb hBlocks
    · obtain ⟨e, he, rfl⟩ := List.mem_map.mp hMem
      exact absurd (Entry.label_carries.mp hCarries) (hNone e he)
    · refine leftBlocked_of_each hFresh fun b' hb' => ⟨earlier, _, between, hHistory, rfl, ?_⟩
      intro e he hCarries
      exact hQuiet _ (List.mem_map_of_mem he) b' hb' (Entry.label_carries.mpr hCarries)

def Label.idle : Label → Act T τ κ R
  | .poll interest => .poll .noop interest fun value => (.ret (.error (.ofKind .other)), value)
  | .event events => .event events
  | .elsewhere => .elsewhere id

omit [AsRawFd T] [Epoll κ] in
theorem Label.map_idle_label (ls : List Label) :
    (ls.map (Label.idle (T := T) (τ := τ) (κ := κ) (R := R))).map Act.label = ls := by
  induction ls with
  | nil => rfl
  | cons l ls ih =>
    rw [List.map_cons, List.map_cons, ih]
    cases l <;> rfl

theorem Entry.BlockedOn.blocks_some {interest : Interest} {e : Entry τ R}
    (h : e.BlockedOn interest) : ∃ b, e.Blocks b := by
  obtain ⟨b, hb⟩ := ne_zero_iff.mp interest.asEvents_ne_zero
  exact ⟨b, h.blocks hb⟩

theorem Holds.idle_not_blocks (h : s.Holds) (ls : List Label) {b : Nat} :
    ∀ e ∈ s.history addr (ls.map (Label.idle (R := R))), ¬ e.Blocks b := by
  induction ls generalizing s with
  | nil => simp [history, exec]
  | cons l ls ih =>
    rintro e (_ | ⟨_, hMem⟩) hBlocks
    · cases l with
      | event events => exact hBlocks
      | elsewhere => exact hBlocks
      | poll interest =>
        obtain ⟨inner, hInner⟩ := Option.isSome_iff_exists.mp h
        change Entry.Blocks b (s.step addr (.poll _ _ _)).1 at hBlocks
        rw [step_poll_entry] at hBlocks
        obtain ⟨-, hAttempt⟩ | ⟨-, ⟨e, hOutcome, hKind⟩, -⟩ | ⟨-, -, hAttempt⟩ :=
          Async.pollAttempt_cases (R := R) hInner (.noop : Waker τ) interest
            fun value => (.ret (.error (.ofKind .other)), value)
        · rw [hAttempt] at hBlocks
          exact hBlocks
        · cases hOutcome
          cases hKind
        · rw [hAttempt] at hBlocks
          exact hBlocks
    · exact ih (h.step l.idle) e hMem hBlocks

theorem step_wouldBlock_blocks (h : s.Holds) {interest : Interest}
    (hTry : interest.asEvents &&& s.this.waiter.waitingFor = 0#32) (waker : Waker τ) (b : Nat) :
    (s.step addr (.poll waker interest (Closure.wouldBlock (R := R)))).1.Blocks b ↔
      Has interest.asEvents b := by
  obtain ⟨inner, hInner⟩ := Option.isSome_iff_exists.mp h
  rw [step_poll_entry]
  obtain ⟨hSkip, -⟩ | ⟨-, -, hAttempt⟩ | ⟨-, hNot, -⟩ :=
    Async.pollAttempt_cases hInner waker interest (Closure.wouldBlock (R := R))
  · exact absurd hTry hSkip
  · rw [hAttempt]
    rfl
  · exact absurd ⟨_, rfl, rfl⟩ hNot

def blockedOnce (earlier : List Label) (j : Interest) (between : List Label) :
    List (Act T τ κ R) :=
  earlier.map Label.idle ++ .poll .noop j .wouldBlock :: between.map Label.idle

omit [AsRawFd T] [Epoll κ] in
theorem blockedOnce_label (earlier : List Label) (j : Interest) (between : List Label) :
    (blockedOnce earlier j between : List (Act T τ κ R)).map Act.label =
      earlier ++ .poll j :: between := by
  rw [blockedOnce, List.map_append, List.map_cons, Label.map_idle_label, Label.map_idle_label]
  rfl

theorem Holds.blockedOnce_history (h : s.Holds) (hIdle : s.this.waiter.waitingFor = 0#32)
    (addr : Addr) (earlier : List Label) (j : Interest) (between : List Label) :
    ∃ before e after,
      s.history addr (blockedOnce earlier j between : List (Act T τ κ R)) = before ++ e :: after ∧
      after.map Entry.label = between ∧ e.label = .poll j ∧
      (∀ b, e.Blocks b ↔ Has j.asEvents b) ∧
      ∀ x, x ∈ before ∨ x ∈ after → ∀ b, ¬ x.Blocks b := by
  let early : List (Act T τ κ R) := earlier.map Label.idle
  let blocking := (s.after addr early).step addr
    (.poll .noop j (Closure.wouldBlock (R := R)))
  have hEarly : ∀ e ∈ s.history addr early, ∀ b, ¬ e.Blocks b :=
    fun e he b => h.idle_not_blocks earlier e he
  have hTry : j.asEvents &&& (s.after addr early).this.waiter.waitingFor = 0#32 := by
    refine meet_eq_zero_iff.mpr fun b _ hWaits => ?_
    obtain hSince | ⟨hInit, -⟩ := (has_waitingFor_after h early b).mp hWaits
    · exact not_since_of_none (fun e he => hEarly e he b) hSince
    · rw [hIdle] at hInit
      exact not_has_zero hInit
  refine ⟨s.history addr early, blocking.1,
    blocking.2.history addr (between.map (Label.idle (R := R))),
    congrArg Prod.fst (exec_append early _), ?_, rfl,
    step_wouldBlock_blocks (h.after early) hTry .noop, ?_⟩
  · rw [history_labels, Label.map_idle_label]
  · rintro x (hx | hx) b
    · exact hEarly x hx b
    · exact ((h.after early).step _).idle_not_blocks between x hx

theorem apart_of_skipsOnlyBlocked {inner : T} {r : Reactor κ} {addr : Addr} {schedule : List Label}
    (h : ∀ acts : List (Act T τ κ R), acts.map Act.label = schedule →
      SkipsOnlyBlocked inner r addr acts) : Apart schedule := by
  rintro earlier j between i later rfl b hi hj
  by_cases hCarried : ∃ l ∈ between, l.Carries b
  · exact .inl hCarried
  refine .inr ?_
  have hFresh : (fresh inner r : Session T τ κ).Holds := holds_fresh inner r
  let acts : List (Act T τ κ R) := blockedOnce earlier j between
  obtain ⟨before, e, after, hHistory, rfl, hLabel, hBlocks, hNone⟩ :=
    hFresh.blockedOnce_history (R := R) rfl addr earlier j between
  have hQuiet : ∀ x ∈ after, ¬ x.Carries b := fun x hx hCarries =>
    hCarried ⟨x.label, List.mem_map_of_mem hx, Entry.label_carries.mpr hCarries⟩
  have hSkip : i.asEvents &&& ((fresh inner r).after addr acts).this.waiter.waitingFor ≠ 0#32 :=
    meet_ne_zero_iff.mpr ⟨b, hi, (has_waitingFor_after hFresh acts b).mpr
      (.inl ⟨before, e, after, hHistory, (hBlocks b).mpr hj, hQuiet⟩)⟩
  let poll : Act T τ κ R := .poll .noop i .wouldBlock
  have hLeft : LeftBlocked i ((fresh inner r).history addr acts) := by
    refine h (acts ++ [poll] ++ later.map Label.idle) ?_ acts .noop i .wouldBlock
      (List.prefix_append _ _) ((skipped_iff (hFresh.after acts) _ _ _).mpr hSkip)
    rw [List.map_append, List.map_append, blockedOnce_label, Label.map_idle_label,
      List.append_assoc]
    rfl
  rw [LeftBlocked, hHistory] at hLeft
  have hOnly : ∀ x, x ∈ before ∨ x ∈ after → ¬ x.BlockedOn i := fun x hx hOn =>
    hOn.blocks_some.elim fun b => hNone x hx b
  obtain ⟨hOn, hAfter⟩ := hLeft.of_only (fun x hx => hOnly x (.inl hx))
    fun x hx => hOnly x (.inr hx)
  refine ⟨?_, fun l hl b' hb' hCarries => ?_⟩
  · obtain ⟨waker, j', attempt, outcome⟩ | _ | _ := e
    · cases hLabel
      exact hOn.interest_eq
    · cases hLabel
    · cases hLabel
  · obtain ⟨x, hx, rfl⟩ := List.mem_map.mp hl
    exact hAfter x hx (.inr ⟨b', hb', Entry.label_carries.mp hCarries⟩)

theorem apart_of_directions {schedule : List Label}
    (h : ∀ l ∈ schedule, l ≠ .poll .readWrite) : Apart schedule := by
  rintro earlier j between i later rfl b hi hj
  obtain rfl : j = i := by
    have hj' : j ≠ .readWrite := fun h' => h (.poll j) (by simp) (congrArg _ h')
    have hi' : i ≠ .readWrite := fun h' => h (.poll i) (by simp) (congrArg _ h')
    cases i <;> cases j <;> first
      | rfl
      | contradiction
      | (simp only [has_read_iff, has_write_iff] at hi hj; omega)
  by_cases hCarried : ∃ l ∈ between, l.Carries b
  · exact .inl hCarried
  · refine .inr ⟨rfl, fun l hl b' hb' hCarries => hCarried ⟨l, hl, ?_⟩⟩
    obtain rfl : b' = b := by
      cases j with
      | read => rw [has_read_iff.mp hi, has_read_iff.mp hb']
      | write => rw [has_write_iff.mp hi, has_write_iff.mp hb']
      | readWrite => exact absurd rfl (h (.poll .readWrite) (by simp))
    exact hCarries

/-- For every sequence of interests and masks: polls are skipped only for what
their own interest is blocked on, whatever the closures do, exactly when polls
that share a direction are kept apart. -/
theorem skips_only_blocked_iff (inner : T) (r : Reactor κ) (addr : Addr) (schedule : List Label) :
    ((∀ acts : List (Act T τ κ R), acts.map Act.label = schedule →
        SkipsOnlyBlocked inner r addr acts) ↔ Apart schedule) ∧
      ((∀ l ∈ schedule, l ≠ .poll .readWrite) → Apart schedule) :=
  ⟨⟨apart_of_skipsOnlyBlocked,
      fun h _ hLabels => Apart.skipsOnlyBlocked (hLabels ▸ h) inner r addr⟩,
    apart_of_directions⟩

/-- An operation blocked on both directions is not tried again although the
descriptor has been reported readable, nor is one that was never tried. -/
theorem read_write_skipped :
    let blocked : List (Act RawFd Nat InterestList Nat) :=
      [.poll (.task 1) .readWrite .wouldBlock, .event EPOLLIN]
    let reading : List (Act RawFd Nat InterestList Nat) := [.poll (.task 1) .read .wouldBlock]
    let s : Session RawFd Nat InterestList := fresh 3 (Reactor.new InterestList.empty)
    (((s.after 0 blocked).this.pollAttempt (.task 1) .readWrite (Closure.done 5)).1 = .skipped ∧
      ¬ LeftBlocked .readWrite (s.history 0 blocked)) ∧
    (((s.after 0 reading).this.pollAttempt (.task 1) .readWrite (Closure.done 5)).1 = .skipped ∧
      ¬ LeftBlocked .readWrite (s.history 0 reading)) := by
  intro blocked reading s
  have hFresh : s.Holds := holds_fresh 3 _
  refine ⟨⟨(skipped_iff (hFresh.after blocked) _ _ _).mpr (by decide), ?_⟩,
    (skipped_iff (hFresh.after reading) _ _ _).mpr (by decide), ?_⟩
  · change ¬ LeftBlocked _ (s.history 0 ([.poll (.task 1) .readWrite .wouldBlock] ++ [_]))
    rw [history_snoc, LeftBlocked, since_snoc]
    rintro (hBlocked | ⟨-, hNone⟩)
    · exact hBlocked
    · have hReadable : Has EPOLLIN 0 := by decide
      exact hNone (.inr ⟨0, by decide, hReadable⟩)
  · change ¬ LeftBlocked _ (s.history 0 ([] ++ [_]))
    rw [history_snoc, LeftBlocked, since_snoc]
    rintro (hBlocked | ⟨hEarlier, -⟩)
    · rw [step_poll_entry] at hBlocked
      cases hBlocked.interest_eq
    · exact not_since_nil hEarlier

end Session

end Ground
