import Ground.System.Mirror

/-! # Replacing the wrapped value

A registered value may be replaced through `&mut T` by one with another
descriptor. Later operations then look at the new descriptor and the entry of
the old one stays, pointing to memory that a drop releases.
-/

namespace Ground

open Mask Transition

variable {T τ κ R : Type} [AsRawFd T] [InterestKernel κ]

theorem ensureRegistered_list_of_ne {fd fd' : RawFd} (h : fd' ≠ fd) (addr : Addr)
    (waiter : Waiter τ) (interest : Interest) (r : Reactor κ) :
    (ensureRegistered fd addr waiter interest r).2.2.list fd' = r.list fd' := by
  let registerFor := waiter.registerFor ||| interest.asEvents ||| EPOLLET
  have hAsked : (r.epollCtl (registerRequest fd addr waiter registerFor)).2.list fd' =
      r.list fd' := by
    rw [Reactor.epollCtl_list]
    obtain ⟨-, hCtl⟩ | ⟨-, errno, hCtl⟩ := ctl_registerRequest r.list fd addr waiter registerFor
    · rw [hCtl]
      exact Function.update_of_ne h ..
    · rw [hCtl]
  obtain ⟨-, hRun⟩ | ⟨-, -, hRun⟩ | ⟨-, -, hRun⟩ := ensureRegistered_cases fd addr waiter interest r
  · rw [hRun]
  · rw [hRun]
    exact hAsked
  · rw [hRun]
    exact hAsked

theorem ensureRegistered_list_of_refused {fd : RawFd} {waiter : Waiter τ} {r : Reactor κ}
    (hReg : waiter.registerFor = 0#32) (hTaken : r.list fd ≠ none) (addr : Addr)
    (interest : Interest) : (ensureRegistered fd addr waiter interest r).2.2.list = r.list := by
  let registerFor := waiter.registerFor ||| interest.asEvents ||| EPOLLET
  have hAsked : (r.epollCtl (registerRequest fd addr waiter registerFor)).2.list = r.list := by
    rw [Reactor.epollCtl_list]
    obtain ⟨hValid, -⟩ | ⟨-, errno, hCtl⟩ := ctl_registerRequest r.list fd addr waiter registerFor
    · exact absurd (hValid.mp hReg) hTaken
    · rw [hCtl]
  obtain ⟨-, hRun⟩ | ⟨-, -, hRun⟩ | ⟨-, -, hRun⟩ := ensureRegistered_cases fd addr waiter interest r
  · rw [hRun]
  · rw [hRun]
    exact hAsked
  · rw [hRun]
    exact hAsked

namespace Async

/-- A bit is awaited, and the current descriptor is not registered for this waiter. -/
def Unserved (this : Async T τ) (addr : Addr) (list : InterestList) : Prop :=
  ∃ inner b, this.inner = some inner ∧ Has this.waiter.waitingFor b ∧
    ∀ event, list (asRawFd inner) = some event → event.data ≠ addr

/-- An entry points to this waiter and deregistering will not look at it. -/
def Strayed (this : Async T τ) (addr : Addr) (list : InterestList) : Prop :=
  ∃ fd event, list fd = some event ∧ event.data = addr ∧
    ∀ inner, this.inner = some inner → this.waiter.registerFor ≠ 0#32 → asRawFd inner ≠ fd

theorem strayed_of_replace {this : Async T τ} {inner value : T} {addr : Addr}
    {list : InterestList} (hListed : this.Listed addr list) (hInner : this.inner = some inner)
    (hReg : this.waiter.registerFor ≠ 0#32) (hFd : asRawFd value ≠ asRawFd inner) :
    { this with inner := some value }.Strayed addr list :=
  ⟨asRawFd inner, ⟨this.waiter.registerFor, addr⟩,
    hListed _ _ (entry_of_registered hInner hReg addr), rfl,
    by rintro _ ⟨⟩ -; exact hFd⟩

theorem deregister_list {this : Async T τ} {fd : RawFd}
    (h : ∀ inner, this.inner = some inner → this.waiter.registerFor ≠ 0#32 → asRawFd inner ≠ fd)
    (r : Reactor κ) : (this.deregister r).2.2.list fd = r.list fd := by
  obtain hSame | ⟨inner, hInner, hReg, hAsked⟩ := this.deregister_reactor r
  · rw [hSame]
  · rw [hAsked, Reactor.epollCtl_list]
    simp only [InterestList.ctl]
    split
    · rfl
    · exact Function.update_of_ne (h inner hInner hReg).symm ..

theorem Strayed.deregister {this : Async T τ} {addr : Addr} {r : Reactor κ}
    (h : this.Strayed addr r.list) :
    (this.deregister r).2.1.Strayed addr (this.deregister r).2.2.list := by
  obtain ⟨fd, event, hList, hData, hAway⟩ := h
  refine ⟨fd, event, (deregister_list hAway r).trans hList, hData, fun inner hInner hReg => ?_⟩
  obtain ⟨hSame, hSame' | hZero⟩ := this.deregister_async r
  · exact hAway inner (hSame ▸ hInner) (hSame' ▸ hReg)
  · exact absurd hZero hReg

theorem Strayed.takeInner {this : Async T τ} {addr : Addr} {r : Reactor κ}
    (h : this.Strayed addr r.list) :
    (this.takeInner r).2.1.Strayed addr (this.takeInner r).2.2.list := by
  have hAway := h.deregister
  unfold Async.takeInner
  rcases hRun : this.deregister r with ⟨_ | p, this', r'⟩
  · rw [hRun] at hAway
    simp only
    cases hInner : this'.inner with
    | none => exact hAway
    | some inner =>
      obtain ⟨fd, event, hList, hData, -⟩ := hAway
      exact ⟨fd, event, hList, hData, by rintro _ ⟨⟩⟩
  · rwa [hRun] at hAway

theorem pollNonblocking_breaks {this : Async T τ} {addr : Addr} {r : Reactor κ}
    (hListed : this.Listed addr r.list)
    (hOwned : ∀ fd event, r.list fd = some event → event.data = addr →
      this.entry addr = some (fd, event))
    (waker : Waker τ) {interest : Interest} {f : Closure T R}
    (h : ¬ this.KeepsEntry r.list interest f) :
    ∃ outcome this' r', this.pollNonblocking addr waker interest f r = (outcome, this', r') ∧
      ((∀ value, outcome ≠ .ret (.ready value)) ∧ this'.Unserved addr r'.list ∨
        this'.Strayed addr r'.list) := by
  unfold KeepsEntry at h
  push Not at h
  obtain ⟨inner, hInner, hTry, hBreaks⟩ := h
  rw [pollNonblocking_eq]
  obtain ⟨hSkip, -⟩ | ⟨-, hBlocks, hAttempt⟩ | ⟨-, hDone, hAttempt⟩ :=
    pollAttempt_cases hInner waker interest f
  · exact absurd hTry hSkip
  · obtain ⟨b, hb⟩ := ne_zero_iff.mp interest.asEvents_ne_zero
    let that := { this with inner := some (f inner).2 }.block waker interest
    obtain ⟨outcome, hFinish, hPending⟩ :=
      pollFinish_blocked (R := R) addr interest r (asRawFd inner) that
    rw [hAttempt, hFinish]
    refine ⟨outcome, _, _, rfl, .inl ⟨hPending, (f inner).2, b, rfl, ?_, ?_⟩⟩
    · rw [ensureRegistered_waiter]
      exact has_or.mpr (.inr hb)
    · intro event hEvent hData
      obtain hFd | hFd := eq_or_ne (asRawFd (f inner).2) (asRawFd inner)
      · obtain ⟨-, hReg, hTaken⟩ := hBreaks (.inl hFd)
        have hFirst : that.waiter.registerFor = 0#32 := hReg
        rw [ensureRegistered_list_of_refused hFirst hTaken] at hEvent
        have hEntry := hOwned _ event hEvent hData
        rw [entry_of_registerFor_eq_zero addr hReg] at hEntry
        cases hEntry
      · rw [ensureRegistered_list_of_ne hFd] at hEvent
        obtain ⟨inner', hInner', hSame, -⟩ := entry_eq_some_iff.mp (hOwned _ event hEvent hData)
        obtain rfl := Option.some.inj (hInner.symm.trans hInner')
        exact hFd hSame.symm
  · have hStrayed : { this with inner := some (f inner).2 }.Strayed addr r.list := by
      apply strayed_of_replace hListed hInner
      · exact fun hReg => hDone (hBreaks (.inr ⟨hReg, hDone⟩)).1
      · exact fun hFd => hDone (hBreaks (.inl hFd)).1
    rw [hAttempt]
    obtain value | p := (f inner).1
    · exact ⟨_, _, r, rfl, .inr hStrayed⟩
    · exact ⟨_, _, r, rfl, .inr hStrayed⟩

theorem pollClose_breaks {this : Async T τ} {addr : Addr} {r : Reactor κ}
    (hListed : this.Listed addr r.list)
    (hOwned : ∀ fd event, r.list fd = some event → event.data = addr →
      this.entry addr = some (fd, event))
    (waker : Waker τ) {flush : Closure T Unit} (h : ¬ this.KeepsEntry r.list .write flush) :
    ∃ outcome this' r', this.pollClose addr waker flush r = (outcome, this', r') ∧
      (this'.Unserved addr r'.list ∨ this'.Strayed addr r'.list) := by
  obtain ⟨outcome, mid, rMid, hPoll, hEnd⟩ := pollNonblocking_breaks hListed hOwned waker h
  unfold pollClose
  rw [hPoll]
  obtain (ready | _) | p := outcome
  · obtain ⟨hPending, -⟩ | hStrayed := hEnd
    · exact absurd rfl (hPending ready)
    · obtain e | ⟨⟩ := ready
      · exact ⟨_, _, _, rfl, .inr hStrayed⟩
      · -- taking the value out does not look at the entry that strayed either
        have hTaken := hStrayed.takeInner
        simp only
        rcases hTake : mid.takeInner rMid with ⟨value | p, this', r'⟩
        · exact ⟨_, this', r', rfl, .inr (by rwa [hTake] at hTaken)⟩
        · exact ⟨_, this', r', rfl, .inr (by rwa [hTake] at hTaken)⟩
  · exact ⟨_, _, _, rfl, hEnd.imp_left And.right⟩
  · exact ⟨_, _, _, rfl, hEnd.imp_left And.right⟩

end Async

namespace World

variable {w w' : World T τ κ}

/-- No entry points to an `Async` that is gone, and a held value that waits for
a bit has its current descriptor registered for it, with its own address. -/
structure Sound (w : World T τ κ) : Prop where
  live : ∀ fd event, w.reactor.list fd = some event → (w.asyncs event.data).isSome
  awaited : ∀ addr this inner b, w.asyncs addr = some this → this.inner = some inner →
    Has this.waiter.waitingFor b → ∃ event, w.reactor.list (asRawFd inner) = some event ∧
      Has event.events b ∧ event.data = addr

theorem InStep.sound (h : w.InStep) : w.Sound where
  live fd event hList := by
    obtain ⟨this, hThis, -⟩ := h.mirrors.live hList
    simp [hThis]
  awaited addr this inner b hThis hInner hWaits := by
    have hHas := (h.covered addr this hThis (by simp [hInner])).has hWaits
    have hReg : this.waiter.registerFor ≠ 0#32 := ne_zero_iff.mpr ⟨b, hHas⟩
    exact ⟨_, h.mirrors.listed hThis _ _ (Async.entry_of_registered hInner hReg addr), hHas, rfl⟩

theorem not_sound_of_unserved {addr : Addr} {this : Async T τ} (hThis : w.asyncs addr = some this)
    (h : this.Unserved addr w.reactor.list) : ¬ w.Sound := by
  obtain ⟨inner, b, hInner, hWaits, hOther⟩ := h
  intro hSound
  obtain ⟨event, hList, -, hData⟩ := hSound.awaited addr this inner b hThis hInner hWaits
  exact hOther event hList hData

theorem not_sound_drop_of_strayed {addr : Addr} {this : Async T τ}
    (hThis : w.asyncs addr = some this) (h : this.Strayed addr w.reactor.list) :
    ∃ w', w.step (R := R) (.drop addr) = some w' ∧ ¬ w'.Sound := by
  refine ⟨_, by simp only [step, perform, hThis]; rfl, fun hSound => ?_⟩
  obtain ⟨fd, event, hList, rfl, hAway⟩ := h
  have hLive := hSound.live fd event ((Async.deregister_list hAway _).trans hList)
  simp at hLive

/-- Soundness is lost, at once or when an `Async` is dropped next. -/
def Breaks (R : Type) (w : World T τ κ) : Prop :=
  ¬ w.Sound ∨ ∃ addr w', w.step (R := R) (.drop addr) = some w' ∧ ¬ w'.Sound

theorem breaks_of_async {addr : Addr} {this : Async T τ} (hThis : w.asyncs addr = some this)
    (h : this.Unserved addr w.reactor.list ∨ this.Strayed addr w.reactor.list) :
    w.Breaks R := by
  obtain hUnserved | hStrayed := h
  · exact .inl (not_sound_of_unserved hThis hUnserved)
  · exact .inr ⟨addr, not_sound_drop_of_strayed hThis hStrayed⟩

theorem InStep.owned (h : w.InStep) {addr : Addr} {this : Async T τ}
    (hThis : w.asyncs addr = some this) : ∀ fd event, w.reactor.list fd = some event →
      event.data = addr → this.entry addr = some (fd, event) := by
  rintro fd event hList rfl
  obtain ⟨that, hThat, hEntry⟩ := h.mirrors.live hList
  obtain rfl := Option.some.inj (hThis.symm.trans hThat)
  exact hEntry

/-- Only a step that keeps registered descriptors in place leaves soundness intact. -/
theorem InStep.breaks (h : w.InStep) {act : Act T τ R} (hBreaks : ¬ w.Keeps act)
    (hStep : w.step act = some w') : w'.Breaks R := by
  obtain ⟨⟨response, _⟩, hPerform, rfl⟩ := Option.map_eq_some_iff.mp hStep
  cases act with
  | poll addr waker interest f =>
    simp only [Keeps, not_forall] at hBreaks
    obtain ⟨this, hThis, hBreaks⟩ := hBreaks
    obtain ⟨outcome, this', r', hPoll, hEnd⟩ :=
      Async.pollNonblocking_breaks (h.mirrors.listed hThis) (h.owned hThis) waker hBreaks
    simp only [World.perform, hThis, Option.bind_eq_bind, Option.bind_some, hPoll] at hPerform
    cases hPerform
    exact breaks_of_async (Function.update_self ..) (hEnd.imp_left And.right)
  | close addr waker flush =>
    simp only [Keeps, not_forall] at hBreaks
    obtain ⟨this, hThis, hBreaks⟩ := hBreaks
    obtain ⟨outcome, this', r', hClose, hEnd⟩ :=
      Async.pollClose_breaks (h.mirrors.listed hThis) (h.owned hThis) waker hBreaks
    simp only [World.perform, hThis, Option.bind_eq_bind, Option.bind_some, hClose] at hPerform
    cases hPerform
    exact breaks_of_async (Function.update_self ..) hEnd
  | replace addr value =>
    simp only [Keeps, not_forall, not_or] at hBreaks
    obtain ⟨this, inner, hThis, hInner, hFd, hReg⟩ := hBreaks
    simp only [World.perform, hThis, Option.bind_eq_bind, Option.bind_some, Async.pinReplace,
      hInner] at hPerform
    cases hPerform
    have hStrayed := Async.strayed_of_replace (h.mirrors.listed hThis) hInner hReg hFd
    exact breaks_of_async (Function.update_self ..) (.inr hStrayed)
  | swap addr addr' =>
    simp only [Keeps, not_forall, not_or] at hBreaks
    obtain ⟨this, that, inner, inner', hThis, hThat, hInner, hInner', hFd, hReg⟩ := hBreaks
    simp only [World.perform, hThis, hThat, Option.bind_eq_bind, Option.bind_some, hInner,
      hInner'] at hPerform
    split at hPerform
    · cases hPerform
    · rename_i hAddr
      cases hPerform
      -- one of the two is registered, and its entry stays behind
      obtain hThisReg | hThisReg := eq_or_ne this.waiter.registerFor 0#32
      · have hThatReg : that.waiter.registerFor ≠ 0#32 := fun hThatReg => hReg ⟨hThisReg, hThatReg⟩
        have hStrayed :=
          Async.strayed_of_replace (h.mirrors.listed hThat) hInner' hThatReg hFd
        exact breaks_of_async (Function.update_self ..) (.inr hStrayed)
      · have hStrayed :=
          Async.strayed_of_replace (h.mirrors.listed hThis) hInner hThisReg (Ne.symm hFd)
        refine .inr ⟨addr, not_sound_drop_of_strayed ?_ hStrayed⟩
        simp [World.set, hAddr]
  | new addr fcntl value => exact absurd trivial hBreaks
  | take addr => exact absurd trivial hBreaks
  | drop addr => exact absurd trivial hBreaks
  | dispatch answer => exact absurd trivial hBreaks

/-- Every state is sound that is reached by steps keeping registered
descriptors in place, and the first step that does not is followed by some run
of such steps to an unsound state. -/
theorem sound_iff_keeps {acts : List (Act T τ R)} {w : World T τ InterestList}
    (hKeeps : Meets step Keeps (init InterestList.empty) acts)
    (hRun : run step (init InterestList.empty) acts = some w) :
    w.Sound ∧ ∀ (act : Act T τ R) w', w.step act = some w' → (w.Keeps act ↔
      ∀ (later : List (Act T τ R)) w'', Meets step Keeps w' later →
        run step w' later = some w'' → w''.Sound) := by
  have hInStep : w.InStep :=
    invariant_of_meets (I := InStep) (fun _ _ _ h hKeeps hStep => h.step hKeeps hStep)
      (inStep_init rfl) hKeeps hRun
  refine ⟨hInStep.sound, fun act w' hStep => ?_⟩
  constructor
  · intro hAct later w'' hLater hRun'
    exact InStep.sound <| invariant_of_meets (I := InStep)
      (fun _ _ _ h hKeeps hStep => h.step hKeeps hStep) (hInStep.step hAct hStep) hLater hRun'
  · intro hAll
    by_contra hBreaks
    obtain hNow | ⟨addr, w'', hDrop, hThen⟩ := hInStep.breaks hBreaks hStep
    · exact hNow (hAll [] w' trivial rfl)
    · exact hThen (hAll [.drop addr] w'' (.cons trivial hDrop trivial)
        (run_cons_eq_some.mpr ⟨w'', hDrop, rfl⟩))

theorem sound_iff_keeps_unregistered :
    let fcntl : Fcntl := ⟨fun _ => .ok 0#32, fun _ _ => .ok ()⟩
    let acts : List (Act RawFd Nat Nat) :=
      [.new 0 fcntl 3, .replace 0 4, .poll 0 (.task 1) .read .wouldBlock]
    ∃ w : World RawFd Nat InterestList,
      run step (init InterestList.empty) acts = some w ∧ w.Sound := by
  intro fcntl acts
  refine ⟨_, rfl, (sound_iff_keeps ?_ (rfl : run step (init InterestList.empty) acts = some _)).1⟩
  refine .cons trivial rfl (.cons ?_ rfl (.cons ?_ rfl trivial))
  · rintro this inner ⟨⟩ -
    exact .inr rfl
  · rintro this ⟨⟩ inner ⟨⟩ -
    exact ⟨.inl rfl, fun _ _ => rfl⟩

/-- Two registered values are swapped and one `Async` is dropped: the entry of
its first descriptor dangles, and an event there writes through it. -/
theorem swapped_entry_dangles :
    let fcntl : Fcntl := ⟨fun _ => .ok 0#32, fun _ _ => .ok ()⟩
    let acts : List (Act RawFd Nat Nat) :=
      [.new 0 fcntl 3, .new 1 fcntl 4, .poll 0 (.task 1) .read .wouldBlock,
        .poll 1 (.task 2) .read .wouldBlock, .swap 0 1, .drop 0]
    ∃ w : World RawFd Nat InterestList, run step (init InterestList.empty) acts = some w ∧
      w.reactor.list 3 = some ⟨EPOLLIN ||| EPOLLET, 0⟩ ∧
      w.asyncs 0 = none ∧ w.perform (R := Nat) (.dispatch (.ok [(3, EPOLLIN)])) = none ∧
      ¬ w.Sound := by
  intro fcntl acts
  refine ⟨_, rfl, by decide, rfl, rfl, fun hSound => ?_⟩
  exact absurd (hSound.live 3 ⟨EPOLLIN ||| EPOLLET, 0⟩ (by decide)) (by decide)

end World

end Ground
