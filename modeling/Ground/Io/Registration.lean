import Ground.Epoll
import Ground.Foundation.Index
import Ground.Io.Attempt

/-! # What the operations of one `Async` do to the interest list

Each operation writes at most the entry of its own descriptor. The effect is
stated for any kernel that keeps an interest list.
-/

namespace Ground

open Mask

variable {T τ κ R : Type} [AsRawFd T] [InterestKernel κ]

def registerRequest (fd : RawFd) (addr : Addr) (waiter : Waiter τ) (registerFor : Events) :
    CtlRequest :=
  if waiter.registerFor = 0#32 then .add fd ⟨registerFor, addr⟩
  else .modify fd ⟨registerFor, addr⟩

theorem ctl_registerRequest (list : InterestList) (fd : RawFd) (addr : Addr) (waiter : Waiter τ)
    (registerFor : Events) :
    ((waiter.registerFor = 0#32 ↔ list fd = none) ∧
      list.ctl (registerRequest fd addr waiter registerFor) =
        (.ok (), Function.update list fd (some ⟨registerFor, addr⟩))) ∨
    (¬ (waiter.registerFor = 0#32 ↔ list fd = none) ∧
      ∃ errno, list.ctl (registerRequest fd addr waiter registerFor) = (.error errno, list)) := by
  unfold registerRequest
  obtain hFirst | hFirst := eq_or_ne waiter.registerFor 0#32
  · cases hList : list fd with
    | none => simp [hFirst, InterestList.ctl, hList]
    | some event => simp [hFirst, InterestList.ctl, hList]
  · cases hList : list fd with
    | none => simp [hFirst, InterestList.ctl, hList]
    | some event => simp [hFirst, InterestList.ctl, hList]

omit [InterestKernel κ] in
theorem ensureRegistered_cases [Epoll κ] (fd : RawFd) (addr : Addr) (waiter : Waiter τ)
    (interest : Interest) (r : Reactor κ) :
    let registerFor := waiter.registerFor ||| interest.asEvents ||| EPOLLET
    let asked := r.epollCtl (registerRequest fd addr waiter registerFor)
    (registerFor = waiter.registerFor ∧
      ensureRegistered fd addr waiter interest r = (.ret (), waiter, r)) ∨
    (registerFor ≠ waiter.registerFor ∧ asked.1 = .ok () ∧
      ensureRegistered fd addr waiter interest r =
        (.ret (), { waiter with registerFor }, asked.2)) ∨
    (registerFor ≠ waiter.registerFor ∧ (∃ errno, asked.1 = .error errno) ∧
      ensureRegistered fd addr waiter interest r =
        (.panic .register, { waiter with registerFor }, asked.2)) := by
  intro registerFor asked
  obtain hDone | hDone := eq_or_ne registerFor waiter.registerFor
  · refine .inl ⟨hDone, ?_⟩
    simp only [ensureRegistered, registerFor] at hDone ⊢
    simp only [hDone, if_true]
  · refine .inr ?_
    have hCall : (if waiter.registerFor = 0#32 then r.add fd addr { waiter with registerFor }
        else r.modify fd addr { waiter with registerFor }) = asked := by
      simp only [asked, registerRequest]
      split <;> rfl
    rcases hAsked : asked with ⟨errno | _, r'⟩
    · refine .inr ⟨hDone, ⟨errno, rfl⟩, ?_⟩
      simp only [ensureRegistered]
      rw [if_neg hDone, hCall.trans hAsked]
    · refine .inl ⟨hDone, rfl, ?_⟩
      simp only [ensureRegistered]
      rw [if_neg hDone, hCall.trans hAsked]

namespace Async

/-- The entry of the interest list that belongs to an `Async`: there is one
while it holds its value and is registered for something. -/
def entry (this : Async T τ) (addr : Addr) : Option (RawFd × EpollEvent) :=
  match this.inner with
  | none => none
  | some inner =>
    if this.waiter.registerFor = 0#32 then none
    else some (asRawFd inner, ⟨this.waiter.registerFor, addr⟩)

theorem entry_eq_some_iff {this : Async T τ} {addr : Addr} {fd : RawFd} {event : EpollEvent} :
    this.entry addr = some (fd, event) ↔ ∃ inner, this.inner = some inner ∧ asRawFd inner = fd ∧
      this.waiter.registerFor ≠ 0#32 ∧ event = ⟨this.waiter.registerFor, addr⟩ := by
  unfold entry
  cases this.inner with
  | none => simp
  | some inner =>
    obtain hReg | hReg := eq_or_ne this.waiter.registerFor 0#32
    · simp [hReg]
    · simp [hReg, eq_comm]

theorem entry_of_registered {this : Async T τ} {inner : T} (hInner : this.inner = some inner)
    (hReg : this.waiter.registerFor ≠ 0#32) (addr : Addr) :
    this.entry addr = some (asRawFd inner, ⟨this.waiter.registerFor, addr⟩) :=
  entry_eq_some_iff.mpr ⟨inner, hInner, rfl, hReg, rfl⟩

theorem entry_of_registerFor_eq_zero {this : Async T τ} (addr : Addr)
    (h : this.waiter.registerFor = 0#32) : this.entry addr = none := by
  unfold entry
  cases this.inner <;> simp [h]

/-- Whatever a held value waits for, it is registered for. -/
def Covered (this : Async T τ) : Prop :=
  this.inner.isSome → Within this.waiter.waitingFor this.waiter.registerFor

/-- The list holds the entry of this `Async`, if it has one. -/
def Listed (this : Async T τ) (addr : Addr) (list : InterestList) : Prop :=
  ∀ fd event, this.entry addr = some (fd, event) → list fd = some event

/-- The step from one `Async` and list to the next is a write of its own entry. -/
def Rewrites (addr : Addr) (this : Async T τ) (r : Reactor κ) (this' : Async T τ)
    (r' : Reactor κ) : Prop :=
  Change EpollEvent.data addr r.list (this.entry addr) r'.list (this'.entry addr) ∧
    r'.isDispatching = r.isDispatching

theorem Rewrites.refl (addr : Addr) (this : Async T τ) (r : Reactor κ) :
    Rewrites addr this r this r := ⟨.keep, rfl⟩

theorem Rewrites.of_entry_eq {addr : Addr} {this this' : Async T τ} (r : Reactor κ)
    (h : this'.entry addr = this.entry addr) : Rewrites addr this r this' r :=
  ⟨h ▸ .keep, rfl⟩

theorem registerFor_ne_zero (events : Events) (interest : Interest) :
    events ||| interest.asEvents ||| EPOLLET ≠ 0#32 :=
  ne_zero_iff.mpr ⟨31, has_or.mpr (.inr (by decide))⟩

theorem listed_keyFor {this : Async T τ} {inner : T} {addr : Addr} {list : InterestList}
    (hInner : this.inner = some inner)
    (hFree : this.waiter.registerFor = 0#32 → list (asRawFd inner) = none) :
    KeyFor list (this.entry addr) (asRawFd inner) := by
  obtain hReg | hReg := eq_or_ne this.waiter.registerFor 0#32
  · exact .inl ⟨entry_of_registerFor_eq_zero addr hReg, hFree hReg⟩
  · exact .inr ⟨_, entry_of_registered hInner hReg addr⟩

theorem ensureRegistered_rewrites {this : Async T τ} {inner : T} (hInner : this.inner = some inner)
    {addr : Addr} (interest : Interest) {r : Reactor κ} (hListed : this.Listed addr r.list)
    (hFree : this.waiter.registerFor = 0#32 → r.list (asRawFd inner) = none) :
    let waiter := { this.waiter with
      registerFor := this.waiter.registerFor ||| interest.asEvents ||| EPOLLET }
    ∃ r', ensureRegistered (asRawFd inner) addr this.waiter interest r = (.ret (), waiter, r') ∧
      Rewrites addr this r { this with waiter } r' := by
  intro waiter
  have hValid : this.waiter.registerFor = 0#32 ↔ r.list (asRawFd inner) = none := by
    refine ⟨hFree, fun hNone => ?_⟩
    by_contra hReg
    have hEntry := hListed _ _ (entry_of_registered hInner hReg addr)
    rw [hNone] at hEntry
    cases hEntry
  have hCtl := (ctl_registerRequest r.list (asRawFd inner) addr this.waiter
    waiter.registerFor).resolve_right fun h => h.1 hValid
  obtain ⟨hSame, hRun⟩ | ⟨-, -, hRun⟩ | ⟨-, ⟨errno, hRefused⟩, -⟩ :=
    ensureRegistered_cases (asRawFd inner) addr this.waiter interest r
  · refine ⟨r, ?_, .of_entry_eq r ?_⟩
    · rw [hRun]
      simp only [waiter, hSame]
    · simp only [entry, waiter, hSame]
  · refine ⟨_, hRun, ?_, rfl⟩
    have hNew : { this with waiter }.entry addr =
        (some (⟨waiter.registerFor, addr⟩ : EpollEvent)).map fun event => (asRawFd inner, event) :=
      entry_eq_some_iff.mpr ⟨inner, hInner, rfl, registerFor_ne_zero _ _, rfl⟩
    rw [Reactor.epollCtl_list, hCtl.2, hNew]
    exact .write _ _ (listed_keyFor hInner hFree) (by rintro event ⟨⟩; rfl)
  · rw [Reactor.epollCtl_fst, hCtl.2] at hRefused
    cases hRefused

end Async

end Ground
