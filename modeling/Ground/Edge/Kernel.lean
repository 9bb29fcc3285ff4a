import Ground.Epoll
import Ground.Foundation.Mask

/-! # Edge-triggered epoll

A descriptor is queued when a registered direction turns ready, and when a
request registers it in a direction that is ready already. Waiting takes some
queued descriptors and reports those that are ready at that moment.
-/

namespace Ground

open Mask

structure EdgeKernel where
  interest : InterestList
  ready : RawFd → Events
  queued : RawFd → Bool

def CtlRequest.fd : CtlRequest → RawFd
  | .add fd _ | .modify fd _ | .delete fd => fd

def directions (readable writable : Bool) : Events :=
  (if readable then EPOLLIN else 0#32) ||| (if writable then EPOLLOUT else 0#32)

theorem has_directions_read {readable writable : Bool} :
    Has (directions readable writable) 0 ↔ readable = true := by
  cases readable <;> cases writable <;> decide

theorem has_directions_write {readable writable : Bool} :
    Has (directions readable writable) 2 ↔ writable = true := by
  cases readable <;> cases writable <;> decide

namespace EdgeKernel

def new (ready : RawFd → Events) : EdgeKernel where
  interest := .empty
  ready := ready
  queued _ := false

/-- The event for a registered descriptor that is ready now. -/
def report (kernel : EdgeKernel) (fd : RawFd) : Option EpollEvent := do
  let entry ← kernel.interest fd
  let events := entry.events &&& kernel.ready fd
  if events = 0#32 then none else some { events, data := entry.data }

def poke (kernel : EdgeKernel) (fd : RawFd) : EdgeKernel :=
  { kernel with
    queued := Function.update kernel.queued fd (kernel.queued fd || (kernel.report fd).isSome) }

def epollCtl (kernel : EdgeKernel) (request : CtlRequest) : Except Errno Unit × EdgeKernel :=
  match kernel.interest.ctl request with
  | (.error errno, _) => (.error errno, kernel)
  | (.ok (), interest) =>
    match request with
    | .add fd _ | .modify fd _ => (.ok (), { kernel with interest }.poke fd)
    | .delete fd =>
      (.ok (), { kernel with interest, queued := Function.update kernel.queued fd false })

/-- The readiness of a descriptor changes, which queues it when a registered
direction was not ready before. -/
def become (kernel : EdgeKernel) (fd : RawFd) (now : Events) : EdgeKernel :=
  let rising := { kernel with
    ready := Function.update kernel.ready fd (now &&& ~~~kernel.ready fd) }.report fd
  { kernel with
    ready := Function.update kernel.ready fd now
    queued := Function.update kernel.queued fd (kernel.queued fd || rising.isSome) }

def Takes (kernel : EdgeKernel) (fds : List RawFd) (length : Nat) : Prop :=
  fds.Nodup ∧ (∀ fd ∈ fds, kernel.queued fd = true) ∧ fds.length ≤ length

instance (kernel : EdgeKernel) (fds : List RawFd) (length : Nat) :
    Decidable (kernel.Takes fds length) := inferInstanceAs (Decidable (_ ∧ _))

def wait (kernel : EdgeKernel) (fds : List RawFd) : List EpollEvent × EdgeKernel :=
  (fds.filterMap kernel.report,
    { kernel with queued := fun fd => kernel.queued fd && decide (fd ∉ fds) })

instance : InterestKernel EdgeKernel where
  epollCtl := epollCtl
  interest := interest
  epollCtl_fst kernel request := by
    unfold epollCtl
    rcases hCtl : kernel.interest.ctl request with ⟨errno | _, interest⟩
    · rfl
    · cases request <;> rfl
  epollCtl_interest kernel request := by
    have hRefused : ∀ errno list, kernel.interest.ctl request = (.error errno, list) →
        list = kernel.interest := by
      intro errno list hCtl
      cases request <;> simp only [InterestList.ctl] at hCtl <;> split at hCtl <;>
        cases hCtl <;> rfl
    unfold epollCtl
    rcases hCtl : kernel.interest.ctl request with ⟨errno | _, interest⟩
    · exact (hRefused errno interest hCtl).symm
    · cases request <;> rfl

def Elsewhere (fd : Option RawFd) (kernel kernel' : EdgeKernel) : Prop :=
  kernel'.ready = kernel.ready ∧ ∀ fd', some fd' ≠ fd → kernel'.queued fd' = kernel.queued fd'

theorem Elsewhere.refl (fd : Option RawFd) (kernel : EdgeKernel) : Elsewhere fd kernel kernel :=
  ⟨rfl, fun _ _ => rfl⟩

theorem epollCtl_elsewhere (kernel : EdgeKernel) (request : CtlRequest) :
    Elsewhere (some request.fd) kernel (kernel.epollCtl request).2 := by
  have hUpdate : ∀ fd fd' q, some fd' ≠ some fd →
      Function.update kernel.queued fd q fd' = kernel.queued fd' := fun fd fd' q h =>
    Function.update_of_ne (fun hFd => h (congrArg some hFd)) ..
  unfold epollCtl
  obtain ⟨errno | _, interest⟩ := kernel.interest.ctl request
  · exact .refl ..
  · cases request with
    | add fd event => exact ⟨rfl, fun fd' h => hUpdate fd fd' _ h⟩
    | modify fd event => exact ⟨rfl, fun fd' h => hUpdate fd fd' _ h⟩
    | delete fd => exact ⟨rfl, fun fd' h => hUpdate fd fd' _ h⟩

theorem report_of_has {kernel : EdgeKernel} {fd : RawFd} {entry : EpollEvent} {b : Nat}
    (hEntry : kernel.interest fd = some entry) (hRegistered : Has entry.events b)
    (hReady : Has (kernel.ready fd) b) :
    ∃ event, kernel.report fd = some event ∧ event.data = entry.data ∧ Has event.events b := by
  have hBit : Has (entry.events &&& kernel.ready fd) b := has_and.mpr ⟨hRegistered, hReady⟩
  have hSome : entry.events &&& kernel.ready fd ≠ 0#32 := ne_zero_iff.mpr ⟨b, hBit⟩
  refine ⟨⟨entry.events &&& kernel.ready fd, entry.data⟩, ?_, rfl, hBit⟩
  simp only [report, hEntry, Option.bind_eq_bind, Option.bind_some, if_neg hSome]

theorem report_data {kernel : EdgeKernel} {fd : RawFd} {event : EpollEvent}
    (h : kernel.report fd = some event) :
    ∃ entry, kernel.interest fd = some entry ∧ entry.data = event.data := by
  obtain ⟨entry, hEntry, hEvent⟩ := Option.bind_eq_some_iff.mp h
  simp only at hEvent
  split at hEvent
  · cases hEvent
  · cases hEvent
    exact ⟨entry, hEntry, rfl⟩

theorem queued_register {kernel : EdgeKernel} {request : CtlRequest} {fd : RawFd}
    {event : EpollEvent} {interest : InterestList} {b : Nat}
    (hRequest : request = .add fd event ∨ request = .modify fd event)
    (hCtl : kernel.interest.ctl request = (.ok (), interest)) (hEntry : interest fd = some event)
    (hRegistered : Has event.events b) (hReady : Has (kernel.ready fd) b) :
    (kernel.epollCtl request).2.queued fd = true := by
  obtain ⟨event', hReport, -⟩ :=
    @report_of_has { kernel with interest } fd event b hEntry hRegistered hReady
  obtain rfl | rfl := hRequest
  · simp only [epollCtl, hCtl, poke, Function.update_self, hReport, Option.isSome_some,
      Bool.or_true]
  · simp only [epollCtl, hCtl, poke, Function.update_self, hReport, Option.isSome_some,
      Bool.or_true]

theorem queued_become {kernel : EdgeKernel} {fd : RawFd} (fd' : RawFd) (now : Events)
    (h : kernel.queued fd = true) : (kernel.become fd' now).queued fd = true := by
  obtain rfl | hFd := eq_or_ne fd fd'
  · simp [become, h]
  · simp [become, hFd, h]

theorem ready_become {kernel : EdgeKernel} {fd fd' : RawFd} {now : Events} {entry : EpollEvent}
    {b : Nat} (hEntry : kernel.interest fd = some entry) (hRegistered : Has entry.events b)
    (hReady : Has ((kernel.become fd' now).ready fd) b) :
    Has (kernel.ready fd) b ∨ (kernel.become fd' now).queued fd = true := by
  obtain rfl | hFd := eq_or_ne fd fd'
  · by_cases hBefore : Has (kernel.ready fd) b
    · exact .inl hBefore
    · have hNow : Has now b := by simpa [become] using hReady
      have hRising : Has (Function.update kernel.ready fd (now &&& ~~~kernel.ready fd) fd) b := by
        rw [Function.update_self]
        exact has_and_not.mpr ⟨hNow, hBefore⟩
      obtain ⟨event, hReport, -⟩ := @report_of_has
        { kernel with ready := Function.update kernel.ready fd (now &&& ~~~kernel.ready fd) }
        fd entry b hEntry hRegistered hRising
      exact .inr (by simp [become, hReport])
  · exact .inl (by simpa [become, hFd] using hReady)

theorem wait_of_has {kernel : EdgeKernel} {fd : RawFd} {entry : EpollEvent} {b : Nat}
    (hQueued : kernel.queued fd = true) (hEntry : kernel.interest fd = some entry)
    (hRegistered : Has entry.events b) (hReady : Has (kernel.ready fd) b) (fds : List RawFd) :
    (fd ∉ fds ∧ (kernel.wait fds).2.queued fd = true) ∨
    (fd ∈ fds ∧ ∃ event ∈ (kernel.wait fds).1, event.data = entry.data ∧ Has event.events b) := by
  by_cases hTaken : fd ∈ fds
  · obtain ⟨event, hReport, hData, hBit⟩ := report_of_has hEntry hRegistered hReady
    exact .inr ⟨hTaken, event, List.mem_filterMap.mpr ⟨fd, hTaken, hReport⟩, hData, hBit⟩
  · exact .inl ⟨hTaken, by simp [wait, hQueued, hTaken]⟩

/-- A registered direction turns ready. -/
def rises (kernel : EdgeKernel) (fd : RawFd) (now : Events) : Bool :=
  match kernel.interest fd with
  | none => false
  | some entry => entry.events &&& (now &&& ~~~kernel.ready fd) ≠ 0#32

theorem become_queued (kernel : EdgeKernel) (fd : RawFd) (now : Events) :
    (kernel.become fd now).queued fd = (kernel.queued fd || kernel.rises fd now) := by
  simp only [become, report, rises, Function.update_self]
  cases kernel.interest fd with
  | none => rfl
  | some entry =>
    simp only [Option.bind_eq_bind, Option.bind_some]
    split
    · rename_i hNone
      simp [hNone]
    · rename_i hSome
      simp [hSome]

theorem report_interest {kernel : EdgeKernel} {fd : RawFd} (h : (kernel.report fd).isSome) :
    (kernel.interest fd).isSome := by
  obtain ⟨event, hReport⟩ := Option.isSome_iff_exists.mp h
  obtain ⟨entry, hEntry, -⟩ := report_data hReport
  simp [hEntry]

/-- What is queued is registered. -/
def Orderly (kernel : EdgeKernel) : Prop :=
  ∀ fd, kernel.queued fd = true → (kernel.interest fd).isSome

namespace Orderly

variable {kernel : EdgeKernel}

theorem become (h : kernel.Orderly) (fd : RawFd) (now : Events) :
    (kernel.become fd now).Orderly := by
  intro fd' hQueued
  obtain rfl | hFd := eq_or_ne fd' fd
  · rw [become_queued, Bool.or_eq_true] at hQueued
    obtain hBefore | hRises := hQueued
    · exact h fd' hBefore
    · unfold rises at hRises
      split at hRises
      · cases hRises
      · rename_i entry hEntry
        simp [EdgeKernel.become, hEntry]
  · simp only [EdgeKernel.become, Function.update_of_ne hFd] at hQueued
    exact h fd' hQueued

theorem wait (h : kernel.Orderly) (fds : List RawFd) : (kernel.wait fds).2.Orderly := by
  intro fd hQueued
  simp only [EdgeKernel.wait, Bool.and_eq_true] at hQueued
  exact h fd hQueued.1

theorem poke {interest : InterestList} (h : kernel.Orderly)
    (hKept : ∀ fd, (kernel.interest fd).isSome → (interest fd).isSome) (fd : RawFd) :
    (EdgeKernel.poke { kernel with interest } fd).Orderly := by
  intro fd' hQueued
  obtain rfl | hFd := eq_or_ne fd' fd
  · simp only [EdgeKernel.poke, Function.update_self, Bool.or_eq_true] at hQueued
    exact hQueued.elim (fun hBefore => hKept fd' (h fd' hBefore)) report_interest
  · simp only [EdgeKernel.poke, Function.update_of_ne hFd] at hQueued
    exact hKept fd' (h fd' hQueued)

theorem epollCtl (h : kernel.Orderly) (request : CtlRequest) :
    (kernel.epollCtl request).2.Orderly := by
  unfold EdgeKernel.epollCtl
  rcases hCtl : kernel.interest.ctl request with ⟨errno | ⟨⟨⟩⟩, interest⟩
  · exact h
  · have hOthers : ∀ fd event, interest = Function.update kernel.interest fd (some event) →
        ∀ fd', (kernel.interest fd').isSome → (interest fd').isSome := by
      rintro fd event rfl fd' hSome
      obtain rfl | hFd := eq_or_ne fd' fd
      · simp
      · simpa [hFd] using hSome
    cases request with
    | add fd event =>
      simp only [InterestList.ctl] at hCtl
      split at hCtl
      · cases hCtl
      · cases hCtl
        exact h.poke (hOthers fd event rfl) fd
    | modify fd event =>
      simp only [InterestList.ctl] at hCtl
      split at hCtl
      · cases hCtl
      · cases hCtl
        exact h.poke (hOthers fd event rfl) fd
    | delete fd =>
      simp only [InterestList.ctl] at hCtl
      split at hCtl
      · cases hCtl
      · cases hCtl
        intro fd' hQueued
        obtain rfl | hFd := eq_or_ne fd' fd
        · simp at hQueued
        · simp only [Function.update_of_ne hFd] at hQueued ⊢
          exact h fd' hQueued

end Orderly

end EdgeKernel

end Ground
