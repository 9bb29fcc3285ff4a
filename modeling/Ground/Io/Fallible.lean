import Ground.Io.Registration

/-! # Kernels that may refuse to register

`epoll_ctl` may fail for reasons that the interest list does not show. Such a
refusal leaves the list as it was, and deletions are always answered as
documented.
-/

namespace Ground

open Mask

variable {T τ κ R : Type}

/-- A kernel that has run out of something and refuses to register. -/
structure Refusing (κ : Type) where
  kernel : κ
  errno : Errno

instance [Epoll κ] : Epoll (Refusing κ) where
  epollCtl refusing request :=
    match request with
    | .add _ _ | .modify _ _ => (.error refusing.errno, refusing)
    | .delete fd =>
      let (rc, kernel) := Epoll.epollCtl refusing.kernel (.delete fd)
      (rc, { refusing with kernel })

/-- A kernel that answers as documented or else refuses to register. -/
class Fallible (κ : Type) [Epoll κ] where
  interest : κ → InterestList
  epollCtl_cases : ∀ (kernel : κ) request,
    ((Epoll.epollCtl kernel request).1 = ((interest kernel).ctl request).1 ∧
      interest (Epoll.epollCtl kernel request).2 = ((interest kernel).ctl request).2) ∨
    ((∀ fd, request ≠ .delete fd) ∧
      (∃ errno, (Epoll.epollCtl kernel request).1 = .error errno) ∧
      interest (Epoll.epollCtl kernel request).2 = interest kernel)

instance [InterestKernel κ] : Fallible κ where
  interest := InterestKernel.interest
  epollCtl_cases kernel request :=
    .inl ⟨InterestKernel.epollCtl_fst kernel request,
      InterestKernel.epollCtl_interest kernel request⟩

instance [InterestKernel κ] : Fallible (Refusing κ) where
  interest refusing := InterestKernel.interest refusing.kernel
  epollCtl_cases refusing request := by
    cases request with
    | add fd event => exact .inr ⟨by simp, ⟨refusing.errno, rfl⟩, rfl⟩
    | modify fd event => exact .inr ⟨by simp, ⟨refusing.errno, rfl⟩, rfl⟩
    | delete fd =>
      exact .inl ⟨InterestKernel.epollCtl_fst refusing.kernel (.delete fd),
        InterestKernel.epollCtl_interest refusing.kernel (.delete fd)⟩

namespace Reactor

def held [Epoll κ] [Fallible κ] (r : Reactor κ) : InterestList := Fallible.interest r.epfd

def refusing (r : Reactor κ) (errno : Errno) : Reactor (Refusing κ) :=
  { epfd := { kernel := r.epfd, errno }, isDispatching := r.isDispatching }

def granting (r : Reactor (Refusing κ)) : Reactor κ :=
  { epfd := r.epfd.kernel, isDispatching := r.isDispatching }

end Reactor

variable [Epoll κ] [Fallible κ]

theorem epollCtl_held (r : Reactor κ) (request : CtlRequest) :
    ((r.epollCtl request).1 = (r.held.ctl request).1 ∧
      (r.epollCtl request).2.held = (r.held.ctl request).2) ∨
    ((∀ fd, request ≠ .delete fd) ∧ (∃ errno, (r.epollCtl request).1 = .error errno) ∧
      (r.epollCtl request).2.held = r.held) :=
  Fallible.epollCtl_cases r.epfd request

theorem ensureRegistered_held (fd : RawFd) (addr : Addr) (waiter : Waiter τ)
    (interest : Interest) (r : Reactor κ) :
    let requested := waiter.registerFor ||| interest.asEvents ||| EPOLLET
    let registered := ensureRegistered fd addr waiter interest r
    (registered.1 = .ret () ∧
      registered.2.2.held = Function.update r.held fd (some ⟨requested, addr⟩)) ∨
    (registered.2.2.held = r.held ∧
      (registered.1 = .panic .register → requested ≠ waiter.registerFor)) := by
  intro requested registered
  have hCtl := ctl_registerRequest r.held fd addr waiter requested
  have hHeld := epollCtl_held r (registerRequest fd addr waiter requested)
  obtain ⟨-, hRun⟩ | ⟨-, hOk, hRun⟩ | ⟨hNew, ⟨errno, hRefused⟩, hRun⟩ :=
    ensureRegistered_cases fd addr waiter interest r
  · simp only [registered, hRun]
    exact .inr ⟨trivial, by simp⟩
  · simp only [registered, hRun]
    obtain ⟨hAnswer, hList⟩ | ⟨-, ⟨errno, hRefused⟩, -⟩ := hHeld
    · obtain ⟨-, hDone⟩ | ⟨-, errno, hDone⟩ := hCtl
      · rw [hDone] at hList
        exact .inl ⟨trivial, hList⟩
      · rw [hDone] at hAnswer
        cases hAnswer.symm.trans hOk
    · cases hRefused.symm.trans hOk
  · simp only [registered, hRun]
    refine .inr ⟨?_, fun _ => hNew⟩
    obtain ⟨hAnswer, hList⟩ | ⟨-, -, hSame⟩ := hHeld
    · obtain ⟨-, hDone⟩ | ⟨-, errno', hDone⟩ := hCtl
      · rw [hDone] at hAnswer
        cases hAnswer.symm.trans hRefused
      · rw [hDone] at hList
        exact hList
    · exact hSame

end Ground
