import Mathlib.Logic.Function.Basic
import Ground.Reactor

/-! # The kernel's interest list

`epoll_ctl` as documented, for valid descriptors: adding fails exactly on a
registered descriptor, modifying and deleting exactly on an unregistered one.
-/

namespace Ground

abbrev InterestList := RawFd → Option EpollEvent

namespace InterestList

def empty : InterestList := fun _ => none

def ctl (list : InterestList) : CtlRequest → Except Errno Unit × InterestList
  | .add fd event =>
    match list fd with
    | some _ => (.error EEXIST, list)
    | none => (.ok (), Function.update list fd (some event))
  | .modify fd event =>
    match list fd with
    | none => (.error ENOENT, list)
    | some _ => (.ok (), Function.update list fd (some event))
  | .delete fd =>
    match list fd with
    | none => (.error ENOENT, list)
    | some _ => (.ok (), Function.update list fd none)

instance : Epoll InterestList := ⟨ctl⟩

end InterestList

class InterestKernel (κ : Type) extends Epoll κ where
  interest : κ → InterestList
  epollCtl_fst : ∀ kernel request, (epollCtl kernel request).1 = ((interest kernel).ctl request).1
  epollCtl_interest : ∀ kernel request,
    interest (epollCtl kernel request).2 = ((interest kernel).ctl request).2

instance : InterestKernel InterestList where
  interest := id
  epollCtl_fst _ _ := rfl
  epollCtl_interest _ _ := rfl

namespace Reactor

variable {κ : Type} [InterestKernel κ]

def list (r : Reactor κ) : InterestList := InterestKernel.interest r.epfd

@[simp] theorem epollCtl_fst (r : Reactor κ) (request : CtlRequest) :
    (r.epollCtl request).1 = (r.list.ctl request).1 :=
  InterestKernel.epollCtl_fst r.epfd request

@[simp] theorem epollCtl_list (r : Reactor κ) (request : CtlRequest) :
    (r.epollCtl request).2.list = (r.list.ctl request).2 :=
  InterestKernel.epollCtl_interest r.epfd request

end Reactor

end Ground
