import Rocm.Spec.Handlers
import Rocm.Proofs.Devices
import Rocm.Proofs.Outcomes

/-!
# The contract of the nucleus and its invariant

`Contract` is what processes owe the nucleus. `Good` is what the nucleus then guarantees whenever
it loads a process or waits.
-/

namespace Rocm

/-- A TERMPROCESS is about the caller or a live process. -/
def TermOk (k : Kernel View) (s : ProcState) : Prop :=
  s.number = TERMPROCESS → s.arg1 = 0 ∨ ∃ q, q ∉ k.lists.free ∧ (k.g.pcb q).pPid = s.arg1

variable [Layout]

/-- A syscall that keeps off the semaphores of the nucleus. A DOIO is about the command register
    of a device; where it is not, neither the address nor the semaphore that `do_io` then
    operates on is a semaphore of the nucleus. -/
structure CallOk (k : Kernel View) (junk : Word) (s : ProcState) : Prop where
  term : TermOk k s
  sem : s.number = PASSEREN ∨ s.number = VERHOGEN → ¬ Layout.toAddresses.IsSem s.arg1
  doio : s.number = DOIO → (∃ d : SubDev, s.arg1 = d.commandAddr) ∨
    ¬ Layout.toAddresses.IsSem s.arg1 ∧
      (findDevice (deviceFromComdaddr s.arg1) = none → ¬ Layout.toAddresses.IsSem (junk - 4))

/-- The process that has the processor waits on no semaphore. -/
def Unblocked (k : Kernel View) : Prop := ∀ p, k.g.actProc = some p → (k.g.pcb p).pSemAdd = NULL

instance (k : Kernel View) : Decidable (Unblocked k) := inferInstanceAs (Decidable (∀ _, _))

/-- What processes owe the nucleus: every syscall is `CallOk`. A DOIO with a misaligned address
    blocks its caller before it fails; no run goes on from there. -/
def Contract (o : Obs) : Event → Prop
  | .exception saved status pending junk =>
    (o.k.g.enter saved status pending junk).KernelCall saved → CallOk o.k junk saved
  | .addressError _ _ _ _ => Unblocked o.k
  | _ => True

/-- Every syscall is `CallOk`, and runs go on after every address error. -/
def SyscallsOk (o : Obs) : Event → Prop
  | .exception saved status pending junk =>
    (o.k.g.enter saved status pending junk).KernelCall saved → CallOk o.k junk saved
  | _ => True

/-- A DOIO with a misaligned address does not block its caller. -/
def DoioAligned (o : Obs) : Event → Prop
  | .exception saved status pending junk =>
    (o.k.g.enter saved status pending junk).KernelCall saved → saved.number = DOIO →
      saved.arg1 &&& 3 = 0 ∨ o.k.g.int (doIoSem junk saved.arg1) ≠ 0
  | _ => True

/-- The process that has the processor after an exit. -/
def Exit.current : Exit → Option PcbId
  | .ldst p => some p
  | .ldcxt p _ => some p
  | _ => none

/-- Further steps can follow. -/
def Exit.ongoing (e : Exit) : Prop := e.live ∨ e = .fault

instance (e : Exit) : Decidable e.ongoing := inferInstanceAs (Decidable (_ ∨ _))

/-- What holds before every step: nobody has yielded, and who has the processor is in no queue. -/
structure Poised (k : Kernel View) : Prop extends Sound k where
  yielded : k.g.yieldedProc = none
  it : k.g.int Layout.toAddresses.semIt = 0
  dev : ∀ d, DevInv k d
  loose : ∀ p, k.g.actProc = some p → k.lists.Loose p

/-- What holds whenever a process is loaded or the processor waits. -/
structure Stable (o : Obs) : Prop extends Poised o.k where
  current : o.k.g.actProc = o.exit.current

/-- The exits that can be reached: of the `PANIC`s, only those of a semaphore out of range, a DOIO
    on a null address and a deadlock. -/
def Exit.proper : Exit → Bool
  | .panic .semRangeP => true
  | .panic .semRangeV => true
  | .panic .doIoNull => true
  | .panic .deadlock => true
  | .panic _ => false
  | .emptyDescriptor => false
  | .endless => false
  | .misuse => false
  | _ => true

/-- The invariant of the machine. -/
structure Good (o : Obs) : Prop where
  proper : o.exit.proper
  stable : o.exit.live → Stable o
  fault : o.exit = .fault → Unblocked o.k → Poised o.k ∧ o.k.g.actProc ≠ none

end Rocm
