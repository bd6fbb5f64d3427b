import Rocm.Lib.LockOrder
import Rocm.Proofs.Locks
import Rocm.Properties.SupportSample

/-!
# The locks of the support level

In every interleaving at most one process is between the P and the V of a semaphore, a V finds its
semaphore down, and no process waits, directly or through others, for a semaphore that it holds: the
semaphores are taken in the order of `Sem.rank`.
-/

namespace Rocm

open Runs LockOrder

variable [Umps]

/-- Who is between the P and the V after a step: the P has returned, in the step or because the
    step has ended the wait, and the V has not been called. -/
def Crossing (between : Uproc → Sem → Prop) (x : System × UserEvent × System) (p : Uproc)
    (s : Sem) : Prop :=
  x.1.did x.2.1 ≠ .gave p (.call (.verhogen s)) ∧
    (between p s ∨
      (x.1.did x.2.1 = .gave p (.call (.passeren s)) ∨ (x.1.proc p).wait = .sem s) ∧
        (x.2.2.proc p).wait ≠ .sem s)

/-- Who is between the P and the V of which semaphore at the end of a run. -/
def Between (tr : List (System × UserEvent × System)) : Uproc → Sem → Prop :=
  tr.foldl Crossing fun _ _ => False

theorem between_snoc {tr : List (System × UserEvent × System)} (x : System × UserEvent × System) :
    Between (tr ++ [x]) = Crossing (Between tr) x := List.foldl_append ..

end Rocm
