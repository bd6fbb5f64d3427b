import Rocm.Lib.Runs
import Rocm.Nucleus.Kernel

/-!
# The machine running the nucleus

Between two entries of the nucleus a process runs, or the processor waits. An `Event` is an
exception, which runs `exception_handler`, or something that happens outside the nucleus: a
controller ends an operation, or the running process stores to memory. An address error of the
nucleus itself is an exception too, and enters it again.
-/

namespace Rocm

open ProcTable Runs

variable {D : Type} [ProcTable D] [Layout]

/-- The nucleus and the exit it left by last. -/
structure Mach (D : Type) where
  k : Kernel D
  exit : Exit

/-- What happens to the machine. -/
inductive Event where
  /-- An exception: the state the BIOS saves, the status register at the entry of the handler,
      the pending interrupts of the lines 0..2, an unassigned local of the handler. -/
  | exception (saved : ProcState) (status : Word) (pending : Fin 3 → Bool) (junk : Word)
  /-- `WAIT` ends without an exception. -/
  | resume
  /-- The controller of a sub-device ends its operation. -/
  | complete (d : SubDev) (status : Word)
  /-- The running process stores to memory of its own. -/
  | store (a v : Word)
  | storeState (a : Word) (s : ProcState)
  | storeSupport (a : Word) (s : SupportT)
  /-- The nucleus has used an address that is no address of a word, and is entered again. -/
  | addressError (saved : ProcState) (status : Word) (pending : Fin 3 → Bool) (junk : Word)

/-- The saved state is that of a load from or a store to a misaligned address. -/
def ProcState.IsAddressError (s : ProcState) : Prop :=
  CAUSE_GET_EXCCODE s.cause = EXC_ADEL ∨ CAUSE_GET_EXCCODE s.cause = EXC_ADES

instance (s : ProcState) : Decidable s.IsAddressError := inferInstanceAs (Decidable (_ ∨ _))

/-- A process is running. -/
def Exit.running : Exit → Bool
  | .ldst _ => true
  | .ldcxt _ _ => true
  | _ => false

/-- The exception can occur after this exit: while the processor waits, only an interrupt. -/
def Exit.canTake (saved : ProcState) : Exit → Bool
  | .ldst _ => true
  | .ldcxt _ _ => true
  | .wait => CAUSE_GET_EXCCODE saved.cause = EXC_INT
  | _ => false

/-- The machine has not stopped. -/
def Exit.live : Exit → Bool
  | .ldst _ => true
  | .ldcxt _ _ => true
  | .wait => true
  | _ => false

/-- Runs a program of the nucleus to its exit. None of those that are run returns. -/
def runTo (m : KM D PUnit) (k : Kernel D) : Mach D :=
  match m k with
  | .ok _ k' => ⟨k', .fault⟩
  | .error e k' => ⟨k', e⟩

/-- What the hardware does before it enters the handler. The clock has a reading of its own for
    the moment of the exception. -/
def Globals.enter (g : Globals) (saved : ProcState) (status : Word) (pending : Fin 3 → Bool)
    (junk : Word) : Globals :=
  { g with
    biosDataPage := saved, cpuStatus := status, pending := pending, junk := junk
    clock := { g.clock with next := g.clock.next + 1 } }

/-- The effect of an event; `none` when it cannot occur. -/
def Mach.next (m : Mach D) : Event → Option (Mach D)
  | .exception saved status pending junk =>
    if m.exit.canTake saved then
      some (runTo exceptionHandler { m.k with g := m.k.g.enter saved status pending junk })
    else none
  | .resume => if m.exit = .wait then some (runTo schedulerNext m.k) else none
  | .complete d status =>
    if m.exit.live then
      some { m with k := { m.k with g := { m.k.g with
        dev := Function.update m.k.g.dev d ((m.k.g.dev d).complete status) } } }
    else none
  | .store a v =>
    if m.exit.running ∧ ¬ Layout.toAddresses.IsSem a then
      some { m with k := { m.k with g := m.k.g.setInt a v } }
    else none
  | .storeState a s =>
    if m.exit.running then
      some { m with k := { m.k with g := { m.k.g with
        states := Function.update m.k.g.states a s } } }
    else none
  | .storeSupport a s =>
    if m.exit.running then
      some { m with k := { m.k with g := { m.k.g with
        supports := Function.update m.k.g.supports a s } } }
    else none
  | .addressError saved status pending junk =>
    if m.exit = .fault ∧ saved.IsAddressError then
      some (runTo exceptionHandler { m.k with g := m.k.g.enter saved status pending junk })
    else none

/-- The machine at power on: no PCB has a PID yet and the controllers are idle. -/
structure PowerOn (g : Globals) : Prop where
  pid : ∀ p, (g.pcb p).pPid = 0
  dev : ∀ d, (g.dev d).status = READY ∧ (g.dev d).busy = false ∧ (g.dev d).intr = false

/-- The machine after boot. -/
@[irreducible] def boot (g : Globals) : Mach D := runTo main ⟨uninit, g⟩

/-- The kernel as its view shows it. -/
def Kernel.abs (k : Kernel D) : Kernel View := ⟨view k.lists, k.g⟩

/-- What can be seen of a machine whatever its process table is made of. -/
abbrev Obs := Mach View

def Mach.obs (m : Mach D) : Obs := ⟨m.k.abs, m.exit⟩

omit [Layout] in
@[simp] theorem Mach.obs_exit (m : Mach D) : m.obs.exit = m.exit := rfl

omit [Layout] in
@[simp] theorem Mach.obs_g (m : Mach D) : m.obs.k.g = m.k.g := rfl

omit [Layout] in
@[simp] theorem Mach.obs_lists (m : Mach D) : m.obs.k.lists = view m.k.lists := rfl

/-- A step whose event fulfils `ok`. -/
def Step (ok : Obs → Event → Prop) (m : Mach D) (e : Event) (m' : Mach D) : Prop :=
  m.next e = some m' ∧ ok m.obs e

end Rocm
