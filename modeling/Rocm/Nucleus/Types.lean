import Rocm.Nucleus.Arch
import Rocm.Lib.Prog

/-!
# The state of the nucleus and its programs

The variables of the nucleus are split in two: `Globals` are plain variables and the fields of
the PCBs; the intrusive lists (`p_list`, `p_child`, `p_sib`, the semaphore list) are the
parameter `D`, which is a heap of links in the program and lists in the abstract model.
-/

namespace Rocm

/-- The index of an element of `pcb_free_table`: what a `pcb_t *` points to. -/
abbrev PcbId := Fin MAXPROC

instance instLawfulBEqPcbId : LawfulBEq PcbId := inferInstance

/-- `pcb_t` without its links (`pandos_types.h:41-69`). `p_semAdd` and `p_supportStruct` are raw
    pointers. -/
structure Pcb where
  pParent : Option PcbId
  pS : ProcState
  pTime : Word
  pTmUpdt : Word
  pSemAdd : Word
  pSupportStruct : Word
  pPrio : Word
  pPid : Word

/-- The readings of the time-of-day clock during a run; `STCK` takes the next one. -/
structure Clock where
  reading : Nat → Word
  next : Nat

/-- The variables of the nucleus and of the machine below it. -/
structure Globals where
  /-- `pcb_free_table` (`pcb.c:13`). -/
  pcb : PcbId → Pcb
  /-- `act_proc`, `sb_procs`, `procs_count` (`scheduler.c:19-23`). -/
  actProc : Option PcbId
  sbProcs : Word
  procsCount : Word
  /-- `yielded_proc` (`syscalls.c:24`). -/
  yieldedProc : Option PcbId
  /-- The `int` variables, among them the semaphores. -/
  int : Word → Word
  /-- The `state_t` and `support_t` variables of the processes. -/
  states : Word → ProcState
  supports : Word → SupportT
  /-- What `do_io` finds in its local `sem` where it does not assign it. -/
  junk : Word
  /-- The state the BIOS saved in `BIOSDATAPAGE`. -/
  biosDataPage : ProcState
  /-- The status register. -/
  cpuStatus : Word
  /-- Pending interrupts of the lines 0..2: inter-processor, local timer, interval timer. -/
  pending : Fin 3 → Bool
  /-- The local and the interval timer. -/
  timer : Word
  intervalTimer : Word
  clock : Clock
  dev : SubDev → DevState

/-- The nucleus, over an implementation `D` of its lists. -/
structure Kernel (D : Type) where
  lists : D
  g : Globals

/-- The lists stay, the variables change. -/
def Kernel.mapG {D : Type} (k : Kernel D) (f : Globals → Globals) : Kernel D := ⟨k.lists, f k.g⟩

/-- Where the nucleus calls `PANIC`. -/
inductive PanicAt where
  | initProcess
  | noActiveProcess
  | zombie
  | blockedProcess
  | semRangeP
  | semRangeV
  | zombieP
  | zombieV
  | insertBlockedP
  | insertBlockedV
  | doIoNull
  | interruptIndex
  | killOutChild
  | killOutBlocked
  | deadlock
  | scheduler
  | mainEnd
  deriving DecidableEq

/-- How a path through the nucleus ends: by loading a processor state, by stopping the
    machine, or by going wrong. -/
inductive Exit where
  /-- `LDST(&act_proc->p_s)`. -/
  | ldst (p : PcbId)
  /-- `LDCXT` with the context of `p` for this kind of exception. -/
  | ldcxt (p : PcbId) (context : Context)
  | wait
  | halt
  | panic (at_ : PanicAt)
  /-- A load or store through a pointer that points to no object. -/
  | fault
  /-- `remove_blocked` dereferences the `NULL` that `remove_proc_q` returned. -/
  | emptyDescriptor
  /-- A loop that does not end. -/
  | endless
  /-- The abstract lists only: an operation that would break an intrusive list. -/
  | misuse
  deriving DecidableEq

/-- A program of the nucleus. -/
abbrev KM (D : Type) := EStateM Exit (Kernel D)

section Access

variable {D : Type}

/-- Reads the plain variables. -/
def getG : KM D Globals := Kernel.g <$> get

/-- Assigns plain variables. -/
def modifyG (f : Globals → Globals) : KM D PUnit := modify fun k => { k with g := f k.g }

/-- Assigns fields of the PCB `p`. -/
def Globals.setPcb (g : Globals) (p : PcbId) (f : Pcb → Pcb) : Globals :=
  { g with pcb := Function.update g.pcb p (f (g.pcb p)) }

/-- Assigns to the saved processor state of `p`. -/
def Globals.setPS (g : Globals) (p : PcbId) (f : ProcState → ProcState) : Globals :=
  g.setPcb p fun c => { c with pS := f c.pS }

/-- Assigns an `int` variable. -/
def Globals.setInt (g : Globals) (a v : Word) : Globals :=
  { g with int := Function.update g.int a v }

def PANIC {α : Type} (at_ : PanicAt) : KM D α := throw (.panic at_)

/-- `STCK` (`libumps.h`): the next reading of the clock. -/
def STCK : KM D Word := do
  let g ← getG
  modifyG fun g => { g with clock := { g.clock with next := g.clock.next + 1 } }
  return g.clock.reading g.clock.next

def setTIMER (v : Word) : KM D PUnit := modifyG fun g => { g with timer := v }
def LDIT (v : Word) : KM D PUnit := modifyG fun g => { g with intervalTimer := v }

end Access

/-- The action the exception handler takes on the running process (`kernel.h:13-17`); the
    handlers also return integers outside the enumeration. -/
inductive EhAct where
  | nothing
  | renqueue
  | continue
  | other (n : Int)
  deriving DecidableEq

end Rocm
