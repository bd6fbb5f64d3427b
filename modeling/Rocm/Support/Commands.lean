import Rocm.Lib.Threads
import Rocm.Support.Memory

/-!
# What the support level does one at a time

A handler of the support level runs with interrupts on, so other processes can run between any two
of its commands. A command is one access to what is shared, a piece of code that runs with the
interrupts off, or a system call. `choose_frame` is one command: what it reads and writes is used by
nobody who does not hold `sp_sem`.
-/

namespace Rocm

open Threads

/-- The semaphores of the support level: `sp_sem` (`pager.c:36`) and the elements of `dev_sems`
    (`support.c:28`). -/
inductive Sem where
  | spSem
  | dev (type : Fin 6) (no : Fin 8)
  deriving DecidableEq

/-- Numbers of the services (`pandos_const.h:51-55`). -/
def GETTOD : Word := 1
def TERMINATE : Word := 2
def WRITEPRINTER : Word := 3
def WRITETERMINAL : Word := 4
def READTERMINAL : Word := 5

/-- An access to the memory. -/
inductive Act where
  /-- The support structure of a process, read as a whole. -/
  | support (p : Uproc)
  | setExceptState (p : Uproc) (k : Fin 2) (s : ProcState)
  | chooseFrame
  | usable (f : Frame)
  | pgTblEntry (f : Frame)
  | pte (x : Uproc × Page)
  | invalidate (x : Uproc × Page)
  | setFree (f : Frame)
  | install (p : Uproc) (f : Frame) (i : Page)
  | loadAsids
  | storeAsids (v : BitVec 8)
  | status (d : SubDev)
  | setData0 (d : SubDev) (v : Word)

/-- What an access returns. -/
abbrev Act.Res : Act → Type
  | .support _ => SupportT
  | .chooseFrame => Frame
  | .usable _ => Bool
  | .pgTblEntry _ => Uproc × Page
  | .pte _ => PteEntry
  | .loadAsids => BitVec 8
  | .status _ => Word
  | _ => Unit

/-- A system call, or a user address. -/
inductive Call where
  | passeren (s : Sem)
  | verhogen (s : Sem)
  | doio (d : SubDev) (cmdval : Word)
  /-- `TERMPROCESS` with 0. -/
  | termProcess
  /-- `SYSCALL(TERMINATE, 0, 0, 0)`, which comes back as an exception. -/
  | terminate
  /-- `STCK`. -/
  | stck
  /-- A load from or a store to an address that the caller of the service has given. -/
  | load (va : Word)
  | store (va : Word) (b : Byte)
  /-- The rest of the loop of `read_from_terminal`. -/
  | readLoop (virtAddr i asid : Word)
  /-- `LDST(&act_proc_sup->sup_exceptState[k])`. -/
  | ldst (k : Fin 2)
  | panic
  /-- An access past the end of an array. -/
  | wild
  deriving DecidableEq

/-- What a system call returns; those that do not return have no answer. -/
abbrev Call.Res : Call → Type
  | .doio _ _ => Word
  | .stck => Word
  | .load _ => Byte
  | .readLoop _ _ _ => Word
  | .termProcess => Empty
  | .terminate => Empty
  | .ldst _ => Empty
  | .panic => Empty
  | .wild => Empty
  | _ => Unit

inductive Cmd where
  | act (a : Act)
  | call (c : Call)

abbrev Cmd.Res : Cmd → Type
  | .act a => a.Res
  | .call c => c.Res

/-- The code of the support level. -/
abbrev SM := Code Cmd Cmd.Res

def act (a : Act) : SM a.Res := Code.give (Cmd.act a)

def call (c : Call) : SM c.Res := Code.give (Cmd.call c)

/-! Calls that do not return. -/

theorem Call.termProcess_res : Call.termProcess.Res = Empty := rfl
theorem Call.terminate_res : Call.terminate.Res = Empty := rfl
theorem Call.ldst_zero_res : (Call.ldst 0).Res = Empty := rfl
theorem Call.ldst_one_res : (Call.ldst 1).Res = Empty := rfl
theorem Call.panic_res : Call.panic.Res = Empty := rfl
theorem Call.wild_res : Call.wild.Res = Empty := rfl

/-- A call that does not return. -/
def exit {α : Type} (c : Call) (h : c.Res = Empty) : SM α :=
  .cmd (.call c) fun r => (cast h r : Empty).elim

/-- `safe_kill` (`sys_support.c:270`). -/
def safeKill {α : Type} : SM α := exit .termProcess Call.termProcess_res

/-- What an access does. -/
def Act.run [Umps] (m : Mem) : (a : Act) → a.Res × Mem
  | .support p => (m.sup p, m)
  | .setExceptState p k s => ((), m.setExceptState p k s)
  | .chooseFrame => (m.chooseFrame, { m with frameTop := m.chooseFrame })
  | .usable f => (m.usable f, m)
  | .pgTblEntry f => ((m.spTbl f).pgTblEntry, m)
  | .pte x => (m.pte x, m)
  | .invalidate x => ((), m.invalidate x)
  | .setFree f => ((), m.setFree f)
  | .install p f i => ((), m.install p f i)
  | .loadAsids => (m.spAsids, m)
  | .storeAsids v => ((), { m with spAsids := v })
  | .status d => ((m.dev d).status, m)
  | .setData0 d v => ((), m.setData0 d v)

end Rocm
