import Rocm.Lib.Runs
import Rocm.Lib.Semaphore
import Rocm.Support.Services

/-!
# The user processes over the support level

Eight user processes run arbitrary programs. Every address they use is translated by the TLB; where
that fails, `uTLB_RefillHandler` runs in one step, or the exception is passed up to the handlers of
`Pager` and `Services`. An event is a step of one process or the end of a device's operation, so
the runs contain every interleaving. The nucleus below is seen through its system calls: semaphores
block and wake as in `Semaphore.Step`, and a `DOIO` blocks until the device has ended.
-/

namespace Rocm

open Threads Runs

/-- The handlers of the support level: `support_exec_handler` and `tlb_exc_handler`. -/
inductive Level where
  | general
  | pager
  deriving DecidableEq

/-- What a process goes on with: its program, or code of a handler. -/
inductive Cont where
  | user
  | code (lvl : Level) (c : SM Unit)

def Cont.isUser : Cont → Bool
  | .user => true
  | .code _ _ => false

def Cont.isGeneral : Cont → Bool
  | .code .general _ => true
  | _ => false

inductive Wait where
  | ready
  | sem (s : Sem)
  | io
  | dead
  deriving DecidableEq

/-- A process: what it executes, what the states in its `sup_exceptState` go on with. -/
structure Proc where
  now : Cont
  resume : Fin 2 → Cont
  wait : Wait

/-- An instruction of a user program. -/
inductive Instr where
  | other
  | load (va : Word)
  | store (va : Word) (b : Byte)
  | syscall
  | trap (exc : Word)

variable [Umps]

structure System where
  mem : Mem
  proc : Uproc → Proc
  sem : Sem → Semaphore.State Uproc

/-- What happens to the system. `r` is for a refill of the TLB, `s` the state of the processor if
    there is an exception, `now` what a `STCK` reads. -/
inductive UserEvent where
  /-- The process executes an instruction at `pc`. -/
  | user (p : Uproc) (pc : Word) (i : Instr) (r : Refill) (s : ProcState)
  /-- It executes the next command of its handler. -/
  | step (p : Uproc) (r : Refill) (s : ProcState) (now : Word)
  /-- The operation it waits for ends. -/
  | complete (p : Uproc) (status : Word)

/-- What a step is. -/
inductive Did where
  | quiet
  /-- A byte of user memory was loaded or stored. -/
  | loaded (p : Uproc) (va : Word) (b : Byte)
  | stored (p : Uproc) (va : Word) (b : Byte)
  /-- The TLB had no entry for the address, or one that does not permit its use. -/
  | missed (p : Uproc) (va : Word)
  | faulted (p : Uproc) (va : Word)
  /-- A system call or a trap of a user program. -/
  | trapped (p : Uproc)
  /-- A handler gave a command. -/
  | gave (p : Uproc) (c : Cmd)
  /-- The operation that a process was waiting for ended. -/
  | ended (p : Uproc) (d : SubDev) (cmdval status : Word)

/-- The process whose event it is. -/
def UserEvent.actor : UserEvent → Uproc
  | .user p _ _ _ _ => p
  | .step p _ _ _ => p
  | .complete p _ => p

def Did.actor : Did → Option Uproc
  | .quiet => none
  | .loaded p _ _ => some p
  | .stored p _ _ => some p
  | .missed p _ => some p
  | .faulted p _ => some p
  | .trapped p => some p
  | .gave p _ => some p
  | .ended p _ _ _ => some p

namespace System

def setProc (m : System) (p : Uproc) (x : Proc) : System :=
  { m with proc := Function.update m.proc p x }

/-- `p` goes on with `c`. -/
def go (m : System) (p : Uproc) (c : Cont) : System := m.setProc p { m.proc p with now := c }

def setWait (m : System) (p : Uproc) (w : Wait) : System := m.setProc p { m.proc p with wait := w }

/-- The handler for a kind of exception (`init_proc.c:59-60`). -/
def handler (p : Uproc) (k : Fin 2) : Cont :=
  if k = PGFAULTEXCEPT then .code .pager (tlbExcHandler p)
  else .code .general (supportExecHandler p)

/-- The nucleus passes an exception up (`passup_or_die`). -/
def raise (m : System) (p : Uproc) (k : Fin 2) (s : ProcState) : System where
  mem := m.mem.setExceptState p k s
  proc := Function.update m.proc p
    { now := handler p k
      resume := Function.update (m.proc p).resume k (m.proc p).now
      wait := .ready }
  sem := m.sem

/-- A saved state after an exception. -/
def excState (s : ProcState) (exc : Word) : ProcState := { s with cause := exc <<< CAUSESHIFT }

/-- `p` uses the address `va`: the entry that translates it, or what happens instead. -/
def access (m : System) (p : Uproc) (va exc : Word) (r : Refill) (s : ProcState) :
    PteEntry ⊕ System :=
  match m.mem.translate (hiOf p va) with
  | some e =>
    if e.valid then .inl e
    else .inr (m.raise p PGFAULTEXCEPT { excState s exc with entryHi := hiOf p va })
  | none => .inr { m with mem := m.mem.uTlbRefill p (hiOf p va) r }

/-- A byte is stored through an entry of the TLB. -/
def setByte (m : System) (e : PteEntry) (va : Word) (b : Byte) : System :=
  { m with mem := { m.mem with ram := Function.update m.mem.ram (physAddr e va) b } }

/-- `p` stores to `va` and goes on with `c`. -/
def userStore (m : System) (p : Uproc) (va : Word) (b : Byte) (r : Refill) (s : ProcState)
    (c : Cont) : System :=
  match m.access p va EXC_TLBS r s with
  | .inl e =>
    if e.entryLO &&& ENTRYLO_DIRTY ≠ 0 then (m.setByte e va b).go p c
    else m.raise p PGFAULTEXCEPT { excState s EXC_MOD with entryHi := hiOf p va }
  | .inr m' => m'

/-- The exceptions that are traps (`kernel.c:130-132`). -/
def traps : List Word :=
  [EXC_ADEL, EXC_ADES, EXC_IBE, EXC_DBE, EXC_BP, EXC_RI, EXC_CPU, EXC_OV]

/-- An instruction that has been fetched. For a system call with a negative number the nucleus
    changes the cause in `p_s` only (`kernel.c:152-155`), which is not what it passes up. -/
def instr (m : System) (p : Uproc) (r : Refill) (s : ProcState) : Instr → Option System
  | .other => some m
  | .load va =>
    if KUSEG ≤ va then
      match m.access p va EXC_TLBL r s with
      | .inl _ => some m
      | .inr m' => some m'
    else none
  | .store va b => if KUSEG ≤ va then some (m.userStore p va b r s .user) else none
  | .syscall => some (m.raise p GENERALEXCEPT (excState s EXC_SYS))
  | .trap exc => if exc ∈ traps then some (m.raise p GENERALEXCEPT (excState s exc)) else none

/-- The semaphore operation of `p`, which goes on with `c`. -/
def semOp (m : System) (p : Uproc) (s : Sem) (op : Semaphore.Op) (c : Cont) : System where
  mem := m.mem
  proc :=
    let x := { m.proc p with now := c }
    if (m.sem s).up = op.blocksAt then Function.update m.proc p { x with wait := .sem s }
    else match (m.sem s).queue with
      | w :: _ =>
        Function.update (Function.update m.proc p x) w
          { Function.update m.proc p x w with wait := .ready }
      | [] => Function.update m.proc p x
  sem := Function.update m.sem s ((m.sem s).call p op)

/-- A command of a handler. -/
def exec (m : System) (p : Uproc) (lvl : Level) (r : Refill) (s : ProcState)
    (now : Word) : (c : Cmd) → (c.Res → SM Unit) → Option System
  | .act a, k => some (({ m with mem := (a.run m.mem).2 } : System).go p (.code lvl (k (a.run m.mem).1)))
  | .call (.passeren sem), k => some (m.semOp p sem .passeren (.code lvl (k ())))
  | .call (.verhogen sem), k => some (m.semOp p sem .verhogen (.code lvl (k ())))
  | .call (.doio d v), _ => some (({ m with mem := m.mem.setCommand d v } : System).setWait p .io)
  | .call .termProcess, _ => some (m.setWait p .dead)
  | .call .terminate, _ =>
    some (m.raise p GENERALEXCEPT ((excState s EXC_SYS).setReg regA0 TERMINATE))
  | .call .stck, k => some (m.go p (.code lvl (k now)))
  | .call (.load va), k =>
    if KUSEG ≤ va then
      match m.access p va EXC_TLBL r s with
      | .inl e => some (m.go p (.code lvl (k (m.mem.ram (physAddr e va)))))
      | .inr m' => some m'
    else none
  | .call (.store va b), k =>
    if KUSEG ≤ va then some (m.userStore p va b r s (.code lvl (k ()))) else none
  | .call (.readLoop virtAddr i asid), k =>
    some (m.go p (.code lvl (readRound virtAddr i asid >>= fun
      | .inl x => .cmd (.call (.readLoop x.1 x.2 asid)) k
      | .inr ret => k ret)))
  | .call (.ldst k), _ => some (m.go p ((m.proc p).resume k))
  | .call .panic, _ => none
  | .call .wild, _ => none

/-- A device ends the operation that `p` waits for. -/
def finish (m : System) (p : Uproc) (lvl : Level) (status : Word) :
    SM Unit → Option System
  | .cmd (.call (.doio d _)) k =>
    some (({ m with mem := m.mem.complete d status } : System).setProc p
      { m.proc p with now := .code lvl (k status), wait := .ready })
  | _ => none

/-- The effect of an event; `none` when it cannot occur. -/
def next (m : System) : UserEvent → Option System
  | .user p pc i r s =>
    if (m.proc p).wait = .ready ∧ (m.proc p).now.isUser ∧ KUSEG ≤ pc then
      match m.access p pc EXC_TLBL r s with
      | .inl _ => m.instr p r s i
      | .inr m' => some m'
    else none
  | .step p r s now =>
    if (m.proc p).wait = .ready then
      match (m.proc p).now with
      | .code lvl (.cmd c k) => m.exec p lvl r s now c k
      | _ => none
    else none
  | .complete p status =>
    if (m.proc p).wait = .io then
      match (m.proc p).now with
      | .code lvl c => m.finish p lvl status c
      | .user => none
    else none

/-- What happens in a step that uses `va`, with `ok` for when it is translated. -/
def used (m : System) (p : Uproc) (va : Word) (ok : PteEntry → Did) : Did :=
  match m.mem.translate (hiOf p va) with
  | some e => if e.valid then ok e else .faulted p va
  | none => .missed p va

def loadDid (m : System) (p : Uproc) (va : Word) : Did :=
  m.used p va fun e => .loaded p va (m.mem.ram (physAddr e va))

def storeDid (m : System) (p : Uproc) (va : Word) (b : Byte) : Did :=
  m.used p va fun e =>
    if e.entryLO &&& ENTRYLO_DIRTY ≠ 0 then .stored p va b else .faulted p va

def cmdDid (m : System) (p : Uproc) : Cmd → Did
  | .call (.load va) => m.loadDid p va
  | .call (.store va b) => m.storeDid p va b
  | c => .gave p c

def instrDid (m : System) (p : Uproc) : Instr → Did
  | .other => .quiet
  | .load va => m.loadDid p va
  | .store va b => m.storeDid p va b
  | .syscall => .trapped p
  | .trap _ => .trapped p

/-- What happens at an event that can occur. -/
def did (m : System) : UserEvent → Did
  | .user p pc i _ _ => m.used p pc fun _ => m.instrDid p i
  | .step p _ _ _ =>
    match (m.proc p).now with
    | .code _ (.cmd c _) => m.cmdDid p c
    | _ => .quiet
  | .complete p status =>
    match (m.proc p).now with
    | .code _ (.cmd (.call (.doio d v)) _) => .ended p d v status
    | _ => .quiet

/-- The system when all processes have been created, and nothing has run yet. -/
def start (mem : Mem) : System where
  mem := mem
  proc _ := { now := .user, resume := fun _ => .user, wait := .ready }
  sem _ := { up := true, queue := [] }

end System

/-- The entry translates no address of a user process. -/
def PteEntry.Foreign (e : PteEntry) : Prop :=
  e.entryLO &&& ENTRYLO_GLOBAL = 0 ∧
    ∀ p, (e.entryHI ^^^ asid p <<< ASIDSHIFT) &&& ENTRYHI_ASID_MASK ≠ 0

/-- The memory after `init_supp_structures` and the creation of the processes. -/
structure Initial (m : Mem) : Prop where
  init : ∃ sup spTbl tlb ram dev flash, m = Mem.initSupp sup spTbl tlb ram dev flash
  tlb : ∀ i, (m.tlb i).Foreign

/-- A step whose event fulfils `ok`. -/
def UserStep (ok : System → UserEvent → Prop) (m : System) (e : UserEvent) (m' : System) : Prop :=
  m.next e = some m' ∧ ok m e

end Rocm
