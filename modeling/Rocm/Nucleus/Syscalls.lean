import Rocm.Nucleus.Scheduler

/-!
# System calls (`syscalls.c`)

`passeren` and `verhogen` work on any semaphore and are also called for the semaphores of the
nucleus. The functions that return an action return the `EhAct` of the exception handler.
-/

namespace Rocm

open ProcTable

variable {D : Type} [ProcTable D] [Layout]

/-- `act_proc` where it is dereferenced. -/
def derefActProc : KM D PcbId := do
  match (← getG).actProc with
  | some p => return p
  | none => throw .fault

/-- `search_by_pid` (`pcb.c:30-37`) for a table anywhere: the pointer it returns. -/
def Addresses.searchByPid (L : Addresses) (pid : Word) : Word :=
  let base := L.pcbFreeTable
  let size := L.sizeofPcb
  if (pid - base) % size = 0 ∧ base ≤ pid ∧ pid ≤ base + size * BitVec.ofNat 32 MAXPROC then pid
  else NULL

/-- `search_by_pid` for the table that the linker has placed. -/
def searchByPid (pid : Word) : Word := Layout.toAddresses.searchByPid pid

/-- The element of `pcb_free_table` at an address. -/
def pcbAt (a : Word) : Option PcbId :=
  (List.finRange MAXPROC).find? fun p => Layout.toAddresses.pcbAddr p = a

/-- `kill_parent_and_progeny` (`syscalls.c:260-267`). A round of its loop is the recursive call
    on the first child followed by the rest of the loop; `fuel` bounds rounds and depth
    together. -/
def killParentAndProgeny : Nat → PcbId → KM D PUnit
  | 0, _ => throw .endless
  | fuel + 1, p => do
    match ← removeChild p with
    | some c =>
      killParentAndProgeny fuel c
      killParentAndProgeny fuel p
    | none => killProc p

/-- More rounds and calls than the process tree has nodes and links. -/
def killFuel : Nat := 2 * MAXPROC + 1

/-- `create_process` (`syscalls.c:172-182`). -/
def createProcess (statep prio supportp : Word) : KM D EhAct := do
  match ← mkProc statep prio supportp with
  | none => return .other (-1)
  | some newProc =>
    let act ← derefActProc
    modifyG fun g => g.setPS act (·.setReg regV0 (g.pcb newProc).pPid)
    return .continue

/-- `term_process` (`syscalls.c:184-196`). -/
def termProcess (pid : Word) : KM D EhAct := do
  let act ← derefActProc
  let res := if pid = 0 then some act else pcbAt (searchByPid pid)
  match res with
  | none => throw .fault
  | some res =>
    killParentAndProgeny killFuel res
    return if ← isAlive act then .renqueue else .nothing

/-- A load of an `int`. -/
def loadInt (a : Word) : KM D Word := do
  if a &&& 3 ≠ 0 then throw .fault
  return (← getG).int a

/-- `passeren` (`syscalls.c:198-225`). -/
def passeren (semaddr : Word) : KM D EhAct := do
  if (← loadInt semaddr) = 0 then
    let act ← derefActProc
    unlinkProc act
    if ← insertBlocked semaddr act then
      PANIC .insertBlockedP
    modifyG fun g => { g with sbProcs := g.sbProcs + 1 }
    return .nothing
  else
    match ← removeBlocked semaddr with
    | some tmp =>
      enqueueProc tmp ((← getG).pcb tmp).pPrio
      modifyG fun g => { g with sbProcs := g.sbProcs - 1 }
      return .renqueue
    | none =>
      modifyG (·.setInt semaddr 0)
      return .renqueue

/-- `verhogen` (`syscalls.c:227-258`). -/
def verhogen (semaddr : Word) : KM D (Option PcbId) := do
  if (← loadInt semaddr) = 1 then
    match (← getG).actProc with
    | none => return none
    | some act =>
      unlinkProc act
      if ← insertBlocked semaddr act then
        PANIC .insertBlockedV
      modifyG fun g => { g with sbProcs := g.sbProcs + 1 }
      return none
  else
    match ← removeBlocked semaddr with
    | some tmp =>
      enqueueProc tmp ((← getG).pcb tmp).pPrio
      modifyG fun g => { g with sbProcs := g.sbProcs - 1 }
      return some tmp
    | none =>
      modifyG (·.setInt semaddr 1)
      return (← getG).actProc

/-- Where `passup_or_die` copies the state (`syscalls.c:283-284`). -/
def Globals.passUp (g : Globals) (sup : Word) (kind : Fin 2) : Globals :=
  { g with supports := Function.update g.supports sup { g.supports sup with
      supExceptState := Function.update (g.supports sup).supExceptState kind g.biosDataPage } }

/-- `passup_or_die` (`syscalls.c:269-292`). -/
def passupOrDie (kind : Fin 2) : KM D EhAct := do
  match (← getG).actProc with
  | none => return .nothing
  | some act =>
    let sup := ((← getG).pcb act).pSupportStruct
    if sup = NULL then
      killParentAndProgeny killFuel act
      return .nothing
    else
      modifyG (·.passUp sup kind)
      throw (.ldcxt act (((← getG).supports sup).supExceptContext kind))

/-- `DEVICE_FROM_COMDADDR` (`pandos_const.h:170-172`). -/
def deviceFromComdaddr (cmd : Word) : Word :=
  DEV_REG_SIZE * ((cmd - DEV_REG_START).sdiv DEV_REG_SIZE) + DEV_REG_START

/-- `IS_TERM_WRITING` (`pandos_const.h:174`). -/
def isTermWriting (cmd : Word) : Bool := (cmd - deviceFromComdaddr cmd).sdiv 4 = 3

/-- The search for line and number of a device (`syscalls.c:307-317`). -/
def findDevice (dev : Word) : Option (Fin 5 × Fin 8) :=
  ((List.finRange 5).flatMap fun i => (List.finRange 8).map fun j => (i, j)).find?
    fun d => devRegAddr d.1 d.2 = dev

/-- A store of a word: to a command register, or to an `int`. -/
def storeWord (a v : Word) : KM D PUnit := do
  if a &&& 3 ≠ 0 then throw .fault
  match SubDev.all.find? fun d => d.commandAddr = a with
  | some d => modifyG fun g => { g with dev := Function.update g.dev d ((g.dev d).store v) }
  | none => modifyG (·.setInt a v)

/-- `sem + index` (`syscalls.c:319-334`): where no line is found, `index` is -1 and `sem` has not
    been assigned. -/
def semOfLine (junk : Word) (writing : Bool) : Option (Fin 5 × Fin 8) → Word
  | some (line, index) =>
    if h : line.val < 4 then elemAddr (Layout.toAddresses.lineSems ⟨line, h⟩) index
    else if writing then elemAddr Layout.toAddresses.semTermOut index
    else elemAddr Layout.toAddresses.semTermIn index
  | none => junk - 4

/-- The semaphore `do_io` operates on. -/
def doIoSem (junk cmdaddr : Word) : Word :=
  semOfLine junk (isTermWriting cmdaddr) (findDevice (deviceFromComdaddr cmdaddr))

/-- `do_io` (`syscalls.c:294-338`). -/
def doIo (cmdaddr cmdval : Word) : KM D EhAct := do
  if cmdaddr = 0 ∨ cmdaddr = NULL then
    PANIC .doIoNull
  else
    discard <| passeren (doIoSem (← getG).junk cmdaddr)
    storeWord cmdaddr cmdval
    return .nothing

/-- Puts the result of a syscall in `reg_v0` of the running process. -/
def returnV0 (v : Pcb → Word) : KM D EhAct := do
  let act ← derefActProc
  modifyG fun g => g.setPS act (·.setReg regV0 (v (g.pcb act)))
  return .continue

/-- `get_time` (`syscalls.c:340-346`). -/
def getTime : KM D EhAct := returnV0 (·.pTime)

/-- `wait_for_clock` (`syscalls.c:348`). -/
def waitForClock : KM D EhAct := passeren Layout.toAddresses.semIt

/-- `get_support` (`syscalls.c:350-354`). -/
def getSupport : KM D EhAct := returnV0 (·.pSupportStruct)

/-- `get_process_pid` (`syscalls.c:356-376`). -/
def getProcessPid (parent : Word) : KM D EhAct := do
  let g ← getG
  returnV0 fun c =>
    if parent = 0 then c.pPid
    else match c.pParent with
      | some q => (g.pcb q).pPid
      | none => 0

/-- `yield` (`syscalls.c:378-382`). -/
def yield : KM D EhAct := do
  modifyG fun g => { g with yieldedProc := g.actProc }
  return .nothing

/-- Numbers of the system calls (`pandos_const.h:40-49`). -/
def CREATEPROCESS : Word := -1
def TERMPROCESS : Word := -2
def PASSEREN : Word := -3
def VERHOGEN : Word := -4
def DOIO : Word := -5
def GETTIME : Word := -6
def CLOCKWAIT : Word := -7
def GETSUPPORTPTR : Word := -8
def GETPROCESSID : Word := -9
def YIELD : Word := -10

/-- The cases `PASSEREN` and `VERHOGEN` of `handle_syscall` before they call the operation
    (`syscalls.c:111-125`, `130-145`). -/
def checkSem (semAddr : Word) (act : PcbId) (range dead : PanicAt) : KM D PUnit := do
  let value ← loadInt semAddr
  if value ≠ 0 ∧ value ≠ 1 then PANIC range
  if !(← isAlive act) then PANIC dead

/-- `handle_syscall` (`syscalls.c:80-170`). -/
def handleSyscall : KM D EhAct := do
  let act ← derefActProc
  let g ← getG
  let number := (g.pcb act).pS.gpr regA0
  let arg1 := (g.pcb act).pS.gpr regA1
  let arg2 := (g.pcb act).pS.gpr regA2
  let arg3 := (g.pcb act).pS.gpr regA3
  if !(← isAlive act) then PANIC .zombie
  if (g.pcb act).pSemAdd ≠ NULL then PANIC .blockedProcess
  if number = CREATEPROCESS then createProcess arg1 arg2 arg3
  else if number = TERMPROCESS then termProcess arg1
  else if number = PASSEREN then do
    checkSem arg1 act .semRangeP .zombieP
    passeren arg1
  else if number = VERHOGEN then do
    checkSem arg1 act .semRangeV .zombieV
    return if (← verhogen arg1) = none then .nothing else .renqueue
  else if number = DOIO then doIo arg1 arg2
  else if number = GETTIME then getTime
  else if number = CLOCKWAIT then waitForClock
  else if number = GETSUPPORTPTR then getSupport
  else if number = GETPROCESSID then getProcessPid arg1
  else if number = YIELD then yield
  else passupOrDie GENERALEXCEPT

end Rocm
