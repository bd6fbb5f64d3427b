import Rocm.Nucleus.ProcTable

/-!
# The scheduler (`scheduler.c`)

A call of `LDST`, `WAIT`, `HALT` or `PANIC` does not come back: it is the exit of the path. What
follows `WAIT` when the processor goes on is the call of `schedulerNext` of the machine.
-/

namespace Rocm

open ProcTable

variable {D : Type} [ProcTable D] [Layout]

/-- `init_scheduler` (`scheduler.c:28-35`). -/
def initScheduler : KM D PUnit := do
  modifyG fun g => { g with procsCount := 0, sbProcs := 0, actProc := none }
  mkEmptyProcQ .low
  mkEmptyProcQ .high

/-- `create_init_proc` (`scheduler.c:37-56`). -/
def createInitProc (entryPoint : Word) : KM D PUnit := do
  match ← allocPcb with
  | none => PANIC .initProcess
  | some proc =>
    modifyG (·.setPS proc fun s =>
      { s.setReg regT9 entryPoint with
        pcEpc := entryPoint
        status := STATUS_TE ||| STATUS_IM_MASK ||| STATUS_KUc ||| STATUS_IEp })
    modifyG (·.setPS proc fun s => s.setReg regSp Layout.toAddresses.ramTop)
    modifyG (·.setPcb proc fun c => { c with
      pPrio := PROCESS_PRIO_LOW, pPid := Layout.toAddresses.pcbAddr proc })
    modifyG fun g => { g with procsCount := g.procsCount + 1 }
    insertProcQ .low proc

/-- `enqueue_proc` (`scheduler.c:158-165`). -/
def enqueueProc (pcb : PcbId) (priority : Word) : KM D PUnit :=
  if priority = PROCESS_PRIO_HIGH then insertProcQ .high pcb
  else if priority = PROCESS_PRIO_LOW then insertProcQ .low pcb
  else pure ⟨⟩

/-- `dequeue_proc` (`scheduler.c:167-176`). -/
def dequeueProc (priority : Word) : KM D (Option PcbId) :=
  if priority = PROCESS_PRIO_HIGH then removeProcQ .high
  else if priority = PROCESS_PRIO_LOW then removeProcQ .low
  else pure none

/-- `if (yielded_proc != NULL) { ... }` (`scheduler.c:80-83`, `184-187`). -/
def enqueueYielded : KM D PUnit := do
  let g ← getG
  match g.yieldedProc with
  | none => pure ⟨⟩
  | some y =>
    enqueueProc y (g.pcb y).pPrio
    modifyG fun g => { g with yieldedProc := none }

/-- The status `load_proc` gives a process of priority `prio` (`scheduler.c:195-201`). -/
def loadStatus (prio status : Word) : Word :=
  let status := status ||| (STATUS_IEp ||| STATUS_TE)
  if prio = PROCESS_PRIO_HIGH then status ^^^ STATUS_TE else status

/-- `load_proc` (`scheduler.c:178-207`). -/
def loadProc (pcb : Option PcbId) : KM D PUnit := do
  match pcb with
  | none => pure ⟨⟩
  | some p =>
    enqueueYielded
    modifyG fun g => { g with actProc := some p }
    setTIMER (TIMESLICE * Layout.toAddresses.timescale)
    modifyG fun g => g.setPS p fun s => { s with status := loadStatus (g.pcb p).pPrio s.status }
    let now ← STCK
    modifyG (·.setPcb p fun c => { c with pTmUpdt := now })
    throw (.ldst p)

/-- `scheduler_next` (`scheduler.c:58-105`). The tests of `&(next_proc->p_s)` against `NULL` are
    never true: it is the address of a field. -/
def schedulerNext : KM D PUnit := do
  if !(← emptyProcQ .high) then
    loadProc (← dequeueProc PROCESS_PRIO_HIGH)
  else if !(← emptyProcQ .low) then
    loadProc (← dequeueProc PROCESS_PRIO_LOW)
  else
    let g ← getG
    if g.procsCount = 0 then
      throw .halt
    else if 0 < g.procsCount ∧ 0 < g.sbProcs then
      enqueueYielded
      modifyG fun g => { g with actProc := none }
      setTIMER (TIMESLICE * Layout.toAddresses.timescale)
      modifyG fun g => { g with
        cpuStatus := (g.cpuStatus ||| STATUS_IEc ||| STATUS_TE) ^^^ STATUS_TE }
      throw .wait
    else if 0 < g.procsCount ∧ g.sbProcs = 0 then
      PANIC .deadlock
    else
      PANIC .scheduler

/-- `mk_proc` (`scheduler.c:107-128`), for a running process. -/
def mkProc (statep prio supportp : Word) : KM D (Option PcbId) := do
  match ← allocPcb with
  | none => return none
  | some result =>
    modifyG fun g => g.setPcb result fun c => { c with
      pSupportStruct := supportp
      pPrio := prio
      pS := g.states statep
      pPid := Layout.toAddresses.pcbAddr result }
    match (← getG).actProc with
    | none => throw .fault
    | some act =>
      insertChild act result
      modifyG fun g => { g with procsCount := g.procsCount + 1 }
      enqueueProc result prio
      return some result

/-- `p` leaves its parent (`scheduler.c:138-141`). -/
def leaveParent (p : PcbId) : KM D PUnit := do
  if ((← getG).pcb p).pParent ≠ none then
    if (← outChild p) ≠ some p then PANIC .killOutChild

/-- `p` leaves the semaphore it is blocked on (`scheduler.c:142-148`). -/
def leaveSemaphore (p : PcbId) : KM D PUnit := do
  if ((← getG).pcb p).pSemAdd ≠ NULL then
    modifyG fun g => { g with sbProcs := g.sbProcs - 1 }
    if (← outBlocked p) = none then PANIC .killOutBlocked

/-- `p` leaves the ready queue of its priority (`scheduler.c:149-153`). -/
def leaveReady (p : PcbId) : KM D PUnit := do
  if ((← getG).pcb p).pPrio = PROCESS_PRIO_HIGH then
    discard <| outProcQ .high p
  else if ((← getG).pcb p).pPrio = PROCESS_PRIO_LOW then
    discard <| outProcQ .low p

/-- `kill_proc` (`scheduler.c:130-156`) for a PCB. -/
def killProc (p : PcbId) : KM D PUnit := do
  modifyG fun g => { g with procsCount := g.procsCount - 1 }
  leaveParent p
  leaveSemaphore p
  leaveReady p
  freePcb p

end Rocm
