import Rocm.Nucleus.Interrupts

/-!
# Boot and exceptions (`kernel.c`)
-/

namespace Rocm

open ProcTable

variable {D : Type} [ProcTable D] [Layout]

/-- `init_data_structures` (`kernel.c:91-99`); the pass-up vector is not read by the nucleus. -/
def initDataStructures : KM D PUnit := do
  initPcbs
  initAsl
  initScheduler
  initDevSem
  modifyG fun g => { g with yieldedProc := none }

/-- `main` (`kernel.c:54-80`). -/
def main : KM D PUnit := do
  initDataStructures
  LDIT PSECOND
  modifyG fun g => { g with
    cpuStatus := (g.cpuStatus ||| STATUS_IEc ||| STATUS_TE ||| STATUS_IM_MASK) ^^^ STATUS_TE }
  createInitProc Layout.toAddresses.instantiatorProc
  schedulerNext
  PANIC .mainEnd

/-- The interrupt case (`kernel.c:118-127`): the first line with an interrupt pending. -/
def handlePending : KM D EhAct := do
  let g ← getG
  match (List.finRange 8).find? g.causeIP with
  | some line => handleInterrupts line
  | none => return .renqueue

/-- `act_proc->p_s.pc_epc = act_proc->p_s.reg_t9 = act_proc->p_s.pc_epc + WORD_SIZE`. -/
def ProcState.advance (s : ProcState) : ProcState :=
  { s.setReg regT9 (s.pcEpc + WORD_SIZE) with pcEpc := s.pcEpc + WORD_SIZE }

/-- The system call case (`kernel.c:135-157`). -/
def handleSysException : KM D EhAct := do
  let g ← getG
  match g.actProc with
  | none => PANIC .noActiveProcess
  | some act =>
    let kup := (g.cpuStatus &&& STATUS_KUp) >>> STATUS_KUp_BIT
    if kup = 0 ∧ ((g.pcb act).pS.gpr regA0).slt 0 then
      let reenqueue ← handleSyscall
      match (← getG).actProc with
      | some act => modifyG (·.setPS act (·.advance))
      | none => pure ⟨⟩
      return reenqueue
    else
      modifyG (·.setPS act fun s =>
        { s with cause := (s.cause &&& CLEAREXECCODE) ||| (PRIVINSTR <<< CAUSESHIFT) })
      passupOrDie GENERALEXCEPT

/-- The registers the BIOS saved go to the PCB of the running process (`kernel.c:112-114`). -/
def saveState : KM D PUnit := do
  let g ← getG
  match g.actProc with
  | some act => modifyG (·.setPS act fun _ => g.biosDataPage)
  | none => pure ⟨⟩

/-- The cases of `exception_handler` (`kernel.c:116-158`). -/
def handleCause (cause : Word) : KM D EhAct :=
  if cause = EXC_INT then handlePending
  else if cause = EXC_MOD ∨ cause = EXC_TLBL ∨ cause = EXC_TLBS then passupOrDie PGFAULTEXCEPT
  else if cause = EXC_ADEL ∨ cause = EXC_ADES ∨ cause = EXC_IBE ∨ cause = EXC_DBE ∨
      cause = EXC_BP ∨ cause = EXC_RI ∨ cause = EXC_CPU ∨ cause = EXC_OV then
    passupOrDie GENERALEXCEPT
  else if cause = EXC_SYS then handleSysException
  else pure .renqueue

/-- The body of `exception_handler` up to the action it takes (`kernel.c:108-158`). -/
def handleException : KM D EhAct := do
  let cause := CAUSE_GET_EXCCODE (← getG).biosDataPage.cause
  saveState
  handleCause cause

/-- The age of the running process (`kernel.c:159-164`). -/
def updateAge : KM D PUnit := do
  match (← getG).actProc with
  | some act =>
    let now ← STCK
    modifyG (·.setPcb act fun c => { c with
      pTime := c.pTime + (now - c.pTmUpdt), pTmUpdt := now })
  | none => pure ⟨⟩

/-- What is done with the running process (`kernel.c:166-172`). -/
def dispose (reenqueue : EhAct) : KM D PUnit := do
  match (← getG).actProc with
  | some act =>
    if reenqueue = .continue then loadProc (some act)
    else if reenqueue = .renqueue then enqueueProc act ((← getG).pcb act).pPrio
  | none => pure ⟨⟩

/-- `exception_handler` (`kernel.c:101-174`). -/
def exceptionHandler : KM D PUnit := do
  let reenqueue ← handleException
  updateAge
  dispose reenqueue
  schedulerNext

end Rocm
