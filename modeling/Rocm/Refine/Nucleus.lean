import Rocm.Nucleus.Machine

/-!
# The nucleus on two process tables

The functions of the nucleus use the lists only through the functions of the process table. So a
relation between two tables that those functions keep is kept by all of the nucleus.
-/

namespace Rocm

open Prog ProcTable

/-- The abstract lists give up. -/
def isMisuse (e : Exit) : Prop := e = .misuse

section Classes

variable {D D' : Type} [ProcTable D] [ProcTable D']

/-- The two programs do the same from related states, unless the second one gives up. -/
abbrev Same (R : Kernel D → Kernel D' → Prop) {α : Type} (m : KM D α) (m' : KM D' α) : Prop :=
  Corres R isMisuse m m'

/-- The functions that a kill uses keep the relation. -/
class KillRel (R : Kernel D → Kernel D' → Prop) : Prop where
  globals : ∀ {k k'}, R k k' → k.g = k'.g
  mapG : ∀ {k k'}, R k k' → ∀ f, R (k.mapG f) (k'.mapG f)
  freePcb : ∀ p, Same R (freePcb p) (freePcb p)
  outProcQ : ∀ q p, Same R (outProcQ q p) (outProcQ q p)
  removeChild : ∀ p, Same R (removeChild p) (removeChild p)
  outChild : ∀ p, Same R (outChild p) (outChild p)
  outBlocked : ∀ p, Same R (outBlocked p) (outBlocked p)

/-- All functions of the process table keep the relation. -/
class TableRel (R : Kernel D → Kernel D' → Prop) : Prop extends KillRel R where
  isAlive : ∀ p, Same R (isAlive p) (isAlive p)
  allocPcb : Same R allocPcb allocPcb
  emptyProcQ : ∀ q, Same R (emptyProcQ q) (emptyProcQ q)
  insertProcQ : ∀ q p, Same R (insertProcQ q p) (insertProcQ q p)
  removeProcQ : ∀ q, Same R (removeProcQ q) (removeProcQ q)
  insertChild : ∀ q p, Same R (insertChild q p) (insertChild q p)
  insertBlocked : ∀ s p, Same R (insertBlocked s p) (insertBlocked s p)
  removeBlocked : ∀ s, Same R (removeBlocked s) (removeBlocked s)
  unlinkProc : ∀ p, Same R (unlinkProc p) (unlinkProc p)

end Classes

variable {D D' : Type} {R : Kernel D → Kernel D' → Prop}

theorem same_PANIC {α : Type} (at_ : PanicAt) : Same R (PANIC at_ : KM D α) (PANIC at_) :=
  .throw _

theorem same_discard {α : Type} {m : KM D α} {m' : KM D' α} (h : Same R m m') :
    Same R (discard m) (discard m') := .bind h fun _ => .pure _

variable [ProcTable D] [ProcTable D']

section Kill

variable [KillRel R]

theorem same_getG : Same R getG getG := fun k k' h => by
  refine ⟨k, ?_, h⟩
  change EStateM.Result.ok k.g k = _
  rw [KillRel.globals h]

theorem same_modifyG (f : Globals → Globals) : Same R (modifyG f) (modifyG f) :=
  fun k _ h => ⟨k.mapG f, rfl, KillRel.mapG h f⟩

theorem same_STCK : Same R STCK STCK :=
  .bind same_getG fun _ => .bind (same_modifyG _) fun _ => .pure _

theorem same_setTIMER (v : Word) : Same R (setTIMER v) (setTIMER v) := same_modifyG _

theorem same_LDIT (v : Word) : Same R (LDIT v) (LDIT v) := same_modifyG _

theorem same_derefActProc : Same R derefActProc derefActProc :=
  .bind same_getG fun g => by
    cases g.actProc with
    | none => exact .throw _
    | some p => exact .pure p

theorem same_loadInt (a : Word) : Same R (loadInt a) (loadInt a) := by
  unfold loadInt
  refine .ite (fun _ => ?_) (fun _ => ?_)
  · exact .bind (.throw _) fun _ => .bind same_getG fun g => .pure _
  · exact .bind same_getG fun g => .pure _

/-! ## Killing -/

theorem same_leaveParent (p : PcbId) : Same R (leaveParent p) (leaveParent p) :=
  .bind same_getG fun _ => .ite (fun _ => .bind (KillRel.outChild p) fun _ =>
    .ite (fun _ => same_PANIC _) fun _ => .pure _) fun _ => .pure _

theorem same_leaveSemaphore (p : PcbId) : Same R (leaveSemaphore p) (leaveSemaphore p) :=
  .bind same_getG fun _ => .ite (fun _ => .bind (same_modifyG _) fun _ =>
    .bind (KillRel.outBlocked p) fun _ => .ite (fun _ => same_PANIC _) fun _ => .pure _)
    fun _ => .pure _

theorem same_leaveReady (p : PcbId) : Same R (leaveReady p) (leaveReady p) :=
  .bind same_getG fun _ => .ite (fun _ => same_discard (KillRel.outProcQ .high p)) fun _ =>
    .bind same_getG fun _ => .ite (fun _ => same_discard (KillRel.outProcQ .low p)) fun _ => .pure _

theorem same_killProc (p : PcbId) : Same R (killProc p) (killProc p) :=
  .bind (same_modifyG _) fun _ => .bind (same_leaveParent p) fun _ =>
    .bind (same_leaveSemaphore p) fun _ => .bind (same_leaveReady p) fun _ => KillRel.freePcb p

theorem same_killParentAndProgeny (fuel : Nat) :
    ∀ p, Same R (killParentAndProgeny fuel p) (killParentAndProgeny fuel p) := by
  induction fuel with
  | zero => exact fun _ => .throw _
  | succ fuel ih =>
    refine fun p => .bind (KillRel.removeChild p) fun c => ?_
    cases c with
    | none => exact same_killProc p
    | some c => exact .bind (ih c) fun _ => ih p

end Kill

variable [TableRel R]

/-! ## The scheduler -/

theorem same_enqueueProc (p : PcbId) (prio : Word) :
    Same R (enqueueProc p prio) (enqueueProc p prio) :=
  .ite (fun _ => TableRel.insertProcQ .high p) fun _ =>
    .ite (fun _ => TableRel.insertProcQ .low p) fun _ => .pure _

theorem same_dequeueProc (prio : Word) : Same R (dequeueProc prio) (dequeueProc prio) :=
  .ite (fun _ => TableRel.removeProcQ .high) fun _ =>
    .ite (fun _ => TableRel.removeProcQ .low) fun _ => .pure _

theorem same_enqueueYielded : Same R enqueueYielded enqueueYielded :=
  .bind same_getG fun g => by
    cases g.yieldedProc with
    | none => exact .pure _
    | some y => exact .bind (same_enqueueProc y _) fun _ => same_modifyG _

section Scheduler

variable [Layout]

theorem same_loadProc (p : Option PcbId) : Same R (loadProc p) (loadProc p) := by
  cases p with
  | none => exact .pure _
  | some p =>
    exact .bind same_enqueueYielded fun _ => .bind (same_modifyG _) fun _ =>
      .bind (same_setTIMER _) fun _ => .bind (same_modifyG _) fun _ =>
      .bind same_STCK fun _ => .bind (same_modifyG _) fun _ => .throw _

theorem same_schedulerNext : Same R schedulerNext schedulerNext := by
  unfold schedulerNext
  refine .bind (TableRel.emptyProcQ .high) fun _ => .ite (fun _ => ?_) (fun _ => ?_)
  · exact .bind (same_dequeueProc _) same_loadProc
  refine .bind (TableRel.emptyProcQ .low) fun _ => .ite (fun _ => ?_) (fun _ => ?_)
  · exact .bind (same_dequeueProc _) same_loadProc
  refine .bind same_getG fun g => .ite (fun _ => .throw _) fun _ => .ite (fun _ => ?_) fun _ =>
    .ite (fun _ => same_PANIC _) fun _ => same_PANIC _
  exact .bind same_enqueueYielded fun _ => .bind (same_modifyG _) fun _ =>
    .bind (same_setTIMER _) fun _ => .bind (same_modifyG _) fun _ => .throw _

theorem same_createInitProc (entryPoint : Word) :
    Same R (createInitProc entryPoint) (createInitProc entryPoint) :=
  .bind TableRel.allocPcb fun p => by
    cases p with
    | none => exact same_PANIC _
    | some p =>
      exact .bind (same_modifyG _) fun _ => .bind (same_modifyG _) fun _ =>
        .bind (same_modifyG _) fun _ => .bind (same_modifyG _) fun _ => TableRel.insertProcQ .low p

theorem same_mkProc (statep prio supportp : Word) :
    Same R (mkProc statep prio supportp) (mkProc statep prio supportp) :=
  .bind TableRel.allocPcb fun p => by
    cases p with
    | none => exact .pure _
    | some p =>
      refine .bind (same_modifyG _) fun _ => .bind same_getG fun g => ?_
      cases g.actProc with
      | none => exact .throw _
      | some act =>
        exact .bind (TableRel.insertChild act p) fun _ => .bind (same_modifyG _) fun _ =>
          .bind (same_enqueueProc p prio) fun _ => .pure _

end Scheduler

/-! ## System calls -/

theorem same_passeren (s : Word) : Same R (passeren s) (passeren s) := by
  unfold passeren
  refine .bind (same_loadInt s) fun v => .ite (fun _ => ?_) (fun _ => ?_)
  · refine .bind same_derefActProc fun act => .bind (TableRel.unlinkProc act) fun _ =>
      .bind (TableRel.insertBlocked s act) fun b => .ite (fun _ => ?_) (fun _ => ?_)
    · exact .bind (same_PANIC _) fun _ => .bind (same_modifyG _) fun _ => .pure _
    · exact .bind (same_modifyG _) fun _ => .pure _
  · refine .bind (TableRel.removeBlocked s) fun w => ?_
    cases w with
    | none => exact .bind (same_modifyG _) fun _ => .pure _
    | some w =>
      exact .bind same_getG fun g => .bind (same_enqueueProc w _) fun _ =>
        .bind (same_modifyG _) fun _ => .pure _

theorem same_verhogen (s : Word) : Same R (verhogen s) (verhogen s) := by
  unfold verhogen
  refine .bind (same_loadInt s) fun v => .ite (fun _ => ?_) (fun _ => ?_)
  · refine .bind same_getG fun g => ?_
    cases g.actProc with
    | none => exact .pure _
    | some act =>
      refine .bind (TableRel.unlinkProc act) fun _ =>
        .bind (TableRel.insertBlocked s act) fun b => .ite (fun _ => ?_) (fun _ => ?_)
      · exact .bind (same_PANIC _) fun _ => .bind (same_modifyG _) fun _ => .pure _
      · exact .bind (same_modifyG _) fun _ => .pure _
  · refine .bind (TableRel.removeBlocked s) fun w => ?_
    cases w with
    | none => exact .bind (same_modifyG _) fun _ => .bind same_getG fun g => .pure _
    | some w =>
      exact .bind same_getG fun g => .bind (same_enqueueProc w _) fun _ =>
        .bind (same_modifyG _) fun _ => .pure _

theorem same_passupOrDie (kind : Fin 2) : Same R (passupOrDie kind) (passupOrDie kind) :=
  .bind same_getG fun g => by
    cases g.actProc with
    | none => exact .pure _
    | some act =>
      refine .bind same_getG fun g => .ite (fun _ => ?_) (fun _ => ?_)
      · exact .bind (same_killParentAndProgeny _ act) fun _ => .pure _
      · exact .bind (same_modifyG _) fun _ => .bind same_getG fun g => .throw _

theorem same_storeWord (a v : Word) : Same R (storeWord a v) (storeWord a v) := by
  unfold storeWord
  refine .ite (fun _ => .bind (.throw _) fun _ => ?_) (fun _ => ?_) <;>
    generalize (SubDev.all.find? fun d => d.commandAddr = a) = d <;>
    cases d <;> exact same_modifyG _

theorem same_returnV0 (v : Pcb → Word) : Same R (returnV0 v) (returnV0 v) :=
  .bind same_derefActProc fun _ => .bind (same_modifyG _) fun _ => .pure _

theorem same_yield : Same R yield yield := .bind (same_modifyG _) fun _ => .pure _

theorem same_checkSem (s : Word) (act : PcbId) (range dead : PanicAt) :
    Same R (checkSem s act range dead) (checkSem s act range dead) := by
  have halive : Same R (do if !(← isAlive act) then PANIC dead : KM D PUnit)
      (do if !(← isAlive act) then PANIC dead) :=
    .bind (TableRel.isAlive act) fun b => .ite (fun _ => same_PANIC _) fun _ => .pure _
  unfold checkSem
  exact .bind (same_loadInt s) fun v => .ite (fun _ => .bind (same_PANIC _) fun _ => halive)
    fun _ => halive

theorem same_deliver (p : Option PcbId) (status : Word) :
    Same R (deliver p status) (deliver p status) := by
  cases p with
  | none => exact .pure _
  | some p => exact same_modifyG (·.setPS p (·.setReg regV0 status))

theorem same_interruptingDevice (line : Fin 5) :
    Same R (interruptingDevice line) (interruptingDevice line) := by
  refine .bind same_getG fun g => ?_
  by_cases h : topBit 32 (g.bitmap line) 0 < 8
  · simp only [h, dif_pos]
    exact .pure _
  · simp only [h, dif_neg, not_false_eq_true]
    exact same_PANIC _

theorem same_saveState : Same R saveState saveState :=
  .bind same_getG fun g => by
    cases g.actProc with
    | none => exact .pure _
    | some act => exact same_modifyG _

theorem same_updateAge : Same R updateAge updateAge :=
  .bind same_getG fun g => by
    cases g.actProc with
    | none => exact .pure _
    | some act => exact .bind same_STCK fun _ => same_modifyG _

section Syscalls

variable [Layout]

theorem same_createProcess (statep prio supportp : Word) :
    Same R (createProcess statep prio supportp) (createProcess statep prio supportp) :=
  .bind (same_mkProc statep prio supportp) fun p => by
    cases p with
    | none => exact .pure _
    | some p => exact .bind same_derefActProc fun act => .bind (same_modifyG _) fun _ => .pure _

theorem same_termProcess (pid : Word) : Same R (termProcess pid) (termProcess pid) := by
  unfold termProcess
  refine .bind same_derefActProc fun act => ?_
  generalize (if pid = 0 then some act else pcbAt (searchByPid pid)) = res
  cases res with
  | none => exact .throw _
  | some res =>
    exact .bind (same_killParentAndProgeny _ res) fun _ =>
      .bind (TableRel.isAlive act) fun b => .pure _

theorem same_doIo (cmdaddr cmdval : Word) : Same R (doIo cmdaddr cmdval) (doIo cmdaddr cmdval) :=
  .ite (fun _ => same_PANIC _) fun _ => .bind same_getG fun _ =>
    .bind (same_discard (same_passeren _)) fun _ =>
    .bind (same_storeWord cmdaddr cmdval) fun _ => .pure _

theorem same_handleSyscall : Same R handleSyscall handleSyscall := by
  unfold handleSyscall
  refine .bind same_derefActProc fun act => .bind same_getG fun g =>
    .bind (TableRel.isAlive act) fun _ => .ite (fun _ => .bind (same_PANIC _) fun _ => ?_) fun _ => ?_
  all_goals
    refine .ite (fun _ => .bind (same_PANIC _) fun _ => ?_) fun _ => ?_
  all_goals
    refine .ite (fun _ => same_createProcess _ _ _) fun _ =>
      .ite (fun _ => same_termProcess _) fun _ =>
      .ite (fun _ => .bind (same_checkSem _ _ _ _) fun _ => same_passeren _) fun _ =>
      .ite (fun _ => .bind (same_checkSem _ _ _ _) fun _ => .bind (same_verhogen _) fun _ =>
        .pure _) fun _ =>
      .ite (fun _ => same_doIo _ _) fun _ => .ite (fun _ => same_returnV0 _) fun _ =>
      .ite (fun _ => same_passeren _) fun _ => .ite (fun _ => same_returnV0 _) fun _ =>
      .ite (fun _ => .bind same_getG fun _ => same_returnV0 _) fun _ =>
      .ite (fun _ => same_yield) fun _ => same_passupOrDie _

/-! ## Interrupts -/

theorem same_genericInterruptHandler (line : Fin 4) :
    Same R (genericInterruptHandler line) (genericInterruptHandler line) :=
  .bind (same_interruptingDevice _) fun _ => .bind (same_verhogen _) fun p =>
    .bind same_getG fun _ => .bind (same_deliver p _) fun _ => same_modifyG _

theorem same_terminalInterruptHandler :
    Same R terminalInterruptHandler terminalInterruptHandler := by
  refine .bind (same_interruptingDevice 4) fun index => .bind same_getG fun g => ?_
  cases (subDevs 4 index).find? fun d => okCharTrans (g.dev d).status with
  | none => exact .pure _
  | some d =>
    exact .bind (same_verhogen _) fun p => .bind (same_deliver p _) fun _ => same_modifyG _

theorem same_tickLoop (fuel : Nat) : Same R (tickLoop fuel) (tickLoop fuel) := by
  induction fuel with
  | zero => exact .throw _
  | succ fuel ih =>
    exact .bind same_getG fun _ => .ite (fun _ => .bind (same_discard (same_verhogen _)) fun _ => ih)
      fun _ => .pure _

theorem same_handleInterrupts (line : Fin 8) :
    Same R (handleInterrupts line) (handleInterrupts line) := by
  unfold handleInterrupts
  refine .ite (fun _ => .bind (same_setTIMER _) fun _ => .pure _) fun _ =>
    .ite (fun _ => .bind (same_LDIT _) fun _ => .bind (same_tickLoop _) fun _ =>
      .bind (same_modifyG _) fun _ => .pure _) fun _ => .ite (fun _ => .pure _) fun _ => ?_
  by_cases h : line.val < 7
  · simp only [h, dif_pos]
    exact .bind (same_genericInterruptHandler _) fun _ => .pure _
  · simp only [h, dif_neg, not_false_eq_true]
    exact .bind same_terminalInterruptHandler fun _ => .pure _

/-! ## Exceptions -/

theorem same_handlePending : Same R handlePending handlePending :=
  .bind same_getG fun g => by
    cases (List.finRange 8).find? g.causeIP with
    | none => exact .pure _
    | some line => exact same_handleInterrupts line

theorem same_handleSysException : Same R handleSysException handleSysException :=
  .bind same_getG fun g => by
    cases g.actProc with
    | none => exact same_PANIC _
    | some act =>
      refine .ite (fun _ => ?_) (fun _ => ?_)
      · refine .bind same_handleSyscall fun r => .bind same_getG fun g => ?_
        cases g.actProc with
        | none => exact .bind (.pure _) fun _ => .pure _
        | some act => exact .bind (same_modifyG _) fun _ => .pure _
      · exact .bind (same_modifyG _) fun _ => same_passupOrDie _

theorem same_handleCause (cause : Word) : Same R (handleCause cause) (handleCause cause) :=
  .ite (fun _ => same_handlePending) fun _ => .ite (fun _ => same_passupOrDie _) fun _ =>
    .ite (fun _ => same_passupOrDie _) fun _ => .ite (fun _ => same_handleSysException) fun _ =>
    .pure _

theorem same_dispose (r : EhAct) : Same R (dispose r) (dispose r) :=
  .bind same_getG fun g => by
    cases g.actProc with
    | none => exact .pure _
    | some act =>
      exact .ite (fun _ => same_loadProc _) fun _ =>
        .ite (fun _ => .bind same_getG fun _ => same_enqueueProc act _) fun _ => .pure _

/-- The whole handler of exceptions. -/
theorem same_exceptionHandler : Same R exceptionHandler exceptionHandler :=
  .bind (.bind same_getG fun _ => .bind same_saveState fun _ => same_handleCause _) fun r =>
    .bind same_updateAge fun _ => .bind (same_dispose r) fun _ => same_schedulerNext

end Syscalls

end Rocm
