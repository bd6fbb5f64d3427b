import Rocm.Properties.Sample
import Rocm.Support.Services

/-!
# What is passed up for a system call

`exception_handler` records that a system call with a negative number comes from user mode in the
saved state of the process, but `passup_or_die` copies the state that the BIOS has saved.
-/

namespace Rocm

open Prog ProcTable Threads

/-- The mode before the exception. -/
def UserMode (status : Word) : Prop := (status &&& STATUS_KUp) >>> STATUS_KUp_BIT ≠ 0

/-- The number of the system call is negative. -/
def ProcState.Negative (s : ProcState) : Prop := (s.gpr regA0).slt 0

/-- What `support_exec_handler` does with the support structure it reads. -/
def supportExecCase (p : Uproc) (sup : SupportT) : SM Unit :=
  if CAUSE_GET_EXCCODE (sup.supExceptState GENERALEXCEPT).cause = EXC_SYS then
    supportSyscallHandler p sup
  else safeKill

theorem supportExecHandler_eq (p : Uproc) :
    supportExecHandler p = act (.support p) >>= supportExecCase p := rfl

/-- The state stored for `support_exec_handler` is right for a system call with the state `saved`,
    made in user mode or not. -/
structure PassedUp (user : Prop) (saved stored : ProcState) : Prop where
  /-- A negative number from user mode is a reserved instruction. -/
  trap : user → saved.Negative → CAUSE_GET_EXCCODE stored.cause = PRIVINSTR
  syscall : ¬ saved.Negative → CAUSE_GET_EXCCODE stored.cause = EXC_SYS
  /-- Nothing else differs from the state saved at the exception. -/
  rest : user ∨ ¬ saved.Negative → { stored with cause := saved.cause } = saved ∧
    stored.cause &&& CLEAREXECCODE = saved.cause &&& CLEAREXECCODE
  /-- The handler of the support level takes it for what it is. -/
  handled : ∀ p sup, sup.supExceptState GENERALEXCEPT = stored →
    (user → saved.Negative → supportExecCase p sup = safeKill) ∧
    (¬ saved.Negative → supportExecCase p sup = supportSyscallHandler p sup)

variable {D : Type} [ProcTable D] [Layout]

/-- What is in `sup_exceptState[GENERALEXCEPT]` of `act` after `exception_handler`. -/
def passedUpState (k : Kernel D) (act : PcbId) (saved : ProcState) (status : Word)
    (pending : Fin 3 → Bool) (junk : Word) : ProcState :=
  ((runTo exceptionHandler (k.mapG (·.enter saved status pending junk))).k.g.supports
    (k.g.pcb act).pSupportStruct).supExceptState GENERALEXCEPT

omit [Layout] in
/-- `passup_or_die` copies the state that the BIOS has saved. -/
theorem wp_passupOrDie {k : Kernel D} (act : PcbId) (hact : k.g.actProc = some act)
    (hsup : (k.g.pcb act).pSupportStruct ≠ NULL) (kind : Fin 2)
    {Q : EhAct → Kernel D → Prop} {E : Exit → Kernel D → Prop}
    (h : ∀ e, E e (k.mapG (·.passUp (k.g.pcb act).pSupportStruct kind))) :
    wp (passupOrDie kind) Q E k := by
  simp only [passupOrDie, wp_bind, wp_getG, hact]
  rw [if_neg hsup]
  simp only [wp_bind, wp_modifyG, wp_getG, wp_throw]
  exact h _

/-- A system call that is not for the nucleus is passed up as it was saved. -/
theorem passedUpState_eq {k : Kernel D} {act : PcbId} (hact : k.g.actProc = some act)
    (hsup : (k.g.pcb act).pSupportStruct ≠ NULL) {saved : ProcState} {status : Word}
    (hsys : CAUSE_GET_EXCCODE saved.cause = EXC_SYS) (hcall : UserMode status ∨ ¬ saved.Negative)
    (pending : Fin 3 → Bool) (junk : Word) :
    passedUpState k act saved status pending junk = saved := by
  have hcause : (handleCause EXC_SYS : KM D EhAct) = handleSysException := rfl
  set k0 := k.mapG (·.enter saved status pending junk) with hk0
  have hwp : wp (exceptionHandler : KM D PUnit) (fun _ _ => False)
      (fun _ k' => (k'.g.supports (k.g.pcb act).pSupportStruct).supExceptState GENERALEXCEPT =
        saved) k0 := by
    have hact0 : k0.g.actProc = some act := hact
    set g1 := k0.g.setPS act fun _ => k0.g.biosDataPage with hg1
    have hps : (g1.pcb act).pS = saved := by
      simp [hg1, Globals.setPS, Globals.setPcb, hk0, Globals.enter]
    have hbranch : ¬ ((g1.cpuStatus &&& STATUS_KUp) >>> STATUS_KUp_BIT = 0 ∧
        ((g1.pcb act).pS.gpr regA0).slt 0) := by
      rw [hps]
      rintro ⟨hk, hn⟩
      rcases hcall with hu | hpos
      · exact hu hk
      · exact hpos hn
    rw [exceptionHandler, wp_bind, handleException, wp_bind, wp_getG, wp_bind, saveState, wp_bind,
      wp_getG, hact0, wp_modifyG]
    rw [show CAUSE_GET_EXCCODE k0.g.biosDataPage.cause = EXC_SYS from hsys, hcause,
      handleSysException, wp_bind, wp_getG]
    rw [show g1.actProc = some act from hact0]
    dsimp only
    rw [if_neg hbranch, wp_bind, wp_modifyG]
    refine wp_passupOrDie act ?_ ?_ _ fun e => ?_
    · exact hact0
    · simpa [hg1, Globals.setPS, Globals.setPcb, hk0, Globals.enter] using hsup
    · simp [Globals.setPS, Globals.setPcb, hk0, Globals.enter, Globals.passUp]
  rw [passedUpState, runTo]
  obtain ⟨_, _, _, h⟩ | ⟨e, k', hrun, h⟩ := wp_elim hwp
  · exact h.elim
  · rw [hrun]
    exact h

/-- The state passed up for a system call is right if and only if it is not one with a negative
    number from user mode. -/
theorem passedUp_iff {k : Kernel D} {act : PcbId} (hact : k.g.actProc = some act)
    (hsup : (k.g.pcb act).pSupportStruct ≠ NULL) {saved : ProcState}
    (hsys : CAUSE_GET_EXCCODE saved.cause = EXC_SYS) (status : Word) (pending : Fin 3 → Bool)
    (junk : Word) :
    PassedUp (UserMode status) saved (passedUpState k act saved status pending junk) ↔
      ¬ (UserMode status ∧ saved.Negative) := by
  constructor
  · rintro h ⟨hu, hn⟩
    have htrap := h.trap hu hn
    rw [passedUpState_eq hact hsup hsys (.inl hu), hsys] at htrap
    exact absurd htrap (by decide)
  · intro h
    by_cases hn : saved.Negative
    · have hk : ¬ UserMode status := fun hu => h ⟨hu, hn⟩
      exact ⟨fun hu => absurd hu hk, fun hpos => absurd hn hpos,
        fun hcall => absurd hn (hcall.resolve_left hk),
        fun _ _ _ => ⟨fun hu => absurd hu hk, fun hpos => absurd hn hpos⟩⟩
    · rw [passedUpState_eq hact hsup hsys (.inr hn)]
      refine ⟨fun _ hneg => absurd hneg hn, fun _ => hsys, fun _ => ⟨rfl, rfl⟩, fun p sup hs => ?_⟩
      refine ⟨fun _ hneg => absurd hneg hn, fun _ => ?_⟩
      rw [supportExecCase, hs, if_pos hsys]

/-- A process with a support structure runs. -/
def supportedEvents : List Event :=
  [sysEvent CREATEPROCESS 0x20030000 PROCESS_PRIO_HIGH 0x20030100, sysEvent YIELD 0 0 0]

omit [Layout] in
theorem supportedEvents_run :
    letI := sampleLayout
    ∃ tr m, Execution sampleGlobals tr m ∧ m.exit = .ldst 1 ∧ m.k.g.actProc = some 1 ∧
      (m.k.g.pcb 1).pSupportStruct ≠ NULL := by
  let _ := sampleLayout
  obtain ⟨tr, m, htr, hk⟩ := Mach.exists_run_of_play Contract (boot sampleGlobals)
    supportedEvents (P := fun _ m => m.exit = .ldst 1 ∧ m.k.g.actProc = some 1 ∧
      (m.k.g.pcb 1).pSupportStruct ≠ NULL) (by decide +kernel)
  exact ⟨tr, m, htr, of_decide_eq_true hk⟩

omit [Layout] in
theorem passedUp_iff_run :
    letI := sampleLayout
    ∃ tr m, Execution sampleGlobals tr m ∧ m.exit = .ldst 1 ∧
      (PassedUp (UserMode 0) (sysState 1 0 0 0)
        (passedUpState m.k 1 (sysState 1 0 0 0) 0 (fun _ => false) 0) ↔
      ¬ (UserMode 0 ∧ (sysState 1 0 0 0).Negative)) := by
  let _ := sampleLayout
  obtain ⟨tr, m, htr, hexit, hact, hsup⟩ := supportedEvents_run
  exact ⟨tr, m, htr, hexit, passedUp_iff hact hsup (by decide) _ _ _⟩

omit [Layout] in
/-- A user program makes the system call -1, and it is passed up as a system call. -/
theorem user_syscall_passed_up :
    letI := sampleLayout
    ∃ tr m, Execution sampleGlobals tr m ∧ m.exit = .ldst 1 ∧ m.k.g.actProc = some 1 ∧
      (m.k.g.pcb 1).pSupportStruct ≠ NULL ∧
      ¬ PassedUp (UserMode STATUS_KUp) (sysState (-1) 0 0 0)
        (passedUpState m.k 1 (sysState (-1) 0 0 0) STATUS_KUp (fun _ => false) 0) := by
  let _ := sampleLayout
  obtain ⟨tr, m, htr, hexit, hact, hsup⟩ := supportedEvents_run
  have hu : UserMode STATUS_KUp := by
    rw [UserMode]
    decide
  refine ⟨tr, m, htr, hexit, hact, hsup, fun h => ?_⟩
  have htrap := h.trap hu (by rw [ProcState.Negative]; decide)
  rw [passedUpState_eq hact hsup (by decide) (.inl hu)] at htrap
  exact absurd htrap (by decide)

end Rocm
