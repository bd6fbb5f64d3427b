import Rocm.Proofs.Interrupts
import Rocm.Proofs.Outcomes
import Rocm.Proofs.Syscalls

/-!
# Exceptions on the abstract lists

Every path through `exception_handler` is one that `Handled` lists.
-/

namespace Rocm

open Prog ProcTable

variable {k : Kernel Lists} {act : PcbId}

theorem setPS_id (g : Globals) (p : PcbId) : g.setPS p id = g := setPcb_eq_self rfl

/-- Saving the registers changes a PCB and nothing else. -/
theorem save_eq (g : Globals) : g.save = { g with pcb := g.save.pcb } := by
  unfold Globals.save
  split <;> rfl

section Save

variable (g : Globals)

@[simp] theorem save_actProc : g.save.actProc = g.actProc := by rw [save_eq]
@[simp] theorem save_yieldedProc : g.save.yieldedProc = g.yieldedProc := by rw [save_eq]
@[simp] theorem save_int : g.save.int = g.int := by rw [save_eq]
@[simp] theorem save_biosDataPage : g.save.biosDataPage = g.biosDataPage := by rw [save_eq]
@[simp] theorem save_cpuStatus : g.save.cpuStatus = g.cpuStatus := by rw [save_eq]
@[simp] theorem save_dev : g.save.dev = g.dev := by rw [save_eq]
@[simp] theorem save_junk : g.save.junk = g.junk := by rw [save_eq]

theorem save_served : g.save.served = g.served := by rw [save_eq]; rfl

theorem sameTags_save : SameTags g g.save := by
  unfold Globals.save
  split
  · exact sameTags_setPS g _ _
  · exact .of_pcb rfl

end Save

/-- The saved registers are those of the running process. -/
def Saved (g : Globals) : Prop := ∀ p, g.actProc = some p → (g.pcb p).pS = g.biosDataPage

theorem saved_save (g : Globals) : Saved g.save := by
  intro p hp
  rw [save_actProc] at hp
  rw [save_biosDataPage]
  simp only [Globals.save, hp, Globals.setPS, setPcb_pcb, if_true]

theorem wp_saveState {Q : PUnit → Kernel Lists → Prop} {E : Exit → Kernel Lists → Prop} :
    wp saveState Q E k = Q ⟨⟩ (k.mapG (·.save)) := by
  rw [saveState, wp_bind, wp_getG]
  cases hact : k.g.actProc with
  | none =>
    have hs : k.mapG (·.save) = k := congrArg (Kernel.mk _) (by simp only [Globals.save, hact])
    rw [hs, wp_pure]
  | some act =>
    have hs : k.mapG (·.save) = k.mapG (·.setPS act fun _ => k.g.biosDataPage) :=
      congrArg (Kernel.mk _) (by simp only [Globals.save, hact])
    rw [hs, wp_modifyG]
    rfl

variable [Layout]

/-- What the handler of an exception expects of the state: only interrupts while the processor
    waits, nobody able to pass the clock semaphore, a TERMPROCESS of a process. -/
structure Ready (k : Kernel View) : Prop extends Entered k where
  idle : k.g.actProc = none → CAUSE_GET_EXCCODE k.g.biosDataPage.cause = EXC_INT
  it : k.g.int Layout.toAddresses.semIt = 0
  term : k.g.KernelCall k.g.biosDataPage → TermOk k k.g.biosDataPage

theorem Ready.save {k : Kernel View} (h : Ready k) : Ready (k.mapG (·.save)) := by
  refine ⟨⟨⟨h.inv.save, h.wf⟩, fun p hp => h.loose p ?_, ?_, fun d hd hone => ?_⟩, fun hn => ?_, ?_,
    fun hc hnum => ?_⟩
  · rwa [mapG_g, save_actProc] at hp
  · rw [mapG_g, save_yieldedProc]
    exact h.yielded
  · rw [mapG_g, save_served] at hd
    rw [mapG_g, save_int] at hone
    rw [mapG_g, save_actProc]
    exact h.served d hd hone
  · rw [mapG_g, save_actProc] at hn
    rw [mapG_g, save_biosDataPage]
    exact h.idle hn
  · rw [mapG_g, save_int]
    exact h.it
  · simp only [mapG_g, mapG_lists, Globals.KernelCall, save_biosDataPage, save_cpuStatus,
      (sameTags_save k.g).pid] at hc hnum ⊢
    exact h.term hc hnum

theorem SysOutcome.actProc {k k' : Kernel View} {s : ProcState} {r : EhAct}
    (h : SysOutcome k act s r k') : k'.g.actProc = k.g.actProc := by
  have hp : ∀ {s p r k'}, PStep s p k r k' → k'.g.actProc = k.g.actProc := by
    intro s p r k' h
    cases h <;> rfl
  cases h with
  | passeren _ _ _ h => exact hp h
  | clockwait _ h => exact hp h
  | verhogen _ _ _ h => cases h <;> rfl
  | @doio _ k2 _ _ _ _ _ h =>
    rw [← hp h]
    change (k2.g.storeWord s.arg1 s.arg2).actProc = _
    unfold Globals.storeWord
    split <;> rfl
  | _ => rfl

/-- The cases of `exception_handler` on the state with the registers saved. -/
theorem handlePending_spec (h : Ready k.abs) (hint : k.g.IntTaken) :
    wp handlePending (fun r k' => Outcome k.abs r k'.abs)
      (fun e k' => EarlyExit k.abs e k'.abs) k := by
  rw [handlePending, wp_bind, wp_getG]
  cases hl : (List.finRange 8).find? k.g.causeIP with
  | none =>
    rw [wp_pure]
    exact .spurious (.inl ⟨hint, hl⟩)
  | some line =>
    exact wp_mono (fun _ _ ho => ho) (fun _ _ hf => hf.elim)
      (handleInterrupts_spec h.inv hint h.it h.loose hl)

theorem trap_spec (kind : Fin 2) (h : Ready k.abs)
    (ht : k.g.TrapTaken) :
    wp (passupOrDie kind) (fun r k' => Outcome k.abs r k'.abs)
      (fun e k' => EarlyExit k.abs e k'.abs) k := by
  cases hact : k.g.actProc with
  | none => exact absurd (h.idle hact) ht.1
  | some act =>
    refine wp_mono (fun r k' ⟨hr, hs, S, hS, hk'⟩ => ?_) (fun e k' ⟨hs, he, hk'⟩ => ?_)
      (passupOrDie_spec kind h.inv ⟨hact, h.loose act hact⟩)
    · have hdie := Outcome.die (k := k.abs) (f := id) ht hact hs hS
      have hid : k.abs.mapG (·.setPS act id) = k.abs := congrArg (Kernel.mk _) (setPS_id _ _)
      rw [hid, ← hk'] at hdie
      rw [hr]
      exact hdie
    · rw [he, hk']
      exact .trap ht hact hs

theorem handleSysException_spec (h : Ready k.abs) (hsaved : Saved k.g)
    (hc : CAUSE_GET_EXCCODE k.g.biosDataPage.cause = EXC_SYS) :
    wp handleSysException (fun r k' => Outcome k.abs r k'.abs)
      (fun e k' => EarlyExit k.abs e k'.abs) k := by
  rw [handleSysException, wp_bind, wp_getG]
  cases hact : k.g.actProc with
  | none => exact absurd (hc.symm.trans (h.idle hact)) (by decide)
  | some act =>
    have hps := hsaved act hact
    have hrun : Running k.abs act := ⟨hact, h.loose act hact⟩
    by_cases hk : (k.g.cpuStatus &&& STATUS_KUp) >>> STATUS_KUp_BIT = 0 ∧
        ((k.g.pcb act).pS.gpr regA0).slt 0
    · have hcall : k.g.KernelCall k.g.biosDataPage := ⟨hc, hk.1, by rw [← hps]; exact hk.2⟩
      have hsys := handleSyscall_spec h.inv hrun (by rw [hps]; exact h.term hcall)
      simp only [hk, and_self, if_true, wp_bind]
      rw [hps] at hsys
      refine wp_mono (fun r k' ho => ?_) (fun _ _ he => .sys hact hcall he) hsys
      have hact' : k'.g.actProc = some act := ho.actProc.trans hact
      rw [wp_getG, hact']
      have hout : Outcome k.abs r (k'.abs.mapG (·.setPS act (·.advance))) := .sys hact hcall ho
      exact hout
    · have htrap : k.g.TrapTaken :=
        ⟨fun hi => absurd (hc.symm.trans hi) (by decide), fun hcall => hk ⟨hcall.2.1, by
          rw [hps]; exact hcall.2.2⟩⟩
      simp only [hk, if_false, wp_bind, wp_modifyG]
      set f := fun s : ProcState =>
        { s with cause := (s.cause &&& CLEAREXECCODE) ||| (PRIVINSTR <<< CAUSESHIFT) }
      have hsup : ((k.g.setPS act f).pcb act).pSupportStruct = (k.g.pcb act).pSupportStruct := by
        simp only [Globals.setPS, setPcb_pcb, if_true]
      refine wp_mono ?_ ?_ (passupOrDie_spec (k := k.mapG (·.setPS act f)) GENERALEXCEPT
        (h.inv.setPS f) ⟨hact, h.loose act hact⟩)
      · rintro r k' ⟨hr, hs, S, hS, hk'⟩
        rw [hr, hk']
        exact .die htrap hact (hsup.symm.trans hs) hS
      · rintro e k' ⟨hs, he, hk'⟩
        rw [he, hk']
        have hsup' : ((k.mapG (·.setPS act f)).g.pcb act).pSupportStruct = _ := hsup
        rw [hsup']
        exact .user htrap hact fun hn => hs (hsup.trans hn)

theorem handleCause_spec (h : Ready k.abs) (hsaved : Saved k.g) :
    wp (handleCause (CAUSE_GET_EXCCODE k.g.biosDataPage.cause)) (fun r k' => Outcome k.abs r k'.abs)
      (fun e k' => EarlyExit k.abs e k'.abs) k := by
  rw [handleCause]
  by_cases hint : CAUSE_GET_EXCCODE k.g.biosDataPage.cause = EXC_INT
  · rw [if_pos hint]
    exact handlePending_spec h hint
  rw [if_neg hint]
  have htrap : CAUSE_GET_EXCCODE k.g.biosDataPage.cause ≠ EXC_SYS → k.g.TrapTaken :=
    fun hne => ⟨hint, fun hcall => hne hcall.1⟩
  split
  · next hc => exact trap_spec _ h (htrap fun e => by rw [e] at hc; revert hc; decide)
  split
  · next hc => exact trap_spec _ h (htrap fun e => by rw [e] at hc; revert hc; decide)
  rename_i hcase
  split
  · next hsys => exact handleSysException_spec h hsaved hsys
  · next hne =>
    refine .spurious (.inr ⟨htrap hne, fun herr => hcase ?_⟩)
    exact herr.elim .inl fun h => .inr (.inl h)

/-- `exception_handler` from its entry to its exit. -/
theorem exceptionHandler_spec (h : Ready k.abs)  :
    wp exceptionHandler noReturn (fun e k' => Handled k.abs e k'.abs) k := by
  rw [exceptionHandler, wp_bind, handleException, wp_bind, wp_getG, wp_bind, wp_saveState]
  have hsave : Ready (k.mapG (·.save)).abs := h.save
  have hcause := handleCause_spec hsave (saved_save k.g)
  rw [mapG_g, save_biosDataPage] at hcause
  refine wp_mono (fun r k' ho => ?_) (fun e k' he => .exit he) hcause
  have hpl := ho.placed hsave.toEntered
  refine wp_mono (fun _ _ hf => hf) (fun e k'' hfin => .finish ho hfin) (finish_spec ?_ ?_)
  · intro hr p hp
    refine ⟨hpl.loose (.inr hr) p (hpl.act.symm.trans hp), ?_⟩
    cases hy : k'.g.yieldedProc with
    | none => rfl
    | some y => exact absurd (hr.symm.trans (hpl.yielded y hy).1) (by decide)
  · exact fun y hy => (hpl.yielded y hy).2.2

end Rocm
