import Rocm.Proofs.Semaphores
import Rocm.Spec.Contract

/-!
# System calls on the abstract lists

Every path through `handle_syscall` and `passup_or_die` has one of the outcomes that the
specification lists.
-/

namespace Rocm

open Prog ProcTable

variable {k : Kernel Lists} {act : PcbId} {s : ProcState}

/-- A kernel in which `act` runs. -/
structure Running (k : Kernel View) (act : PcbId) : Prop where
  actProc : k.g.actProc = some act
  loose : k.lists.Loose act

theorem wp_returnV0 {E : Exit → Kernel Lists → Prop} {Q : EhAct → Kernel Lists → Prop}
    (hr : k.g.actProc = some act) (v : Pcb → Word) :
    wp (returnV0 v) Q E k =
      Q .continue (k.mapG (·.setPS act (·.setReg regV0 (v (k.g.pcb act))))) := by
  simp only [returnV0, wp_bind, wp_derefActProc hr, wp_modifyG, wp_pure]
  rfl

theorem storeWord_spec (a v : Word) {E : Exit → Kernel Lists → Prop}
    (hE : a &&& 3 ≠ 0 → E .fault k) :
    wp (storeWord a v) (fun _ k' => a &&& 3 = 0 ∧ k' = k.mapG (·.storeWord a v)) E k := by
  by_cases ha : a &&& 3 = 0
  · cases hd : SubDev.all.find? fun d => d.commandAddr = a <;>
      simp only [storeWord, Globals.storeWord, ha, hd, ne_eq, not_true_eq_false, if_false,
        wp_modifyG, true_and] <;> rfl
  · simp only [storeWord, ha, ne_eq, not_false_eq_true, if_true, wp_bind, wp_throw]
    exact hE ha

variable [Layout]

/-- `kill_parent_and_progeny` of a live process. -/
theorem killTree_seq {α : Type} {f : PUnit → KM Lists α} {Q : α → Kernel Lists → Prop}
    {E : Exit → Kernel Lists → Prop} {q : PcbId} (h : KInv k.abs) (hq : q ∉ k.lists.free)
    (hf : ∀ k' S, k.lists.view.Subtree q S → k'.abs = k.abs.kill S → KInv k'.abs →
      wp (f ⟨⟩) Q E k') : wp (killParentAndProgeny killFuel q >>= f) Q E k := by
  refine wp_seq (killTree_spec h.toKTags hq) fun _ k' ⟨S, hS, hk'⟩ => hf k' S hS hk' ?_
  rw [hk']
  exact h.kill hS.nodup hS.closed (hS.alive k.lists.view_wf hq)

/-- `passup_or_die` of the running process. -/
theorem passupOrDie_spec (kind : Fin 2) (h : KInv k.abs) (hr : Running k.abs act) :
    wp (passupOrDie kind) (fun r k' => r = .nothing ∧ (k.g.pcb act).pSupportStruct = NULL ∧
        ∃ S, k.lists.view.Subtree act S ∧ k'.abs = k.abs.kill S)
      (fun e k' => (k.g.pcb act).pSupportStruct ≠ NULL ∧
        e = .ldcxt act ((k.g.supports (k.g.pcb act).pSupportStruct).supExceptContext kind) ∧
        k' = k.mapG (·.passUp (k.g.pcb act).pSupportStruct kind)) k := by
  have hact : k.g.actProc = some act := hr.actProc
  simp only [passupOrDie, wp_bind, wp_getG, hact]
  by_cases hs : (k.g.pcb act).pSupportStruct = NULL
  · rw [if_pos hs]
    exact killTree_seq h hr.loose.1 fun k' S hS hk' _ => ⟨rfl, hs, S, hS, hk'⟩
  · rw [if_neg hs]
    simp only [wp_bind, wp_modifyG, wp_getG, wp_throw]
    refine ⟨hs, ?_, rfl⟩
    simp only [Globals.passUp, Function.update_self]

/-! ## System calls -/

theorem createProcess_spec (hr : Running k.abs act) (hnum : s.number = CREATEPROCESS) :
    wp (createProcess s.arg1 s.arg2 s.arg3) (fun r k' => SysOutcome k.abs act s r k'.abs)
      (fun e k' => SysExit k.abs act s e k'.abs) k := by
  have hact : k.g.actProc = some act := hr.actProc
  simp only [createProcess, mkProc, wp_bind]
  cases hf : k.lists.free with
  | nil =>
    rw [Lists.wp_allocPcb_nil hf]
    exact .full hnum hf
  | cons c cs =>
    have hw := k.lists.view_wf
    have hc : c ∈ k.lists.free := by rw [hf]; exact List.mem_cons_self
    have hloose := hw.loose_popFree hf
    have hcs : c ∉ k.lists.popFree.free := hloose.1
    have horphan : ∀ q, c ∉ k.lists.popFree.child q := (hw.leaf c hc).2
    have hactf : act ∉ k.lists.popFree.free := fun hm => hr.loose.1 (List.mem_of_mem_tail hm)
    have hloose : (k.lists.popFree.pushChild act c horphan hactf hcs).view.Loose c := hloose
    rw [Lists.wp_allocPcb_cons hf]
    simp only [wp_bind, wp_modifyG, wp_getG, setPcb_actProc, hact]
    rw [Lists.wp_insertChild (k := ⟨k.lists.popFree, _⟩) horphan hactf hcs]
    refine wp_mono (fun _ k' hk' => ?_) (fun _ _ hf => hf.elim)
      (enqueueProc_spec (k := ⟨k.lists.popFree.pushChild act c horphan hactf hcs, _⟩) _ hloose)
    have hk' : k'.abs = k.abs.create c act s.arg1 s.arg2 s.arg3 := by
      rw [hk']
      refine congrArg (Kernel.mk _) ?_
      simp only [Globals.create, Globals.setPcb, Function.update_self, Function.update_idem]
      rfl
    obtain ⟨hv, hg⟩ := abs_eq hk'
    have hact' : k'.g.actProc = some act := by rw [hg]; exact hact
    have hpid : (k'.g.pcb c).pPid = Layout.toAddresses.pcbAddr c := by
      rw [hg]
      change ((k.g.setPcb c fun _ => k.g.newPcb c act _ _ _).pcb c).pPid = _
      rw [setPcb_pcb, if_pos rfl]
      rfl
    simp only [wp_pure, wp_bind, wp_derefActProc hact', wp_modifyG, hpid]
    simp only [abs_mk, hv, hg]
    exact SysOutcome.create (k := k.abs) hnum hf

theorem termProcess_spec (h : KInv k.abs) (hr : Running k.abs act) (hnum : s.number = TERMPROCESS)
    (ht : TermOk k.abs s) :
    wp (termProcess s.arg1) (fun r k' => SysOutcome k.abs act s r k'.abs)
      (fun e k' => SysExit k.abs act s e k'.abs) k := by
  have hact : k.g.actProc = some act := hr.actProc
  have htarget : ∃ q, termTarget act s.arg1 = some q ∧ q ∉ k.lists.free := by
    rcases ht hnum with hz | ⟨q, hq, hpid⟩
    · exact ⟨act, by rw [termTarget, if_pos hz], hr.loose.1⟩
    · refine ⟨q, ?_, hq⟩
      rw [← hpid, h.pidLive q hq, termTarget_pcbAddr]
  obtain ⟨q, hq, hqf⟩ := htarget
  rw [termProcess, wp_bind, wp_derefActProc hact]
  simp only [termTarget] at hq
  simp only [hq]
  refine killTree_seq h hqf fun k' S hS hk' hinv => ?_
  rw [wp_bind, wp_isAlive hinv.toKCore]
  obtain ⟨hv, hg⟩ := abs_eq hk'
  have hfree : act ∉ k'.lists.free ↔ act ∉ S := by
    change act ∉ k'.lists.view.free ↔ _
    rw [hv]
    change act ∉ S ++ k.lists.free ↔ _
    simp [show act ∉ k.lists.free from hr.loose.1]
  have hout : SysOutcome k.abs act s (if act ∈ S then .nothing else .renqueue) k'.abs := by
    rw [hk']
    exact .terminate hnum hq hqf hS
  by_cases hS' : act ∈ S <;> simpa [hfree, hS'] using hout

theorem doIo_spec (h : KInv k.abs) (hr : Running k.abs act) (hnum : s.number = DOIO) :
    wp (doIo s.arg1 s.arg2) (fun r k' => SysOutcome k.abs act s r k'.abs)
      (fun e k' => SysExit k.abs act s e k'.abs) k := by
  by_cases hnull : s.arg1 = 0 ∨ s.arg1 = NULL
  · simp only [doIo, hnull, if_true, wp_PANIC]
    exact .doIoNull hnum hnull
  · rw [doIo, if_neg hnull, wp_bind, wp_getG, wp_bind, wp_discard]
    by_cases hal : doIoSem k.g.junk s.arg1 &&& 3 = 0
    · refine wp_mono (fun r k' hp => ?_) (fun _ _ hf => hf.elim)
        (passeren_spec h.toKCore hal hr.actProc hr.loose)
      rw [wp_bind]
      refine wp_mono (fun _ k2 hk2 => ?_) (fun _ _ he => he)
        (storeWord_spec (k := k') s.arg1 s.arg2 fun hal' => SysExit.doio hnum hal' hal hp)
      rw [wp_pure, hk2.2, abs_mapG]
      exact .doio hnum (fun e => hnull (.inl e)) (fun e => hnull (.inr e)) hk2.1 hal hp
    · simp only [passeren, loadInt, wp_bind, hal, ne_eq, not_false_eq_true, if_true, wp_throw]
      exact .doioSem hnum hal

/-- The checks of PASSEREN and VERHOGEN. -/
theorem checkSem_seq {f : PUnit → KM Lists EhAct} {Q : EhAct → Kernel Lists → Prop} {range dead : PanicAt} (h : KInv k.abs) (hr : Running k.abs act)
    (hnum : s.number = PASSEREN ∨ s.number = VERHOGEN)
    (hrange : k.g.int s.arg1 ≠ 0 → k.g.int s.arg1 ≠ 1 → SysExit k.abs act s (.panic range) k.abs)
    (hf : s.arg1 &&& 3 = 0 → k.g.int s.arg1 = 0 ∨ k.g.int s.arg1 = 1 →
      wp (f ⟨⟩) Q (fun e k' => SysExit k.abs act s e k'.abs) k) :
    wp (checkSem s.arg1 act range dead >>= f) Q (fun e k' => SysExit k.abs act s e k'.abs) k := by
  rw [wp_bind, checkSem, wp_bind]
  by_cases hal : s.arg1 &&& 3 = 0
  · rw [wp_loadInt hal]
    by_cases hv : k.g.int s.arg1 ≠ 0 ∧ k.g.int s.arg1 ≠ 1
    · simp only [hv, ne_eq, not_false_eq_true, and_self, if_true, wp_bind, wp_PANIC]
      exact hrange hv.1 hv.2
    · simp only [hv, if_false, wp_bind, wp_isAlive h.toKCore]
      have hfree : act ∉ k.lists.free := hr.loose.1
      simp only [hfree, not_false_eq_true, decide_true, Bool.not_true, Bool.false_eq_true, if_false,
        wp_pure]
      refine hf hal ?_
      by_cases hz : k.g.int s.arg1 = 0
      · exact .inl hz
      · exact .inr (by_contra fun ho => hv ⟨hz, ho⟩)
  · simp only [loadInt, wp_bind, hal, ne_eq, not_false_eq_true, if_true, wp_throw]
    exact .sem hnum hal

theorem handleSyscall_spec (h : KInv k.abs) (hr : Running k.abs act)
    (ht : TermOk k.abs (k.g.pcb act).pS) :
    wp handleSyscall (fun r k' => SysOutcome k.abs act (k.g.pcb act).pS r k'.abs)
      (fun e k' => SysExit k.abs act (k.g.pcb act).pS e k'.abs) k := by
  have hact : k.g.actProc = some act := hr.actProc
  have hfree : act ∉ k.lists.free := hr.loose.1
  have hsem : (k.g.pcb act).pSemAdd = NULL := h.toKCore.semAdd_of_loose hr.loose
  simp only [handleSyscall, wp_bind, wp_derefActProc hact, wp_getG, wp_isAlive h.toKCore]
  simp only [hfree, not_false_eq_true, decide_true, Bool.not_true, Bool.false_eq_true, if_false,
    hsem, ne_eq, not_true_eq_false]
  by_cases h1 : (k.g.pcb act).pS.gpr regA0 = CREATEPROCESS
  · rw [if_pos h1]
    exact createProcess_spec hr h1
  by_cases h2 : (k.g.pcb act).pS.gpr regA0 = TERMPROCESS
  · rw [if_neg h1, if_pos h2]
    exact termProcess_spec h hr h2 ht
  by_cases h3 : (k.g.pcb act).pS.gpr regA0 = PASSEREN
  · rw [if_neg h1, if_neg h2, if_pos h3]
    refine checkSem_seq h hr (.inl h3) (.rangeP (k := k.abs) h3) fun hal hv => ?_
    exact wp_mono (fun r k' hp => .passeren h3 hal hv hp) (fun _ _ hf => hf.elim)
      (passeren_spec h.toKCore hal hact hr.loose)
  by_cases h4 : (k.g.pcb act).pS.gpr regA0 = VERHOGEN
  · rw [if_neg h1, if_neg h2, if_neg h3, if_pos h4]
    refine checkSem_seq h hr (.inr h4) (.rangeV (k := k.abs) h4) fun hal hv => ?_
    rw [wp_bind]
    refine wp_mono (fun p k' hp => ?_) (fun _ _ hf => hf.elim)
      (verhogen_spec h.toKCore hal fun p hp => ?_)
    · exact .verhogen h4 hal hv hp
    · rw [hact] at hp
      exact Option.some.inj hp ▸ hr.loose
  by_cases h5 : (k.g.pcb act).pS.gpr regA0 = DOIO
  · rw [if_neg h1, if_neg h2, if_neg h3, if_neg h4, if_pos h5]
    exact doIo_spec h hr h5
  by_cases h6 : (k.g.pcb act).pS.gpr regA0 = GETTIME
  · rw [if_neg h1, if_neg h2, if_neg h3, if_neg h4, if_neg h5, if_pos h6, getTime,
      wp_returnV0 hact]
    exact .value (if_pos h6)
  by_cases h7 : (k.g.pcb act).pS.gpr regA0 = CLOCKWAIT
  · rw [if_neg h1, if_neg h2, if_neg h3, if_neg h4, if_neg h5, if_neg h6, if_pos h7, waitForClock]
    exact wp_mono (fun r k' hp => .clockwait h7 hp) (fun _ _ hf => hf.elim)
      (passeren_spec h.toKCore (Layout.sem_aligned .it) hact hr.loose)
  by_cases h8 : (k.g.pcb act).pS.gpr regA0 = GETSUPPORTPTR
  · rw [if_neg h1, if_neg h2, if_neg h3, if_neg h4, if_neg h5, if_neg h6, if_neg h7, if_pos h8,
      getSupport, wp_returnV0 hact]
    exact .value ((if_neg h6).trans (if_pos h8))
  by_cases h9 : (k.g.pcb act).pS.gpr regA0 = GETPROCESSID
  · rw [if_neg h1, if_neg h2, if_neg h3, if_neg h4, if_neg h5, if_neg h6, if_neg h7, if_neg h8,
      if_pos h9, getProcessPid, wp_bind, wp_getG, wp_returnV0 hact]
    exact .value ((if_neg h6).trans ((if_neg h8).trans (if_pos h9)))
  by_cases h10 : (k.g.pcb act).pS.gpr regA0 = YIELD
  · rw [if_neg h1, if_neg h2, if_neg h3, if_neg h4, if_neg h5, if_neg h6, if_neg h7, if_neg h8,
      if_neg h9, if_pos h10]
    rw [yield, wp_bind, wp_modifyG, wp_pure]
    have hyield : SysOutcome k.abs act _ .nothing _ := .yield h10
    rw [← hact] at hyield
    exact hyield
  · rw [if_neg h1, if_neg h2, if_neg h3, if_neg h4, if_neg h5, if_neg h6, if_neg h7, if_neg h8,
      if_neg h9, if_neg h10]
    have hnum : (k.g.pcb act).pS.number ∉ sysNumbers := by simp [sysNumbers, ProcState.number, *]
    refine wp_mono (fun r k' ⟨hr, hs, S, hS, hk'⟩ => ?_) (fun e k' ⟨hs, he, hk'⟩ => ?_)
      (passupOrDie_spec GENERALEXCEPT h hr)
    · rw [hr, hk']
      exact .unknown hnum hs hS
    · rw [he, hk']
      exact .passUp hnum hs

end Rocm
