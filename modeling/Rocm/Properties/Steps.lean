import Rocm.Refine.Machine

/-!
# Exceptions of a running process

The state in which an exception finds the nucleus, and what is known of the exception by its
cause. The other modules start from here where they are about a syscall or an interrupt.
-/

namespace Rocm

open Prog ProcTable Runs

/-- The nucleus at an exception, with the registers of the running process saved. -/
def Kernel.caught {D : Type} (k : Kernel D) (saved : ProcState) (status : Word)
    (pending : Fin 3 → Bool) (junk : Word) : Kernel D :=
  k.mapG fun g => (g.enter saved status pending junk).save

/-- The saved state is that of a kernel syscall, when the status register is `status`. -/
def KernelCallOf (saved : ProcState) (status : Word) : Prop :=
  CAUSE_GET_EXCCODE saved.cause = EXC_SYS ∧ (status &&& STATUS_KUp) >>> STATUS_KUp_BIT = 0 ∧
    saved.number.slt 0

instance (saved : ProcState) (status : Word) : Decidable (KernelCallOf saved status) :=
  inferInstanceAs (Decidable (_ ∧ _ ∧ _))

/-- Who has the processor keeps it and is not loaded anew. -/
def Exit.keeps : Exit → Bool
  | .ldcxt _ _ => true
  | .fault => true
  | _ => false

section Caught

variable {D : Type} {k : Kernel D} {saved : ProcState} {status junk : Word}
  {pending : Fin 3 → Bool} {p : PcbId}

@[simp] theorem caught_lists : (k.caught saved status pending junk).lists = k.lists := rfl

@[simp] theorem caught_biosDataPage :
    (k.caught saved status pending junk).g.biosDataPage = saved := save_biosDataPage _

@[simp] theorem caught_actProc :
    (k.caught saved status pending junk).g.actProc = k.g.actProc := save_actProc _

@[simp] theorem caught_yieldedProc :
    (k.caught saved status pending junk).g.yieldedProc = k.g.yieldedProc := save_yieldedProc _

@[simp] theorem caught_int : (k.caught saved status pending junk).g.int = k.g.int := save_int _

@[simp] theorem caught_dev : (k.caught saved status pending junk).g.dev = k.g.dev := save_dev _

@[simp] theorem caught_junk : (k.caught saved status pending junk).g.junk = junk := save_junk _

@[simp] theorem caught_states :
    (k.caught saved status pending junk).g.states = k.g.states := by
  rw [Kernel.caught, mapG_g, save_eq]
  rfl

@[simp] theorem caught_procsCount :
    (k.caught saved status pending junk).g.procsCount = k.g.procsCount := by
  rw [Kernel.caught, mapG_g, save_eq]
  rfl

@[simp] theorem caught_sbProcs :
    (k.caught saved status pending junk).g.sbProcs = k.g.sbProcs := by
  rw [Kernel.caught, mapG_g, save_eq]
  rfl

/-- The registers of the running process are saved, and nothing else changes in the PCBs. -/
theorem caught_pcb (hact : k.g.actProc = some p) (q : PcbId) :
    (k.caught saved status pending junk).g.pcb q =
      if q = p then { k.g.pcb p with pS := saved } else k.g.pcb q := by
  have hsave : (k.g.enter saved status pending junk).save =
      (k.g.enter saved status pending junk).setPS p fun _ => saved := by
    unfold Globals.save
    rw [show (k.g.enter saved status pending junk).actProc = some p from hact]
    rfl
  rw [Kernel.caught, mapG_g, hsave, Globals.setPS, setPcb_pcb]
  rfl

theorem caught_sameTags : SameTags k.g (k.caught saved status pending junk).g := by
  have henter : SameTags k.g (k.g.enter saved status pending junk) := .of_pcb rfl
  exact henter.trans (sameTags_save _)

theorem KernelCallOf.caught (h : KernelCallOf saved status) [Layout] :
    (k.caught saved status pending junk).g.KernelCall
      (k.caught saved status pending junk).g.biosDataPage := by
  rw [caught_biosDataPage]
  exact ⟨h.1, by rw [Kernel.caught, mapG_g, save_cpuStatus]; exact h.2.1, h.2.2⟩

end Caught

section Registers

@[simp] theorem setReg_gpr (s : ProcState) (r r' : Fin 29) (v : Word) :
    (s.setReg r v).gpr r' = if r' = r then v else s.gpr r' := by
  simp only [ProcState.setReg, Function.update_apply]

@[simp] theorem advance_v0 (s : ProcState) : s.advance.gpr regV0 = s.gpr regV0 := by
  simp [ProcState.advance, regV0, regT9]

variable {g : Globals} {p q : PcbId}

@[simp] theorem age_pS : ((g.age p).pcb q).pS = (g.pcb q).pS := by
  simp only [Globals.age, setPcb_pcb]
  split
  · next e => rw [e]
  · rfl

theorem age_pcb_ne (h : q ≠ p) : (g.age p).pcb q = g.pcb q := by
  simp only [Globals.age, setPcb_pcb, if_neg h]

theorem load_gpr [Layout] : ((g.load p).pcb q).pS.gpr = (g.pcb q).pS.gpr := by
  simp only [Globals.load, setPcb_pcb]
  split
  · next e => rw [e]
  · rfl

@[simp] theorem age_prio : ((g.age p).pcb q).pPrio = (g.pcb q).pPrio := (sameTags_age g p).prio q

theorem load_prio [Layout] : ((g.load p).pcb q).pPrio = (g.pcb q).pPrio := by
  simp only [Globals.load, setPcb_pcb]
  split
  · next e => rw [e]
  · rfl

theorem load_pcb_ne [Layout] (h : q ≠ p) : (g.load p).pcb q = g.pcb q := by
  simp only [Globals.load, setPcb_pcb, if_neg h]

end Registers

section Exits

variable {e : Exit} {p : PcbId} {saved : ProcState}

theorem canTake_of_current (h : e.current = some p) : e.canTake saved := by
  cases e <;> first | rfl | cases h

theorem live_of_current (h : e.current = some p) : e.live := by
  cases e <;> first | rfl | cases h

theorem not_intTaken {g : Globals} (h : g.KernelCall g.biosDataPage) : ¬ g.IntTaken := fun hi =>
  absurd (h.1.symm.trans hi) (by decide)

end Exits

/-! ## The semaphores -/

/-- What the nucleus knows about the semaphore `s`: its value, its queue, and who is free. -/
def Kernel.semPart (k : Kernel View) (s : Word) : Word × List PcbId × List PcbId :=
  (k.g.int s, k.lists.blocked s, k.lists.free)

section Part

variable {k k' : Kernel View} {act : PcbId} {s s' : Word} {r : EhAct} {e : Exit}

theorem wake_semPart {w : PcbId} (h : s ≠ s') : (k.wake s' w).semPart s = k.semPart s :=
  congrArg₂ Prod.mk rfl (congrArg₂ Prod.mk (wake_blocked_ne h) View.enqueue_free)

theorem block_semPart (h : s ≠ s') : (k.block s' act).semPart s = k.semPart s :=
  congrArg₂ Prod.mk rfl (congrArg₂ Prod.mk (block_blocked_ne h) rfl)

theorem setInt_semPart (h : s ≠ s') (v : Word) :
    (k.mapG (·.setInt s' v)).semPart s = k.semPart s :=
  congrArg₂ Prod.mk (setInt_int_ne h) rfl

theorem PStep.semPart (hp : PStep s' act k r k') (h : s ≠ s') : k'.semPart s = k.semPart s := by
  cases hp with
  | block => exact block_semPart h
  | wake => exact wake_semPart h
  | take => exact setInt_semPart h 0

theorem VStep.semPart {w : Option PcbId} (hv : VStep s' k w k') (h : s ≠ s') :
    k'.semPart s = k.semPart s := by
  cases hv with
  | idle => rfl
  | block => exact block_semPart h
  | wake => exact wake_semPart h
  | give => exact setInt_semPart h 1

theorem wakeAll_semPart (h : s ≠ s') (ws : List PcbId) :
    (k.wakeAll s' ws).semPart s = k.semPart s := by
  induction ws generalizing k with
  | nil => rfl
  | cons w ws ih => exact ih.trans (wake_semPart h)

theorem flushYielded_semPart : k.flushYielded.semPart s = k.semPart s := by
  unfold Kernel.flushYielded
  split
  · rfl
  · exact congrArg₂ Prod.mk rfl (congrArg₂ Prod.mk
      (congrFun View.enqueue_blocked s) View.enqueue_free)

variable [Layout]

theorem Dispatch.semPart (hd : Dispatch k e k') : k'.semPart s = k.semPart s := by
  cases hd with
  | high => exact flushYielded_semPart
  | low => exact flushYielded_semPart
  | halt => rfl
  | wait => exact flushYielded_semPart
  | deadlock => rfl

theorem Finish.semPart (hf : Finish k r e k') : k'.semPart s = k.semPart s := by
  cases hf with
  | none _ hd => exact hd.semPart
  | «continue» => exact flushYielded_semPart
  | renqueue _ hd =>
    exact hd.semPart.trans (congrArg₂ Prod.mk rfl (congrArg₂ Prod.mk
      (congrFun View.enqueue_blocked s) View.enqueue_free))
  | nothing _ _ _ hd => exact hd.semPart

end Part

variable [Layout]

section Cause

variable {k k' : Kernel View} {p : PcbId} {r : EhAct} {e : Exit}

/-- A kernel syscall that is answered. -/
theorem Outcome.of_kernelCall (h : Outcome k r k') (hcall : k.g.KernelCall k.g.biosDataPage)
    (hact : k.g.actProc = some p) : ∃ k1, SysOutcome k p k.g.biosDataPage r k1 ∧
      k' = k1.mapG (·.setPS p (·.advance)) := by
  have hint := not_intTaken hcall
  cases h with
  | slice hi => exact absurd hi hint
  | tick hi => exact absurd hi hint
  | served hi => exact absurd hi hint
  | unserved hi => exact absurd hi hint
  | spurious hs => exact hs.elim (fun hi => absurd hi.1 hint) fun ht => absurd hcall ht.1.2
  | die ht => exact absurd hcall ht.2
  | sys ha _ hs =>
    obtain rfl : p = _ := Option.some.inj (hact.symm.trans ha)
    exact ⟨_, hs, rfl⟩

/-- A kernel syscall that is not answered. -/
theorem EarlyExit.of_kernelCall (h : EarlyExit k e k') (hcall : k.g.KernelCall k.g.biosDataPage)
    (hact : k.g.actProc = some p) : SysExit k p k.g.biosDataPage e k' := by
  cases h with
  | trap ht => exact absurd hcall ht.2
  | user ht => exact absurd hcall ht.2
  | sys ha _ hs =>
    obtain rfl : p = _ := Option.some.inj (hact.symm.trans ha)
    exact hs

/-- At an address error of the nucleus the process is killed. -/
theorem Outcome.of_addressError (h : Outcome k r k') (herr : k.g.biosDataPage.IsAddressError) :
    r = .nothing ∧ ∃ act f S, k.g.actProc = some act ∧ k.lists.Subtree act S ∧
      k' = (k.mapG (·.setPS act f)).kill S := by
  cases h with
  | slice hi => exact absurd hi herr.not_int
  | tick hi => exact absurd hi herr.not_int
  | served hi => exact absurd hi herr.not_int
  | unserved hi => exact absurd hi herr.not_int
  | spurious hs => exact (hs.elim (fun hi => herr.not_int hi.1) fun ht => ht.2 herr).elim
  | sys _ hcall => exact absurd hcall herr.not_kernelCall
  | die _ hact _ hS => exact ⟨rfl, _, _, _, hact, hS, rfl⟩

/-- Or it is passed up. -/
theorem EarlyExit.of_addressError (h : EarlyExit k e k') (herr : k.g.biosDataPage.IsAddressError) :
    ∃ act ctx, k.g.actProc = some act ∧ e = .ldcxt act ctx := by
  cases h with
  | trap _ hact => exact ⟨_, _, hact, rfl⟩
  | user _ hact => exact ⟨_, _, hact, rfl⟩
  | sys _ hcall => exact absurd hcall herr.not_kernelCall

/-- The syscalls that may not return. -/
theorem SysExit.number {s : ProcState} (h : SysExit k p s e k') :
    s.number ∉ sysNumbers ∨ s.number ∈ [PASSEREN, VERHOGEN, DOIO] := by
  cases h with
  | passUp h => exact .inl h
  | rangeP h => exact .inr (by rw [h]; simp)
  | rangeV h => exact .inr (by rw [h]; simp)
  | doIoNull h => exact .inr (by rw [h]; simp)
  | sem h => exact .inr (by rcases h with h | h <;> rw [h] <;> simp)
  | doioSem h => exact .inr (by rw [h]; simp)
  | doio h => exact .inr (by rw [h]; simp)

theorem load_eq (h : k.g.yieldedProc = none) : k.load p = ⟨k.lists, k.g.load p⟩ := by
  rw [Kernel.load, flushYielded_eq h]

/-- A process that is in no queue is not dispatched. -/
theorem Dispatch.ne_of_loose {k k' : Kernel View} {e : Exit} (h : Dispatch k e k')
    (hp : k.lists.Loose p) : e ≠ .ldst p := by
  rintro rfl
  cases h with
  | high hq => exact hp.2.1 .high (by rw [hq]; exact List.mem_cons_self)
  | low _ hq => exact hp.2.1 .low (by rw [hq]; exact List.mem_cons_self)

/-- Dispatching a process changes no priority. -/
theorem Kernel.load_prio (k : Kernel View) (p q : PcbId) :
    ((k.load p).g.pcb q).pPrio = (k.g.pcb q).pPrio := by
  refine Eq.trans Rocm.load_prio ?_
  unfold Kernel.flushYielded
  split <;> rfl

/-- A process that goes on has the processor again. -/
theorem Finish.of_continue (h : Finish k .continue e k') (hact : k.g.actProc = some p) :
    e = .ldst p ∧ k' = (k.mapG (·.age p)).load p := by
  cases h with
  | none hn => rw [hact] at hn; cases hn
  | «continue» ha =>
    obtain rfl : p = _ := Option.some.inj (hact.symm.trans ha)
    exact ⟨rfl, rfl⟩
  | nothing _ hr => exact absurd rfl hr

end Cause

/-! ## What stays in a PCB -/

/-- A PCB without what the handlers of the exceptions of other processes change in it. -/
def Pcb.frame (c : Pcb) : Pcb := { c with pParent := none, pS := .zero, pSemAdd := NULL }

section Frame

omit [Layout] in
theorem Pcb.prio_of_frame {c c' : Pcb} (h : c.frame = c'.frame) : c.pPrio = c'.pPrio := by
  have hprio : c.frame.pPrio = c'.frame.pPrio := by rw [h]
  exact hprio

omit [Layout] in
theorem Pcb.time_of_frame {c c' : Pcb} (h : c.frame = c'.frame) :
    c.pTime = c'.pTime ∧ c.pTmUpdt = c'.pTmUpdt := by
  have htime : c.frame.pTime = c'.frame.pTime ∧ c.frame.pTmUpdt = c'.frame.pTmUpdt := by
    rw [h]
    exact ⟨rfl, rfl⟩
  exact htime

variable {k k' : Kernel View} {p q : PcbId} {r : EhAct}

omit [Layout] in
theorem setPcb_frame (g : Globals) (p : PcbId) {f : Pcb → Pcb}
    (hf : (f (g.pcb p)).frame = (g.pcb p).frame) (q : PcbId) :
    ((g.setPcb p f).pcb q).frame = (g.pcb q).frame := by
  rw [setPcb_pcb]
  split
  · next e => rw [hf, e]
  · rfl

omit [Layout] in
@[simp] theorem setPS_frame (g : Globals) (p : PcbId) (f : ProcState → ProcState) (q : PcbId) :
    ((g.setPS p f).pcb q).frame = (g.pcb q).frame := setPcb_frame g p rfl q

omit [Layout] in
@[simp] theorem setPS_prio (g : Globals) (p : PcbId) (f : ProcState → ProcState) (q : PcbId) :
    ((g.setPS p f).pcb q).pPrio = (g.pcb q).pPrio := (sameTags_setPS g p f).prio q

omit [Layout] in
theorem block_frame {s : Word} : ((k.block s p).g.pcb q).frame = (k.g.pcb q).frame :=
  setPcb_frame k.g p (f := fun c => { c with pSemAdd := s }) rfl q

omit [Layout] in
theorem wake_frame {s : Word} : ((k.wake s p).g.pcb q).frame = (k.g.pcb q).frame :=
  setPcb_frame k.g p (f := fun c => { c with pSemAdd := NULL }) rfl q

omit [Layout] in
theorem PStep.frame {s : Word} (h : PStep s p k r k') :
    (k'.g.pcb q).frame = (k.g.pcb q).frame := by
  cases h with
  | block => exact block_frame
  | wake => exact wake_frame
  | take => rfl

omit [Layout] in
theorem VStep.frame {s : Word} {w : Option PcbId} (h : VStep s k w k') :
    (k'.g.pcb q).frame = (k.g.pcb q).frame := by
  cases h with
  | idle => rfl
  | block => exact block_frame
  | wake => exact wake_frame
  | give => rfl

omit [Layout] in
theorem wakeAll_frame (s : Word) (ws : List PcbId) :
    ((k.wakeAll s ws).g.pcb q).frame = (k.g.pcb q).frame := by
  induction ws generalizing k with
  | nil => rfl
  | cons w ws ih => exact ih.trans wake_frame

omit [Layout] in
theorem kill_frame (S : List PcbId) : ((k.kill S).g.pcb q).frame = (k.g.pcb q).frame := by
  simp only [Kernel.kill, Globals.kill]
  split <;> rfl

omit [Layout] in
theorem deliver_frame (g : Globals) (w : Option PcbId) (v : Word) :
    ((g.deliver w v).pcb q).frame = (g.pcb q).frame := by
  cases w with
  | none => rfl
  | some w => rw [Globals.deliver, setPS_frame]

omit [Layout] in
theorem deliver_prio (g : Globals) (w : Option PcbId) (v : Word) :
    ((g.deliver w v).pcb q).pPrio = (g.pcb q).pPrio := Pcb.prio_of_frame (deliver_frame g w v)

/-- A syscall keeps the PCBs, but for that of a new process. -/
theorem SysOutcome.frame {s : ProcState} (h : SysOutcome k p s r k') (hq : q ∉ k.lists.free) :
    (k'.g.pcb q).frame = (k.g.pcb q).frame := by
  cases h with
  | value => rw [mapG_g, setPS_frame]
  | full => rfl
  | @create c cs _ hf =>
    have hne : q ≠ c := fun e => hq (by rw [hf, e]; exact List.mem_cons_self)
    rw [mapG_g, setPS_frame]
    simp only [Kernel.create, Globals.create, setPcb_pcb, if_neg hne]
  | terminate => exact kill_frame _
  | passeren _ _ _ hp => exact hp.frame
  | verhogen _ _ _ hv => exact hv.frame
  | doio _ _ _ _ _ hp =>
    rw [mapG_g, storeWord_pcb]
    exact hp.frame
  | clockwait _ hp => exact hp.frame
  | yield => rfl
  | unknown => exact kill_frame _

/-- So does the handler of an exception. -/
theorem Outcome.frame (h : Outcome k r k') (hq : q ∉ k.lists.free) :
    (k'.g.pcb q).frame = (k.g.pcb q).frame := by
  cases h with
  | slice => rfl
  | tick =>
    exact wakeAll_frame (k := k.mapG fun g => { g with intervalTimer := PSECOND }) _ _
  | served _ _ hv => exact (deliver_frame _ _ _).trans hv.frame
  | unserved => rfl
  | spurious => rfl
  | sys _ _ hs => rw [mapG_g, setPS_frame, hs.frame hq]
  | die => rw [kill_frame, mapG_g, setPS_frame]

theorem Outcome.prio (h : Outcome k r k') (hq : q ∉ k.lists.free) :
    (k'.g.pcb q).pPrio = (k.g.pcb q).pPrio := Pcb.prio_of_frame (h.frame hq)

/-- An exception that is not answered leaves the processor to the process, and every priority as it
    is. -/
theorem EarlyExit.kept {e : Exit} (h : EarlyExit k e k') :
    k'.g.actProc = k.g.actProc ∧ ∀ q, (k'.g.pcb q).pPrio = (k.g.pcb q).pPrio := by
  cases h with
  | trap => exact ⟨rfl, fun _ => rfl⟩
  | @user act f => exact ⟨rfl, (sameTags_setPS k.g act f).prio⟩
  | sys _ _ hs =>
    cases hs with
    | doio _ _ _ hp => exact ⟨hp.actProc, fun q => Pcb.prio_of_frame hp.frame⟩
    | _ => exact ⟨rfl, fun _ => rfl⟩

/-- An address error of the nucleus leaves the processor to the process. -/
theorem Next.actProc_of_fault {o o' : Obs} {ev : Event} (hn : Next o ev o') (he : o'.exit = .fault) :
    o'.k.g.actProc = o.k.g.actProc := by
  have hhandled : ∀ {saved status pending junk e k'}, e = .fault →
      Handled (o.k.mapG (·.enter saved status pending junk)) e k' →
      k'.g.actProc = o.k.g.actProc := fun he hh => by
    cases hh with
    | exit hx => exact hx.kept.1.trans (save_actProc _)
    | finish _ hf => exact absurd he hf.ne_fault
  cases hn with
  | exception _ hh => exact hhandled he hh
  | addressError _ _ hh => exact hhandled he hh
  | resume _ hd => exact absurd he hd.ne_fault
  | _ => rfl

/-- The handler of an exception that is answered loads the process anew, or another one. -/
theorem Finish.not_keeps {e : Exit} (h : Finish k r e k') : e.keeps = false := by
  have hd : ∀ {k : Kernel View}, Dispatch k e k' → e.keeps = false := fun h => by
    cases h <;> rfl
  cases h with
  | «continue» => rfl
  | none _ h => exact hd h
  | renqueue _ h => exact hd h
  | nothing _ _ _ h => exact hd h

end Frame

/-! ## Steps -/

section Steps

variable {m : Mach Heap} {saved : ProcState} {status junk : Word} {pending : Fin 3 → Bool}
  {p : PcbId}

theorem ongoing_of_next {m m' : Mach Heap} {ev : Event} (h : m.next ev = some m') :
    m.exit.ongoing := by
  cases ev <;> simp only [Mach.next, Option.ite_none_right_eq_some] at h
  · exact .inl (live_of_canTake h.1)
  · exact .inl (by rw [h.1]; rfl)
  · exact .inl h.1
  · exact .inl (live_of_running h.1.1)
  · exact .inl (live_of_running h.1)
  · exact .inl (live_of_running h.1)
  · exact .inr h.1.1

/-- The process that has the processor is the running one. -/
theorem Reached.actProc (h : Reached m) (hl : m.exit.live) : m.k.g.actProc = m.exit.current :=
  (h.good.stable hl).current

/-- An exception is handled. -/
theorem Reached.exception (h : Reached m) (hcan : m.exit.canTake saved)
    (hc : Contract m.obs (.exception saved status pending junk)) :
    ∃ m', m.next (.exception saved status pending junk) = some m' ∧ Reached m' ∧
      Handled (m.obs.k.mapG (·.enter saved status pending junk)) m'.exit m'.obs.k := by
  have hn : m.next (.exception saved status pending junk) = some
      (runTo exceptionHandler { m.k with g := m.k.g.enter saved status pending junk }) := by
    rw [Mach.next, if_pos hcan]
  obtain ⟨hnext, hr⟩ := h.next ⟨hn, hc⟩
  refine ⟨_, hn, hr, ?_⟩
  cases hnext with
  | exception _ hh => exact hh

/-- An exception that is answered, and what follows. -/
theorem Reached.answered (h : Reached m) (hcan : m.exit.canTake saved)
    (hc : Contract m.obs (.exception saved status pending junk)) {r : EhAct} {k1 : Kernel Heap}
    (hk : handleException (m.k.mapG (·.enter saved status pending junk)) = .ok r k1) :
    Outcome (m.obs.k.caught saved status pending junk) r k1.abs ∧ k1.g.actProc = m.k.g.actProc ∧
      ∃ m', m.next (.exception saved status pending junk) = some m' ∧
        Finish k1.abs r m'.exit m'.obs.k := by
  have hst := h.good.stable (live_of_canTake hcan)
  have hready := hst.ready hcan hc
  have hsems : SemsInv (m.obs.k.mapG (·.enter saved status pending junk)) :=
    ⟨hst.it, fun d => (hst.dev d).mapG (f := (·.enter saved status pending junk)) rfl rfl⟩
  obtain ⟨-, l, hsim⟩ := h
  have hsim' : Sim (m.k.mapG (·.enter saved status pending junk))
      (l.k.mapG (·.enter saved status pending junk)) := hsim.sim.mapG _
  rw [hsim.obs] at hready hsems hc
  have hsame : Same Sim handleException handleException :=
    .bind same_getG fun _ => .bind same_saveState fun _ => same_handleCause _
  obtain ⟨l1, hs1, ho⟩ := hsame.of_ok hsim' hk
    (Q := fun r l1 => Outcome (l.k.abs.caught saved status pending junk) r l1.abs) (by
      rw [handleException, wp_bind, wp_getG, wp_bind, wp_saveState]
      have hcause := handleCause_spec (k := l.k.caught saved status pending junk) hready.save
        (saved_save _)
      rw [caught_biosDataPage] at hcause
      refine wp_mono (fun _ _ ho => ho) (fun e k' he hbad => ?_) hcause
      exact (he.good hready.save.toEntered (hsems.mapG (save_dev _) (save_int _))).not_misuse hbad)
  obtain ⟨hset, hpl⟩ := Outcome.settled hready hsems hc.callOk ho
  have hfin : Finish l1.abs r (runTo (do updateAge; dispose r; schedulerNext) l1).exit
      (runTo (do updateAge; dispose r; schedulerNext) l1).k.abs :=
    runTo_spec (E := fun e k' => Finish l1.abs r e k'.abs) (finish_spec (fun hr p hp => by
      refine ⟨hpl.loose_act (.inr hr) p hp, ?_⟩
      cases hy : l1.g.yieldedProc with
      | none => rfl
      | some y => exact absurd (hr.symm.trans (hpl.yielded y hy).1) (by decide)) hset.yielded)
  have hgood := hfin.good hset hpl.loose_act fun y hy => (hpl.yielded y hy).1
  have hsim1 := runTo_sim (.bind same_updateAge fun _ => .bind (same_dispose r) fun _ =>
    same_schedulerNext) hs1 hgood.not_misuse
  have hrun : runTo exceptionHandler (m.k.mapG (·.enter saved status pending junk)) =
      runTo (do updateAge; dispose r; schedulerNext) k1 := by
    have hb : exceptionHandler (m.k.mapG (·.enter saved status pending junk)) =
        (do updateAge; dispose r; schedulerNext : KM Heap PUnit) k1 := by
      change EStateM.bind _ _ _ = _
      simp only [EStateM.bind, hk]
    rw [runTo, hb, runTo]
  have hact : k1.g.actProc = m.k.g.actProc := by
    rw [hs1.globals, hsim.sim.globals]
    exact hpl.act.trans (save_actProc _)
  rw [hs1.abs, hsim.obs]
  refine ⟨ho, hact, runTo exceptionHandler (m.k.mapG (·.enter saved status pending junk)), ?_, ?_⟩
  · rw [Mach.next, if_pos hcan]
    rfl
  · rw [hrun, hsim1.obs, hsim1.exit]
    exact hfin

/-- A kernel syscall is answered or not. -/
theorem Reached.kernelCall (h : Reached m) (hp : m.exit.current = some p)
    (hcall : KernelCallOf saved status) (pending : Fin 3 → Bool) (hc : CallOk m.obs.k junk saved) :
    ∃ m', m.next (.exception saved status pending junk) = some m' ∧ Reached m' ∧
      (SysExit (m.obs.k.caught saved status pending junk) p saved m'.exit m'.obs.k ∨
        ∃ r k1, SysOutcome (m.obs.k.caught saved status pending junk) p saved r k1 ∧
          Finish (k1.mapG (·.setPS p (·.advance))) r m'.exit m'.obs.k) := by
  have hact : m.obs.k.g.actProc = some p := (h.actProc (live_of_current hp)).trans hp
  have hcontract : Contract m.obs (.exception saved status pending junk) := fun _ => hc
  obtain ⟨m', hm', hr, hh⟩ := h.exception (canTake_of_current hp) hcontract
  refine ⟨m', hm', hr, ?_⟩
  have hcall' : (m.obs.k.caught saved status pending junk).g.KernelCall
      (m.obs.k.caught saved status pending junk).g.biosDataPage := hcall.caught
  have hact' : (m.obs.k.caught saved status pending junk).g.actProc = some p := by
    rw [caught_actProc, hact]
  cases hh with
  | exit he =>
    have := EarlyExit.of_kernelCall (k := m.obs.k.caught saved status pending junk) he hcall' hact'
    rw [caught_biosDataPage] at this
    exact .inl this
  | finish ho hf =>
    obtain ⟨k1, hs, rfl⟩ := Outcome.of_kernelCall (k := m.obs.k.caught saved status pending junk)
      ho hcall' hact'
    rw [caught_biosDataPage] at hs
    exact .inr ⟨_, k1, hs, hf⟩

end Steps

end Rocm
