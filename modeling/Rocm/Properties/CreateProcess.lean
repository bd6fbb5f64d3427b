import Rocm.Properties.Sample

/-!
# CREATEPROCESS

A CREATEPROCESS makes exactly one process or refuses without a trace, and the caller goes on: but
only while a PCB is free and the priority is one of the two there are.
-/

namespace Rocm

open Prog ProcTable Runs

/-- From `k` to `k'` the syscall `s` of `p` has made the process `c`. -/
structure Created (k k' : Kernel View) (p : PcbId) (s : ProcState) (c : PcbId) : Prop where
  free : k.lists.free.Perm (c :: k'.lists.free)
  child : c ∈ k'.lists.child p
  parent : (k'.g.pcb c).pParent = some p
  state : (k'.g.pcb c).pS = k.g.states s.arg1
  support : (k'.g.pcb c).pSupportStruct = s.arg3
  ready : (k'.lists.ready .high).count c + (k'.lists.ready .low).count c = 1
  procs : k'.g.procsCount = k.g.procsCount + 1
  result : (k'.g.pcb p).pS.gpr regV0 = (k'.g.pcb c).pPid

/-- From `k` to `k'` the syscall of `p` has returned -1 and done nothing else. -/
structure Refused (k k' : Kernel View) (p : PcbId) : Prop where
  result : (k'.g.pcb p).pS.gpr regV0 = -1
  lists : k'.lists = k.lists
  others : ∀ q, q ≠ p → k'.g.pcb q = k.g.pcb q
  procs : k'.g.procsCount = k.g.procsCount
  sb : k'.g.sbProcs = k.g.sbProcs
  int : k'.g.int = k.g.int

/-- The syscall `s` of `p` has succeeded or failed cleanly, and `p` goes on. -/
structure CreateClean (p : PcbId) (s : ProcState) (o o' : Obs) : Prop where
  goesOn : o'.exit = .ldst p
  clean : (∃ c, Created o.k o'.k p s c) ∨ Refused o.k o'.k p

theorem enqueue_count {v : View} {c : PcbId} (h : v.Loose c) (prio : Word) :
    ((v.enqueue c prio).ready .high).count c + ((v.enqueue c prio).ready .low).count c =
      if prio = PROCESS_PRIO_LOW ∨ prio = PROCESS_PRIO_HIGH then 1 else 0 := by
  have hz : ∀ q, (v.ready q).count c = 0 := fun q => List.count_eq_zero.mpr (h.2.1 q)
  simp only [View.enqueue_ready, Queue.prio]
  by_cases hh : prio = PROCESS_PRIO_HIGH
  · subst hh
    simp [hz, PROCESS_PRIO_HIGH, PROCESS_PRIO_LOW]
  · by_cases hl : prio = PROCESS_PRIO_LOW
    · subst hl
      simp [hz, PROCESS_PRIO_HIGH, PROCESS_PRIO_LOW]
    · simp [hz, hh, hl]

variable [Layout] {m : Mach Heap} {p : PcbId} {saved : ProcState} {status junk : Word}
  {pending : Fin 3 → Bool}

/-- What a CREATEPROCESS does. -/
theorem SysOutcome.of_createProcess {k k' : Kernel View} {r : EhAct}
    (h : SysOutcome k p saved r k') (hn : saved.number = CREATEPROCESS) :
    (k.lists.free = [] ∧ r = .other (-1) ∧ k' = k) ∨ ∃ c cs, k.lists.free = c :: cs ∧
      r = .continue ∧ k' = (k.create c p saved.arg1 saved.arg2 saved.arg3).mapG
        (·.setPS p (·.setReg regV0 (Layout.toAddresses.pcbAddr c))) := by
  have hne : ∀ {w}, saved.number = w → w ≠ CREATEPROCESS → False := fun h hw => hw (h ▸ hn)
  cases h with
  | value hv =>
    rw [Globals.sysResult, hn] at hv
    simp [CREATEPROCESS, GETTIME, GETSUPPORTPTR, GETPROCESSID] at hv
  | full _ hf => exact .inl ⟨hf, rfl, rfl⟩
  | create _ hf => exact .inr ⟨_, _, hf, rfl, rfl⟩
  | terminate h => exact (hne h (by decide)).elim
  | passeren h => exact (hne h (by decide)).elim
  | verhogen h => exact (hne h (by decide)).elim
  | doio h => exact (hne h (by decide)).elim
  | clockwait h => exact (hne h (by decide)).elim
  | yield h => exact (hne h (by decide)).elim
  | unknown h => exact absurd (by rw [hn]; simp [sysNumbers]) h

theorem SysExit.not_createProcess {k k' : Kernel View} {e : Exit} (h : SysExit k p saved e k')
    (hn : saved.number = CREATEPROCESS) : False := by
  have hnum := h.number
  rw [hn] at hnum
  exact absurd hnum (by decide)

/-- The state after a CREATEPROCESS that found the free PCB `c`. -/
theorem created_iff {k k' : Kernel View} {c : PcbId} {cs : List PcbId} (hw : k.lists.Wf)
    (hf : k.lists.free = c :: cs) (hp : k.lists.Loose p) (hy : k.g.yieldedProc = none)
    (hk' : k' = (((((k.caught saved status pending junk).create c p saved.arg1 saved.arg2
      saved.arg3).mapG (·.setPS p (·.setReg regV0 (Layout.toAddresses.pcbAddr c)))).mapG
        (·.setPS p (·.advance))).mapG (·.age p)).load p) :
    ((∃ c, Created k k' p saved c) ∨ Refused k k' p) ↔
      saved.arg2 = PROCESS_PRIO_LOW ∨ saved.arg2 = PROCESS_PRIO_HIGH := by
  rw [load_eq (by rw [mapG_g, mapG_g, mapG_g]; exact (caught_yieldedProc (k := k)).trans hy)] at hk'
  have hcp : c ≠ p := fun e => hp.1 (by rw [hf, e]; exact List.mem_cons_self)
  have hfree : k'.lists.free = cs := by
    rw [hk']
    change ((k.lists.popFree.pushChild p c).enqueue c saved.arg2).free = cs
    rw [View.enqueue_free]
    change k.lists.free.tail = cs
    rw [hf, List.tail_cons]
  have hloose : (k.lists.popFree.pushChild p c).Loose c := hw.loose_popFree hf
  have hcount := enqueue_count hloose saved.arg2
  have hpcb : k'.g.pcb c = (k.caught saved status pending junk).g.newPcb c p saved.arg1 saved.arg2
      saved.arg3 := by
    rw [hk']
    change (Globals.load _ p).pcb c = _
    rw [load_pcb_ne hcp, mapG_g, age_pcb_ne hcp, mapG_g, Globals.setPS, setPcb_pcb, if_neg hcp,
      mapG_g, Globals.setPS, setPcb_pcb, if_neg hcp]
    simp only [Kernel.create, Globals.create, setPcb_pcb, if_true]
  have hv0 : (k'.g.pcb p).pS.gpr regV0 = Layout.toAddresses.pcbAddr c := by
    rw [hk']
    change ((Globals.load _ p).pcb p).pS.gpr regV0 = _
    rw [load_gpr, mapG_g, age_pS, mapG_g, Globals.setPS, setPcb_pcb, if_pos rfl, advance_v0,
      mapG_g, Globals.setPS, setPcb_pcb, if_pos rfl]
    rw [setReg_gpr, if_pos rfl]
  constructor
  · rintro (⟨c', hc'⟩ | href)
    · have hperm := hc'.free
      rw [hf, hfree] at hperm
      obtain rfl : c' = c := by
        have hcs : c ∉ cs := by
          have := hw.free_nodup
          rw [hf, List.nodup_cons] at this
          exact this.1
        have hmem : c ∈ c' :: cs := hperm.subset List.mem_cons_self
        exact ((List.mem_cons.mp hmem).resolve_right hcs).symm
      have hready := hc'.ready
      rw [hk'] at hready
      by_contra hprio
      rw [if_neg hprio] at hcount
      exact absurd (hcount.symm.trans hready) (by decide)
    · have hl := congrArg View.free href.lists
      rw [hfree, hf] at hl
      exact absurd hl (List.cons_ne_self c cs).symm
  · intro hprio
    rw [if_pos hprio] at hcount
    refine .inl ⟨c, ?_⟩
    constructor
    case free => rw [hf, hfree]
    case child =>
      rw [hk']
      change c ∈ ((k.lists.popFree.pushChild p c).enqueue c saved.arg2).child p
      rw [View.enqueue_child]
      change c ∈ Function.update k.lists.child p (c :: k.lists.child p) p
      rw [Function.update_self]
      exact List.mem_cons_self
    case parent => rw [hpcb]; rfl
    case state =>
      rw [hpcb]
      change (k.caught saved status pending junk).g.states _ = _
      rw [caught_states]
    case support => rw [hpcb]; rfl
    case ready => rw [hk']; exact hcount
    case procs =>
      rw [hk']
      change (k.caught saved status pending junk).g.procsCount + 1 = _
      rw [caught_procsCount]
    case result => rw [hv0, hpcb]; rfl

/-- Exactly when a CREATEPROCESS succeeds or fails cleanly. -/
theorem Reached.createProcess (h : Reached m) (hp : m.exit.current = some p)
    (hcall : KernelCallOf saved status) (pending : Fin 3 → Bool) (junk : Word)
    (hnum : saved.number = CREATEPROCESS) :
    ∃ m', m.next (.exception saved status pending junk) = some m' ∧
      (CreateClean p saved m.obs m'.obs ↔ m.obs.k.lists.free ≠ [] ∧
        (saved.arg2 = PROCESS_PRIO_LOW ∨ saved.arg2 = PROCESS_PRIO_HIGH)) := by
  have hst := h.good.stable (live_of_current hp)
  have hact : m.obs.k.g.actProc = some p := hst.current.trans hp
  have hact' : (m.obs.k.caught saved status pending junk).g.actProc = some p := by
    rw [caught_actProc, hact]
  have hok : CallOk m.obs.k junk saved := by
    refine ⟨fun hn => ?_, fun hn => ?_, fun hn => ?_⟩ <;> rw [hnum] at hn
    · exact absurd hn (by decide)
    · exact absurd hn (by decide)
    · exact absurd hn (by decide)
  obtain ⟨m', hm', -, he | ⟨r, k1, hs, hf⟩⟩ := h.kernelCall hp hcall pending hok
  · exact (he.not_createProcess hnum).elim
  refine ⟨m', hm', ?_⟩
  rcases hs.of_createProcess hnum with ⟨hfree, rfl, rfl⟩ | ⟨c, cs, hfree, rfl, rfl⟩
  · rw [caught_lists] at hfree
    have hne : m'.obs.exit ≠ .ldst p := by
      cases hf with
      | none hn =>
        exact absurd (hact'.symm.trans hn) (by simp)
      | nothing _ _ _ hd => exact hd.ne_of_loose (hst.loose p hact)
    exact ⟨fun hc => absurd hc.goesOn hne, fun hc => absurd hfree hc.1⟩
  · rw [caught_lists] at hfree
    obtain ⟨he, hk'⟩ := hf.of_continue hact'
    have hiff := created_iff hst.wf hfree (hst.loose p hact) hst.yielded hk'
    refine ⟨fun hc => ⟨by rw [hfree]; simp, hiff.mp hc.clean⟩, fun hc => ⟨he, hiff.mpr hc.2⟩⟩

/-- A CREATEPROCESS makes one process or refuses without a trace, and the caller goes on, if and
    only if a PCB is free and the priority is one of the two. -/
theorem createProcess_clean_iff {g : Globals} (hg : PowerOn g)
    {tr : List (Mach Heap × Event × Mach Heap)} {m : Mach Heap} (h : Execution g tr m) {p : PcbId}
    (hp : m.exit.current = some p) {saved : ProcState} {status junk : Word}
    {pending : Fin 3 → Bool} (hcall : KernelCallOf saved status)
    (hnum : saved.number = CREATEPROCESS) :
    ∃ m', m.next (.exception saved status pending junk) = some m' ∧
      (CreateClean p saved m.obs m'.obs ↔ m.obs.k.lists.free ≠ [] ∧
        (saved.arg2 = PROCESS_PRIO_LOW ∨ saved.arg2 = PROCESS_PRIO_HIGH)) :=
  (Execution.reached hg h).createProcess hp hcall pending junk hnum

omit [Layout] in
theorem createProcess_clean_iff_boot :
    letI := sampleLayout
    ∃ m', (boot sampleGlobals : Mach Heap).next
        (.exception (sysState CREATEPROCESS 0 PROCESS_PRIO_HIGH NULL) 0 (fun _ => false) 0) =
          some m' ∧
      (CreateClean 0 (sysState CREATEPROCESS 0 PROCESS_PRIO_HIGH NULL)
        (boot sampleGlobals : Mach Heap).obs m'.obs ↔
          (boot sampleGlobals : Mach Heap).obs.k.lists.free ≠ [] ∧
          (PROCESS_PRIO_HIGH = PROCESS_PRIO_LOW ∨ PROCESS_PRIO_HIGH = PROCESS_PRIO_HIGH)) :=
  letI := sampleLayout
  createProcess_clean_iff sampleGlobals_powerOn .nil (boot_current sampleGlobals_powerOn)
    (sysState_call (by decide) _ _ _) rfl

omit [Layout] in
/-- A priority of 2: the new process is in no queue. -/
theorem createProcess_priority_lost :
    letI := sampleLayout
    ∃ m', (boot sampleGlobals : Mach Heap).next
        (.exception (sysState CREATEPROCESS 0 2 NULL) 0 (fun _ => false) 0) = some m' ∧
      ¬ CreateClean 0 (sysState CREATEPROCESS 0 2 NULL)
        (boot sampleGlobals : Mach Heap).obs m'.obs := by
  let _ := sampleLayout
  have hcall : KernelCallOf (sysState CREATEPROCESS 0 2 NULL) 0 :=
    sysState_call (by decide) _ _ _
  obtain ⟨m', hm', hiff⟩ := (boot_reached sampleGlobals_powerOn).createProcess
    (boot_current sampleGlobals_powerOn) hcall (fun _ => false) 0 rfl
  refine ⟨m', hm', fun hc => ?_⟩
  have hprio := (hiff.mp hc).2
  revert hprio
  decide

end Rocm
