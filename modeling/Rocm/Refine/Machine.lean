import Rocm.Proofs.Boot
import Rocm.Refine.Rep

/-!
# The machine that runs the program

Boot on links and boot on the abstract lists end in related machines, and a step of the one is
a step of the other. So every run of the program that keeps the contract is a run of the
specification.
-/

namespace Rocm

open Ring Prog ProcTable Runs

/-! ## The view -/

theorem Sim.abs {k : Kernel Heap} {k' : Kernel Lists} (h : Sim k k') : k.abs = k'.abs := by
  obtain ⟨⟨⟨act, idle, hasl, -⟩, T, hT⟩, hg⟩ := h
  refine congrArg₂ Kernel.mk (View.ext ?_ (funext fun q => ?_) ?_ (funext fun p => ?_)) hg
  · exact hasl.elems_procs (h := .pcbFreeH) rfl
  · exact hasl.elems_procs (listQ_head k'.lists q)
  · exact hasl.blocked
  · change Heap.elems k.lists.tree p = k'.lists.child p
    cases hp : T p with
    | none =>
      have hnext := (hT.uninit p hp).2
      rw [(k'.lists.leaf p (hT.uninit p hp).1).1, Heap.elems, hnext]
      rfl
    | some cs =>
      rw [← hT.child p cs hp]
      exact Heap.elems_eq (hT.family.ring hp) (Heap.length_lt_walkFuel
        ((hT.child p cs hp).symm ▸ k'.lists.siblings p))

/-- The links after `init_pcbs` and `init_asl`, before the ready queues are initialised. -/
theorem mkEmptyQueues_rep {d : Heap} {idle : List SemdId}
    (hasl : AslRep d (fun h => if h = .pcbFreeH then some (List.finRange MAXPROC) else none) .empty
      [] idle) (htree : d.tree = Heap.uninit.tree) :
    Rep { d with procs := selfLink (.head .hQueue) (selfLink (.head .lQueue) d.procs) }
      Lists.allFree := by
  have hf := (hasl.procs.init .lQueue).init .hQueue
  have hQ : Function.update (Function.update (aslQ (fun h => if h = .pcbFreeH then
      some (List.finRange MAXPROC) else none) d.sKey .empty []) .lQueue (some [])) .hQueue
      (some []) = aslQ (listQ Lists.allFree) d.sKey .empty [] := by
    funext h; cases h <;> rfl
  rw [hQ] at hf
  refine ⟨⟨[], idle, hasl.setProcs hf, fun p hp => ?_⟩, fun _ => none, ?_, by simp, fun p _ => ?_⟩
  · exact absurd (List.mem_finRange p) (hp .pcbFreeH _ rfl)
  · exact ⟨fun h => by simp at h, fun h => by simp at h⟩
  · refine ⟨List.mem_finRange p, ?_⟩
    change d.tree.next (.head p) = none
    rw [htree]
    rfl

/-! ## Runs of the nucleus -/

theorem runTo_bind {D : Type} {m : KM D PUnit} {f : PUnit → KM D PUnit} {k k' : Kernel D}
    (h : m k = .ok ⟨⟩ k') : runTo (m >>= f) k = runTo (f ⟨⟩) k' := by
  have hb : (m >>= f) k = f ⟨⟩ k' := by
    change EStateM.bind m f k = _
    simp only [EStateM.bind, h]
  rw [runTo, hb, runTo]

section Rel

variable {D D' : Type} [ProcTable D] [ProcTable D'] {R : Kernel D → Kernel D' → Prop}

/-- Two machines have left by the same exit in related states. -/
structure MRel (R : Kernel D → Kernel D' → Prop) (m : Mach D) (l : Mach D') : Prop where
  exit : m.exit = l.exit
  sim : R m.k l.k

omit [ProcTable D] [ProcTable D'] in
theorem runTo_sim {m : KM D PUnit} {m' : KM D' PUnit} (h : Same R m m') {k : Kernel D}
    {k' : Kernel D'} (hs : R k k') (hex : (runTo m' k').exit ≠ .misuse) :
    MRel R (runTo m k) (runTo m' k') := by
  have h := h k k' hs
  unfold runTo at hex ⊢
  cases hm : m' k' with
  | ok a t =>
    rw [hm] at h
    obtain ⟨s, hs, hR⟩ := h
    rw [hs]
    exact ⟨rfl, hR⟩
  | error e t =>
    rw [hm] at h hex
    rcases h with hbad | ⟨s, hs, hR⟩
    · exact absurd hbad hex
    · rw [hs]
      exact ⟨rfl, hR⟩

variable [Layout]

theorem Good.not_misuse {o : Obs} (h : Good o) : o.exit ≠ .misuse := fun he => by
  have := h.proper
  rw [he] at this
  cases this

/-- A step of the second machine that does not give up is one of the first. -/
theorem MRel.next [TableRel R] {m : Mach D} {l l' : Mach D'} {ev : Event} (h : MRel R m l)
    (hgood : Good l'.obs) (hn : l.next ev = some l') : ∃ m', m.next ev = some m' ∧ MRel R m' l' := by
  have hex : l'.exit ≠ .misuse := hgood.not_misuse
  have hmapG := fun f => KillRel.mapG h.sim f
  cases ev with
  | exception saved status pending junk =>
    simp only [Mach.next, Option.ite_none_right_eq_some, Option.some.injEq] at hn ⊢
    obtain ⟨hcan, rfl⟩ := hn
    exact ⟨_, ⟨h.exit ▸ hcan, rfl⟩, runTo_sim same_exceptionHandler
      (hmapG (·.enter saved status pending junk)) hex⟩
  | resume =>
    simp only [Mach.next, Option.ite_none_right_eq_some, Option.some.injEq] at hn ⊢
    obtain ⟨he, rfl⟩ := hn
    exact ⟨_, ⟨h.exit.trans he, rfl⟩, runTo_sim same_schedulerNext h.sim hex⟩
  | complete d status =>
    simp only [Mach.next, Option.ite_none_right_eq_some, Option.some.injEq] at hn ⊢
    obtain ⟨he, rfl⟩ := hn
    exact ⟨_, ⟨h.exit ▸ he, rfl⟩, h.exit, hmapG fun g =>
      { g with dev := Function.update g.dev d ((g.dev d).complete status) }⟩
  | store a v =>
    simp only [Mach.next, Option.ite_none_right_eq_some, Option.some.injEq] at hn ⊢
    obtain ⟨⟨he, ha⟩, rfl⟩ := hn
    exact ⟨_, ⟨⟨h.exit ▸ he, ha⟩, rfl⟩, h.exit, hmapG (·.setInt a v)⟩
  | storeState a s =>
    simp only [Mach.next, Option.ite_none_right_eq_some, Option.some.injEq] at hn ⊢
    obtain ⟨he, rfl⟩ := hn
    exact ⟨_, ⟨h.exit ▸ he, rfl⟩, h.exit, hmapG fun g =>
      { g with states := Function.update g.states a s }⟩
  | storeSupport a s =>
    simp only [Mach.next, Option.ite_none_right_eq_some, Option.some.injEq] at hn ⊢
    obtain ⟨he, rfl⟩ := hn
    exact ⟨_, ⟨h.exit ▸ he, rfl⟩, h.exit, hmapG fun g =>
      { g with supports := Function.update g.supports a s }⟩
  | addressError saved status pending junk =>
    simp only [Mach.next, Option.ite_none_right_eq_some, Option.some.injEq] at hn ⊢
    obtain ⟨⟨he, herr⟩, rfl⟩ := hn
    exact ⟨_, ⟨⟨h.exit.trans he, herr⟩, rfl⟩, runTo_sim same_exceptionHandler
      (hmapG (·.enter saved status pending junk)) hex⟩

/-- Every event that is possible for the first machine is possible for the second. -/
theorem MRel.enabled {m m' : Mach D} {l : Mach D'} {ev : Event} (h : MRel R m l)
    (hn : m.next ev = some m') : ∃ l', l.next ev = some l' := by
  have he := h.exit
  cases ev <;> simp only [Mach.next, Option.ite_none_right_eq_some, Option.some.injEq] at hn ⊢ <;>
    rw [← he] <;> exact ⟨_, hn.1, rfl⟩

end Rel

variable [Layout]

/-! ## Boot -/

/-- The variables after `init_data_structures`. -/
def Globals.initial (g : Globals) : Globals :=
  let g := { g with
    pcb := fun p => { g.pcb p with pSemAdd := NULL }, procsCount := 0, sbProcs := 0,
    actProc := none }
  { (SubDev.all.map KernelSem.dev).foldl
      (fun g s => g.setInt (Layout.toAddresses.semAddr s) 0)
      (g.setInt (Layout.toAddresses.semAddr .it) 0) with yieldedProc := none }

theorem Lists.initDataStructures_eq (g : Globals) :
    wp (initDataStructures : KM Lists PUnit) (fun _ l => l = ⟨Lists.allFree, g.initial⟩) noExit
      ⟨uninit, g⟩ := by
  simp only [initDataStructures, initScheduler, initDevSem, wp_bind, wp_modifyG, Lists.wp_initPcbs,
    Lists.wp_initAsl, Lists.wp_mkEmptyProcQ]
  rfl

-- The loops over the tables are never evaluated.
attribute [local irreducible] Heap.initPcbs Heap.initAsl

theorem Heap.initDataStructures_spec (g : Globals) :
    wp (initDataStructures : KM Heap PUnit) (fun _ k => Sim k ⟨Lists.allFree, g.initial⟩) noExit
      ⟨ProcTable.uninit, g⟩ := by
  unfold initDataStructures
  rw [show (ProcTable.initPcbs : KM Heap PUnit) = Heap.initPcbs from rfl,
    show (ProcTable.initAsl : KM Heap PUnit) = Heap.initAsl from rfl]
  refine wp_seq (Heap.initPcbs_spec _) ?_
  rintro - k1 ⟨hg1, htree1, hf1⟩
  have hbase : aslQ (fun h => if h = PHead.pcbFreeH then some (List.finRange MAXPROC) else none)
      k1.lists.sKey .empty [] =
      fun h => if h = .pcbFreeH then some (List.finRange MAXPROC) else none := by
    funext h; cases h <;> rfl
  refine wp_seq (Heap.initAsl_spec (by rw [hbase]; exact hf1)) ?_
  rintro - k2 ⟨hg2, htree2, hasl⟩
  unfold initScheduler initDevSem
  simp only [wp_bind, wp_modifyG]
  rw [show (ProcTable.mkEmptyProcQ .low : KM Heap PUnit) = Heap.mkEmptyProcQ .lQueue from rfl,
    show (ProcTable.mkEmptyProcQ .high : KM Heap PUnit) = Heap.mkEmptyProcQ .hQueue from rfl,
    Heap.wp_mkEmptyProcQ, Heap.wp_mkEmptyProcQ]
  refine ⟨mkEmptyQueues_rep hasl (htree2.trans htree1), ?_⟩
  simp only [Heap.setProcs_g, hg2, hg1]
  rfl

/-- A process table that is described by the abstract lists. -/
class Refines {D : Type} [ProcTable D] (R : Kernel D → Kernel Lists → Prop) : Prop extends
    TableRel R where
  abs : ∀ {k l}, R k l → k.abs = l.abs
  init : ∀ g, wp (initDataStructures : KM D PUnit) (fun _ k => R k ⟨Lists.allFree, g.initial⟩)
    noExit ⟨ProcTable.uninit, g⟩

instance : Refines Sim where
  abs := Sim.abs
  init := Heap.initDataStructures_spec

section Refines

variable {D : Type} [ProcTable D] {R : Kernel D → Kernel Lists → Prop} [Refines R]

theorem MRel.obs {m : Mach D} {l : Mach Lists} (h : MRel R m l) : m.obs = l.obs :=
  congrArg₂ Mach.mk (Refines.abs h.sim) h.exit

theorem boot_rel {g : Globals} (h : PowerOn g) : MRel R (boot g) (boot g) := by
  have hex : (boot g : Mach Lists).exit ≠ .misuse := (boot_good h).not_misuse
  rcases wp_elim (Lists.initDataStructures_eq g) with ⟨_, l, hl, rfl⟩ | ⟨_, _, _, hf⟩
  · rcases wp_elim (Refines.init (R := R) g) with ⟨_, k, hk, hs⟩ | ⟨_, _, _, hf⟩
    · rw [boot, main, runTo_bind hl] at hex
      rw [boot, main, runTo_bind hk, boot, main, runTo_bind hl]
      exact runTo_sim (.bind (same_LDIT _) fun _ => .bind (same_modifyG _) fun _ =>
        .bind (same_createInitProc _) fun _ => .bind same_schedulerNext fun _ => .throw _) hs hex
    · exact hf.elim
  · exact hf.elim

/-! ## Runs -/

/-- What holds of the machine in every state of a run that keeps the contract. -/
structure Refined (R : Kernel D → Kernel Lists → Prop) (m : Mach D) : Prop where
  good : Good m.obs
  sim : ∃ l : Mach Lists, MRel R m l

theorem boot_refined {g : Globals} (h : PowerOn g) : Refined R (boot g) :=
  ⟨(boot_rel h : MRel R _ _).obs ▸ boot_good h, boot g, boot_rel h⟩

/-- A step that keeps the contract is one the specification allows. -/
theorem Refined.next {m m' : Mach D} {ev : Event} (h : Refined R m) (hs : Step Contract m ev m') :
    Next m.obs ev m'.obs ∧ Refined R m' := by
  obtain ⟨hn, hc⟩ := hs
  obtain ⟨hgood, l, hsim⟩ := h
  obtain ⟨l', hl⟩ := hsim.enabled hn
  rw [hsim.obs] at hc hgood
  have hnext := next_spec hgood hc hl
  have hgood' := hnext.good hgood hc
  obtain ⟨m'', hm, hsim'⟩ := hsim.next hgood' hl
  have he : m'' = m' := Option.some.inj (hm.symm.trans hn)
  subst he
  exact ⟨by rwa [hsim.obs, hsim'.obs], by rwa [hsim'.obs], l', hsim'⟩

theorem Run.refined {g : Globals} (hg : PowerOn g) {tr : List (Mach D × Event × Mach D)}
    {m : Mach D} (h : Run (Step Contract) (boot g) tr m) : Refined R m :=
  h.invariant (boot_refined hg) fun ha hs => (ha.next hs).2

end Refines

/-! ## The program on links -/

abbrev MSim : Mach Heap → Mach Lists → Prop := MRel Sim

theorem boot_sim {g : Globals} (h : PowerOn g) : MSim (boot g) (boot g) := boot_rel h

abbrev Reached : Mach Heap → Prop := Refined Sim

theorem boot_reached {g : Globals} (h : PowerOn g) : Reached (boot g) := boot_refined h

/-- A step that keeps the contract is one the specification allows. -/
theorem Reached.next {m m' : Mach Heap} {ev : Event} (h : Reached m) (hs : Step Contract m ev m') :
    Next m.obs ev m'.obs ∧ Reached m' := Refined.next h hs

/-- The machine runs from boot, and the processes keep the contract. -/
abbrev Execution (g : Globals) := Run (Step Contract) (boot g : Mach Heap)

theorem Execution.reached {g : Globals} (hg : PowerOn g) {tr : List (Mach Heap × Event × Mach Heap)}
    {m : Mach Heap} (h : Execution g tr m) : Reached m := Run.refined hg h

/-- A run whose syscalls are `CallOk` keeps the contract as long as no DOIO with a misaligned address
    blocks. -/
theorem execution_of_aligned {g : Globals} (hg : PowerOn g)
    {tr : List (Mach Heap × Event × Mach Heap)} {m : Mach Heap}
    (h : Run (Step SyscallsOk) (boot g) tr m) (ha : ∀ x ∈ tr, DoioAligned x.1.obs x.2.1) :
    Execution g tr m := by
  suffices hfault : Execution g tr m ∧ (m.exit = .fault → Unblocked m.obs.k) from hfault.1
  induction h with
  | nil =>
    obtain ⟨k, -, -, hd⟩ := boot_dispatch hg
    exact ⟨.nil, fun he => absurd ((boot_sim hg).exit.symm.trans he) hd.ne_fault⟩
  | @snoc tr m ev m' _ hs ih =>
    simp only [List.mem_append, List.mem_singleton, or_imp, forall_and, forall_eq] at ha
    obtain ⟨hrun, hu⟩ := ih ha.1
    have hr := Execution.reached hg hrun
    have hc : Contract m.obs ev := by
      cases ev with
      | addressError =>
        obtain ⟨⟨he, -⟩, -⟩ := Option.ite_none_right_eq_some.mp hs.1
        exact hu he
      | exception => exact hs.2
      | _ => trivial
    have hn := (hr.next ⟨hs.1, hc⟩).1
    exact ⟨hrun.snoc ⟨hs.1, hc⟩, hn.unblocked hr.good hc ha.2⟩

end Rocm
