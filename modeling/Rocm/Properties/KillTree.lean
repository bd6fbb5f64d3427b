import Rocm.Properties.Links
import Rocm.Refine.Keeps

/-!
# Killing a process kills exactly its subtree

From any state of the links in which the representation invariant holds,
`kill_parent_and_progeny` ends, and `Killed` says everything it has done.
-/

namespace Rocm

open Ring Prog ProcTable Runs

/-! ## What a kill leaves alone -/

/-- The keys of the semaphore descriptors. -/
def Kernel.keys (k : Kernel Heap) : SemdId → Word := k.lists.sKey

theorem killProc_keys (p : PcbId) : Keeps Kernel.keys (killProc p : KM Heap PUnit) :=
  .bind (.modifyG fun _ => rfl) fun _ =>
    .bind (.leaveParent (fun _ _ _ => rfl) (fun _ _ => rfl) p) fun _ =>
    .bind (.leaveSemaphore (fun _ _ _ => rfl) (fun _ _ => rfl) (fun _ _ => rfl) p fun _ => rfl)
      fun _ => .bind (.leaveReady (fun _ _ => rfl) p) fun _ =>
    .freePcb (fun _ _ _ => rfl) (fun _ _ => rfl) p

theorem killParentAndProgeny_keys (fuel : Nat) :
    ∀ p, Keeps Kernel.keys (killParentAndProgeny fuel p : KM Heap PUnit) := by
  induction fuel with
  | zero => exact fun _ => .throw _
  | succ fuel ih =>
    intro p
    refine .bind (.removeChild (fun _ _ _ => rfl) (fun _ _ => rfl) p) fun c => ?_
    cases c with
    | none => exact killProc_keys p
    | some c => exact .bind (ih c) fun _ => ih p

/-- The lists of semaphore descriptors. -/
def Kernel.semds (k : Kernel Heap) : Links (Node SHead SemdId) := k.lists.semds

/-- A program that keeps the lists of descriptors makes none active. -/
theorem Keeps.within {α : Type} {A : List SemdId} {m : KM Heap α} {m' : KM Lists α}
    (h : Keeps Kernel.semds m) (hm : Corres Sim isMisuse m m') :
    Corres (SimWithin A) isMisuse m m' := fun k l hs => by
  have hm := hm k l hs.toSim
  have h := h k
  have hact : ∀ {k' : Kernel Heap}, k'.lists.semds = k.lists.semds → ∀ t ∈ k'.lists.active, t ∈ A := by
    intro k' he t ht
    rw [Heap.active, he] at ht
    exact hs.active t ht
  split at hm
  · obtain ⟨k', hk, hs'⟩ := hm
    unfold wp at h
    rw [hk] at h
    exact ⟨k', hk, hs', hact h⟩
  · rcases hm with hbad | ⟨k', hk, hs'⟩
    · exact .inl hbad
    · unfold wp at h
      rw [hk] at h
      exact .inr ⟨k', hk, hs', hact h⟩

instance (A : List SemdId) : KillRel (SimWithin A) where
  globals h := h.globals
  mapG h f := ⟨h.toSim.mapG f, h.active⟩
  freePcb p := (Keeps.freePcb (fun _ _ _ => rfl) (fun _ _ => rfl) p).within (corres_freePcb p)
  outProcQ q p := (Keeps.outProcQ (fun _ _ => rfl) _ p).within (corres_outProcQ q p)
  removeChild p := (Keeps.removeChild (fun _ _ _ => rfl) (fun _ _ => rfl) p).within (corres_removeChild p)
  outChild p := (Keeps.outChild (fun _ _ _ => rfl) (fun _ _ => rfl) p).within (corres_outChild p)
  outBlocked p := corres_outBlocked_within A p

/-! ## The subtree -/

/-- The state `k'` after the death of `p` and its descendants, which are those of `S`. -/
structure Killed (k k' : Kernel Heap) (p : PcbId) (S : List PcbId) : Prop where
  subtree : (view k.lists).Subtree p S
  links : k'.lists.Intact
  free : Heap.elems k'.lists.procs .pcbFreeH = S ++ Heap.elems k.lists.procs .pcbFreeH
  nodup : (Heap.elems k'.lists.procs .pcbFreeH).Nodup
  ready : ∀ q : Queue, Heap.elems k'.lists.procs q.head =
    (Heap.elems k.lists.procs q.head).filter (· ∉ S)
  waiters : ∀ t ∈ k.lists.active, t ∈ k'.lists.active ∧
      k'.lists.queue t = (k.lists.queue t).filter (· ∉ S) ∨
    t ∈ k'.lists.idle ∧ (k.lists.queue t).filter (· ∉ S) = []
  active : ∀ t ∈ k'.lists.active, t ∈ k.lists.active
  keys : k'.lists.sKey = k.lists.sKey
  child : ∀ q ∉ S, Heap.elems k'.lists.tree q = (Heap.elems k.lists.tree q).erase p
  parent : ∀ r ∉ S, k'.g.pcb r = k.g.pcb r
  procs : k'.g.procsCount = k.g.procsCount - BitVec.ofNat 32 S.length
  sb : k'.g.sbProcs =
    k.g.sbProcs - BitVec.ofNat 32 (S.countP fun r => (k.g.pcb r).pSemAdd ≠ NULL)
  vars : k'.g = { k.g with
    pcb := k'.g.pcb, procsCount := k'.g.procsCount, sbProcs := k'.g.sbProcs }

/-- The representation invariant: the links represent lists, the tags agree with them and the
    processes form a forest. -/
structure LinksInv (k : Kernel Heap) : Prop where
  rep : ∃ a, Rep k.lists a
  tags : KTags k.abs

theorem LinksInv.sim {k : Kernel Heap} (h : LinksInv k) : ∃ l : Kernel Lists, Sim k l :=
  h.rep.elim fun a ha => ⟨⟨a, k.g⟩, ha, rfl⟩

theorem Killed.of_sim {k k' : Kernel Heap} {l l' : Kernel Lists} {p : PcbId} {S : List PcbId}
    (hs : Sim k l) (hs' : Sim k' l') (hS : l.lists.view.Subtree p S) (hl : l'.abs = l.abs.kill S) (hkeys : k'.lists.sKey = k.lists.sKey)
    (hactive : ∀ t ∈ k'.lists.active, t ∈ k.lists.active) :
    Killed k k' p S := by
  have hv : view k.lists = l.lists.view := congrArg Kernel.lists hs.abs
  have habs : k'.abs = k.abs.kill S := by rw [hs'.abs, hl, hs.abs]
  have hview : view k'.lists = (view k.lists).remove S := congrArg Kernel.lists habs
  have hg : k'.g = k.g.kill S := congrArg Kernel.g habs
  have hw := l.lists.view_wf
  have hlinks := hs'.rep.intact
  obtain ⟨-, -, hqueue, hasl⟩ := hs.rep.elems
  obtain ⟨-, -, hqueue', hasl'⟩ := hs'.rep.elems
  have hblocked : ∀ s, l'.lists.asl.get s = (l.lists.asl.get s).filter (· ∉ S) := fun s =>
    congrFun (congrArg View.blocked (congrArg Kernel.lists hl)) s
  have hchild : (view k'.lists).child = fun q =>
      if q ∈ S then [] else ((view k.lists).child q).filter (· ∉ S) := congrArg View.child hview
  constructor
  case subtree => rw [hv]; exact hS
  case links => exact hlinks
  case free => exact congrArg View.free hview
  case nodup =>
    rw [hs'.rep.elems.1]
    exact l'.lists.view_wf.free_nodup
  case ready => exact fun q => congrFun (congrArg View.ready hview) q
  case waiters =>
    intro t ht
    rcases List.mem_append.mp (hasl'.perm.symm.subset (List.mem_finRange t)) with ht' | ht'
    · exact .inl ⟨ht', by rw [hqueue' t ht', hqueue t ht, hblocked, hkeys]⟩
    · refine .inr ⟨ht', by_contra fun hne => ?_⟩
      rw [hqueue t ht, ← hblocked, l'.lists.asl.get_eq_nil_iff, not_not, ← hasl'.keys] at hne
      obtain ⟨t', hact, hkey⟩ := List.mem_map.mp hne
      rw [hkeys] at hkey
      have e := hasl.key_inj (hactive t' hact) ht hkey
      exact (List.nodup_append.mp hasl'.nodup).2.2 t' hact t (e ▸ ht') e
  case active => exact hactive
  case keys => exact hkeys
  case child =>
    intro q hq
    change (view k'.lists).child q = ((view k.lists).child q).erase p
    simp only [hchild, if_neg hq]
    rw [hv, (hw.siblings q).erase_eq_filter]
    refine List.filter_congr fun c hc => ?_
    rw [Bool.eq_iff_iff, decide_eq_true_eq, bne_iff_ne]
    constructor
    · rintro hcS rfl
      exact hcS ((hS.mem_iff c).mpr .refl)
    · intro hcp hcS
      rcases Relation.ReflTransGen.cases_tail ((hS.mem_iff c).mp hcS) with e | ⟨a, ha, hac⟩
      · exact hcp e
      · exact hq (hw.parent c a q hac hc ▸ (hS.mem_iff a).mpr ha)
  case parent =>
    intro r hr
    rw [hg]
    exact if_neg hr
  case procs => rw [hg]; rfl
  case sb => rw [hg]; rfl
  case vars => rw [hg]; rfl

/-- A kill of a live process ends, whatever the shape of the tree, and kills exactly the subtree.
    `fuel` need not be more than the number of PCBs. -/
theorem kill_exact {k : Kernel Heap} (h : LinksInv k) {p : PcbId}
    (hp : p ∉ Heap.elems k.lists.procs .pcbFreeH) {fuel : Nat} (hfuel : MAXPROC ≤ fuel) :
    ∃ k' S, killParentAndProgeny fuel p k = .ok ⟨⟩ k' ∧ Killed k k' p S := by
  classical
  obtain ⟨l, hsim⟩ := h.sim
  rw [hsim.rep.elems.1] at hp
  have htags : KTags l.abs := hsim.abs ▸ h.tags
  have hcard : (Finset.univ.filter fun r => l.lists.view.Desc p r).card ≤ fuel :=
    le_trans (Finset.card_le_univ _) (by rw [Fintype.card_fin]; exact hfuel)
  obtain ⟨_, k', l', hk, ⟨hsim', hact⟩, S, hS, hl⟩ :=
    (same_killParentAndProgeny (R := SimWithin k.lists.active) fuel p).returns
      ⟨hsim, fun _ => id⟩ (killParentAndProgeny_spec fuel htags hp hcard)
  have hkeys := killParentAndProgeny_keys fuel p k
  unfold wp at hkeys
  rw [hk] at hkeys
  exact ⟨k', S, hk, .of_sim hsim hsim' hS hl hkeys hact⟩

theorem Reached.linksInv [Layout] {m : Mach Heap} (h : Reached m) (hl : m.exit.live) :
    LinksInv m.k := by
  obtain ⟨hgood, l, hsim⟩ := h
  exact ⟨⟨_, hsim.sim.rep⟩, (hgood.stable hl).inv.toKTags⟩

/-- The first child makes three children, of which two block, and its parent makes one more that
    blocks behind one of them. -/
def familyEvents : List Event :=
  [createLowEvent, sliceEvent, createLowEvent, createLowEvent, createLowEvent, sliceEvent,
    createLowEvent, sliceEvent, sysEvent PASSEREN 0x20030004 0 0, sysEvent PASSEREN 0x20030000 0 0,
    sliceEvent, sliceEvent, sysEvent PASSEREN 0x20030000 0 0]

/-- The first child is killed with its children: two ready ones, one alone in a semaphore queue and
    one in front of the survivor. -/
theorem kill_exact_family :
    letI := sampleLayout
    ∃ tr, ∃ m : Mach Heap, Execution sampleGlobals tr m ∧ m.exit = .ldst 0 ∧
      Heap.elems m.k.lists.procs .lQueue = [4, 1] ∧
      m.k.lists.active.map m.k.lists.queue = [[3, 5], [2]] ∧
      ∃ k', killParentAndProgeny killFuel 1 m.k = .ok ⟨⟩ k' ∧ Killed m.k k' 1 [1, 2, 3, 4] := by
  let _ := sampleLayout
  obtain ⟨tr, m, htr, hP⟩ := Mach.exists_run_of_play Contract (boot sampleGlobals) familyEvents
    (P := fun _ m => decide (m.exit = .ldst 0 ∧ Heap.elems m.k.lists.procs .lQueue = [4, 1] ∧
      m.k.lists.active.map m.k.lists.queue = [[3, 5], [2]] ∧
      1 ∉ Heap.elems m.k.lists.procs .pcbFreeH) &&
      match killParentAndProgeny killFuel 1 m.k with
      | .ok _ k => decide (Heap.elems k.lists.procs .pcbFreeH =
          [1, 2, 3, 4] ++ Heap.elems m.k.lists.procs .pcbFreeH)
      | .error _ _ => false) (by decide +kernel)
  obtain ⟨hm, hP⟩ := Bool.and_eq_true_iff.mp hP
  obtain ⟨he, hready, hqueues, halive⟩ := of_decide_eq_true hm
  have hinv := (Execution.reached sampleGlobals_powerOn htr).linksInv (by rw [he]; rfl)
  have hfuel : MAXPROC ≤ killFuel := by decide
  obtain ⟨k', S, hk, hkilled⟩ := kill_exact hinv halive hfuel
  rw [hk] at hP
  obtain rfl : S = [1, 2, 3, 4] :=
    List.append_cancel_right (hkilled.free.symm.trans (of_decide_eq_true hP))
  exact ⟨tr, m, htr, he, hready, hqueues, k', hk, hkilled⟩

end Rocm
