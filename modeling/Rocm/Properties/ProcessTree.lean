import Rocm.Lib.Forest
import Rocm.Properties.Sample

/-!
# The process tree

Any sequence of calls of the functions of `pcb.c` on the process tree, where a PCB is inserted only
while it has no parent and is not above its new parent, keeps the links a forest. `live` are the
PCBs whose list of children has been initialised by `alloc_pcb`.
-/

namespace Rocm

open Ring Prog Runs Forest

/-- A call of a function of `pcb.c` on the tree. -/
inductive TreeOp where
  | empty (q : PcbId)
  | insert (q p : PcbId)
  | remove (q : PcbId)
  | out (p : PcbId)

/-- What a call returns. -/
inductive TreeReply where
  | done
  | bool (b : Bool)
  | pcb (p : Option PcbId)

/-- The function that is called. -/
def TreeOp.call : TreeOp → KM Heap TreeReply
  | .empty q => .bool <$> Heap.emptyChild q
  | .insert q p => do Heap.insertChild q p; return .done
  | .remove q => .pcb <$> Heap.removeChild q
  | .out p => .pcb <$> Heap.outChild p

/-- The children of a PCB, as a walk along the links meets them. -/
def kids (live : Finset PcbId) (d : Heap) (q : PcbId) : List PcbId :=
  if q ∈ live then Heap.elems d.tree q else []

/-- `p_parent`. -/
def parents (g : Globals) (p : PcbId) : Option PcbId := (g.pcb p).pParent

/-- The PCBs are initialised; one that is inserted has no parent and is not its new parent or above
    it. -/
def TreeOp.Allowed (live : Finset PcbId) (k : Kernel Heap) : TreeOp → Prop
  | .empty q => q ∈ live
  | .insert q p => q ∈ live ∧ parents k.g p = none ∧ ¬ Above (kids live k.lists) p q
  | .remove q => q ∈ live
  | .out _ => True

/-- Only the links of the tree and `p_parent` of `p` have changed. -/
def SetParent (k : Kernel Heap) (p : PcbId) (q : Option PcbId) (k' : Kernel Heap) : Prop :=
  k' = (k.mapG (·.setPcb p fun c => { c with pParent := q })).setTree k'.lists.tree

/-- What a call does to the forest. -/
inductive TreeEffect (live : Finset PcbId) (k : Kernel Heap) :
    TreeOp → TreeReply → Kernel Heap → Prop where
  | empty {q} : TreeEffect live k (.empty q) (.bool (kids live k.lists q).isEmpty) k
  | insert {q p k'} :
      kids live k'.lists = Function.update (kids live k.lists) q (p :: kids live k.lists q) →
      SetParent k p (some q) k' → TreeEffect live k (.insert q p) .done k'
  | leaf {q} : kids live k.lists q = [] → TreeEffect live k (.remove q) (.pcb none) k
  | remove {q p ps k'} : kids live k.lists q = p :: ps →
      kids live k'.lists = Function.update (kids live k.lists) q ps →
      SetParent k p none k' → TreeEffect live k (.remove q) (.pcb (some p)) k'
  | root {p} : parents k.g p = none → TreeEffect live k (.out p) (.pcb none) k
  | out {p q k'} : parents k.g p = some q →
      kids live k'.lists = Function.update (kids live k.lists) q ((kids live k.lists q).erase p) →
      SetParent k p none k' → TreeEffect live k (.out p) (.pcb (some p)) k'

variable {live : Finset PcbId} {k k' : Kernel Heap} {p q : PcbId}

/-! ## The links and the lists of children -/

/-- The lists of children `c` as a family of intrusive lists. -/
def treeFamily (live : Finset PcbId) (c : PcbId → List PcbId) (q : PcbId) : Option (List PcbId) :=
  if q ∈ live then some (c q) else none

theorem treeFamily_of_mem {c : PcbId → List PcbId} (hq : q ∈ live) :
    treeFamily live c q = some (c q) := if_pos hq

theorem treeFamily_update (c : PcbId → List PcbId) (hq : q ∈ live) (cs : List PcbId) :
    Function.update (treeFamily live c) q (some cs) =
      treeFamily live (Function.update c q cs) := by
  funext r
  unfold treeFamily
  rw [Function.update_apply, Function.update_apply]
  by_cases hr : r = q
  · subst hr
    simp [hq]
  · simp [hr]

/-- A walk along the links of a family meets its lists. -/
theorem kids_of_family {d : Heap} {c : PcbId → List PcbId}
    (h : Family d.tree (treeFamily live c)) (hc : ∀ q ∉ live, c q = []) :
    kids live d = c := by
  funext q
  rw [kids]
  split
  · next hq =>
    have hring := h.ring (treeFamily_of_mem hq)
    refine Heap.elems_eq hring (Heap.length_lt_walkFuel ?_)
    exact .of_map _ (List.nodup_cons.mp hring.nodup).2
  · next hq => exact (hc q hq).symm

/-- The links are those of a forest. -/
structure TreeInv (live : Finset PcbId) (k : Kernel Heap) : Prop where
  family : Family k.lists.tree (treeFamily live (kids live k.lists))
  forest : IsForest (kids live k.lists) (parents k.g)

theorem kids_of_not_mem (d : Heap) (hq : q ∉ live) : kids live d q = [] := if_neg hq

/-- A PCB with a parent is a child of an initialised PCB. -/
theorem TreeInv.parent_live (h : TreeInv live k) (hp : parents k.g p = some q) :
    q ∈ live ∧ p ∈ kids live k.lists q := by
  have hm := (h.forest.parent_iff p q).mp hp
  refine ⟨?_, hm⟩
  by_contra hq
  rw [kids_of_not_mem k.lists hq] at hm
  cases hm

theorem parents_setPcb (g : Globals) (p : PcbId) (q : Option PcbId) :
    parents (g.setPcb p fun c => { c with pParent := q }) = Function.update (parents g) p q := by
  funext r
  rw [parents, setPcb_pcb, Function.update_apply]
  split <;> rfl

/-- The effect of a change of the tree and of `p_parent` of `p`. -/
theorem setParent_setTree (o : Option PcbId) (l : Links (Node PcbId PcbId)) :
    SetParent k p o ((k.setTree l).mapG (·.setPcb p fun c => { c with pParent := o })) := rfl

/-- After a change of one list of children. -/
theorem SetParent.change {o : Option PcbId} (hset : SetParent k p o k') (hq : q ∈ live)
    {cs : List PcbId}
    (hfam : Family k'.lists.tree (Function.update (treeFamily live (kids live k.lists)) q (some cs)))
    (hforest : IsForest (Function.update (kids live k.lists) q cs)
      (Function.update (parents k.g) p o)) :
    kids live k'.lists = Function.update (kids live k.lists) q cs ∧ TreeInv live k' := by
  rw [treeFamily_update _ hq] at hfam
  have hkids : kids live k'.lists = Function.update (kids live k.lists) q cs :=
    kids_of_family hfam fun r hr => by
      have hne : r ≠ q := fun e => hr (by rwa [e])
      rw [Function.update_of_ne hne]
      exact kids_of_not_mem _ hr
  refine ⟨hkids, by rwa [hkids], ?_⟩
  have hg : k'.g = k.g.setPcb p fun c => { c with pParent := o } := by
    rw [hset]
    rfl
  rwa [hkids, hg, parents_setPcb]

/-! ## The calls -/

theorem TreeInv.call_insert (h : TreeInv live k) (hop : (TreeOp.insert q p).Allowed live k) :
    wp (TreeOp.insert q p).call
      (fun r k' => TreeEffect live k (.insert q p) r k' ∧ TreeInv live k') noExit k := by
  obtain ⟨hq, hpar, habove⟩ := hop
  have habs : Absent (treeFamily live (kids live k.lists)) p := by
    intro r cs hr hm
    have hroot : p ∉ kids live k.lists r := fun hm => by
      rw [← h.forest.parent_iff p r, hpar] at hm
      cases hm
    unfold treeFamily at hr
    split at hr
    · rw [← Option.some.inj hr] at hm
      exact hroot hm
    · cases hr
  rw [TreeOp.call, wp_bind]
  refine wp_mono (fun _ k' hk' => ?_) (fun _ _ hf => hf)
    (Heap.insertChild_spec h.family (treeFamily_of_mem hq) habs)
  obtain ⟨l, rfl, hto⟩ := hk'
  rw [wp_pure]
  obtain ⟨hkids, hinv⟩ := (setParent_setTree (some q) l).change hq hto.family
    (h.forest.link hpar habove)
  exact ⟨.insert hkids rfl, hinv⟩

theorem TreeInv.call_remove (h : TreeInv live k) (hq : q ∈ live) :
    wp (TreeOp.remove q).call
      (fun r k' => TreeEffect live k (.remove q) r k' ∧ TreeInv live k') noExit k := by
  rw [TreeOp.call, wp_map]
  refine wp_mono (fun r k' hk' => ?_) (fun _ _ hf => hf)
    (Heap.removeChild_spec h.family (treeFamily_of_mem hq))
  obtain ⟨rfl, hnil, hcons⟩ := hk'
  cases hc : kids live k.lists q with
  | nil =>
    rw [hnil hc]
    exact ⟨.leaf hc, h⟩
  | cons p ps =>
    obtain ⟨l, rfl, hto⟩ := hcons p ps hc
    have hpar : parents k.g p = some q := by
      rw [h.forest.parent_iff, hc]
      exact List.mem_cons_self
    have hforest := h.forest.unlink hpar
    rw [hc, List.erase_cons_head] at hforest
    obtain ⟨hkids, hinv⟩ := (setParent_setTree none l).change hq
      hto.family hforest
    exact ⟨.remove hc hkids rfl, hinv⟩

theorem TreeInv.call_out (h : TreeInv live k) (p : PcbId) :
    wp (TreeOp.out p).call
      (fun r k' => TreeEffect live k (.out p) r k' ∧ TreeInv live k') noExit k := by
  rw [TreeOp.call, wp_map]
  cases hpar : parents k.g p with
  | none =>
    have hpar' : (k.g.pcb p).pParent = none := hpar
    simp only [Heap.outChild, wp_bind, wp_getG, hpar', if_true, wp_pure]
    exact ⟨.root hpar, h⟩
  | some q =>
    obtain ⟨hq, hm⟩ := h.parent_live hpar
    refine wp_mono (fun r k' hk' => ?_) (fun _ _ hf => hf)
      (Heap.outChild_spec h.family (treeFamily_of_mem hq) hm ?_)
    · obtain ⟨rfl, l, rfl, hto⟩ := hk'
      obtain ⟨hkids, hinv⟩ := (setParent_setTree none l).change hq
        hto.family (h.forest.unlink hpar)
      exact ⟨.out hpar hkids rfl, hinv⟩
    · change parents k.g p ≠ none
      rw [hpar]
      exact Option.some_ne_none q

/-- Every allowed call returns, has its effect and keeps the invariant. -/
theorem TreeInv.call (h : TreeInv live k) {op : TreeOp} (hop : op.Allowed live k) :
    ∃ r k', op.call k = .ok r k' ∧ TreeEffect live k op r k' ∧ TreeInv live k' := by
  suffices hw : wp op.call (fun r k' => TreeEffect live k op r k' ∧ TreeInv live k') noExit k by
    rcases wp_elim hw with ⟨r, k', hk, hQ⟩ | ⟨_, _, _, hf⟩
    · exact ⟨r, k', hk, hQ⟩
    · exact hf.elim
  cases op with
  | empty q =>
    have hempty := listEmpty_eq (h.family.ring (treeFamily_of_mem hop))
    rw [List.isEmpty_map] at hempty
    rw [TreeOp.call, wp_map, Heap.emptyChild, wp_bind, wp_get, wp_pure, hempty]
    exact ⟨.empty, h⟩
  | insert q p => exact h.call_insert hop
  | remove q => exact h.call_remove hop
  | out p => exact h.call_out p

/-- An allowed call that returns. -/
def TreeStep (live : Finset PcbId) (k : Kernel Heap) (c : TreeOp × TreeReply) (k' : Kernel Heap) :
    Prop :=
  c.1.Allowed live k ∧ c.1.call k = .ok c.2 k'

/-! ## The order of the insertions -/

/-- When a PCB was inserted last, and how many insertions there have been. -/
structure Stamps where
  at_ : PcbId → Nat
  count : Nat

def Stamps.step (s : Stamps) (x : Kernel Heap × (TreeOp × TreeReply) × Kernel Heap) : Stamps :=
  match x.2.1.1 with
  | .insert _ p => ⟨Function.update s.at_ p (s.count + 1), s.count + 1⟩
  | _ => s

/-- The stamps after a run. -/
def stamps (tr : List (Kernel Heap × (TreeOp × TreeReply) × Kernel Heap)) : Stamps :=
  tr.foldl Stamps.step ⟨fun _ => 0, 0⟩

/-- The children stand in the order of their insertions, the latest first. -/
structure Stamps.Sorted (s : Stamps) (child : PcbId → List PcbId) : Prop where
  le : ∀ p, s.at_ p ≤ s.count
  later : ∀ q, (child q).Pairwise fun a b => s.at_ b < s.at_ a

theorem Stamps.Sorted.sublist {s : Stamps} {c c' : PcbId → List PcbId} (h : s.Sorted c)
    (hsub : ∀ q, List.Sublist (c' q) (c q)) : s.Sorted c' :=
  ⟨h.le, fun q => (h.later q).sublist (hsub q)⟩

theorem Stamps.Sorted.insert {s : Stamps} {c : PcbId → List PcbId} (h : s.Sorted c)
    (hp : ∀ r, p ∉ c r) :
    Stamps.Sorted ⟨Function.update s.at_ p (s.count + 1), s.count + 1⟩
      (Function.update c q (p :: c q)) where
  le r := by
    dsimp only
    rw [Function.update_apply]
    split
    · exact Nat.le_refl _
    · exact Nat.le_succ_of_le (h.le r)
  later r := by
    have hne : ∀ {r a}, a ∈ c r → a ≠ p := fun {r a} ha e => hp r (by rwa [e] at ha)
    have hold : ∀ r, (c r).Pairwise fun a b => Function.update s.at_ p (s.count + 1) b <
        Function.update s.at_ p (s.count + 1) a := fun r =>
      (h.later r).imp_of_mem fun {a b} ha hb hlt => by
        rwa [Function.update_of_ne (hne hb), Function.update_of_ne (hne ha)]
    dsimp only
    rw [Function.update_apply (f := c)]
    split
    · refine List.pairwise_cons.mpr ⟨fun b hb => ?_, hold q⟩
      rw [Function.update_self, Function.update_of_ne (hne hb)]
      exact Nat.lt_succ_of_le (h.le b)
    · exact hold r

/-- A call keeps the order. -/
theorem TreeEffect.sorted {op : TreeOp} {r : TreeReply} (he : TreeEffect live k op r k')
    (hop : op.Allowed live k) (h : TreeInv live k) {s : Stamps}
    (hs : s.Sorted (kids live k.lists)) :
    (s.step (k, (op, r), k')).Sorted (kids live k'.lists) := by
  have hsub : ∀ {q cs}, List.Sublist cs (kids live k.lists q) → ∀ r,
      List.Sublist (Function.update (kids live k.lists) q cs r) (kids live k.lists r) := by
    intro q cs hcs r
    rw [Function.update_apply]
    split
    · next e => exact e ▸ hcs
    · exact List.Sublist.refl _
  cases he with
  | empty => exact hs
  | insert hkids =>
    rw [hkids]
    refine hs.insert fun r hm => ?_
    rw [← h.forest.parent_iff, hop.2.1] at hm
    cases hm
  | leaf => exact hs
  | remove hc hkids =>
    rw [hkids]
    exact hs.sublist (hsub (hc ▸ List.sublist_cons_self _ _))
  | root => exact hs
  | out _ hkids =>
    rw [hkids]
    exact hs.sublist (hsub List.erase_sublist)

theorem tree_run {tr : List (Kernel Heap × (TreeOp × TreeReply) × Kernel Heap)}
    (h : TreeInv live k) (hnil : ∀ q, kids live k.lists q = [])
    (hrun : Run (TreeStep live) k tr k') :
    TreeInv live k' ∧ (stamps tr).Sorted (kids live k'.lists) := by
  induction hrun with
  | nil => exact ⟨h, fun _ => Nat.le_refl 0, fun q => by rw [hnil]; exact .nil⟩
  | snoc _ hstep ih =>
    obtain ⟨hinv, hs⟩ := ih
    obtain ⟨r, k1, hk1, heff, hinv1⟩ := hinv.call hstep.1
    cases hstep.2.symm.trans hk1
    refine ⟨hinv1, ?_⟩
    rw [stamps, List.foldl_append]
    exact heff.sorted hstep.1 hinv hs

/-- What the links are after a run `tr` of calls. -/
structure ProcessTree (live : Finset PcbId)
    (tr : List (Kernel Heap × (TreeOp × TreeReply) × Kernel Heap)) (k : Kernel Heap) : Prop where
  /-- The children and the parents are those of a forest. -/
  forest : IsForest (kids live k.lists) (parents k.g)
  /-- The first child is the one that was inserted last. -/
  latest : ∀ q p ps, kids live k.lists q = p :: ps → ∀ c ∈ ps,
    (stamps tr).at_ c < (stamps tr).at_ p
  /-- Every further call returns and has its effect on the forest. -/
  call : ∀ op : TreeOp, op.Allowed live k → ∃ r k', op.call k = .ok r k' ∧ TreeEffect live k op r k'

/-- The links are a forest after any calls, from PCBs that have neither parents nor children. -/
theorem tree_refines_forest {k0 : Kernel Heap} (h0 : Family k0.lists.tree (treeFamily live fun _ => []))
    (hpar : ∀ p, parents k0.g p = none)
    {tr : List (Kernel Heap × (TreeOp × TreeReply) × Kernel Heap)}
    (hrun : Run (TreeStep live) k0 tr k) : ProcessTree live tr k := by
  have hkids : kids live k0.lists = fun _ => [] := kids_of_family h0 fun _ _ => rfl
  have hinv : TreeInv live k0 := by
    refine ⟨by rwa [hkids], ?_⟩
    rw [hkids, show parents k0.g = fun _ => none from funext hpar]
    exact .empty
  obtain ⟨hk, hs⟩ := tree_run hinv (fun q => by rw [hkids]) hrun
  refine ⟨hk.forest, fun q p ps hq c hc => ?_, fun op hop => ?_⟩
  · have hlater := hs.later q
    rw [hq, List.pairwise_cons] at hlater
    exact hlater.1 c hc
  · obtain ⟨r, k', hcall, heff, -⟩ := hk.call hop
    exact ⟨r, k', hcall, heff⟩

/-- PCBs that `alloc_pcb` has initialised. -/
def allocated (ps : List PcbId) : Kernel Heap :=
  ⟨{ Heap.uninit with tree := ps.foldr (fun p l => selfLink (.head p) l) Heap.uninit.tree },
    sampleGlobals⟩

theorem allocated_family (ps : List PcbId) :
    Family (allocated ps).lists.tree (treeFamily ps.toFinset fun _ => []) := by
  induction ps with
  | nil => exact ⟨fun hQ => by simp [treeFamily] at hQ, fun hQ => by simp [treeFamily] at hQ⟩
  | cons p ps ih =>
    have hmap : treeFamily (p :: ps).toFinset (fun _ => []) =
        Function.update (treeFamily ps.toFinset fun _ => []) p (some []) := by
      funext q
      rw [Function.update_apply]
      by_cases hq : q = p <;> simp [treeFamily, hq]
    rw [hmap]
    exact ih.init p

/-- A PCB without parent and children becomes a child. -/
theorem TreeInv.exists_insert (h : TreeInv live k) {c : PcbId → List PcbId}
    (hc : kids live k.lists = c) (q p : PcbId) (hq : q ∈ live) (hroot : ∀ r, p ∉ c r)
    (hleaf : c p = []) (hne : p ≠ q) : ∃ k', TreeStep live k (.insert q p, .done) k' ∧
      TreeInv live k' ∧ kids live k'.lists = Function.update c q (p :: c q) := by
  have hpar : parents k.g p = none := by
    by_contra hsome
    obtain ⟨r, hr⟩ := Option.ne_none_iff_exists'.mp hsome
    exact hroot r (hc ▸ (h.forest.parent_iff p r).mp hr)
  have habove : ¬ Above (kids live k.lists) p q := fun habove => by
    rcases Relation.ReflTransGen.cases_head habove with he | ⟨r, hr, -⟩
    · exact hne he
    · have hr : r ∈ kids live k.lists p := hr
      rw [hc, hleaf] at hr
      cases hr
  have hop : (TreeOp.insert q p).Allowed live k := ⟨hq, hpar, habove⟩
  obtain ⟨r, k', hcall, heff, hinv⟩ := h.call hop
  cases heff with
  | insert hk => exact ⟨k', ⟨hop, hcall⟩, hinv, hc ▸ hk⟩

/-- A PCB gets three children, one of which has a child of its own; `out_child` takes out the one in
    the middle. -/
theorem tree_refines_forest_middle : let live := [0, 1, 2, 3, 4].toFinset
    ∃ tr k k', Run (TreeStep live) (allocated [0, 1, 2, 3, 4]) tr k ∧
      kids live k.lists 0 = [4, 2, 1] ∧ kids live k.lists 2 = [3] ∧
      (TreeOp.out 2).call k = .ok (.pcb (some 2)) k' ∧
      kids live k'.lists 0 = [4, 1] ∧ kids live k'.lists 2 = [3] ∧
      ProcessTree live (tr ++ [(k, (.out 2, .pcb (some 2)), k')]) k' := by
  intro live
  have hfam : Family _ (treeFamily live fun _ => []) := allocated_family [0, 1, 2, 3, 4]
  have hkids : kids live (allocated [0, 1, 2, 3, 4]).lists = fun _ => [] :=
    kids_of_family hfam fun _ _ => rfl
  have hinv : TreeInv live (allocated [0, 1, 2, 3, 4]) := ⟨by rwa [hkids], by
    rw [hkids]
    exact .empty⟩
  obtain ⟨k1, h1, hinv1, hk1⟩ := hinv.exists_insert hkids 0 1 (by decide) (by decide) rfl (by decide)
  obtain ⟨k2, h2, hinv2, hk2⟩ := hinv1.exists_insert hk1 0 2 (by decide) (by decide) rfl (by decide)
  obtain ⟨k3, h3, hinv3, hk3⟩ := hinv2.exists_insert hk2 2 3 (by decide) (by decide) rfl (by decide)
  obtain ⟨k4, h4, -, hk4⟩ := hinv3.exists_insert hk3 0 4 (by decide) (by decide) rfl (by decide)
  have hrun := (((Run.nil.snoc h1).snoc h2).snoc h3).snoc h4
  have hop : (TreeOp.out 2).Allowed live k4 := trivial
  obtain ⟨r, k', hcall, heff⟩ := (tree_refines_forest hfam (fun _ => rfl) hrun).call _ hop
  have htree := (tree_refines_forest hfam (fun _ => rfl) hrun).forest
  have hparent : parents k4.g 2 = some 0 := (htree.parent_iff 2 0).mpr (by rw [hk4]; decide)
  cases heff with
  | root hnone => exact absurd (hparent.symm.trans hnone) (by simp)
  | @out _ q _ hq hk =>
    obtain rfl : 0 = q := Option.some.inj (hparent.symm.trans hq)
    have hrun' := hrun.snoc (e := (.out 2, .pcb (some 2))) ⟨hop, hcall⟩
    exact ⟨_, k4, k', hrun, by rw [hk4]; rfl, by rw [hk4]; rfl, hcall, by rw [hk, hk4]; rfl,
      by rw [hk, hk4]; rfl, tree_refines_forest hfam (fun _ => rfl) hrun'⟩

end Rocm
