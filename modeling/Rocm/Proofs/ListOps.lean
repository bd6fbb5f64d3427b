import Mathlib.Data.Fintype.Card
import Rocm.Spec.Actions

/-!
# The abstract lists

What each operation of `Lists` does to the view, where a PCB is after it, and the weakest
preconditions of the functions of the process table on `Lists`.
-/

namespace Rocm

open Prog

/-! ## Plain accesses -/

section Access

variable {D : Type} {E : Exit → Kernel D → Prop} {k : Kernel D}

@[simp] theorem wp_getG {Q : Globals → Kernel D → Prop} : wp getG Q E k = Q k.g k := (rfl)

@[simp] theorem wp_modifyG {Q : PUnit → Kernel D → Prop} (f : Globals → Globals) :
    wp (modifyG f) Q E k = Q ⟨⟩ { k with g := f k.g } := (rfl)

@[simp] theorem wp_set {Q : PUnit → Kernel D → Prop} (k' : Kernel D) :
    wp (set k' : KM D PUnit) Q E k = Q ⟨⟩ k' := (rfl)

@[simp] theorem wp_PANIC {α : Type} {Q : α → Kernel D → Prop} (p : PanicAt) :
    wp (PANIC p) Q E k = E (.panic p) k := (rfl)

/-- No exit is taken. -/
def noExit {D : Type} : Exit → Kernel D → Prop := fun _ _ => False

/-- A program that returns, followed by another. -/
theorem wp_seq {α β : Type} {m : KM D α} {f : α → KM D β} {R : α → Kernel D → Prop}
    {Q : β → Kernel D → Prop} (hm : wp m R noExit k)
    (hf : ∀ a k', R a k' → wp (f a) Q E k') : wp (m >>= f) Q E k := by
  rw [wp_bind]
  exact wp_mono hf (fun _ _ h => h.elim) hm

/-- The clock after a reading. -/
def Globals.tickClock (g : Globals) : Globals :=
  { g with clock := { g.clock with next := g.clock.next + 1 } }

@[simp] theorem wp_STCK {Q : Word → Kernel D → Prop} :
    wp STCK Q E k = Q (k.g.clock.reading k.g.clock.next) { k with g := k.g.tickClock } := (rfl)

@[simp] theorem wp_setTIMER {Q : PUnit → Kernel D → Prop} (v : Word) :
    wp (setTIMER v) Q E k = Q ⟨⟩ { k with g := { k.g with timer := v } } := (rfl)

@[simp] theorem wp_LDIT {Q : PUnit → Kernel D → Prop} (v : Word) :
    wp (LDIT v) Q E k = Q ⟨⟩ { k with g := { k.g with intervalTimer := v } } := (rfl)

@[simp] theorem wp_derefActProc {Q : PcbId → Kernel D → Prop} {p : PcbId}
    (h : k.g.actProc = some p) : wp derefActProc Q E k = Q p k := by
  simp only [derefActProc, wp_bind, wp_getG, h, wp_pure]

end Access

namespace Lists

variable {a : Lists} {p r : PcbId} {q : Queue} {s : Word}

@[simp] theorem view_pushFree (h hc hp) :
    (a.pushFree p h hc hp).view = a.view.pushFree p := rfl

@[simp] theorem view_popFree : a.popFree.view = a.view.popFree := rfl

@[simp] theorem view_pushReady (h) : (a.pushReady q p h).view = a.view.pushReady q p := rfl

@[simp] theorem view_popReady : (a.popReady q).view = a.view.popReady q := rfl

@[simp] theorem view_eraseReady : (a.eraseReady q p).view = a.view.eraseReady q p := rfl

@[simp] theorem view_pushChild (h hq hp) :
    (a.pushChild r p h hq hp).view = a.view.pushChild r p := rfl

@[simp] theorem view_eraseChild : (a.eraseChild p).view = a.view.eraseChild p := rfl

@[simp] theorem view_pushBlocked (h) : (a.pushBlocked s p h).view = a.view.pushBlocked s p := by
  refine View.ext rfl rfl ?_ rfl
  funext s'
  change (a.asl.push s p).get s' = Function.update a.asl.get s (a.asl.get s ++ [p]) s'
  rw [QueueMap.get_push, Function.update_apply]

@[simp] theorem view_popBlocked (h) : (a.popBlocked s h).view = a.view.popBlocked s := by
  refine View.ext rfl rfl ?_ rfl
  funext s'
  change (a.asl.pop s).get s' = Function.update a.asl.get s (a.asl.get s).tail s'
  rw [QueueMap.get_pop, Function.update_apply]

@[simp] theorem view_eraseBlocked (h) :
    (a.eraseBlocked s p h).view = a.view.eraseBlocked s p := by
  have hk : s ∈ a.asl.keys := by
    by_contra hk
    rw [(a.asl.get_eq_nil_iff s).mpr hk] at h
    cases h
  refine View.ext rfl rfl ?_ rfl
  funext s'
  change (a.asl.erase s p).get s' = Function.update a.asl.get s ((a.asl.get s).erase p) s'
  rw [QueueMap.get_erase hk, Function.update_apply]

/-! ### Where a PCB is -/

theorem occ_eq_zero : a.occ p = 0 ↔ a.view.Loose p := by
  have hblocked : a.asl.all.count p = 0 ↔ ∀ s, p ∉ a.asl.get s := by
    rw [List.count_eq_zero, a.asl.mem_all_iff, not_exists]
  have hready : (a.ready .high).count p + (a.ready .low).count p = 0 ↔ ∀ q, p ∉ a.ready q := by
    rw [Nat.add_eq_zero_iff, List.count_eq_zero, List.count_eq_zero]
    exact ⟨fun h q => by cases q; exacts [h.1, h.2], fun h => ⟨h .high, h .low⟩⟩
  change _ ↔ p ∉ a.free ∧ (∀ q, p ∉ a.ready q) ∧ ∀ s, p ∉ a.asl.get s
  rw [← hready, ← hblocked, ← List.count_eq_zero, occ]
  omega

/-- A free PCB is in no queue. -/
theorem free_ready (h : p ∈ a.free) (q : Queue) : p ∉ a.ready q := by
  intro hq
  have := a.unique p
  have h1 := List.count_pos_iff.mpr h
  have h2 := List.count_pos_iff.mpr hq
  cases q <;> omega

theorem free_blocked (h : p ∈ a.free) (s : Word) : p ∉ a.asl.get s := by
  intro hs
  have := a.unique p
  have h1 := List.count_pos_iff.mpr h
  have h2 := List.count_pos_iff.mpr ((a.asl.mem_all_iff p).mpr ⟨s, hs⟩)
  omega

theorem ready_blocked (h : p ∈ a.ready q) (s : Word) : p ∉ a.asl.get s := by
  intro hs
  have := a.unique p
  have h1 := List.count_pos_iff.mpr h
  have h2 := List.count_pos_iff.mpr ((a.asl.mem_all_iff p).mpr ⟨s, hs⟩)
  cases q <;> omega

theorem ready_unique {q' : Queue} (h : p ∈ a.ready q) (h' : p ∈ a.ready q') : q = q' := by
  have := a.unique p
  have h1 := List.count_pos_iff.mpr h
  have h2 := List.count_pos_iff.mpr h'
  cases q <;> cases q' <;> first | rfl | omega

theorem blocked_nodup (a : Lists) (s : Word) : (a.asl.get s).Nodup := by
  have hall : a.asl.all.Nodup :=
    List.nodup_iff_count_le_one.mpr fun p => by have := a.unique p; omega
  by_cases h : a.asl.get s = []
  · rw [h]; exact .nil
  · have hsub : (a.asl.get s).Sublist a.asl.all := by
      have hmem : (s, a.asl.get s) ∈ a.asl.entries := QueueMap.getIn_mem h
      rw [QueueMap.all, List.flatMap]
      exact List.sublist_flatten_of_mem (List.mem_map.mpr ⟨_, hmem, rfl⟩)
    exact hsub.nodup hall

theorem view_wf (a : Lists) : a.view.Wf where
  free_nodup := List.nodup_iff_count_le_one.mpr fun p => by
    have := a.unique p; change a.free.count p ≤ 1; omega
  ready_nodup q := List.nodup_iff_count_le_one.mpr fun p => by
    have := a.unique p
    change (a.ready q).count p ≤ 1
    cases q <;> omega
  blocked_nodup := a.blocked_nodup
  free_ready p h := free_ready h
  free_blocked p h := free_blocked h
  ready_blocked q p h := ready_blocked h
  ready_unique p q q' h h' := ready_unique h h'
  siblings := a.siblings
  parent := a.parent
  leaf := a.leaf

/-- While some PCB is in no list, there is a semaphore descriptor left. -/
theorem asl_size_lt (h : a.occ p = 0) : a.asl.size < MAXPROC := by
  have hall : a.asl.all.Nodup :=
    List.nodup_iff_count_le_one.mpr fun p => by have := a.unique p; omega
  have hp : p ∉ a.asl.all := by
    rw [a.asl.mem_all_iff, not_exists]
    exact (occ_eq_zero.mp h).2.2
  have hlen := (List.nodup_cons.mpr ⟨hp, hall⟩).length_le_card
  have hsize := a.asl.size_le_length_all
  rw [Fintype.card_fin, List.length_cons] at hlen
  omega

/-! ### Weakest preconditions -/

section Wp

variable {k : Kernel Lists} {E : Exit → Kernel Lists → Prop}

theorem wp_initPcbs {Q : PUnit → Kernel Lists → Prop} : wp ProcTable.initPcbs Q E k =
    Q ⟨⟩ ⟨allFree, { k.g with pcb := fun p => { k.g.pcb p with pSemAdd := NULL } }⟩ := (rfl)

theorem wp_initAsl {Q : PUnit → Kernel Lists → Prop} :
    wp ProcTable.initAsl Q E k = Q ⟨⟩ k := (rfl)

theorem wp_mkEmptyProcQ {Q : PUnit → Kernel Lists → Prop} (q : Queue) :
    wp (ProcTable.mkEmptyProcQ q) Q E k = Q ⟨⟩ k := (rfl)

theorem wp_isAlive {Q : Bool → Kernel Lists → Prop} :
    wp (ProcTable.isAlive p) Q E k =
      Q (!(k.lists.free.any fun c => (k.g.pcb c).pPid = (k.g.pcb p).pPid)) k := (rfl)

theorem wp_emptyProcQ {Q : Bool → Kernel Lists → Prop} :
    wp (ProcTable.emptyProcQ q) Q E k = Q (k.lists.ready q).isEmpty k := (rfl)

theorem wp_insertProcQ {Q : PUnit → Kernel Lists → Prop} (h : k.lists.occ p = 0) :
    wp (ProcTable.insertProcQ q p) Q E k = Q ⟨⟩ ⟨k.lists.pushReady q p h, k.g⟩ := by
  change wp (insertProcQ q p) Q E k = _
  simp only [insertProcQ, wp_bind, wp_get, h, dif_pos, wp_set]

theorem wp_unlinkProc {Q : PUnit → Kernel Lists → Prop} (h : k.lists.occ p = 0) :
    wp (ProcTable.unlinkProc p) Q E k = Q ⟨⟩ k := by
  change wp (unlinkProc p) Q E k = _
  simp only [unlinkProc, wp_bind, wp_get, h, if_true, wp_pure]

theorem wp_removeProcQ_cons {Q : Option PcbId → Kernel Lists → Prop} {ps : List PcbId}
    (h : k.lists.ready q = p :: ps) :
    wp (ProcTable.removeProcQ q) Q E k = Q (some p) ⟨k.lists.popReady q, k.g⟩ := by
  change wp (removeProcQ q) Q E k = _
  simp only [removeProcQ, wp_bind, wp_get, h, wp_set, wp_pure]

theorem wp_outProcQ {Q : Option PcbId → Kernel Lists → Prop} :
    wp (ProcTable.outProcQ q p) Q E k =
      if p ∈ k.lists.ready q then Q (some p) ⟨k.lists.eraseReady q p, k.g⟩ else Q none k := by
  change wp (outProcQ q p) Q E k = _
  simp only [outProcQ, wp_bind, wp_get, wp_ite, wp_set, wp_pure]

theorem wp_allocPcb_nil {Q : Option PcbId → Kernel Lists → Prop} (h : k.lists.free = []) :
    wp ProcTable.allocPcb Q E k = Q none k := by
  change wp allocPcb Q E k = _
  simp only [allocPcb, wp_bind, wp_get, h, wp_pure]

/-- A PCB as `alloc_pcb` leaves it. -/
def allocated (c : Pcb) : Pcb :=
  { c with
    pParent := none, pS := .zero, pSupportStruct := NULL, pTime := 0, pTmUpdt := 0,
    pSemAdd := NULL }

theorem wp_allocPcb_cons {Q : Option PcbId → Kernel Lists → Prop} {ps : List PcbId}
    (h : k.lists.free = p :: ps) :
    wp ProcTable.allocPcb Q E k = Q (some p) ⟨k.lists.popFree, k.g.setPcb p allocated⟩ := by
  change wp allocPcb Q E k = _
  simp only [allocPcb, wp_bind, wp_get, h, wp_set, wp_pure]
  rfl

theorem wp_freePcb {Q : PUnit → Kernel Lists → Prop} (h : k.lists.occ p = 0)
    (hc : k.lists.child p = []) (hp : ∀ q, p ∉ k.lists.child q) :
    wp (ProcTable.freePcb p) Q E k = Q ⟨⟩ ⟨k.lists.pushFree p h hc hp,
      k.g.setPcb p fun c => { c with pSemAdd := NULL }⟩ := by
  change wp (freePcb p) Q E k = _
  have hall : k.lists.occ p = 0 ∧ k.lists.child p = [] ∧ ∀ q, p ∉ k.lists.child q := ⟨h, hc, hp⟩
  simp only [freePcb, wp_bind, wp_get, dif_pos hall, wp_set]

theorem wp_insertChild {Q : PUnit → Kernel Lists → Prop} (h : ∀ q, p ∉ k.lists.child q)
    (hr : r ∉ k.lists.free) (hp : p ∉ k.lists.free) :
    wp (ProcTable.insertChild r p) Q E k = Q ⟨⟩ ⟨k.lists.pushChild r p h hr hp,
      k.g.setPcb p fun c => { c with pParent := some r }⟩ := by
  change wp (insertChild r p) Q E k = _
  have hall : (∀ q, p ∉ k.lists.child q) ∧ r ∉ k.lists.free ∧ p ∉ k.lists.free := ⟨h, hr, hp⟩
  simp only [insertChild, wp_bind, wp_get, dif_pos hall, wp_set]

theorem wp_removeChild_nil {Q : Option PcbId → Kernel Lists → Prop} (hp : p ∉ k.lists.free)
    (h : k.lists.child p = []) : wp (ProcTable.removeChild p) Q E k = Q none k := by
  change wp (removeChild p) Q E k = _
  simp only [removeChild, wp_bind, wp_get, hp, if_false, h, wp_pure]

theorem wp_removeChild_cons {Q : Option PcbId → Kernel Lists → Prop} {cs : List PcbId}
    (hp : p ∉ k.lists.free) (h : k.lists.child p = r :: cs) :
    wp (ProcTable.removeChild p) Q E k = Q (some r) ⟨k.lists.eraseChild r,
      k.g.setPcb r fun c => { c with pParent := none }⟩ := by
  change wp (removeChild p) Q E k = _
  simp only [removeChild, wp_bind, wp_get, hp, if_false, h, wp_set, wp_pure]

theorem wp_outChild {Q : Option PcbId → Kernel Lists → Prop}
    (h : (k.g.pcb p).pParent ≠ none) (hc : ∃ q, p ∈ k.lists.child q) :
    wp (ProcTable.outChild p) Q E k = Q (some p) ⟨k.lists.eraseChild p,
      k.g.setPcb p fun c => { c with pParent := none }⟩ := by
  change wp (outChild p) Q E k = _
  simp only [outChild, wp_bind, wp_get, h, if_false, hc, if_true, wp_set, wp_pure]

theorem wp_insertBlocked {Q : Bool → Kernel Lists → Prop} (h : k.lists.occ p = 0) :
    wp (ProcTable.insertBlocked s p) Q E k = Q false ⟨k.lists.pushBlocked s p h,
      k.g.setPcb p fun c => { c with pSemAdd := s }⟩ := by
  change wp (insertBlocked s p) Q E k = _
  have hno : ¬ (k.lists.asl.get s = [] ∧ MAXPROC ≤ k.lists.asl.size) := fun hc => by
    have := hc.2
    have := asl_size_lt h
    omega
  simp only [insertBlocked, wp_bind, wp_get, hno, if_false, dif_pos h, wp_set, wp_pure]

theorem wp_removeBlocked_nil {Q : Option PcbId → Kernel Lists → Prop}
    (h : k.lists.asl.get s = []) : wp (ProcTable.removeBlocked s) Q E k = Q none k := by
  change wp (removeBlocked s) Q E k = _
  simp only [removeBlocked, wp_bind, wp_get]
  split
  · rfl
  · next h' => rw [h] at h'; cases h'

theorem wp_removeBlocked_cons {Q : Option PcbId → Kernel Lists → Prop} {ps : List PcbId}
    (h : k.lists.asl.get s = p :: ps) :
    wp (ProcTable.removeBlocked s) Q E k = Q (some p) ⟨k.lists.popBlocked s (by simp [h]),
      k.g.setPcb p fun c => { c with pSemAdd := NULL }⟩ := by
  change wp (removeBlocked s) Q E k = _
  simp only [removeBlocked, wp_bind, wp_get]
  split
  · next h' => rw [h] at h'; cases h'
  · next p' ps' h' =>
    obtain ⟨rfl, -⟩ := List.cons.inj (h'.symm.trans h)
    rfl

theorem wp_outBlocked {Q : Option PcbId → Kernel Lists → Prop}
    (hs : (k.g.pcb p).pSemAdd ≠ NULL) (h : p ∈ k.lists.asl.get (k.g.pcb p).pSemAdd) :
    wp (ProcTable.outBlocked p) Q E k = Q (some p)
      ⟨k.lists.eraseBlocked (k.g.pcb p).pSemAdd p h,
        k.g.setPcb p fun c => { c with pSemAdd := NULL }⟩ := by
  change wp (outBlocked p) Q E k = _
  have hne : ¬ ((k.g.pcb p).pSemAdd = NULL ∨ k.lists.asl.get (k.g.pcb p).pSemAdd = []) := by
    rintro (hc | hc)
    · exact hs hc
    · rw [hc] at h; cases h
  simp only [outBlocked, wp_bind, wp_get, hne, if_false, dif_pos h, wp_set, wp_pure]

end Wp

end Lists

end Rocm
