import Rocm.Refine.Machine

/-!
# The nucleus with a log

The process table together with the log of all insertions into the ready queues. The log is never
read: the nucleus does on it what it does on the table alone.
-/

namespace Rocm

open Prog ProcTable Runs

/-- A process table and the insertions into its ready queues, in their order. -/
structure Logged (D : Type) where
  lists : D
  log : List (Queue × PcbId)

variable {D : Type}

/-- The nucleus without the log. -/
def Kernel.erase (k : Kernel (Logged D)) : Kernel D := ⟨k.lists.lists, k.g⟩

/-- The nucleus with a log. -/
def Kernel.withLog (k : Kernel D) (log : List (Queue × PcbId)) : Kernel (Logged D) :=
  ⟨⟨k.lists, log⟩, k.g⟩

namespace Logged

/-- A function of the process table leaves the log alone. -/
def lift {α : Type} (m : KM D α) : KM (Logged D) α := fun k =>
  match m k.erase with
  | .ok a k' => .ok a (k'.withLog k.lists.log)
  | .error e k' => .error e (k'.withLog k.lists.log)

/-- `p` has been inserted into `q`. -/
def note (q : Queue) (p : PcbId) : KM (Logged D) PUnit :=
  modify fun k => k.erase.withLog (k.lists.log ++ [(q, p)])

end Logged

open Logged in
instance [ProcTable D] : ProcTable (Logged D) where
  uninit := ⟨uninit, []⟩
  view d := view d.lists
  initPcbs := lift initPcbs
  initAsl := lift initAsl
  mkEmptyProcQ q := lift (mkEmptyProcQ q)
  isAlive p := lift (isAlive p)
  freePcb p := lift (freePcb p)
  allocPcb := lift allocPcb
  emptyProcQ q := lift (emptyProcQ q)
  insertProcQ q p := do
    lift (insertProcQ q p)
    note q p
  removeProcQ q := lift (removeProcQ q)
  outProcQ q p := lift (outProcQ q p)
  insertChild q p := lift (insertChild q p)
  removeChild p := lift (removeChild p)
  outChild p := lift (outChild p)
  insertBlocked s p := lift (insertBlocked s p)
  removeBlocked s := lift (removeBlocked s)
  outBlocked p := lift (outBlocked p)
  unlinkProc p := lift (unlinkProc p)

/-- When the last insertion in the log that is `x` took place, counted from 1; 0 if there is none. -/
def since (log : List (Queue × PcbId)) (x : Queue × PcbId) : Nat :=
  log.length - log.reverse.idxOf x

section Since

variable {log : List (Queue × PcbId)} {x y : Queue × PcbId}

theorem since_le : since log x ≤ log.length := Nat.sub_le ..

theorem since_last : since (log ++ [x]) x = log.length + 1 := by
  simp [since]

theorem since_other (h : x ≠ y) : since (log ++ [x]) y = since log y := by
  rw [since, List.reverse_append, List.reverse_singleton, List.singleton_append,
    List.idxOf_cons_ne _ h, List.length_append, List.length_singleton, since]
  omega

end Since

/-- Every ready queue is in the order of the last insertions. -/
def InOrder (ready : Queue → List PcbId) (log : List (Queue × PcbId)) : Prop :=
  ∀ q, (ready q).Pairwise fun a b => since log (q, a) < since log (q, b)

theorem InOrder.sublist {ready ready' : Queue → List PcbId} {log : List (Queue × PcbId)}
    (h : InOrder ready log) (hs : ∀ q, (ready' q).Sublist (ready q)) : InOrder ready' log :=
  fun q => (h q).sublist (hs q)

/-- A process that is in no ready queue goes to the end of one. -/
theorem InOrder.push {ready : Queue → List PcbId} {log : List (Queue × PcbId)}
    (h : InOrder ready log) {q : Queue} {p : PcbId} (hp : p ∉ ready q) :
    InOrder (Function.update ready q (ready q ++ [p])) (log ++ [(q, p)]) := by
  have hold : ∀ q' (l : List PcbId), l.Sublist (ready q') → (q' = q → p ∉ l) →
      l.Pairwise fun a b => since (log ++ [(q, p)]) (q', a) < since (log ++ [(q, p)]) (q', b) := by
    intro q' l hl hne
    refine ((h q').sublist hl).imp_of_mem fun {a b} ha hb hab => ?_
    have hsame : ∀ c ∈ l, since (log ++ [(q, p)]) (q', c) = since log (q', c) := fun c hc =>
      since_other fun e => by
        obtain ⟨e1, e2⟩ := Prod.mk.inj e
        exact hne e1.symm (e2 ▸ hc)
    rw [hsame a ha, hsame b hb]
    exact hab
  intro q'
  rw [Function.update_apply]
  split
  · next e =>
    subst e
    rw [List.pairwise_append]
    refine ⟨hold q' _ (List.Sublist.refl _) fun _ => hp, List.pairwise_singleton _ _, ?_⟩
    intro a ha b hb
    rw [List.mem_singleton.mp hb, since_last]
    have hne : (q', p) ≠ (q', a) := fun e => hp ((Prod.mk.inj e).2 ▸ ha)
    rw [since_other hne]
    exact Nat.lt_succ_of_le since_le
  · next e => exact hold q' _ (List.Sublist.refl _) fun e' => absurd e' e

/-! ## The log is not read -/

/-- The nucleus with a log and the nucleus without. -/
def Erased (k : Kernel (Logged D)) (k' : Kernel D) : Prop := k.erase = k'

theorem erased_lift {α : Type} (m : KM D α) : Same Erased (Logged.lift m) m := by
  rintro k _ rfl
  unfold Logged.lift
  cases m k.erase with
  | ok a t => exact ⟨_, rfl, rfl⟩
  | error e t => exact .inr ⟨_, rfl, rfl⟩

theorem erased_note (q : Queue) (p : PcbId) :
    Same (Erased (D := D)) (Logged.note q p) (pure PUnit.unit) := by
  rintro k _ rfl
  exact ⟨_, rfl, rfl⟩

instance [ProcTable D] : TableRel (Erased (D := D)) where
  globals h := by rw [← h]; rfl
  mapG h f := by rw [← h]; rfl
  freePcb _ := erased_lift _
  outProcQ _ _ := erased_lift _
  removeChild _ := erased_lift _
  outChild _ := erased_lift _
  outBlocked _ := erased_lift _
  isAlive _ := erased_lift _
  allocPcb := erased_lift _
  emptyProcQ _ := erased_lift _
  insertProcQ q p := by
    have h := Corres.bind (erased_lift (insertProcQ q p : KM D PUnit)) fun _ => erased_note q p
    rwa [bind_pure] at h
  removeProcQ _ := erased_lift _
  insertChild _ _ := erased_lift _
  insertBlocked _ _ := erased_lift _
  removeBlocked _ := erased_lift _
  unlinkProc _ := erased_lift _

/-! ## The order of the ready queues -/

/-- The table is described by `l`, whose ready queues are in the order of the log. -/
def Ordered (R : Kernel D → Kernel Lists → Prop) (k : Kernel (Logged D)) (l : Kernel Lists) :
    Prop :=
  R k.erase l ∧ InOrder l.lists.ready k.lists.log

/-- The ready queues only lose members. -/
def Shrinks {α : Type} (m : KM Lists α) : Prop :=
  Moves (fun k k' => ∀ q, (k'.lists.ready q).Sublist (k.lists.ready q)) m

section Shrinks

theorem shrinks_freePcb (p : PcbId) : Shrinks (freePcb p : KM Lists PUnit) := fun k => by
  change wp (Lists.freePcb p) _ _ k
  unfold Lists.freePcb
  simp only [wp_bind, wp_get]
  split <;> simp [Lists.pushFree]

theorem shrinks_isAlive (p : PcbId) : Shrinks (isAlive p : KM Lists Bool) := fun k => by
  change wp (Lists.isAlive p) _ _ k
  simp [Lists.isAlive]

theorem shrinks_allocPcb : Shrinks (allocPcb : KM Lists (Option PcbId)) := fun k => by
  change wp Lists.allocPcb _ _ k
  unfold Lists.allocPcb
  simp only [wp_bind, wp_get]
  split <;> simp [Lists.popFree]

theorem shrinks_emptyProcQ (q : Queue) : Shrinks (emptyProcQ q : KM Lists Bool) := fun k => by
  change wp (Lists.emptyProcQ q) _ _ k
  simp [Lists.emptyProcQ]

theorem sublist_update {ready : Queue → List PcbId} {q : Queue} {l : List PcbId}
    (h : l.Sublist (ready q)) (q' : Queue) :
    (Function.update ready q l q').Sublist (ready q') := by
  rw [Function.update_apply]
  split
  · next e => rwa [e]
  · exact List.Sublist.refl _

theorem shrinks_removeProcQ (q : Queue) :
    Shrinks (removeProcQ q : KM Lists (Option PcbId)) := fun k => by
  change wp (Lists.removeProcQ q) _ _ k
  unfold Lists.removeProcQ
  simp only [wp_bind, wp_get]
  split
  · simp
  · exact sublist_update (List.tail_sublist _)

theorem shrinks_outProcQ (q : Queue) (p : PcbId) :
    Shrinks (outProcQ q p : KM Lists (Option PcbId)) := fun k => by
  change wp (Lists.outProcQ q p) _ _ k
  unfold Lists.outProcQ
  simp only [wp_bind, wp_get]
  split
  · exact sublist_update List.erase_sublist
  · simp

theorem shrinks_insertChild (q p : PcbId) :
    Shrinks (insertChild q p : KM Lists PUnit) := fun k => by
  change wp (Lists.insertChild q p) _ _ k
  unfold Lists.insertChild
  simp only [wp_bind, wp_get]
  split <;> simp [Lists.pushChild]

theorem shrinks_removeChild (p : PcbId) :
    Shrinks (removeChild p : KM Lists (Option PcbId)) := fun k => by
  change wp (Lists.removeChild p) _ _ k
  unfold Lists.removeChild
  simp only [wp_bind, wp_get]
  split
  · simp
  · split <;> simp [Lists.eraseChild]

theorem shrinks_outChild (p : PcbId) : Shrinks (outChild p : KM Lists (Option PcbId)) := fun k => by
  change wp (Lists.outChild p) _ _ k
  unfold Lists.outChild
  simp only [wp_bind, wp_get]
  split
  · simp
  · split <;> simp [Lists.eraseChild]

theorem shrinks_insertBlocked (s : Word) (p : PcbId) :
    Shrinks (insertBlocked s p : KM Lists Bool) := fun k => by
  change wp (Lists.insertBlocked s p) _ _ k
  unfold Lists.insertBlocked
  simp only [wp_bind, wp_get]
  split
  · simp
  · split <;> simp [Lists.pushBlocked, Lists.setAsl]

theorem shrinks_removeBlocked (s : Word) :
    Shrinks (removeBlocked s : KM Lists (Option PcbId)) := fun k => by
  change wp (Lists.removeBlocked s) _ _ k
  unfold Lists.removeBlocked
  simp only [wp_bind, wp_get]
  split <;> simp [Lists.popBlocked, Lists.setAsl]

theorem shrinks_outBlocked (p : PcbId) :
    Shrinks (outBlocked p : KM Lists (Option PcbId)) := fun k => by
  change wp (Lists.outBlocked p) _ _ k
  unfold Lists.outBlocked
  simp only [wp_bind, wp_get]
  split
  · simp
  · split <;> simp [Lists.eraseBlocked, Lists.setAsl]

theorem shrinks_unlinkProc (p : PcbId) : Shrinks (unlinkProc p : KM Lists PUnit) := fun k => by
  change wp (Lists.unlinkProc p) _ _ k
  unfold Lists.unlinkProc
  simp only [wp_bind, wp_get]
  split <;> simp

end Shrinks

section Ordered

variable {R : Kernel D → Kernel Lists → Prop}

/-- A function that only takes members out of the ready queues keeps their order. -/
theorem ordered_lift {α : Type} {m : KM D α} {m' : KM Lists α} (h : Same R m m')
    (hs : Shrinks m') : Same (Ordered R) (Logged.lift m) m' := by
  rintro k l ⟨hR, hord⟩
  have h := h k.erase l hR
  have hs := hs l
  unfold wp at hs
  unfold Logged.lift
  cases hm : m' l with
  | ok a t =>
    rw [hm] at h hs
    obtain ⟨s, hk, hR'⟩ := h
    rw [hk]
    exact ⟨_, rfl, hR', hord.sublist hs⟩
  | error e t =>
    rw [hm] at h hs
    rcases h with hb | ⟨s, hk, hR'⟩
    · exact .inl hb
    · rw [hk]
      exact .inr ⟨_, rfl, hR', hord.sublist hs⟩

theorem Lists.insertProcQ_ready (q : Queue) (p : PcbId) (l : Kernel Lists) :
    wp (ProcTable.insertProcQ q p) (fun _ l' => p ∉ l.lists.ready q ∧ l'.lists.ready =
      Function.update l.lists.ready q (l.lists.ready q ++ [p])) (fun e _ => isMisuse e) l := by
  change wp (Lists.insertProcQ q p) _ _ l
  unfold Lists.insertProcQ
  simp only [wp_bind, wp_get]
  split
  · next h => exact ⟨(Lists.occ_eq_zero.mp h).2.1 q, rfl⟩
  · exact rfl

/-- An insertion into a ready queue goes to its end and to the end of the log. -/
theorem ordered_insertProcQ [ProcTable D] [TableRel R] (q : Queue) (p : PcbId) :
    Same (Ordered R) (insertProcQ q p) (insertProcQ q p) := by
  rintro k l ⟨hR, hord⟩
  have h := TableRel.insertProcQ (R := R) q p k.erase l hR
  have hready := Lists.insertProcQ_ready q p l
  unfold wp at hready
  cases hm : (insertProcQ q p : KM Lists PUnit) l with
  | ok a t =>
    rw [hm] at h hready
    obtain ⟨s, hk, hR'⟩ := h
    refine ⟨s.withLog (k.lists.log ++ [(q, p)]), ?_, hR', ?_⟩
    · change EStateM.bind (Logged.lift (insertProcQ q p)) (fun _ => Logged.note q p) k = _
      simp only [EStateM.bind, Logged.lift, hk]
      rfl
    · rw [hready.2]
      exact hord.push hready.1
  | error e t =>
    rw [hm] at hready
    exact .inl hready

instance [ProcTable D] [TableRel R] : TableRel (Ordered R) where
  globals h := KillRel.globals (R := R) h.1
  mapG h f := ⟨KillRel.mapG (R := R) h.1 f, h.2⟩
  freePcb p := ordered_lift (KillRel.freePcb p) (shrinks_freePcb p)
  outProcQ q p := ordered_lift (KillRel.outProcQ q p) (shrinks_outProcQ q p)
  removeChild p := ordered_lift (KillRel.removeChild p) (shrinks_removeChild p)
  outChild p := ordered_lift (KillRel.outChild p) (shrinks_outChild p)
  outBlocked p := ordered_lift (KillRel.outBlocked p) (shrinks_outBlocked p)
  isAlive p := ordered_lift (TableRel.isAlive p) (shrinks_isAlive p)
  allocPcb := ordered_lift TableRel.allocPcb shrinks_allocPcb
  emptyProcQ q := ordered_lift (TableRel.emptyProcQ q) (shrinks_emptyProcQ q)
  insertProcQ := ordered_insertProcQ
  removeProcQ q := ordered_lift (TableRel.removeProcQ q) (shrinks_removeProcQ q)
  insertChild q p := ordered_lift (TableRel.insertChild q p) (shrinks_insertChild q p)
  insertBlocked s p := ordered_lift (TableRel.insertBlocked s p) (shrinks_insertBlocked s p)
  removeBlocked s := ordered_lift (TableRel.removeBlocked s) (shrinks_removeBlocked s)
  unlinkProc p := ordered_lift (TableRel.unlinkProc p) (shrinks_unlinkProc p)

end Ordered

/-! ## Boot -/

section Boot

variable [ProcTable D] [Layout]

/-- The two nuclei, while nothing has been inserted. -/
def Unlogged (k : Kernel (Logged D)) (k' : Kernel D) : Prop := k = k'.withLog []

omit [ProcTable D] [Layout] in
theorem unlogged_lift {α : Type} (m : KM D α) : Same Unlogged (Logged.lift m) m := by
  rintro _ k rfl
  have hk : (k.withLog []).erase = k := rfl
  unfold Logged.lift
  rw [hk]
  cases m k with
  | ok a t => exact ⟨_, rfl, rfl⟩
  | error e t => exact .inr ⟨_, rfl, rfl⟩

omit [ProcTable D] [Layout] in
theorem unlogged_modifyG (f : Globals → Globals) :
    Same (Unlogged (D := D)) (modifyG f) (modifyG f) := by
  rintro _ k rfl
  exact ⟨_, rfl, rfl⟩

theorem unlogged_init :
    Same (Unlogged (D := D)) initDataStructures initDataStructures :=
  .bind (unlogged_lift _) fun _ => .bind (unlogged_lift _) fun _ =>
    .bind (.bind (unlogged_modifyG _) fun _ => .bind (unlogged_lift _) fun _ => unlogged_lift _)
      fun _ => .bind (unlogged_modifyG _) fun _ => unlogged_modifyG _

instance {R : Kernel D → Kernel Lists → Prop} [Refines R] : Refines (Ordered R) where
  abs h := Refines.abs (R := R) h.1
  init g := by
    have h0 : Unlogged (D := D) ⟨ProcTable.uninit, g⟩ ⟨ProcTable.uninit, g⟩ := rfl
    obtain ⟨a, s, t, hs, ht, hQ⟩ := unlogged_init.returns h0 (Refines.init (R := R) g)
    refine wp_of_ok hs ⟨?_, fun q => List.Pairwise.nil⟩
    rw [ht]
    exact hQ

end Boot

end Rocm
