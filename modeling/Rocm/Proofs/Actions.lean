import Rocm.Proofs.Kill
import Rocm.Spec.Handlers

/-!
# The actions keep the invariant

What each action does to the place of a PCB, and that it keeps the representation invariant.
-/

namespace Rocm

namespace View

variable {v : View} {p r : PcbId} {q : Queue} {s : Word} {prio : Word}

@[simp] theorem enqueue_free : (v.enqueue p prio).free = v.free := by
  unfold enqueue; split <;> [rfl; (split <;> rfl)]

@[simp] theorem enqueue_blocked : (v.enqueue p prio).blocked = v.blocked := by
  unfold enqueue; split <;> [rfl; (split <;> rfl)]

@[simp] theorem enqueue_child : (v.enqueue p prio).child = v.child := by
  unfold enqueue; split <;> [rfl; (split <;> rfl)]

/-- A ready queue after `enqueue`. -/
theorem enqueue_ready :
    (v.enqueue p prio).ready q = if prio = q.prio then v.ready q ++ [p] else v.ready q := by
  unfold enqueue
  split
  · next h => subst h; cases q <;> simp [pushReady, Queue.prio, PROCESS_PRIO_HIGH, PROCESS_PRIO_LOW]
  · next h =>
    split
    · next h' =>
      subst h'; cases q <;> simp [pushReady, Queue.prio, PROCESS_PRIO_HIGH, PROCESS_PRIO_LOW]
    · next h' => cases q <;> simp [Queue.prio, h, h']

theorem mem_enqueue_ready :
    r ∈ (v.enqueue p prio).ready q ↔ r ∈ v.ready q ∨ r = p ∧ prio = q.prio := by
  rw [enqueue_ready]
  split <;> simp [*]

theorem mem_pushBlocked {s' : Word} :
    r ∈ (v.pushBlocked s p).blocked s' ↔ r ∈ v.blocked s' ∨ r = p ∧ s' = s := by
  change r ∈ Function.update v.blocked s (v.blocked s ++ [p]) s' ↔ _
  rw [Function.update_apply]
  split
  · next e => subst e; simp
  · next e => simp [e]

theorem Loose.popReady (h : v.Loose r) : (v.popReady q).Loose r := by
  refine ⟨h.1, fun q' hq' => h.2.1 q' ?_, h.2.2⟩
  change r ∈ Function.update v.ready q (v.ready q).tail q' at hq'
  rw [Function.update_apply] at hq'
  split at hq'
  · next e => subst e; exact List.mem_of_mem_tail hq'
  · exact hq'

theorem Loose.enqueue (h : v.Loose r) (hr : r ≠ p) : (v.enqueue p prio).Loose r := by
  refine ⟨by simpa using h.1, fun q hq => ?_, by simpa using h.2.2⟩
  exact (mem_enqueue_ready.mp hq).elim (h.2.1 q) fun e => hr e.1

theorem Loose.popBlocked (h : v.Loose r) : (v.popBlocked s).Loose r := by
  refine ⟨h.1, h.2.1, fun s' hs' => h.2.2 s' ?_⟩
  change r ∈ Function.update v.blocked s (v.blocked s).tail s' at hs'
  rw [Function.update_apply] at hs'
  split at hs'
  · next e => subst e; exact List.mem_of_mem_tail hs'
  · exact hs'

/-- The head of a ready queue is nowhere else. -/
theorem Wf.loose_popReady (hw : v.Wf) {ps : List PcbId} (hq : v.ready q = p :: ps) :
    (v.popReady q).Loose p := by
  have hp : p ∈ v.ready q := by rw [hq]; exact List.mem_cons_self
  have hnd := hw.ready_nodup q
  rw [hq, List.nodup_cons] at hnd
  refine ⟨fun hf => hw.free_ready p hf q hp, fun q' hq' => ?_, fun s => hw.ready_blocked q p hp s⟩
  change p ∈ Function.update v.ready q (v.ready q).tail q' at hq'
  rw [Function.update_apply] at hq'
  split at hq'
  · rw [hq] at hq'; exact hnd.1 hq'
  · next e => exact e (hw.ready_unique p q' q hq' hp)

theorem Wf.loose_popFree (hw : v.Wf) {ps : List PcbId} (hf : v.free = p :: ps) :
    v.popFree.Loose p := by
  have hp : p ∈ v.free := by rw [hf]; exact List.mem_cons_self
  refine ⟨?_, hw.free_ready p hp, hw.free_blocked p hp⟩
  have hnd := hw.free_nodup
  rw [hf, List.nodup_cons] at hnd
  change p ∉ v.free.tail
  rw [hf]
  exact hnd.1

theorem Loose.remove {S : List PcbId} (h : v.Loose r) (hr : r ∉ S) : (v.remove S).Loose r := by
  refine ⟨fun hf => (List.mem_append.mp hf).elim hr h.1, fun q hq => ?_, fun s hs => ?_⟩
  · exact h.2.1 q (List.mem_of_mem_filter hq)
  · exact h.2.2 s (List.mem_of_mem_filter hs)

end View

section

variable {k : Kernel View} {p r w : PcbId} {s : Word} {q : Queue}

@[simp] theorem mapG_lists {D : Type} (k : Kernel D) (f : Globals → Globals) :
    (k.mapG f).lists = k.lists := rfl

@[simp] theorem mapG_g {D : Type} (k : Kernel D) (f : Globals → Globals) :
    (k.mapG f).g = f k.g := rfl

theorem sameTags_age (g : Globals) (p : PcbId) : SameTags g (g.age p) :=
  (sameTags_setPcb g p (fun c => { c with
    pTime := c.pTime + (g.clock.reading g.clock.next - c.pTmUpdt)
    pTmUpdt := g.clock.reading g.clock.next }) rfl rfl rfl rfl).trans (.of_pcb rfl)

theorem sameTags_setPS (g : Globals) (p : PcbId) (f : ProcState → ProcState) :
    SameTags g (g.setPS p f) := sameTags_setPcb g p _ rfl rfl rfl rfl

@[simp] theorem wake_int : (k.wake s w).g.int = k.g.int := rfl

theorem wake_blocked (k : Kernel View) {w : PcbId} {ws : List PcbId}
    (hs : k.lists.blocked s = w :: ws) : (k.wake s w).lists.blocked s = ws := by
  change ((k.lists.popBlocked s).enqueue w (k.g.pcb w).pPrio).blocked s = ws
  rw [View.enqueue_blocked]
  change Function.update k.lists.blocked s (k.lists.blocked s).tail s = ws
  rw [Function.update_self, hs, List.tail_cons]

theorem View.Loose.wake (h : k.lists.Loose p) (hp : p ≠ w) : (k.wake s w).lists.Loose p :=
  h.popBlocked.enqueue hp

variable [Layout]

/-- The head of the queue of a semaphore is nowhere else. -/
theorem KCore.loose_popBlocked (h : KCore k) (hw : k.lists.Wf) {ws : List PcbId}
    (hs : k.lists.blocked s = w :: ws) : (k.lists.popBlocked s).Loose w := by
  have hmem : w ∈ k.lists.blocked s := by rw [hs]; exact List.mem_cons_self
  have hnd := hw.blocked_nodup s
  rw [hs, List.nodup_cons] at hnd
  refine ⟨fun hf => hw.free_blocked w hf s hmem, fun q hq => hw.ready_blocked q w hq s hmem,
    fun s' hs' => ?_⟩
  change w ∈ Function.update k.lists.blocked s (k.lists.blocked s).tail s' at hs'
  rw [Function.update_apply] at hs'
  split at hs'
  · rw [hs] at hs'; exact hnd.1 hs'
  · next e => exact e ((h.semAdd_of_blocked hs').symm.trans (h.semAdd_of_blocked hmem))

theorem KCore.enqueue (h : KCore k) :
    KCore ⟨k.lists.enqueue p (k.g.pcb p).pPrio, k.g⟩ := by
  unfold View.enqueue
  split
  · next e => exact KCore.pushReady h (q := .high) e
  · split
    · next e => exact KCore.pushReady h (q := .low) e
    · exact h

theorem KInv.enqueue (h : KInv k) : KInv ⟨k.lists.enqueue p (k.g.pcb p).pPrio, k.g⟩ where
  toKCore := h.toKCore.enqueue
  procs := by
    rw [h.procs]
    simp only [View.alive, View.enqueue_free]
  sb := h.sb

theorem KInv.popReady (h : KInv k) : KInv ⟨k.lists.popReady q, k.g⟩ where
  toKCore := KCore.popReady h.toKCore
  procs := h.procs
  sb := h.sb

theorem KInv.block (h : KInv k) (hp : k.lists.Loose p) (hs : s ≠ NULL) : KInv (k.block s p) where
  toKCore := (KCore.pushBlocked h.toKCore hp hs).congr (.of_pcb rfl)
  procs := h.procs
  sb := by
    have hcard := waiting_block (h.toKCore.semAdd_of_loose hp) hs
    change k.g.sbProcs + 1 =
      BitVec.ofNat 32 (k.g.setPcb p fun c => { c with pSemAdd := s }).waiting.card
    rw [hcard, ofNat_add_one, h.sb]

theorem KInv.wake (h : KInv k) (hw : k.lists.Wf) {ws : List PcbId}
    (hs : k.lists.blocked s = w :: ws) : KInv (k.wake s w) := by
  have hmem : w ∈ k.lists.blocked s := by rw [hs]; exact List.mem_cons_self
  have hsem := h.toKCore.semAdd_of_blocked hmem
  have hcore : KCore ⟨k.lists.popBlocked s, k.g.unblock w⟩ :=
    (KCore.popBlocked h.toKCore hw hs).congr (.of_pcb rfl)
  have hprio : ((k.g.unblock w).pcb w).pPrio = (k.g.pcb w).pPrio := by
    change ((k.g.setPcb w fun c => { c with pSemAdd := NULL }).pcb w).pPrio = _
    rw [setPcb_pcb, if_pos rfl]
  constructor
  case toKCore =>
    have := hcore.enqueue (p := w)
    rw [hprio] at this
    exact this
  case procs =>
    change k.g.procsCount = _
    rw [h.procs]
    simp only [Kernel.wake, View.alive, View.enqueue_free]
    rfl
  case sb =>
    have hne : (k.g.pcb w).pSemAdd ≠ NULL := by
      rw [hsem]; exact h.toKCore.ne_null_of_blocked hmem
    have hcard := waiting_unblock hne
    change k.g.sbProcs - 1 =
      BitVec.ofNat 32 (k.g.setPcb w fun c => { c with pSemAdd := NULL }).waiting.card
    rw [h.sb, ← hcard, ofNat_sub_one]

/-- A change of the variables that touches neither tags nor counters. -/
theorem KInv.mapG (h : KInv k) {f : Globals → Globals} (hs : SameTags k.g (f k.g))
    (hp : (f k.g).procsCount = k.g.procsCount) (hsb : (f k.g).sbProcs = k.g.sbProcs) :
    KInv (k.mapG f) := h.congr hs hp hsb

theorem sameTags_load (g : Globals) (p : PcbId) : SameTags g (g.load p) :=
  (sameTags_setPcb g p (fun c => { c with
    pS := { c.pS with status := loadStatus c.pPrio c.pS.status }
    pTmUpdt := g.clock.reading g.clock.next }) rfl rfl rfl rfl).trans (.of_pcb rfl)

theorem KInv.setPS (h : KInv k) (f : ProcState → ProcState) : KInv (k.mapG (·.setPS p f)) :=
  h.mapG (sameTags_setPS k.g p f) rfl rfl

theorem KInv.create (h : KInv k) (hw : k.lists.Wf) {c : PcbId} {cs : List PcbId}
    (hf : k.lists.free = c :: cs) (hr : r ∉ k.lists.free) (statep prio supportp : Word) :
    KInv (k.create c r statep prio supportp) := by
  have hcore : KCore ⟨k.lists.popFree.pushChild r c,
      k.g.create c r statep prio supportp⟩ :=
    (KCore.create h.toKCore hw hf hr
      (f := fun _ => k.g.newPcb c r statep prio supportp) rfl rfl rfl).congr (.of_pcb rfl)
  have hprio : ((k.g.create c r statep prio supportp).pcb c).pPrio = prio := by
    change ((k.g.setPcb c fun _ => k.g.newPcb c r statep prio supportp).pcb c).pPrio = _
    rw [setPcb_pcb, if_pos rfl]
    rfl
  constructor
  case toKCore =>
    have := hcore.enqueue (p := c)
    rw [hprio] at this
    exact this
  case procs =>
    change k.g.procsCount + 1 = _
    simp only [Kernel.create, View.alive, View.enqueue_free]
    change _ = BitVec.ofNat 32 k.lists.popFree.alive.card
    rw [alive_popFree hw hf, ofNat_add_one, h.procs]
  case sb =>
    have hnull : (k.g.pcb c).pSemAdd = NULL := by
      by_contra hne
      have hfree : c ∈ k.lists.free := by rw [hf]; exact List.mem_cons_self
      exact hw.free_blocked c hfree _ ((h.blocked c _).mpr ⟨rfl, hne⟩)
    have hwaiting : (k.g.create c r statep prio supportp).waiting = k.g.waiting :=
      waiting_setPcb (f := fun _ => k.g.newPcb c r statep prio supportp) hnull.symm
    change k.g.sbProcs = BitVec.ofNat 32 (k.g.create c r statep prio supportp).waiting.card
    rw [hwaiting, h.sb]

omit [Layout] in
theorem flushYielded_eq {k : Kernel View} (h : k.g.yieldedProc = none) : k.flushYielded = k := by
  rw [Kernel.flushYielded, h]

theorem KInv.flushYielded (h : KInv k) : KInv k.flushYielded := by
  unfold Kernel.flushYielded
  split
  · exact h
  · exact h.enqueue.congr (.of_pcb rfl) rfl rfl

theorem KInv.load (h : KInv k) : KInv (k.load p) := by
  exact KInv.congr h.flushYielded (sameTags_load _ p) rfl rfl

theorem KInv.idle (h : KInv k) : KInv (k.mapG (·.idle)) := h.mapG (.of_pcb rfl) rfl rfl

theorem KInv.age (h : KInv k) : KInv (k.mapG (·.age p)) :=
  h.mapG (sameTags_age _ p) rfl rfl

theorem KInv.save (h : KInv k) : KInv (k.mapG (·.save)) := by
  refine h.mapG ?_ ?_ ?_ <;> unfold Globals.save <;> split
  exacts [sameTags_setPS _ _ _, .of_pcb rfl, rfl, rfl, rfl, rfl]

end

end Rocm
