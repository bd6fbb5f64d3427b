import Rocm.Refine.Asl
import Rocm.Refine.Nucleus
import Rocm.Refine.Tree

/-!
# The links represent the abstract lists

`Rep` relates the heap of links to the abstract lists, `Sim` the two nuclei. Every function of
the process table does the same on both, unless the abstract lists give up.
-/

namespace Rocm

open Ring Prog

/-- The lists that are not those of semaphores. -/
def listQ (a : Lists) : PHead → Option (List PcbId)
  | .pcbFreeH => some a.free
  | .hQueue => some (a.ready .high)
  | .lQueue => some (a.ready .low)
  | .sProcq _ => none
  | .other _ => none

/-- The lists of children that are initialised. -/
structure TreeRep (l : Links (Node PcbId PcbId)) (a : Lists) (T : PcbId → Option (List PcbId)) :
    Prop where
  family : Family l T
  child : ∀ p cs, T p = some cs → cs = a.child p
  uninit : ∀ p, T p = none → p ∈ a.free ∧ l.next (.head p) = none

/-- The links `d` represent the lists `a`. -/
structure Rep (d : Heap) (a : Lists) : Prop where
  queues : ∃ act idle, AslRep d (listQ a) a.asl act idle ∧
    SelfLinked d.procs (aslQ (listQ a) d.sKey a.asl act)
  tree : ∃ T, TreeRep d.tree a T

/-- The nucleus on links and the nucleus on the abstract lists. -/
structure Sim (k : Kernel Heap) (k' : Kernel Lists) : Prop where
  rep : Rep k.lists k'.lists
  globals : k.g = k'.g

variable {d d' : Heap} {a a' : Lists} {p q : PcbId} {k : Kernel Heap} {k' : Kernel Lists}

theorem TreeRep.of_live {l : Links (Node PcbId PcbId)} {T : PcbId → Option (List PcbId)}
    (h : TreeRep l a T) (hp : p ∉ a.free) : T p = some (a.child p) := by
  cases hT : T p with
  | none => exact absurd (h.uninit p hT).1 hp
  | some cs => rw [h.child p cs hT]

theorem TreeRep.absent {l : Links (Node PcbId PcbId)} {T : PcbId → Option (List PcbId)}
    (h : TreeRep l a T) (hp : ∀ q, p ∉ a.child q) : Absent T p := fun q cs hT hm =>
  hp q (h.child q cs hT ▸ hm)

/-- A change of one list of children. -/
theorem TreeRep.update {l l' : Links (Node PcbId PcbId)} {T : PcbId → Option (List PcbId)}
    (h : TreeRep l a T) {cs : List PcbId} (hto : Heap.TreeTo l l' T (Function.update T q (some cs)))
    (hchild : a'.child = Function.update a.child q cs)
    (hfree : ∀ r ∈ a.free, r ≠ q → r ∈ a'.free) :
    TreeRep l' a' (Function.update T q (some cs)) where
  family := hto.family
  child r xs hT := by
    rw [hchild]
    by_cases e : r = q
    · subst e
      rw [Function.update_self] at hT ⊢
      exact (Option.some.inj hT).symm
    · rw [Function.update_of_ne e] at hT ⊢
      exact h.child r xs hT
  uninit r hT := by
    obtain ⟨hr, hnext⟩ := hto.head r hT
    have hrq := (Heap.none_of_update hT).2
    exact ⟨hfree r (h.uninit r hr).1 hrq, by rw [hnext, (h.uninit r hr).2]⟩

theorem TreeRep.congr {l : Links (Node PcbId PcbId)} {T : PcbId → Option (List PcbId)}
    (h : TreeRep l a T) (hchild : a'.child = a.child) (hfree : ∀ r ∈ a.free, r ∈ a'.free) :
    TreeRep l a' T where
  family := h.family
  child r xs hT := by rw [hchild]; exact h.child r xs hT
  uninit r hT := ⟨hfree r (h.uninit r hT).1, (h.uninit r hT).2⟩

theorem absent_of_occ (h : a.occ p = 0) : Absent (listQ a) p ∧ ∀ s, p ∉ a.asl.get s := by
  obtain ⟨hf, hr, hb⟩ := Lists.occ_eq_zero.mp h
  refine ⟨fun h xs hQ => ?_, hb⟩
  cases h <;> simp only [listQ, reduceCtorEq, Option.some.injEq] at hQ <;> subst hQ
  exacts [hf, hr .high, hr .low]

theorem aslQ_absent {act : List SemdId} {key : SemdId → Word} (h : a.occ p = 0) :
    Absent (aslQ (listQ a) key a.asl act) p :=
  AslRep.absent (absent_of_occ h).1 (absent_of_occ h).2

theorem listQ_head (a : Lists) (q : Queue) {act : List SemdId} {key : SemdId → Word} :
    aslQ (listQ a) key a.asl act q.head = some (a.ready q) := by
  cases q <;> rfl

/-- The semaphore lists stay where only the process queues change. -/
theorem AslRep.setProcs {base base' : PHead → Option (List PcbId)} {m : QueueMap Word PcbId}
    {act idle : List SemdId} (h : AslRep d base m act idle) {l : Links (Node PHead PcbId)}
    (hf : Family l (aslQ base' d.sKey m act)) :
    AslRep { d with procs := l } base' m act idle := ⟨hf, h.semds, h.perm, h.keys⟩

section Corres

/-- Correspondence from two weakest preconditions, one inside the other. -/
theorem corres_of_wp {α : Type} {R : Kernel Heap → Kernel Lists → Prop} {m : KM Heap α}
    {m' : KM Lists α} (h : ∀ k k', R k k' →
      wp m' (fun a t => wp m (fun b s => b = a ∧ R s t) noExit k) (fun e _ => isMisuse e) k') :
    Corres R isMisuse m m' := by
  intro k k' hs
  rcases wp_elim (h k k' hs) with ⟨a, t, ht, hm⟩ | ⟨e, t, ht, he⟩
  · rw [ht]
    rcases wp_elim hm with ⟨b, s, hs, rfl, hst⟩ | ⟨_, _, _, hf⟩
    · exact ⟨s, hs, hst⟩
    · exact hf.elim
  · rw [ht]
    exact .inl he

theorem corres_isAlive (p : PcbId) : Corres Sim isMisuse (Heap.isAlive p) (Lists.isAlive p) := by
  refine corres_of_wp fun k k' hs => ?_
  obtain ⟨act, idle, hasl, -⟩ := hs.rep.queues
  have hring := hasl.procs.ring (h := .pcbFreeH) rfl
  have hnd := k'.lists.view_wf.free_nodup
  simp only [Lists.isAlive, Heap.isAlive, wp_bind, wp_get, wp_pure,
    Heap.listForEach_eq hring (Heap.length_lt_walkFuel hnd), hs.globals]
  refine ⟨?_, hs⟩
  rw [Bool.eq_iff_iff, Option.isNone_iff_eq_none, List.find?_eq_none]
  simp

theorem corres_emptyProcQ (q : Queue) :
    Corres Sim isMisuse (Heap.emptyProcQ q.head) (Lists.emptyProcQ q) := by
  refine corres_of_wp fun k k' hs => ?_
  obtain ⟨act, idle, hasl, -⟩ := hs.rep.queues
  simp only [Lists.emptyProcQ, wp_bind, wp_get, wp_pure]
  rw [Heap.wp_emptyProcQ hasl.procs (listQ_head _ q)]
  exact ⟨rfl, hs⟩

theorem corres_insertProcQ (q : Queue) (p : PcbId) :
    Corres Sim isMisuse (Heap.insertProcQ q.head p) (Lists.insertProcQ q p) := by
  refine corres_of_wp fun k k' hs => ?_
  obtain ⟨⟨⟨act, idle, hasl, hself⟩, T, hT⟩, hg⟩ := hs
  simp only [Lists.insertProcQ, wp_bind, wp_get]
  split
  · next hocc =>
    rw [wp_set]
    refine wp_post (Heap.insertProcQ_spec hasl.procs (listQ_head _ q) (aslQ_absent hocc)) ?_
    rintro _ s ⟨heq, hf, hs⟩
    refine ⟨trivial, ?_⟩
    have hQ : Function.update (aslQ (listQ k'.lists) k.lists.sKey k'.lists.asl act) q.head
        (some (k'.lists.ready q ++ [p])) =
        aslQ (listQ (k'.lists.pushReady q p hocc)) k.lists.sKey k'.lists.asl act := by
      funext h; cases q <;> cases h <;> rfl
    rw [hQ] at hf hs
    rw [heq]
    exact ⟨⟨⟨act, idle, hasl.setProcs hf, hs hself⟩, T, hT.congr rfl fun _ => id⟩, hg⟩
  · rw [wp_throw]; rfl

theorem corres_removeProcQ (q : Queue) :
    Corres Sim isMisuse (Heap.removeProcQ q.head) (Lists.removeProcQ q) := by
  refine corres_of_wp fun k k' hs => ?_
  obtain ⟨⟨⟨act, idle, hasl, hself⟩, T, hT⟩, hg⟩ := id hs
  simp only [Lists.removeProcQ, wp_bind, wp_get]
  have hspec := Heap.removeProcQ_spec (E := noExit) hasl.procs (listQ_head k'.lists q)
  cases hq : k'.lists.ready q with
  | nil =>
    rw [wp_pure]
    refine wp_post hspec ?_
    rintro _ s ⟨hr, hk, _⟩
    exact ⟨by rw [hr, hq]; rfl, hk hq ▸ hs⟩
  | cons p ps =>
    simp only [wp_bind, wp_set, wp_pure]
    refine wp_post hspec ?_
    rintro _ s ⟨hr, _, hk⟩
    refine ⟨by rw [hr, hq]; rfl, ?_⟩
    obtain ⟨⟨heq, hf, hs⟩, -⟩ := hk p ps hq
    have hQ : Function.update (aslQ (listQ k'.lists) k.lists.sKey k'.lists.asl act) q.head
        (some ps) = aslQ (listQ (k'.lists.popReady q)) k.lists.sKey k'.lists.asl act := by
      have htail : ps = (k'.lists.ready q).tail := by rw [hq]; rfl
      rw [htail]
      funext h; cases q <;> cases h <;> rfl
    rw [hQ] at hf hs
    rw [heq]
    exact ⟨⟨⟨act, idle, hasl.setProcs hf, hs hself⟩, T, hT.congr rfl fun _ => id⟩, hg⟩

theorem corres_outProcQ (q : Queue) (p : PcbId) :
    Corres Sim isMisuse (Heap.outProcQ q.head p) (Lists.outProcQ q p) := by
  refine corres_of_wp fun k k' hs => ?_
  obtain ⟨⟨⟨act, idle, hasl, hself⟩, T, hT⟩, hg⟩ := id hs
  simp only [Lists.outProcQ, wp_bind, wp_get]
  have hspec := Heap.outProcQ_spec (E := noExit) (p := p) hasl.procs (listQ_head k'.lists q)
  split
  · next hp =>
    simp only [hp, if_true] at hspec
    simp only [wp_bind, wp_set, wp_pure]
    refine wp_post hspec ?_
    rintro _ s ⟨hr, ⟨heq, hf, hs⟩, _⟩
    refine ⟨hr, ?_⟩
    have hQ : Function.update (aslQ (listQ k'.lists) k.lists.sKey k'.lists.asl act) q.head
        (some ((k'.lists.ready q).erase p)) =
        aslQ (listQ (k'.lists.eraseReady q p)) k.lists.sKey k'.lists.asl act := by
      funext h; cases q <;> cases h <;> rfl
    rw [hQ] at hf hs
    rw [heq]
    exact ⟨⟨⟨act, idle, hasl.setProcs hf, hs hself⟩, T, hT.congr rfl fun _ => id⟩, hg⟩
  · next hp =>
    simp only [hp, if_false] at hspec
    rw [wp_pure]
    refine wp_post hspec ?_
    rintro _ s ⟨hr, hk⟩
    exact ⟨hr, hk ▸ hs⟩

theorem corres_unlinkProc (p : PcbId) :
    Corres Sim isMisuse (Heap.unlinkProc p) (Lists.unlinkProc p) := by
  refine corres_of_wp fun k k' hs => ?_
  obtain ⟨⟨⟨act, idle, hasl, hself⟩, T, hT⟩, hg⟩ := id hs
  simp only [Lists.unlinkProc, wp_bind, wp_get]
  split
  · next hocc =>
    have hempty : listEmpty (.elem p) k.lists.procs = true :=
      decide_eq_true (hself p (aslQ_absent hocc))
    simp only [Heap.unlinkProc, wp_pure, wp_bind, wp_get, hempty, if_true, true_and]
    exact hs
  · rw [wp_throw]; rfl

theorem corres_freePcb (p : PcbId) : Corres Sim isMisuse (Heap.freePcb p) (Lists.freePcb p) := by
  refine corres_of_wp fun k k' hs => ?_
  obtain ⟨⟨⟨act, idle, hasl, hself⟩, T, hT⟩, hg⟩ := hs
  simp only [Lists.freePcb, wp_bind, wp_get]
  split
  · next h =>
    rw [wp_set]
    refine wp_post (Heap.freePcb_spec hasl.procs rfl (aslQ_absent h.1)) ?_
    rintro _ s ⟨hg', heq, hf, hs⟩
    refine ⟨trivial, ?_⟩
    have hQ : Function.update (aslQ (listQ k'.lists) k.lists.sKey k'.lists.asl act) .pcbFreeH
        (some (p :: k'.lists.free)) =
        aslQ (listQ (k'.lists.pushFree p h.1 h.2.1 h.2.2)) k.lists.sKey k'.lists.asl act := by
      funext h; cases h <;> rfl
    rw [hQ] at hf hs
    refine ⟨?_, hg'.trans (by rw [hg])⟩
    rw [heq]
    exact ⟨⟨act, idle, hasl.setProcs hf, hs hself⟩, T,
      hT.congr rfl fun _ => List.mem_cons_of_mem p⟩
  · rw [wp_throw]; rfl

theorem corres_allocPcb : Corres Sim isMisuse Heap.allocPcb Lists.allocPcb := by
  refine corres_of_wp fun k k' hs => ?_
  obtain ⟨⟨⟨act, idle, hasl, hself⟩, T, hT⟩, hg⟩ := id hs
  simp only [Lists.allocPcb, wp_bind, wp_get]
  have hspec := Heap.allocPcb_spec hasl.procs rfl hT.family
    fun p hp => hT.absent (k'.lists.leaf p hp).2
  cases hf : k'.lists.free with
  | nil =>
    rw [wp_pure]
    refine wp_post hspec ?_
    rintro _ s ⟨hr, hk, _⟩
    exact ⟨by rw [hr, hf]; rfl, hk hf ▸ hs⟩
  | cons p ps =>
    simp only [wp_bind, wp_set, wp_pure]
    refine wp_post hspec ?_
    rintro _ s ⟨hr, _, hk⟩
    refine ⟨by rw [hr, hf]; rfl, ?_⟩
    obtain ⟨lp, lt, heq, hfam, hs, hto⟩ := hk p ps hf
    have hQ : Function.update (aslQ (listQ k'.lists) k.lists.sKey k'.lists.asl act) .pcbFreeH
        (some ps) = aslQ (listQ k'.lists.popFree) k.lists.sKey k'.lists.asl act := by
      have htail : ps = k'.lists.free.tail := by rw [hf]; rfl
      rw [htail]
      funext h; cases h <;> rfl
    rw [hQ] at hfam hs
    have hp : p ∈ k'.lists.free := by rw [hf]; exact List.mem_cons_self
    have hnil : k'.lists.child p = [] := (k'.lists.leaf p hp).1
    have hupd : k'.lists.popFree.child = Function.update k'.lists.child p [] := by
      rw [← hnil, Function.update_eq_self]
      rfl
    refine ⟨?_, ?_⟩
    · rw [heq]
      refine ⟨⟨act, idle, ⟨hfam, hasl.semds, hasl.perm, hasl.keys⟩, hs hself⟩, _,
        hT.update hto hupd fun r hr hrp => ?_⟩
      change r ∈ k'.lists.free.tail
      rw [hf, List.mem_cons] at hr
      rw [hf]
      exact hr.resolve_left hrp
    · rw [heq]
      change k.g.setPcb p _ = _
      rw [hg]
      rfl

theorem corres_insertChild (q p : PcbId) :
    Corres Sim isMisuse (Heap.insertChild q p) (Lists.insertChild q p) := by
  refine corres_of_wp fun k k' hs => ?_
  obtain ⟨⟨⟨act, idle, hasl, hself⟩, T, hT⟩, hg⟩ := hs
  simp only [Lists.insertChild, wp_bind, wp_get]
  split
  · next h =>
    rw [wp_set]
    refine wp_post (Heap.insertChild_spec hT.family (hT.of_live h.2.1) (hT.absent h.1)) ?_
    rintro _ s ⟨l, heq, hto⟩
    refine ⟨trivial, ?_⟩
    rw [heq]
    refine ⟨⟨⟨act, idle, ⟨hasl.procs, hasl.semds, hasl.perm, hasl.keys⟩, hself⟩, _,
      hT.update hto rfl fun _ hr _ => hr⟩, ?_⟩
    simp only [Heap.setTree_g, mapG_g, hg]
  · rw [wp_throw]; rfl

/-- A child is taken out of the list of its parent. -/
theorem eraseChild_eq (a : Lists) {p q : PcbId} (hp : p ∈ a.child q) :
    (a.eraseChild p).child = Function.update a.child q ((a.child q).erase p) := by
  funext r
  change (a.child r).erase p = _
  rw [Function.update_apply]
  split
  · next e => rw [e]
  · next e => rw [List.erase_of_not_mem fun hr => e (a.parent p r q hr hp)]

theorem corres_removeChild (q : PcbId) :
    Corres Sim isMisuse (Heap.removeChild q) (Lists.removeChild q) := by
  refine corres_of_wp fun k k' hs => ?_
  obtain ⟨⟨⟨act, idle, hasl, hself⟩, T, hT⟩, hg⟩ := id hs
  simp only [Lists.removeChild, wp_bind, wp_get]
  split
  · rw [wp_throw]; rfl
  · next hq =>
    have hspec := Heap.removeChild_spec (E := noExit) hT.family (hT.of_live hq)
    cases hc : k'.lists.child q with
    | nil =>
      rw [wp_pure]
      refine wp_post hspec ?_
      rintro _ s ⟨hr, hk, _⟩
      exact ⟨by rw [hr, hc]; rfl, hk hc ▸ hs⟩
    | cons c cs =>
      simp only [wp_bind, wp_set, wp_pure]
      refine wp_post hspec ?_
      rintro _ s ⟨hr, _, hk⟩
      refine ⟨by rw [hr, hc]; rfl, ?_⟩
      obtain ⟨l, heq, hto⟩ := hk c cs hc
      have hupd := eraseChild_eq k'.lists (p := c) (q := q) (by rw [hc]; exact List.mem_cons_self)
      rw [hc, List.erase_cons_head] at hupd
      rw [heq]
      refine ⟨⟨⟨act, idle, ⟨hasl.procs, hasl.semds, hasl.perm, hasl.keys⟩, hself⟩, _,
        hT.update hto hupd fun _ hr _ => hr⟩, ?_⟩
      simp only [Heap.setTree_g, mapG_g, hg]

theorem corres_outChild (p : PcbId) :
    Corres Sim isMisuse (Heap.outChild p) (Lists.outChild p) := by
  refine corres_of_wp fun k k' hs => ?_
  obtain ⟨⟨⟨act, idle, hasl, hself⟩, T, hT⟩, hg⟩ := id hs
  simp only [Lists.outChild, wp_bind, wp_get]
  split
  · next hpar =>
    have hpar' : (k.g.pcb p).pParent = none := by rw [hg]; exact hpar
    simp only [Heap.outChild, wp_pure, wp_bind, wp_getG, hpar', if_true, true_and]
    exact hs
  · next hpar =>
    split
    · next hex =>
      obtain ⟨q, hq⟩ := hex
      have hqf : q ∉ k'.lists.free := fun hm => by
        rw [(k'.lists.leaf q hm).1] at hq
        cases hq
      simp only [wp_bind, wp_set, wp_pure]
      refine wp_post
        (Heap.outChild_spec hT.family (hT.of_live hqf) hq (by rw [hg]; exact hpar)) ?_
      rintro _ s ⟨hr, l, heq, hto⟩
      refine ⟨hr, ?_⟩
      rw [heq]
      refine ⟨⟨⟨act, idle, ⟨hasl.procs, hasl.semds, hasl.perm, hasl.keys⟩, hself⟩, _,
        hT.update hto (eraseChild_eq k'.lists hq) fun _ hr _ => hr⟩, ?_⟩
      simp only [Heap.setTree_g, mapG_g, hg]
    · rw [wp_throw]; rfl

/-- The semaphore lists have changed; the rest of the abstract lists has not. -/
theorem Rep.setAsl {act : List SemdId} {T : PcbId → Option (List PcbId)}
    (hself : SelfLinked d.procs (aslQ (listQ a) d.sKey a.asl act)) (hT : TreeRep d.tree a T)
    (hto : AslTo d d' (listQ a) a.asl a'.asl act) (hlists : listQ a' = listQ a)
    (hchild : a'.child = a.child) : Rep d' a' := by
  obtain ⟨htree, act', idle', hrep, -, hs⟩ := hto
  have hfree : a'.free = a.free := Option.some.inj (congrFun hlists .pcbFreeH)
  refine ⟨⟨act', idle', ?_, ?_⟩, T, ?_⟩
  · rw [hlists]; exact hrep
  · rw [hlists]; exact hs hself
  · rw [htree]; exact hT.congr hchild fun _ => by rw [hfree]; exact id

theorem corres_insertBlocked (s : Word) (p : PcbId) :
    Corres Sim isMisuse (Heap.insertBlocked s p) (Lists.insertBlocked s p) := by
  refine corres_of_wp fun k k' hs => ?_
  obtain ⟨⟨⟨act, idle, hasl, hself⟩, T, hT⟩, hg⟩ := id hs
  simp only [Lists.insertBlocked, wp_bind, wp_get]
  split
  · next hfull =>
    rw [wp_pure]
    refine wp_post (Heap.insertBlocked_full hasl hfull) ?_
    rintro _ t ⟨hr, hk⟩
    exact ⟨hr, hk ▸ hs⟩
  · next hfull =>
    split
    · next hocc =>
      obtain ⟨hbase, hm⟩ := absent_of_occ hocc
      have hspec := Heap.insertBlocked_spec (s := s) hasl hbase hm
      simp only [hfull, if_false] at hspec
      simp only [wp_bind, wp_set, wp_pure]
      refine wp_post hspec ?_
      rintro _ t ⟨hr, hk, hg'⟩
      exact ⟨hr, Rep.setAsl hself hT hk rfl rfl, hg'.trans (by rw [hg])⟩
    · rw [wp_throw]; rfl

theorem corres_removeBlocked (s : Word) :
    Corres Sim isMisuse (Heap.removeBlocked s) (Lists.removeBlocked s) := by
  refine corres_of_wp fun k k' hs => ?_
  obtain ⟨⟨⟨act, idle, hasl, hself⟩, T, hT⟩, hg⟩ := id hs
  simp only [Lists.removeBlocked, wp_bind, wp_get]
  have hspec := Heap.removeBlocked_spec (s := s) hasl
  split
  · next hnil =>
    rw [wp_pure]
    refine wp_post hspec ?_
    rintro _ t ⟨hr, hk⟩
    rw [hnil] at hr hk
    exact ⟨hr, hk ▸ hs⟩
  · next p ps hq =>
    simp only [wp_bind, wp_set, wp_pure]
    refine wp_post hspec ?_
    rintro _ t ⟨hr, hk⟩
    rw [hq] at hr hk
    exact ⟨hr, Rep.setAsl hself hT hk.1 rfl rfl, hk.2.trans (by rw [hg])⟩

/-- The two nuclei, with no active descriptors but those of `A`. -/
structure SimWithin (A : List SemdId) (k : Kernel Heap) (k' : Kernel Lists) : Prop
    extends Sim k k' where
  active : ∀ t ∈ k.lists.active, t ∈ A

/-- Taking a PCB out of its queue makes no descriptor active. -/
theorem corres_outBlocked_within (A : List SemdId) (p : PcbId) :
    Corres (SimWithin A) isMisuse (Heap.outBlocked p) (Lists.outBlocked p) := by
  refine corres_of_wp fun k k' hs => ?_
  obtain ⟨⟨⟨⟨act, idle, hasl, hself⟩, T, hT⟩, hg⟩, hA⟩ := id hs
  rw [hasl.active] at hA
  simp only [Lists.outBlocked, wp_bind, wp_get]
  have hspec := Heap.outBlocked_spec (p := p) hasl
  simp only [hg] at hspec
  split
  · next hnil =>
    simp only [hnil, if_true] at hspec
    rw [wp_pure]
    refine wp_post hspec ?_
    rintro _ t ⟨hr, hk⟩
    exact ⟨hr, hk ▸ hs⟩
  · next hnil =>
    simp only [hnil, if_false] at hspec
    split
    · next hp =>
      simp only [hp, if_true] at hspec
      simp only [wp_bind, wp_set, wp_pure]
      refine wp_post hspec ?_
      rintro _ t ⟨hr, hk, hg'⟩
      refine ⟨hr, ⟨Rep.setAsl hself hT hk rfl rfl, hg'⟩, fun t' ht' => ?_⟩
      obtain ⟨act', idle', hasl', hact, -⟩ := hk.rep
      rw [hasl'.active] at ht'
      refine hA t' ((hact t' ht').resolve_right fun hkey => ?_)
      have hkeys : (k'.g.pcb p).pSemAdd ∈ k'.lists.asl.keys := by
        by_contra hc
        rw [(QueueMap.get_eq_nil_iff _ _).mpr hc] at hp
        cases hp
      have hne := fun hnil => (QueueMap.get_eq_nil_iff _ _).mp hnil (hasl'.mem_keys ht')
      rw [QueueMap.get_erase hkeys] at hne
      split at hne
      · next e => rw [e] at hkey; rw [hkey] at hp; cases hp
      · exact hne hkey
    · next hp =>
      simp only [hp, if_false] at hspec
      simp only [wp_bind, wp_set, wp_pure]
      refine wp_post hspec ?_
      rintro _ t ⟨hr, hk, hg'⟩
      exact ⟨hr, ⟨by rw [hk]; exact hs.rep, hg'⟩, by rw [hk]; exact hs.active⟩

theorem corres_outBlocked (p : PcbId) :
    Corres Sim isMisuse (Heap.outBlocked p) (Lists.outBlocked p) :=
  (corres_outBlocked_within (List.finRange MAXPROC) p).congr fun _ _ =>
    ⟨fun h => h.toSim, fun h => ⟨h, fun t _ => List.mem_finRange t⟩⟩

end Corres

theorem Sim.mapG (h : Sim k k') (f : Globals → Globals) : Sim (k.mapG f) (k'.mapG f) :=
  ⟨h.rep, congrArg f h.globals⟩

instance : TableRel Sim where
  globals h := h.globals
  mapG h f := h.mapG f
  freePcb := corres_freePcb
  outProcQ := corres_outProcQ
  removeChild := corres_removeChild
  outChild := corres_outChild
  outBlocked := corres_outBlocked
  isAlive := corres_isAlive
  allocPcb := corres_allocPcb
  emptyProcQ := corres_emptyProcQ
  insertProcQ := corres_insertProcQ
  removeProcQ := corres_removeProcQ
  insertChild := corres_insertChild
  insertBlocked := corres_insertBlocked
  removeBlocked := corres_removeBlocked
  unlinkProc := corres_unlinkProc

end Rocm
