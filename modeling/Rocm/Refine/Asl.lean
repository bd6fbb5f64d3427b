import Rocm.Refine.Queues

/-!
# The active semaphore list (`asl.c`) as a finite map

`AslRep` says that the active descriptors hold a map from semaphore keys to non-empty queues,
and that the others are on the free list. Each function of `asl.c` does on the links what the
map operation does.
-/

namespace Rocm

open Ring Prog

/-- The process queues: those of the active descriptors, and others. -/
def aslQ (base : PHead → Option (List PcbId)) (key : SemdId → Word) (m : QueueMap Word PcbId)
    (act : List SemdId) : PHead → Option (List PcbId)
  | .sProcq s => if s ∈ act then some (m.get (key s)) else none
  | h => base h

/-- The two lists of descriptors. -/
def semdQ (act idle : List SemdId) : SHead → Option (List SemdId)
  | .semdH => some act
  | .semdFreeH => some idle

/-- The links hold the map `m`, with the active descriptors `act` and the free ones `idle`. -/
structure AslRep (d : Heap) (base : PHead → Option (List PcbId)) (m : QueueMap Word PcbId)
    (act idle : List SemdId) : Prop where
  procs : Family d.procs (aslQ base d.sKey m act)
  semds : Family d.semds (semdQ act idle)
  perm : (act ++ idle).Perm (List.finRange MAXPROC)
  keys : act.map d.sKey = m.keys

/-- From `d` to `d'` the map changes from `m` to `m'`, and the children do not. A descriptor that
    becomes active gets a key that was absent. -/
structure AslTo (d d' : Heap) (base : PHead → Option (List PcbId)) (m m' : QueueMap Word PcbId)
    (act : List SemdId) : Prop where
  tree : d'.tree = d.tree
  rep : ∃ act' idle', AslRep d' base m' act' idle' ∧
    (∀ t ∈ act', t ∈ act ∨ m.get (d'.sKey t) = []) ∧
    (SelfLinked d.procs (aslQ base d.sKey m act) →
      SelfLinked d'.procs (aslQ base d'.sKey m' act'))

namespace AslRep

variable {d : Heap} {base : PHead → Option (List PcbId)} {m : QueueMap Word PcbId}
  {act idle : List SemdId} {s t : SemdId} {k : Word}

theorem nodup (hr : AslRep d base m act idle) : (act ++ idle).Nodup :=
  hr.perm.nodup_iff.mpr (List.nodup_finRange MAXPROC)

theorem act_nodup (hr : AslRep d base m act idle) : act.Nodup :=
  (List.nodup_append.mp hr.nodup).1

theorem size_add (hr : AslRep d base m act idle) : m.size + idle.length = MAXPROC := by
  have hlen := hr.perm.length_eq
  rw [List.length_append, List.length_finRange] at hlen
  have hsize : m.size = act.length := by
    have := congrArg List.length hr.keys
    rw [List.length_map] at this
    rw [this, QueueMap.keys, List.length_map]
    rfl
  omega

/-- Active descriptors have different keys. -/
theorem key_inj (hr : AslRep d base m act idle) (hs : s ∈ act) (ht : t ∈ act)
    (h : d.sKey s = d.sKey t) : s = t := by
  have hnd : (act.map d.sKey).Nodup := by rw [hr.keys]; exact m.keys_nodup
  exact List.inj_on_of_nodup_map hnd hs ht h

theorem mem_keys (hr : AslRep d base m act idle) (hs : s ∈ act) : d.sKey s ∈ m.keys := by
  rw [← hr.keys]
  exact List.mem_map_of_mem hs

theorem aslQ_of_mem (hs : s ∈ act) :
    aslQ base d.sKey m act (.sProcq s) = some (m.get (d.sKey s)) := if_pos hs

/-- `get_semd` finds the descriptor of a key that is active. -/
theorem find_semd (hr : AslRep d base m act idle) (k : Word) :
    (act.find? (fun tmp => d.sKey tmp = k) = none ∧ k ∉ m.keys) ∨
    ∃ s, act.find? (fun tmp => d.sKey tmp = k) = some s ∧ s ∈ act ∧ d.sKey s = k := by
  cases hfind : act.find? (fun tmp => d.sKey tmp = k) with
  | none =>
    refine .inl ⟨rfl, fun hk => ?_⟩
    rw [← hr.keys] at hk
    obtain ⟨s, hs, hks⟩ := List.mem_map.mp hk
    exact List.find?_eq_none.mp hfind s hs (decide_eq_true hks)
  | some s =>
    exact .inr ⟨s, rfl, List.mem_of_find?_eq_some hfind,
      of_decide_eq_true (List.find?_some (p := fun tmp => decide (d.sKey tmp = k)) hfind)⟩

/-- A PCB that is in no queue. -/
theorem absent {p : PcbId} {key : SemdId → Word} (hbase : Absent base p)
    (hm : ∀ k, p ∉ m.get k) : Absent (aslQ base key m act) p := by
  intro h ys hQ
  cases h with
  | sProcq s =>
    simp only [aslQ, Option.ite_none_right_eq_some, Option.some.injEq] at hQ
    rw [← hQ.2]
    exact hm _
  | _ => exact hbase _ ys hQ

/-- The queue of an active descriptor is replaced by a non-empty one. -/
theorem update_queue (hr : AslRep d base m act idle) (hs : s ∈ act) {m' : QueueMap Word PcbId}
    {q : List PcbId} (hget : ∀ k, m'.get k = if k = d.sKey s then q else m.get k) :
    Function.update (aslQ base d.sKey m act) (.sProcq s) (some q) = aslQ base d.sKey m' act := by
  funext h
  cases h with
  | sProcq t =>
    by_cases e : t = s
    · subst e
      rw [Function.update_self, aslQ, if_pos hs, hget, if_pos rfl]
    · rw [Function.update_of_ne (by simpa using e)]
      simp only [aslQ, hget]
      split
      · next ht => rw [if_neg fun hk => e (hr.key_inj ht hs hk)]
      · rfl
  | _ => rw [Function.update_of_ne (by simp)]; rfl

end AslRep

/-- The nucleus with another key for a descriptor. -/
def Kernel.setKey (k : Kernel Heap) (t : SemdId) (s : Word) : Kernel Heap :=
  { k with lists := { k.lists with sKey := Function.update k.lists.sKey t s } }

/-! ## What a walk along the links meets -/

/-- The active and the free semaphore descriptors. -/
def Heap.active (d : Heap) : List SemdId := Heap.elems d.semds .semdH
def Heap.idle (d : Heap) : List SemdId := Heap.elems d.semds .semdFreeH

/-- The queue of a semaphore descriptor. -/
def Heap.queue (d : Heap) (t : SemdId) : List PcbId := Heap.elems d.procs (.sProcq t)

namespace AslRep

variable {d : Heap} {base : PHead → Option (List PcbId)} {m : QueueMap Word PcbId}
  {act idle : List SemdId}

theorem elems_procs (hr : AslRep d base m act idle) {h : PHead} {xs : List PcbId}
    (hQ : aslQ base d.sKey m act h = some xs) : Heap.elems d.procs h = xs := by
  have hring := hr.procs.ring hQ
  refine Heap.elems_eq hring (Heap.length_lt_walkFuel ?_)
  exact (List.nodup_map_iff (fun _ _ => Node.elem.inj)).mp (List.nodup_cons.mp hring.nodup).2

theorem active (hr : AslRep d base m act idle) : d.active = act :=
  Heap.elems_eq (hr.semds.ring (h := .semdH) rfl) (Heap.length_lt_walkFuel hr.act_nodup)

theorem idle_eq (hr : AslRep d base m act idle) : d.idle = idle :=
  Heap.elems_eq (hr.semds.ring (h := .semdFreeH) rfl)
    (Heap.length_lt_walkFuel (List.nodup_append.mp hr.nodup).2.1)

theorem queue (hr : AslRep d base m act idle) {t : SemdId} (ht : t ∈ act) :
    d.queue t = m.get (d.sKey t) := hr.elems_procs (aslQ_of_mem ht)

theorem blocked (hr : AslRep d base m act idle) : d.blocked = m.get := by
  funext s
  have hactive : Heap.elems d.semds .semdH = act := hr.active
  unfold Heap.blocked
  rw [hactive]
  rcases hr.find_semd s with ⟨hfind, hs⟩ | ⟨t, hfind, ht, hts⟩
  · rw [hfind, (m.get_eq_nil_iff s).mpr hs]
  · rw [hfind, ← hts]
    exact hr.queue ht

end AslRep

namespace Heap

variable {k : Kernel Heap} {E : Exit → Kernel Heap → Prop}
  {base : PHead → Option (List PcbId)} {m : QueueMap Word PcbId} {act idle : List SemdId}
  {p : PcbId} {s : Word}

theorem wp_getSemd {P : Option SemdId → Kernel Heap → Prop} (hr : AslRep k.lists base m act idle)
    (s : Word) :
    wp (getSemd s) P E k = P (act.find? fun tmp => k.lists.sKey tmp = s) k := by
  have hring := hr.semds.ring (h := .semdH) rfl
  simp only [getSemd, wp_bind, wp_get,
    listForEach_eq hring (length_lt_walkFuel hr.act_nodup), wp_pure]

/-- A descriptor moves from one list to the front of the other. -/
theorem moveSemd_front {l : Links (Node SHead SemdId)} {Q : SHead → Option (List SemdId)}
    (h h' : SHead) {t : SemdId} {xs ys zs : List SemdId} (hf : Family l Q)
    (hQ : Q h = some (xs ++ t :: ys)) (hQ' : Q h' = some zs) (hne : h' ≠ h) :
    ∃ l1 l2, listDel (.elem t) l = some l1 ∧ listAdd (.elem t) (.head h') l1 = some l2 ∧
      Family l2 (Function.update (Function.update Q h (some (xs ++ ys))) h' (some (t :: zs))) := by
  have hring := hf.ring hQ
  rw [List.map_append, List.map_cons] at hring
  have hf1 := hf.remove hQ
  have hQ1 : Function.update Q h (some (xs ++ ys)) h' = some zs := by
    rw [Function.update_of_ne hne, hQ']
  exact ⟨_, _, listDel_eq hring, listAdd_eq (hf1.ring hQ1),
    hf1.push_front hQ1 (hf.absent_remove hQ)⟩

/-- A descriptor moves from one list to the end of the other. -/
theorem moveSemd_back {l : Links (Node SHead SemdId)} {Q : SHead → Option (List SemdId)}
    (h h' : SHead) {t : SemdId} {xs ys zs : List SemdId} (hf : Family l Q)
    (hQ : Q h = some (xs ++ t :: ys)) (hQ' : Q h' = some zs) (hne : h' ≠ h) :
    ∃ l1 l2, listDel (.elem t) l = some l1 ∧ listAddTail (.elem t) (.head h') l1 = some l2 ∧
      Family l2 (Function.update (Function.update Q h (some (xs ++ ys))) h' (some (zs ++ [t]))) := by
  have hring := hf.ring hQ
  rw [List.map_append, List.map_cons] at hring
  have hf1 := hf.remove hQ
  have hQ1 : Function.update Q h (some (xs ++ ys)) h' = some zs := by
    rw [Function.update_of_ne hne, hQ']
  exact ⟨_, _, listDel_eq hring, listAddTail_eq (hf1.ring hQ1),
    hf1.push_back hQ1 (hf.absent_remove hQ)⟩

theorem semdQ_activate {t : SemdId} {ts : List SemdId} :
    Function.update (Function.update (semdQ act (t :: ts)) .semdFreeH (some ts)) .semdH
      (some (t :: act)) = semdQ (t :: act) ts := by
  funext h
  cases h <;> rfl

theorem semdQ_release {act' idle' : List SemdId} :
    Function.update (Function.update (semdQ act idle) .semdH (some act')) .semdFreeH
      (some idle') = semdQ act' idle' := by
  funext h
  cases h <;> rfl

/-- The queue of an active descriptor is replaced by a non-empty one. -/
theorem AslTo.queue {k' : Kernel Heap} {t : SemdId} {m' : QueueMap Word PcbId} {q : List PcbId}
    (hr : AslRep k.lists base m act idle) (ht : t ∈ act)
    (hto : ProcsTo k k' (aslQ base k.lists.sKey m act)
      (Function.update (aslQ base k.lists.sKey m act) (.sProcq t) (some q)))
    (hget : ∀ s, m'.get s = if s = k.lists.sKey t then q else m.get s)
    (hkeys : m'.keys = m.keys) : AslTo k.lists k'.lists base m m' act := by
  obtain ⟨heq, hfam, hself⟩ := hto
  rw [hr.update_queue ht hget] at hfam hself
  rw [heq] at hfam hself ⊢
  exact ⟨rfl, act, idle, ⟨hfam, hr.semds, hr.perm, hr.keys.trans hkeys.symm⟩, fun _ => .inl, hself⟩

/-- A new key with its first PCB. -/
theorem aslQ_activate {d : Heap} {t : SemdId} (hr : AslRep d base m act idle) (ht : t ∉ act)
    (hs : s ∉ m.keys) :
    Function.update (Function.update (aslQ base d.sKey m act) (.sProcq t) (some []))
      (.sProcq t) (some [p]) =
        aslQ base (Function.update d.sKey t s) (m.push s p) (t :: act) := by
  rw [Function.update_idem]
  funext h
  cases h with
  | sProcq t' =>
    by_cases e : t' = t
    · subst e
      rw [Function.update_self, aslQ, if_pos List.mem_cons_self, Function.update_self,
        QueueMap.get_push, if_pos rfl, (m.get_eq_nil_iff s).mpr hs]
      rfl
    · rw [Function.update_of_ne (by simpa using e)]
      simp only [aslQ, List.mem_cons, e, false_or, ne_eq, not_false_eq_true,
        Function.update_of_ne]
      split
      · next ht' =>
        have hne : d.sKey t' ≠ s := fun hk => hs (hk ▸ hr.mem_keys ht')
        rw [QueueMap.get_push, if_neg hne]
      · rfl
  | _ => rw [Function.update_of_ne (by simp)]; rfl

/-- A new key, and no free descriptor. -/
theorem insertBlocked_full (hr : AslRep k.lists base m act idle)
    (hfull : m.get s = [] ∧ MAXPROC ≤ m.size) :
    wp (insertBlocked s p) (fun r k' => r = true ∧ k' = k) noExit k := by
  have hs := (m.get_eq_nil_iff s).mp hfull.1
  have hidle : idle = [] := List.length_eq_zero_iff.mp (by have := hr.size_add; omega)
  have hempty := listEmpty_eq (hr.semds.ring (h := .semdFreeH) rfl)
  rw [List.isEmpty_map, hidle] at hempty
  rw [insertBlocked, wp_bind, wp_getSemd hr]
  rcases hr.find_semd s with ⟨hfind, -⟩ | ⟨t, -, ht, hts⟩
  · rw [hfind]
    simp only [wp_bind, wp_get, hempty, List.isEmpty_nil, if_true, wp_pure, and_self]
  · exact absurd (hr.mem_keys ht) (hts ▸ hs)

theorem insertBlocked_spec (hr : AslRep k.lists base m act idle) (hbase : Absent base p)
    (hm : ∀ k, p ∉ m.get k) :
    wp (insertBlocked s p) (fun r k' => if m.get s = [] ∧ MAXPROC ≤ m.size
      then r = true ∧ k' = k
      else r = false ∧ AslTo k.lists k'.lists base m (m.push s p) act ∧
        k'.g = k.g.setPcb p fun c => { c with pSemAdd := s }) noExit k := by
  have hp : Absent (aslQ base k.lists.sKey m act) p := AslRep.absent hbase hm
  by_cases hfull : m.get s = [] ∧ MAXPROC ≤ m.size
  · simp only [hfull.1, hfull.2, and_self, if_true]
    exact insertBlocked_full hr hfull
  rw [insertBlocked, wp_bind, wp_getSemd hr]
  rcases hr.find_semd s with ⟨hfind, hs⟩ | ⟨t, hfind, ht, hts⟩
  · rw [hfind]
    have hnil := (m.get_eq_nil_iff s).mpr hs
    have hsize := hr.size_add
    have hfree := hr.semds.ring (h := .semdFreeH) rfl
    simp only [wp_bind, wp_get, listEmpty_eq hfree, List.isEmpty_map]
    cases idle with
    | nil => exact absurd ⟨hnil, by simpa using hsize.ge⟩ hfull
    | cons t ts =>
      have ht : t ∉ act := fun hm =>
        (List.nodup_append.mp hr.nodup).2.2 t hm t List.mem_cons_self rfl
      have hfirst : semdQ act (t :: ts) .semdFreeH = some ([] ++ t :: ts) := rfl
      obtain ⟨l1, l2, h1, h2, hsem⟩ :=
        moveSemd_front .semdFreeH .semdH hr.semds hfirst rfl (by simp)
      rw [List.nil_append, semdQ_activate] at hsem
      have hnext := hfree.path.next_first
      have hnone : aslQ base k.lists.sKey m act (.sProcq t) = none := if_neg ht
      have hp1 := absent_update (h := .sProcq t) hp (List.not_mem_nil (a := p))
      simp only [List.isEmpty_cons, Bool.false_eq_true, if_false, hfull, hnext, List.map_cons,
        List.headD_cons, containerOf, wp_pure, wp_modify, wp_bind]
      change wp _ _ _ (k.setKey t s)
      rw [wp_semdsM (k := k.setKey t s) h1, wp_semdsM (k := (k.setKey t s).setSemds l1) h2,
        wp_procsM (l := selfLink (.head (.sProcq t)) k.lists.procs) rfl]
      refine wp_mono (fun _ k1 hk1 => ?_) (fun _ _ hf => hf)
        (insertProcQ_spec (hr.procs.init _) (Function.update_self ..) hp1)
      obtain ⟨heq, hfam, hself⟩ := hk1
      rw [List.nil_append, aslQ_activate hr ht hs] at hfam hself
      simp only [wp_modifyG, true_and]
      rw [heq] at hfam hself ⊢
      refine ⟨⟨rfl, t :: act, ts, ⟨hfam, hsem, ?_, ?_⟩, fun t' ht' => ?_, fun hself' => hself (hself'.init hnone)⟩, rfl⟩
      · exact (List.perm_middle.symm.trans hr.perm)
      · rw [QueueMap.keys_push, if_neg hs, List.map_cons, ← hr.keys]
        refine congrArg₂ List.cons (Function.update_self ..) (List.map_congr_left fun t' ht' => ?_)
        have hne : t' ≠ t := fun e => ht (e ▸ ht')
        exact Function.update_of_ne hne ..
      · refine (List.mem_cons.mp ht').symm.imp_right fun e => ?_
        rw [e]
        change m.get (Function.update k.lists.sKey t s t) = []
        rw [Function.update_self]
        exact hnil
  · rw [hfind]
    subst hts
    have hne : ¬ (m.get (k.lists.sKey t) = [] ∧ MAXPROC ≤ m.size) := fun hc =>
      (m.get_eq_nil_iff _).mp hc.1 (hr.mem_keys ht)
    simp only [hne, if_false]
    refine wp_seq (insertProcQ_spec hr.procs (AslRep.aslQ_of_mem ht) hp) fun _ k1 hk1 => ?_
    simp only [wp_bind, wp_modifyG, wp_pure, true_and]
    refine ⟨AslTo.queue hr ht hk1 (fun s => m.get_push _ s p) ?_, ?_⟩
    · rw [QueueMap.keys_push, if_pos (hr.mem_keys ht)]
    · rw [hk1.eq]; rfl

/-- The last PCB has left the queue of an active descriptor, which goes back to the free list. -/
theorem AslTo.release {k' : Kernel Heap} {t : SemdId} {as bs idle' : List SemdId}
    {m' : QueueMap Word PcbId} {l : Links (Node SHead SemdId)}
    (hr : AslRep k.lists base m (as ++ t :: bs) idle)
    (hto : ProcsTo k k' (aslQ base k.lists.sKey m (as ++ t :: bs))
      (Function.update (aslQ base k.lists.sKey m (as ++ t :: bs)) (.sProcq t) (some [])))
    (hsem : Family l (semdQ (as ++ bs) idle')) (hidle : idle'.Perm (t :: idle))
    (hget : ∀ s, m'.get s = if s = k.lists.sKey t then [] else m.get s)
    (hkeys : m'.keys = m.keys.erase (k.lists.sKey t)) :
    AslTo k.lists { k'.lists with semds := l } base m m' (as ++ t :: bs) := by
  obtain ⟨heq, hfam, hself⟩ := hto
  have hnd := List.nodup_cons.mp (List.nodup_middle.mp hr.act_nodup)
  have hperm : (t :: (as ++ bs)).Perm (as ++ t :: bs) := List.perm_middle.symm
  have hlists : ∀ h xs, aslQ base k.lists.sKey m' (as ++ bs) h = some xs →
      Function.update (aslQ base k.lists.sKey m (as ++ t :: bs)) (.sProcq t) (some []) h =
        some xs := by
    intro h xs hQ
    cases h with
    | sProcq t' =>
      simp only [aslQ, Option.ite_none_right_eq_some, Option.some.injEq] at hQ
      obtain ⟨ht', hxs⟩ := hQ
      have hne : t' ≠ t := fun e => hnd.1 (e ▸ ht')
      have hmem : t' ∈ as ++ t :: bs := hperm.subset (List.mem_cons_of_mem t ht')
      have hkey : k.lists.sKey t' ≠ k.lists.sKey t := fun hk =>
        hne (hr.key_inj hmem (by simp) hk)
      rw [hget, if_neg hkey] at hxs
      rw [Function.update_of_ne (by simpa using hne), aslQ, if_pos hmem, hxs]
    | _ => rw [Function.update_of_ne (by simp)]; exact hQ
  have habsent : ∀ x, Absent (aslQ base k.lists.sKey m' (as ++ bs)) x →
      Absent (Function.update (aslQ base k.lists.sKey m (as ++ t :: bs)) (.sProcq t)
        (some [])) x := by
    intro x hx h xs hQ
    rw [Function.update_apply] at hQ
    split at hQ
    · rw [← Option.some.inj hQ]; exact List.not_mem_nil
    · next hne =>
      cases h with
      | sProcq t' =>
        have hne' : t' ≠ t := fun e => hne (by rw [e])
        simp only [aslQ, Option.ite_none_right_eq_some, Option.some.injEq] at hQ
        obtain ⟨hmem, hxs⟩ := hQ
        have hmem' : t' ∈ as ++ bs :=
          (List.mem_cons.mp (hperm.symm.subset hmem)).resolve_left hne'
        have hkey : k.lists.sKey t' ≠ k.lists.sKey t := fun hk =>
          hne' (hr.key_inj hmem (by simp) hk)
        refine hx (.sProcq t') xs ?_
        rw [aslQ, if_pos hmem', hget, if_neg hkey, hxs]
      | pcbFreeH => exact hx .pcbFreeH xs hQ
      | hQueue => exact hx .hQueue xs hQ
      | lQueue => exact hx .lQueue xs hQ
      | other n => exact hx (.other n) xs hQ
  rw [heq] at hfam hself ⊢
  refine ⟨rfl, as ++ bs, idle', ⟨hfam.mono hlists, hsem, ?_, ?_⟩,
    fun t' ht' => .inl (hperm.subset (List.mem_cons_of_mem t ht')), fun hs x hx =>
    hself hs x (habsent x hx)⟩
  · refine ((List.Perm.refl _).append hidle).trans ?_
    refine List.perm_middle.trans ?_
    rw [← List.cons_append]
    exact (hperm.append (List.Perm.refl _)).trans hr.perm
  · have hna : k.lists.sKey t ∉ as.map k.lists.sKey := fun hmem => by
      obtain ⟨t', ht', hk⟩ := List.mem_map.mp hmem
      have : t' = t := hr.key_inj (by simp [ht']) (by simp) hk
      exact hnd.1 (by simp [← this, ht'])
    rw [hkeys, ← hr.keys, List.map_append, List.map_append, List.map_cons,
      List.erase_append_right _ hna, List.erase_cons_head]
    rfl

theorem removeBlocked_spec (hr : AslRep k.lists base m act idle) :
    wp (removeBlocked s) (fun r k' => r = (m.get s).head? ∧ match m.get s with
      | [] => k' = k
      | p :: _ => AslTo k.lists k'.lists base m (m.pop s) act ∧
        k'.g = k.g.setPcb p fun c => { c with pSemAdd := NULL }) noExit k := by
  rw [removeBlocked, wp_bind, wp_getSemd hr]
  rcases hr.find_semd s with ⟨hfind, hs⟩ | ⟨t, hfind, ht, hts⟩
  · rw [hfind, (m.get_eq_nil_iff s).mpr hs]
    simp
  · rw [hfind]
    subst hts
    have hkey := hr.mem_keys ht
    obtain ⟨p, ps, hq⟩ := List.exists_cons_of_ne_nil fun hnil =>
      (m.get_eq_nil_iff _).mp hnil hkey
    have hQ : aslQ base k.lists.sKey m act (.sProcq t) = some (p :: ps) := by
      rw [AslRep.aslQ_of_mem ht, hq]
    have hget : ∀ s, (m.pop (k.lists.sKey t)).get s =
        if s = k.lists.sKey t then ps else m.get s := fun s => by
      rw [m.get_pop, hq, List.tail_cons]
    have hkeys := m.keys_put (k.lists.sKey t) ps
    simp only [hq, List.head?_cons]
    refine wp_seq (removeProcQ_spec hr.procs hQ) ?_
    rintro r k1 ⟨hr1, _, hk1⟩
    have hk1 := (hk1 p ps rfl).toProcsTo
    rw [hr1]
    have hk1eq := hk1.eq
    have hempty : listEmpty (.head (.sProcq t)) k1.lists.procs = ps.isEmpty := by
      rw [listEmpty_eq (hk1.family.ring (Function.update_self ..)), List.isEmpty_map]
    simp only [List.head?_cons, wp_bind, wp_modifyG, wp_get, hempty]
    cases ps with
    | cons p' ps =>
      simp only [List.isEmpty_cons, Bool.false_eq_true, if_false, wp_pure, true_and]
      refine ⟨AslTo.queue hr ht hk1 hget ?_, ?_⟩
      · rw [QueueMap.pop, hq, List.tail_cons, hkeys, if_neg (by simp)]
      · rw [hk1eq]; rfl
    | nil =>
      obtain ⟨as, bs, rfl⟩ := List.append_of_mem ht
      obtain ⟨l1, l2, h1, h2, hsem⟩ :=
        moveSemd_front .semdH .semdFreeH hr.semds rfl rfl (by simp)
      rw [semdQ_release] at hsem
      have hsemds : k1.lists.semds = k.lists.semds := by rw [hk1eq]; rfl
      rw [← hsemds] at h1
      simp only [List.isEmpty_nil, if_true, wp_bind]
      change wp _ _ _ (k1.mapG (·.setPcb p fun c => { c with pSemAdd := NULL }))
      rw [wp_semdsM (k := k1.mapG _) h1, wp_semdsM (k := (k1.mapG _).setSemds l1) h2]
      have hpop : (m.pop (k.lists.sKey t)).keys = m.keys.erase (k.lists.sKey t) := by
        rw [QueueMap.pop, hq, List.tail_cons, hkeys, if_pos rfl]
      have hto := AslTo.release hr hk1 hsem (.refl _) hget hpop
      exact ⟨rfl, hto, by rw [hk1eq]; rfl⟩

/-- A PCB that is blocked on `s` leaves the middle of the queue; one that is not keeps the lists
    as they are. -/
theorem outBlocked_spec (hr : AslRep k.lists base m act idle) :
    let s := (k.g.pcb p).pSemAdd
    wp (outBlocked p) (fun r k' =>
      if s = NULL ∨ m.get s = [] then r = none ∧ k' = k
      else if p ∈ m.get s then r = some p ∧ AslTo k.lists k'.lists base m (m.erase s p) act ∧
        k'.g = k.g.setPcb p fun c => { c with pSemAdd := NULL }
      else r = none ∧ k'.lists = k.lists ∧
        k'.g = k.g.setPcb p fun c => { c with pSemAdd := NULL }) noExit k := by
  intro s
  simp only [outBlocked, wp_bind, wp_getG]
  by_cases hnull : (k.g.pcb p).pSemAdd = NULL
  · have hs : s = NULL := hnull
    simp only [hnull, hs, if_true, true_or, wp_pure, and_self]
  · have hs : s ≠ NULL := hnull
    simp only [hnull, if_false, hs, false_or, wp_bind]
    rw [wp_getSemd hr]
    rcases hr.find_semd s with ⟨hfind, hk⟩ | ⟨t, hfind, ht, hts⟩
    · rw [show (act.find? fun tmp => k.lists.sKey tmp = (k.g.pcb p).pSemAdd) = none from hfind]
      simp only [(m.get_eq_nil_iff s).mpr hk, if_true, wp_pure, and_self]
    · rw [show (act.find? fun tmp => k.lists.sKey tmp = (k.g.pcb p).pSemAdd) = some t from hfind]
      have hkey : s ∈ m.keys := hts ▸ hr.mem_keys ht
      have hne : m.get s ≠ [] := fun hnil => (m.get_eq_nil_iff _).mp hnil hkey
      have hQ : aslQ base k.lists.sKey m act (.sProcq t) = some (m.get s) := by
        rw [AslRep.aslQ_of_mem ht, hts]
      have hget : ∀ s', (m.erase s p).get s' =
          if s' = k.lists.sKey t then (m.get s).erase p else m.get s' := fun s' => by
        rw [hts]
        exact QueueMap.get_erase hkey s' p
      have hkeys := m.keys_put s ((m.get s).erase p)
      have hr' : AslRep (k.mapG (·.setPcb p fun c => { c with pSemAdd := NULL })).lists base m act
        idle := hr
      simp only [hne, if_false]
      rw [wp_bind, wp_modifyG]
      refine wp_seq (outProcQ_spec (k := k.mapG _) hr'.procs hQ) fun r k1 hk1 => ?_
      by_cases hp : p ∈ m.get s
      · simp only [hp, if_true] at hk1 ⊢
        obtain ⟨hr1, hk1, -⟩ := hk1
        rw [hr1]
        have hk1eq := hk1.eq
        have hempty : listEmpty (.head (.sProcq t)) k1.lists.procs = ((m.get s).erase p).isEmpty := by
          rw [listEmpty_eq (hk1.family.ring (Function.update_self ..)), List.isEmpty_map]
        simp only [wp_bind, wp_get, hempty]
        by_cases hnil : (m.get s).erase p = []
        · rw [hnil] at hget hk1
          obtain ⟨as, bs, rfl⟩ := List.append_of_mem ht
          obtain ⟨l1, l2, h1, h2, hsem⟩ :=
            moveSemd_back .semdH .semdFreeH hr.semds rfl rfl (by simp)
          rw [semdQ_release] at hsem
          have hsemds : k1.lists.semds = k.lists.semds := by rw [hk1eq]; rfl
          rw [← hsemds] at h1
          simp only [hnil, List.isEmpty_nil, if_true, wp_bind]
          rw [wp_semdsM h1, wp_semdsM (k := k1.setSemds l1) h2]
          have herase : (m.erase s p).keys = m.keys.erase (k.lists.sKey t) := by
            rw [QueueMap.erase, hkeys, if_pos hnil]
            exact congrArg _ hts.symm
          have hto := AslTo.release (k := k.mapG _) hr' hk1 hsem List.perm_append_comm hget herase
          exact ⟨rfl, hto, by rw [Heap.setSemds_g, Heap.setSemds_g, hk1eq]; rfl⟩
        · have hfalse : ((m.get s).erase p).isEmpty = false := by simpa using hnil
          simp only [hfalse, Bool.false_eq_true, if_false, wp_pure, true_and]
          refine ⟨AslTo.queue (k := k.mapG _) hr' ht hk1 hget ?_, ?_⟩
          · rw [QueueMap.erase, hkeys, if_neg hnil]
          · rw [hk1eq]; rfl
      · simp only [hp, if_false] at hk1 ⊢
        obtain ⟨hr1, hk1⟩ := hk1
        rw [hr1, hk1]
        exact ⟨rfl, rfl, rfl⟩

theorem headBlocked_spec {P : Option PcbId → Kernel Heap → Prop}
    (hr : AslRep k.lists base m act idle) :
    wp (headBlocked s) P E k = P (m.get s).head? k := by
  rw [headBlocked, wp_bind, wp_getSemd hr]
  rcases hr.find_semd s with ⟨hfind, hs⟩ | ⟨t, hfind, ht, hts⟩
  · rw [hfind, (m.get_eq_nil_iff s).mpr hs]
    simp
  · rw [hfind]
    subst hts
    exact headProcQ_spec hr.procs (AslRep.aslQ_of_mem ht)

/-- `init_asl`: the map is empty and every descriptor is free. -/
theorem initAsl_spec (hf : Family k.lists.procs (aslQ base k.lists.sKey .empty [])) :
    wp initAsl (fun _ k' => k'.g = k.g ∧ k'.lists.tree = k.lists.tree ∧
      AslRep k'.lists base .empty [] (List.finRange MAXPROC)) noExit k := by
  have hnone : Family k.lists.semds (fun _ => none) := ⟨fun h => by simp at h, fun h => by simp at h⟩
  have h2 := (hnone.init .semdH).init .semdFreeH
  have hQ2 : Function.update (Function.update (fun _ => none) SHead.semdH (some []))
      SHead.semdFreeH (some []) = semdQ [] ([] : List SemdId) := by
    funext h; cases h <;> rfl
  rw [hQ2] at h2
  have hnd := List.nodup_finRange MAXPROC
  have hperm := List.Perm.refl (List.finRange MAXPROC)
  simp only [initAsl, wp_bind]
  generalize hxs : List.finRange MAXPROC = xs at hnd hperm ⊢
  rw [wp_semdsM (l := selfLink (.head .semdH) k.lists.semds) rfl,
    wp_semdsM (l := selfLink (.head .semdFreeH) (selfLink (.head .semdH) k.lists.semds)) rfl]
  refine wp_mono (fun _ k' ⟨hg, htree, hkey, hp, hs⟩ => ?_) (fun _ _ h => h)
    (wp_forM (I := fun ys k' => k'.g = k.g ∧ k'.lists.tree = k.lists.tree ∧
      k'.lists.sKey = k.lists.sKey ∧ Family k'.lists.procs (aslQ base k.lists.sKey .empty []) ∧
      Family k'.lists.semds (semdQ [] ys)) (fun ys i k' hys ⟨hg, htree, hkey, hp, hs⟩ => ?_)
      ⟨rfl, rfl, rfl, hf, h2⟩)
  · have hi : i ∉ ys := fun hm =>
      (List.nodup_append.mp (hys.sublist.nodup hnd)).2.2 i hm i (by simp) rfl
    have habs : Absent (semdQ [] ys) i := fun h zs hQ hm => by
      cases h <;> simp only [semdQ, Option.some.injEq] at hQ <;> subst hQ
      · cases hm
      · exact hi hm
    have hs1 := hs.initElem habs
    have hp1 := hp.init (.sProcq i)
    have hp2 : Family (selfLink (.head (.sProcq i)) k'.lists.procs)
        (aslQ base k.lists.sKey .empty []) := hp1.mono fun h zs hQ => by
      cases h with
      | sProcq t => simp [aslQ] at hQ
      | _ => rw [Function.update_of_ne (by simp)]; exact hQ
    have hring := hs1.ring (h := .semdFreeH) rfl
    simp only [wp_bind]
    rw [wp_semdsM (l := selfLink (.elem i) k'.lists.semds) rfl,
      wp_procsM (l := selfLink (.head (.sProcq i)) k'.lists.procs) rfl,
      wp_semdsM (k := (k'.setSemds (selfLink (.elem i) k'.lists.semds)).setProcs _)
        (listAddTail_eq hring)]
    refine ⟨hg, htree, hkey, hp2, ?_⟩
    have hpush := hs1.push_back (h := .semdFreeH) rfl habs
    have hQ3 : Function.update (semdQ [] ys) .semdFreeH (some (ys ++ [i])) =
        semdQ [] (ys ++ [i]) := by
      funext h; cases h <;> rfl
    rw [hQ3] at hpush
    exact hpush
  · refine ⟨hg, htree, ?_, hs, by rw [hxs]; exact hperm, rfl⟩
    rw [hkey]
    exact hp

end Heap

end Rocm
