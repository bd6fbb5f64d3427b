import Rocm.Properties.Sample

/-!
# The semaphore list is a map from keys to queues

Any sequence of calls of `asl.c` that starts with `init_asl` and inserts a PCB only while it is in
no queue treats the active list as a finite map from keys to non-empty FIFO queues.
-/

namespace Rocm

open Ring Prog Runs

attribute [local irreducible] Heap.initAsl

/-- A call of a function of `asl.c`. -/
inductive AslOp where
  | init
  | insert (key : Word) (p : PcbId)
  | remove (key : Word)
  | out (p : PcbId)
  | head (key : Word)

/-- What a call returns. -/
inductive AslReply where
  | done
  | full (b : Bool)
  | pcb (p : Option PcbId)

/-- The function that is called. -/
def AslOp.call : AslOp → KM Heap AslReply
  | .init => do Heap.initAsl; return .done
  | .insert key p => .full <$> Heap.insertBlocked key p
  | .remove key => .pcb <$> Heap.removeBlocked key
  | .out p => .pcb <$> Heap.outBlocked p
  | .head key => .pcb <$> Heap.headBlocked key

/-- What a call does to the map `d.blocked` and to the variables. -/
inductive AslEffect (k : Kernel Heap) : AslOp → AslReply → Kernel Heap → Prop where
  | init {k'} : (∀ key, k'.lists.blocked key = []) → k'.g = k.g → AslEffect k .init .done k'
  | full {key p} : k.lists.blocked key = [] → k.lists.idle = [] →
      AslEffect k (.insert key p) (.full true) k
  | insert {key p k'} : k.lists.blocked key ≠ [] ∨ k.lists.idle ≠ [] →
      k'.lists.blocked = Function.update k.lists.blocked key (k.lists.blocked key ++ [p]) →
      k'.g = k.g.setPcb p (fun c => { c with pSemAdd := key }) →
      AslEffect k (.insert key p) (.full false) k'
  | absent {key} : k.lists.blocked key = [] → AslEffect k (.remove key) (.pcb none) k
  | remove {key p ps k'} : k.lists.blocked key = p :: ps →
      k'.lists.blocked = Function.update k.lists.blocked key ps →
      k'.g = k.g.setPcb p (fun c => { c with pSemAdd := NULL }) →
      AslEffect k (.remove key) (.pcb (some p)) k'
  | out {key p k'} : p ∈ k.lists.blocked key →
      k'.lists.blocked = Function.update k.lists.blocked key ((k.lists.blocked key).erase p) →
      k'.g = k.g.setPcb p (fun c => { c with pSemAdd := NULL }) →
      AslEffect k (.out p) (.pcb (some p)) k'
  | outside {p k'} : (∀ key, p ∉ k.lists.blocked key) → k'.lists = k.lists →
      k'.g = k.g ∨ k'.g = k.g.setPcb p (fun c => { c with pSemAdd := NULL }) →
      AslEffect k (.out p) (.pcb none) k'
  | head {key} : AslEffect k (.head key) (.pcb (k.lists.blocked key).head?) k

/-- A key is the address of an `int`, so not `NULL`, and a PCB that is inserted is in no queue;
    `base` are the lists that are not those of semaphores. -/
def AslOp.Allowed (base : PHead → Option (List PcbId)) (k : Kernel Heap) : AslOp → Prop
  | .insert key p => key ≠ NULL ∧ Absent base p ∧ ∀ key', p ∉ k.lists.blocked key'
  | _ => True

/-- The shape of the two lists of descriptors. -/
structure AslShape (d : Heap) : Prop where
  keys : (d.active.map d.sKey).Nodup
  nonempty : ∀ t ∈ d.active, d.queue t ≠ []
  blocked : ∀ t ∈ d.active, d.blocked (d.sKey t) = d.queue t
  absent : ∀ key, key ∉ d.active.map d.sKey → d.blocked key = []
  conserved : (d.active ++ d.idle).Perm (List.finRange MAXPROC)

/-- The links hold a map, and the PCBs in its queues are tagged. -/
structure AslInv (base : PHead → Option (List PcbId)) (k : Kernel Heap) : Prop where
  rep : ∃ m act idle, AslRep k.lists base m act idle
  tag : ∀ p key, p ∈ k.lists.blocked key → (k.g.pcb p).pSemAdd = key ∧ key ≠ NULL

variable {base : PHead → Option (List PcbId)} {k : Kernel Heap}

theorem AslRep.shape {d : Heap} {m : QueueMap Word PcbId} {act idle : List SemdId}
    (h : AslRep d base m act idle) : AslShape d := by
  have hq : ∀ t ∈ act, d.queue t = m.get (d.sKey t) := fun t ht => h.queue ht
  constructor
  case keys => rw [h.active, h.keys]; exact m.keys_nodup
  case nonempty =>
    intro t ht he
    rw [h.active] at ht
    rw [hq t ht, m.get_eq_nil_iff] at he
    exact he (h.mem_keys ht)
  case blocked =>
    intro t ht
    rw [h.active] at ht
    rw [h.blocked, hq t ht]
  case absent =>
    intro key hkey
    rw [h.active, h.keys] at hkey
    rw [h.blocked, m.get_eq_nil_iff]
    exact hkey
  case conserved => rw [h.active, h.idle_eq]; exact h.perm

theorem AslTo.blocked {d d' : Heap} {m m' : QueueMap Word PcbId} {act : List SemdId}
    (h : AslTo d d' base m m' act) : d'.blocked = m'.get ∧
      ∃ act idle, AslRep d' base m' act idle := by
  obtain ⟨act', idle', hr, -⟩ := h.rep
  exact ⟨hr.blocked, act', idle', hr⟩

/-- A PCB is in one queue at most. -/
theorem AslInv.unique (h : AslInv base k) {p : PcbId} {key key' : Word}
    (hp : p ∈ k.lists.blocked key) (hp' : p ∈ k.lists.blocked key') : key = key' :=
  (h.tag p key hp).1.symm.trans (h.tag p key' hp').1

/-- The map changes at `s` by the arrival of `p`. -/
theorem AslInv.push (h : AslInv base k) {k' : Kernel Heap} {m : QueueMap Word PcbId}
    {act : List SemdId} {p : PcbId} {key : Word} (hb : k.lists.blocked = m.get)
    (hto : AslTo k.lists k'.lists base m (m.push key p) act)
    (hg : k'.g = k.g.setPcb p fun c => { c with pSemAdd := key }) (hkey : key ≠ NULL)
    (hp : ∀ key', p ∉ k.lists.blocked key') : AslInv base k' := by
  obtain ⟨hblocked, act', idle', hr⟩ := hto.blocked
  refine ⟨⟨_, act', idle', hr⟩, fun r key' hr' => ?_⟩
  rw [hblocked, QueueMap.get_push] at hr'
  rw [hg, setPcb_pcb]
  have hold (hm : r ∈ k.lists.blocked key') :
      (if r = p then { k.g.pcb p with pSemAdd := key } else k.g.pcb r).pSemAdd = key' ∧
        key' ≠ NULL := by
    have hne : r ≠ p := fun e => hp key' (e ▸ hm)
    rw [if_neg hne]
    exact h.tag r key' hm
  split at hr'
  · next e =>
    rcases List.mem_append.mp hr' with hr' | hr'
    · exact hold (by rw [hb, e]; exact hr')
    · rw [List.mem_singleton.mp hr', if_pos rfl, e]
      exact ⟨rfl, hkey⟩
  · exact hold (by rw [hb]; exact hr')

/-- `p` leaves the queue of `key`. -/
theorem AslInv.leave (h : AslInv base k) {k' : Kernel Heap} {m' : QueueMap Word PcbId} {p : PcbId}
    {key : Word} {ps : List PcbId} (hrep : ∃ act idle, AslRep k'.lists base m' act idle)
    (hblocked : k'.lists.blocked = Function.update k.lists.blocked key ps)
    (hg : k'.g = k.g.setPcb p fun c => { c with pSemAdd := NULL })
    (hp : p ∈ k.lists.blocked key) (hps : p ∉ ps) (hsub : ps ⊆ k.lists.blocked key) :
    AslInv base k' := by
  refine ⟨⟨m', hrep⟩, fun r key' hr => ?_⟩
  have hmem : r ∈ k.lists.blocked key' ∧ r ≠ p := by
    rw [hblocked, Function.update_apply] at hr
    split at hr
    · next e => exact ⟨e ▸ hsub hr, fun e' => hps (e' ▸ hr)⟩
    · next e => exact ⟨hr, fun e' => e (h.unique (e' ▸ hr) hp)⟩
  rw [hg, setPcb_pcb, if_neg hmem.2]
  exact h.tag r key' hmem.1

/-- No PCB is twice in a queue. -/
theorem AslRep.queue_nodup {d : Heap} {m : QueueMap Word PcbId} {act idle : List SemdId}
    (h : AslRep d base m act idle) (key : Word) : (m.get key).Nodup := by
  rcases h.find_semd key with ⟨-, hkey⟩ | ⟨t, -, ht, rfl⟩
  · rw [(m.get_eq_nil_iff key).mpr hkey]
    exact .nil
  · have hring := h.procs.ring (AslRep.aslQ_of_mem ht)
    exact .of_map _ (List.nodup_cons.mp hring.nodup).2

theorem AslInv.call_insert (h : AslInv base k) {p : PcbId} {key : Word}
    (hop : (AslOp.insert key p).Allowed base k) :
    wp (AslOp.insert key p).call
      (fun r k' => AslEffect k (.insert key p) r k' ∧ AslInv base k') noExit k := by
  obtain ⟨m, act, idle, hr⟩ := h.rep
  have hb := hr.blocked
  obtain ⟨hkey, hbase, hp⟩ := hop
  have hspec := Heap.insertBlocked_spec (s := key) hr hbase fun key' => by rw [← hb]; exact hp key'
  have hsize := hr.size_add
  rw [AslOp.call, wp_map]
  refine wp_mono (fun r k' hk' => ?_) (fun _ _ hf => hf) hspec
  split at hk'
  · next hc =>
    obtain ⟨rfl, rfl⟩ := hk'
    refine ⟨.full (by rw [hb]; exact hc.1) ?_, h⟩
    rw [hr.idle_eq]
    exact List.length_eq_zero_iff.mp (by omega)
  · next hc =>
    obtain ⟨rfl, hto, hg⟩ := hk'
    refine ⟨.insert ?_ ?_ hg, h.push hb hto hg hkey hp⟩
    · rw [hb, hr.idle_eq]
      by_contra hn
      rw [not_or, not_not, not_not] at hn
      exact hc ⟨hn.1, by rw [hn.2] at hsize; exact hsize.ge⟩
    · rw [hto.blocked.1, hb]
      funext key'
      rw [QueueMap.get_push, Function.update_apply]

theorem AslInv.call_remove (h : AslInv base k) (key : Word) :
    wp (AslOp.remove key).call
      (fun r k' => AslEffect k (.remove key) r k' ∧ AslInv base k') noExit k := by
  obtain ⟨m, act, idle, hr⟩ := h.rep
  have hb := hr.blocked
  rw [AslOp.call, wp_map]
  refine wp_mono (fun r k' hk' => ?_) (fun _ _ hf => hf) (Heap.removeBlocked_spec (s := key) hr)
  obtain ⟨rfl, hk'⟩ := hk'
  cases hq : m.get key with
  | nil =>
    rw [hq] at hk'
    rw [hk']
    exact ⟨.absent (by rw [hb]; exact hq), h⟩
  | cons p ps =>
    rw [hq] at hk'
    obtain ⟨hto, hg⟩ := hk'
    have hq' : k.lists.blocked key = p :: ps := by rw [hb]; exact hq
    have hblocked : k'.lists.blocked = Function.update k.lists.blocked key ps := by
      rw [hto.blocked.1, hb]
      funext key'
      rw [QueueMap.get_pop, hq, List.tail_cons, Function.update_apply]
    have hnd := hr.queue_nodup key
    rw [hq, List.nodup_cons] at hnd
    refine ⟨.remove hq' hblocked hg, h.leave hto.blocked.2 hblocked hg ?_ hnd.1 ?_⟩
    · rw [hq']; exact List.mem_cons_self
    · rw [hq']; exact List.subset_cons_self p ps

theorem AslInv.call_out (h : AslInv base k) (p : PcbId) :
    wp (AslOp.out p).call
      (fun r k' => AslEffect k (.out p) r k' ∧ AslInv base k') noExit k := by
  obtain ⟨m, act, idle, hr⟩ := h.rep
  have hb := hr.blocked
  -- a PCB that is not where its tag says is nowhere
  have hout : p ∉ m.get (k.g.pcb p).pSemAdd → ∀ key, p ∉ k.lists.blocked key := by
    intro hp key hmem
    rw [(h.tag p key hmem).1, ← hb] at hp
    exact hp hmem
  rw [AslOp.call, wp_map]
  refine wp_mono (fun r k' hk' => ?_) (fun _ _ hf => hf) (Heap.outBlocked_spec (p := p) hr)
  split at hk'
  · next hc =>
    obtain ⟨rfl, rfl⟩ := hk'
    refine ⟨.outside (fun key hmem => ?_) rfl (.inl rfl), h⟩
    obtain ⟨htag, hnull⟩ := h.tag p key hmem
    rw [htag, ← hb] at hc
    rcases hc with hc | hc
    · exact hnull hc
    · rw [hc] at hmem
      cases hmem
  split at hk'
  · next hmem =>
    obtain ⟨rfl, hto, hg⟩ := hk'
    have hmem' : p ∈ k.lists.blocked (k.g.pcb p).pSemAdd := by rw [hb]; exact hmem
    have hblocked : k'.lists.blocked = Function.update k.lists.blocked (k.g.pcb p).pSemAdd
        ((k.lists.blocked (k.g.pcb p).pSemAdd).erase p) := by
      rw [hto.blocked.1, hb]
      funext key'
      rw [QueueMap.get_erase ((m.get_eq_nil_iff _).not_left.mp (List.ne_nil_of_mem hmem)),
        Function.update_apply]
    refine ⟨.out hmem' hblocked hg, h.leave hto.blocked.2 hblocked hg hmem' ?_ ?_⟩
    · rw [hb]
      exact (hr.queue_nodup _).not_mem_erase
    · exact List.erase_subset
  · next hmem =>
    obtain ⟨rfl, hl, hg⟩ := hk'
    refine ⟨.outside (hout hmem) hl (.inr hg), ⟨m, act, idle, hl ▸ hr⟩, fun r key hr' => ?_⟩
    rw [hl] at hr'
    have hne : r ≠ p := fun e => hout hmem key (e ▸ hr')
    rw [hg, setPcb_pcb, if_neg hne]
    exact h.tag r key hr'

theorem AslInv.of_init {k k' : Kernel Heap} (hg : k'.g = k.g)
    (hr : AslRep k'.lists base .empty [] (List.finRange MAXPROC)) :
    AslEffect k .init .done k' ∧ AslInv base k' := by
  have hnil : ∀ key, k'.lists.blocked key = [] := fun key => by
    rw [hr.blocked]
    exact QueueMap.get_empty key
  refine ⟨.init hnil hg, ⟨_, [], _, hr⟩, fun p key hp => ?_⟩
  rw [hnil] at hp
  cases hp

/-- The lists of processes that are not those of semaphores are all that `init_asl` starts from. -/
theorem call_init {Q : PHead → Option (List PcbId)} (hf : Family k.lists.procs Q)
    (hQ : ∀ hd xs, base hd = some xs → (∀ t, hd ≠ .sProcq t) → Q hd = some xs) :
    wp AslOp.init.call (fun r k' => r = .done ∧ AslEffect k .init r k' ∧ AslInv base k') noExit
      k := by
  have hf' : Family k.lists.procs (aslQ base k.lists.sKey .empty []) := hf.mono fun hd xs hxs => by
    cases hd with
    | sProcq t => simp [aslQ] at hxs
    | _ => exact hQ _ xs hxs (by simp)
  rw [AslOp.call, wp_bind]
  refine wp_mono (fun _ k' hk' => ?_) (fun _ _ hf => hf) (Heap.initAsl_spec hf')
  rw [wp_pure]
  exact ⟨rfl, AslInv.of_init hk'.1 hk'.2.2⟩

/-- Every call of an allowed operation returns, has its effect and keeps the invariant. -/
theorem AslInv.call (h : AslInv base k) {op : AslOp} (hop : op.Allowed base k) :
    ∃ r k', op.call k = .ok r k' ∧ AslEffect k op r k' ∧ AslInv base k' := by
  suffices hw : wp op.call (fun r k' => AslEffect k op r k' ∧ AslInv base k') noExit k by
    rcases wp_elim hw with ⟨r, k', hk, hQ⟩ | ⟨_, _, _, hf⟩
    · exact ⟨r, k', hk, hQ⟩
    · exact hf.elim
  cases op with
  | init =>
    obtain ⟨m, act, idle, hr⟩ := h.rep
    refine wp_mono (fun r k' hk' => hk'.2) (fun _ _ hf => hf) (call_init hr.procs ?_)
    intro hd xs hxs hne
    cases hd with
    | sProcq t => exact absurd rfl (hne t)
    | _ => exact hxs
  | insert key p => exact h.call_insert hop
  | remove key => exact h.call_remove key
  | out p => exact h.call_out p
  | head key =>
    obtain ⟨m, act, idle, hr⟩ := h.rep
    rw [AslOp.call, wp_map, Heap.headBlocked_spec hr, ← hr.blocked]
    exact ⟨.head, h⟩

/-- An allowed call that returns. -/
def AslStep (base : PHead → Option (List PcbId)) (k : Kernel Heap) (c : AslOp × AslReply)
    (k' : Kernel Heap) : Prop :=
  c.1.Allowed base k ∧ c.1.call k = .ok c.2 k'

theorem AslInv.run {tr : List (Kernel Heap × (AslOp × AslReply) × Kernel Heap)} {k' : Kernel Heap}
    (h : AslInv base k) (hrun : Run (AslStep base) k tr k') : AslInv base k' := by
  refine hrun.invariant h fun {a c b} ha hs => ?_
  obtain ⟨r, k', hk, -, hk'⟩ := ha.call hs.1
  cases hs.2.symm.trans hk
  exact hk'

/-- The lists that are not those of semaphores are as they were. -/
theorem AslInv.frame (h : AslInv base k) (hbase : ∀ t, base (.sProcq t) = none) {hd : PHead}
    {xs : List PcbId} (hxs : base hd = some xs) : Heap.elems k.lists.procs hd = xs := by
  obtain ⟨m, act, idle, hr⟩ := h.rep
  refine hr.elems_procs ?_
  cases hd with
  | sProcq t => rw [hbase] at hxs; cases hxs
  | _ => exact hxs

/-- The semaphore list is a map from keys to non-empty FIFO queues, after `init_asl` and any calls:
    the descriptors have the right shape, and every further call returns and has its effect on the
    map. -/
theorem asl_refines_map {base : PHead → Option (List PcbId)} {k0 : Kernel Heap}
    (hbase : ∀ t, base (.sProcq t) = none) (h0 : Family k0.lists.procs base) :
    ∃ k1, AslOp.init.call k0 = .ok .done k1 ∧ AslEffect k0 .init .done k1 ∧
      ∀ tr k, Run (AslStep base) k1 tr k → AslShape k.lists ∧
        (∀ hd xs, base hd = some xs → Heap.elems k.lists.procs hd = xs) ∧
        ∀ op : AslOp, op.Allowed base k →
          ∃ r k', op.call k = .ok r k' ∧ AslEffect k op r k' := by
  have hinit : wp AslOp.init.call (fun r k' => r = .done ∧ AslEffect k0 .init r k' ∧
      AslInv base k') noExit k0 := call_init h0 fun hd xs hxs _ => hxs
  rcases wp_elim hinit with ⟨r, k1, hk1, rfl, heff, hinv⟩ | ⟨_, _, _, hf⟩
  · refine ⟨k1, hk1, heff, fun tr k hrun => ?_⟩
    have hk := hinv.run hrun
    obtain ⟨m, act, idle, hr⟩ := hk.rep
    refine ⟨hr.shape, fun hd xs hxs => hk.frame hbase hxs, fun op hop => ?_⟩
    obtain ⟨r, k', hcall, heff, -⟩ := hk.call hop
    exact ⟨r, k', hcall, heff⟩
  · exact hf.elim

/-- A descriptor is idle as long as the keys with a queue are fewer than the descriptors. -/
theorem AslShape.idle_ne_nil {d : Heap} (h : AslShape d) {keys : List Word}
    (hkeys : ∀ key, d.blocked key ≠ [] → key ∈ keys) (hlt : keys.length < MAXPROC) :
    d.idle ≠ [] := fun hnil => by
  have hsub : d.active.map d.sKey ⊆ keys := fun key hkey => by
    obtain ⟨t, ht, rfl⟩ := List.mem_map.mp hkey
    exact hkeys _ (by rw [h.blocked t ht]; exact h.nonempty t ht)
  have hle := (h.keys.subperm hsub).length_le
  have hall := h.conserved.length_eq
  rw [hnil, List.append_nil, List.length_finRange] at hall
  rw [List.length_map] at hle
  omega

/-- The queues after these insertions. -/
def queuesOf (xs : List (Word × PcbId)) (key : Word) : List PcbId :=
  (xs.filter (·.1 = key)).map (·.2)

theorem mem_queuesOf {xs : List (Word × PcbId)} {key : Word} {p : PcbId} :
    p ∈ queuesOf xs key ↔ (key, p) ∈ xs := by
  simp [queuesOf]

theorem queuesOf_snoc (xs : List (Word × PcbId)) (key : Word) (p : PcbId) :
    queuesOf (xs ++ [(key, p)]) = Function.update (queuesOf xs) key (queuesOf xs key ++ [p]) := by
  funext key'
  rw [Function.update_apply]
  by_cases hk : key' = key
  · subst hk
    simp [queuesOf]
  · simp [queuesOf, hk, Ne.symm hk]

/-- Insertions for which there are descriptors. -/
theorem AslInv.exists_run_insert {k1 : Kernel Heap} (h : AslInv (fun _ => none) k1)
    (hnil : ∀ key, k1.lists.blocked key = []) (xs : List (Word × PcbId))
    (hlen : xs.length ≤ MAXPROC) (hkeys : ∀ x ∈ xs, x.1 ≠ NULL) (hnodup : (xs.map (·.2)).Nodup) :
    ∃ tr k, Run (AslStep fun _ => none) k1 tr k ∧ k.lists.blocked = queuesOf xs := by
  induction xs using List.reverseRecOn with
  | nil => exact ⟨[], k1, .nil, funext hnil⟩
  | append_singleton xs x ih =>
    obtain ⟨key, p⟩ := x
    rw [List.length_append, List.length_singleton] at hlen
    rw [List.map_append, List.map_singleton, List.nodup_append] at hnodup
    obtain ⟨hxs, -, hdisj⟩ := hnodup
    obtain ⟨tr, k, hrun, hk⟩ := ih (by omega) (fun x hx => hkeys x (List.mem_append_left _ hx)) hxs
    have hinv := h.run hrun
    have hp : ∀ key', p ∉ k.lists.blocked key' := fun key' hm => by
      rw [hk, mem_queuesOf] at hm
      exact hdisj p (List.mem_map_of_mem hm) p (List.mem_singleton.mpr rfl) rfl
    have hop : (AslOp.insert key p).Allowed (fun _ => none) k :=
      ⟨hkeys (key, p) (by simp), fun _ _ hQ => by simp at hQ, hp⟩
    have hused : ∀ key', k.lists.blocked key' ≠ [] → key' ∈ xs.map (·.1) := fun key' hne => by
      obtain ⟨q, hq⟩ := List.exists_mem_of_ne_nil _ hne
      rw [hk, mem_queuesOf] at hq
      exact List.mem_map_of_mem hq
    have hidle : k.lists.idle ≠ [] := by
      obtain ⟨m, act, idle, hr⟩ := hinv.rep
      refine hr.shape.idle_ne_nil hused ?_
      rw [List.length_map]
      omega
    obtain ⟨r, k', hcall, heff, -⟩ := hinv.call hop
    cases heff with
    | full _ hfull => exact absurd hfull hidle
    | insert _ hb =>
      exact ⟨_, k', hrun.snoc (e := (_, _)) ⟨hop, hcall⟩, by rw [hb, hk, queuesOf_snoc]⟩

/-- Queues of three keys: the last one loses the PCB in its middle, then the descriptor in the middle
    of the active list becomes idle. -/
theorem asl_refines_map_middle : ∃ k1 tr, ∃ k k' k'' : Kernel Heap,
    AslOp.init.call ⟨Heap.uninit, sampleGlobals⟩ = .ok .done k1 ∧
      Run (AslStep fun _ => none) k1 tr k ∧
      [0x1000, 0x2000, 0x3000].map k.lists.blocked = [[3], [4], [5, 6, 7]] ∧
      (AslOp.out 6).call k = .ok (.pcb (some 6)) k' ∧
      (AslOp.remove 0x2000).call k' = .ok (.pcb (some 4)) k'' ∧
      [0x1000, 0x2000, 0x3000].map k''.lists.blocked = [[3], [], [5, 7]] ∧ AslShape k''.lists := by
  have hempty : Family (⟨Heap.uninit, sampleGlobals⟩ : Kernel Heap).lists.procs fun _ => none :=
    ⟨fun hQ => by simp at hQ, fun hQ => by simp at hQ⟩
  obtain ⟨k1, hk1, heff, hall⟩ := asl_refines_map (fun _ => rfl) hempty
  have hnil : ∀ key, k1.lists.blocked key = [] := by
    cases heff with
    | init hnil => exact hnil
  have hinv : AslInv (fun _ => none) k1 := by
    have hinit := call_init hempty fun hd xs hxs _ => hxs
    rcases wp_elim hinit with ⟨r, k, hk, -, -, hinv⟩ | ⟨_, _, _, hf⟩
    · cases hk1.symm.trans hk
      exact hinv
    · exact hf.elim
  obtain ⟨tr, k, hrun, hk⟩ := hinv.exists_run_insert hnil
    [(0x1000, 3), (0x2000, 4), (0x3000, 5), (0x3000, 6), (0x3000, 7)] (by decide)
    (by simp [NULL]) (by decide)
  obtain ⟨r, k', hcall, hout⟩ := (hall tr k hrun).2.2 (.out 6) trivial
  cases hout with
  | outside hno => exact absurd (by rw [hk]; decide) (hno 0x3000)
  | @out key _ _ hmem hb' =>
    obtain rfl : key = 0x3000 := by
      rw [hk, mem_queuesOf] at hmem
      simpa using hmem
    have hrun' := hrun.snoc (e := (AslOp.out 6, AslReply.pcb (some 6))) ⟨trivial, hcall⟩
    obtain ⟨r, k'', hcall', hremove⟩ := (hall _ k' hrun').2.2 (.remove 0x2000) trivial
    have hhead : k'.lists.blocked 0x2000 = [4] := by
      rw [hb', hk]
      decide
    cases hremove with
    | absent hno => exact absurd (hhead.symm.trans hno) (by simp)
    | remove hcons hb'' =>
      obtain ⟨rfl, rfl⟩ := List.cons.inj (hhead.symm.trans hcons)
      have hrun'' := hrun'.snoc (e := (AslOp.remove 0x2000, AslReply.pcb (some 4)))
        ⟨trivial, hcall'⟩
      refine ⟨k1, tr, k, k', k'', hk1, hrun, ?_, hcall, hcall', ?_, (hall _ _ hrun'').1⟩
      · rw [hk]
        decide
      · rw [hb'', hb', hk]
        decide

end Rocm
