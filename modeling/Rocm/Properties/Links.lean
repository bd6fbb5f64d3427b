import Rocm.Properties.Sample

/-!
# The representation invariant of the nucleus

Whenever a process is loaded or the processor waits, the intrusive lists are intact, a PCB is in
one place at most, and tags and counters agree with the lists. The pool of semaphore descriptors
then never runs out.
-/

namespace Rocm

open Ring Prog ProcTable Runs

namespace Heap

/-- The PCBs in the queues of the active descriptors. -/
def waiters (d : Heap) : List PcbId := d.active.flatMap d.queue

/-- Every list is a ring; the active descriptors have different keys and queues with somebody in
    them; no descriptor is lost. -/
structure Intact (d : Heap) : Prop where
  free : IsRing d.procs (.head .pcbFreeH) ((elems d.procs .pcbFreeH).map .elem)
  ready : ∀ q : Queue, IsRing d.procs (.head q.head) ((elems d.procs q.head).map .elem)
  queue : ∀ t ∈ d.active, IsRing d.procs (.head (.sProcq t)) ((d.queue t).map .elem)
  child : ∀ p ∉ elems d.procs .pcbFreeH, IsRing d.tree (.head p) ((elems d.tree p).map .elem)
  active : IsRing d.semds (.head .semdH) (d.active.map .elem)
  idle : IsRing d.semds (.head .semdFreeH) (d.idle.map .elem)
  nonempty : ∀ t ∈ d.active, d.queue t ≠ []
  keys : (d.active.map d.sKey).Nodup
  conserved : (d.active ++ d.idle).Perm (List.finRange MAXPROC)

end Heap

section Rep

variable {d : Heap} {a : Lists}

/-- What a walk along the links meets. -/
theorem Rep.elems (h : Rep d a) : Heap.elems d.procs .pcbFreeH = a.free ∧
    (∀ q : Queue, Heap.elems d.procs q.head = a.ready q) ∧
    (∀ t ∈ d.active, d.queue t = a.asl.get (d.sKey t)) ∧
    AslRep d (listQ a) a.asl d.active d.idle := by
  obtain ⟨act, idle, hasl, -⟩ := h.queues
  rw [hasl.active, hasl.idle_eq]
  exact ⟨hasl.elems_procs (h := .pcbFreeH) rfl, fun q => hasl.elems_procs (listQ_head a q),
    fun t ht => hasl.queue ht, hasl⟩

theorem Rep.intact (h : Rep d a) : d.Intact := by
  obtain ⟨hfree, hready, hqueue, hasl⟩ := h.elems
  obtain ⟨T, hT⟩ := h.tree
  constructor
  case free => rw [hfree]; exact hasl.procs.ring (h := .pcbFreeH) rfl
  case ready => intro q; rw [hready]; exact hasl.procs.ring (listQ_head a q)
  case queue => intro t ht; rw [hqueue t ht]; exact hasl.procs.ring (AslRep.aslQ_of_mem ht)
  case child =>
    intro p hp
    rw [hfree] at hp
    have hring := hT.family.ring (hT.of_live hp)
    rw [Heap.elems_eq hring (Heap.length_lt_walkFuel (a.siblings p))]
    exact hring
  case active => exact hasl.semds.ring (h := .semdH) rfl
  case idle => exact hasl.semds.ring (h := .semdFreeH) rfl
  case nonempty =>
    intro t ht he
    rw [hqueue t ht, a.asl.get_eq_nil_iff] at he
    exact he (hasl.mem_keys ht)
  case keys => rw [hasl.keys]; exact a.asl.keys_nodup
  case conserved => exact hasl.perm

/-- The queues of the active descriptors are those of the map. -/
theorem Rep.waiters (h : Rep d a) : d.waiters = a.asl.all := by
  obtain ⟨-, -, hqueue, hasl⟩ := h.elems
  have hall : a.asl.all = a.asl.keys.flatMap a.asl.get := by
    rw [QueueMap.all, QueueMap.keys, List.flatMap_map]
    refine List.flatMap_congr fun e he => ?_
    exact (QueueMap.getIn_of_mem a.asl.keys_nodup he).symm
  rw [hall, ← hasl.keys, List.flatMap_map]
  exact List.flatMap_congr hqueue

theorem Rep.mem_blocked (h : Rep d a) (p : PcbId) (s : Word) :
    p ∈ a.asl.get s ↔ ∃ t ∈ d.active, d.sKey t = s ∧ p ∈ d.queue t := by
  obtain ⟨-, -, hqueue, hasl⟩ := h.elems
  constructor
  · intro hp
    have hs : s ∈ a.asl.keys := by
      by_contra hs
      rw [(a.asl.get_eq_nil_iff s).mpr hs] at hp
      cases hp
    rw [← hasl.keys] at hs
    obtain ⟨t, ht, hts⟩ := List.mem_map.mp hs
    exact ⟨t, ht, hts, by rw [hqueue t ht, hts]; exact hp⟩
  · rintro ⟨t, ht, rfl, hp⟩
    rw [← hqueue t ht]
    exact hp

end Rep

/-! ## The invariant -/

/-- There are not so many PCBs that a counter could overflow. -/
theorem toNat_card (S : Finset PcbId) : (BitVec.ofNat 32 S.card).toNat = S.card := by
  have hle := S.card_le_univ
  rw [Fintype.card_fin] at hle
  exact (BitVec.toNat_ofNat ..).trans (Nat.mod_eq_of_lt (lt_of_le_of_lt hle (by decide)))

/-- The PCBs that are not free. -/
def Heap.processes (d : Heap) : Finset PcbId :=
  Finset.univ.filter fun p => p ∉ Heap.elems d.procs .pcbFreeH

/-- The representation invariant of the nucleus, on its links and variables. -/
structure Represented (m : Mach Heap) : Prop where
  links : m.k.lists.Intact
  once : ∀ p, (Heap.elems m.k.lists.procs .pcbFreeH).count p +
    (Heap.elems m.k.lists.procs .hQueue).count p + (Heap.elems m.k.lists.procs .lQueue).count p +
    m.k.lists.waiters.count p + (if m.k.g.actProc = some p then 1 else 0) ≤ 1
  tag : ∀ p s, (m.k.g.pcb p).pSemAdd = s ∧ s ≠ NULL ↔
    ∃ t ∈ m.k.lists.active, m.k.lists.sKey t = s ∧ p ∈ m.k.lists.queue t
  procs : m.k.g.procsCount.toNat = m.k.lists.processes.card
  sb : m.k.g.sbProcs.toNat = m.k.lists.waiters.length
  current : m.k.g.actProc = m.exit.current
  loaded : ∀ p, m.k.g.actProc = some p →
    p ∉ Heap.elems m.k.lists.procs .pcbFreeH ∧ (m.k.g.pcb p).pSemAdd = NULL
  yielded : m.k.g.yieldedProc = none

variable [Layout]

theorem Reached.represented {m : Mach Heap} (h : Reached m) (hl : m.exit.live) :
    Represented m := by
  obtain ⟨hgood, l, hsim⟩ := h
  have hst := hgood.stable hl
  rw [hsim.obs] at hst
  have hg : m.k.g = l.k.g := hsim.sim.globals
  obtain ⟨hfree, hready, hqueue, hasl⟩ := hsim.sim.rep.elems
  have hinv : KInv l.k.abs := hst.inv
  have hloose : ∀ p, m.k.g.actProc = some p → l.k.lists.view.Loose p := by
    rw [hg]; exact hst.loose
  have hcount := l.k.lists.unique
  have hwait := hsim.sim.rep.waiters
  constructor
  case links => exact hsim.sim.rep.intact
  case once =>
    intro p
    rw [hfree, show PHead.hQueue = Queue.high.head from rfl,
      show PHead.lQueue = Queue.low.head from rfl, hready, hready, hwait]
    split
    · next hp =>
      have hz := Lists.occ_eq_zero.mpr (hloose p hp)
      unfold Lists.occ at hz
      omega
    · exact hcount p
  case tag =>
    intro p s
    rw [← hsim.sim.rep.mem_blocked, hg]
    exact (hinv.blocked p s).symm
  case procs =>
    rw [hg, show l.k.g.procsCount = _ from hinv.procs, Heap.processes, hfree]
    exact toNat_card _
  case sb =>
    have hnd : l.k.lists.asl.all.Nodup :=
      List.nodup_iff_count_le_one.mpr fun p => by have := hcount p; omega
    have hset : l.k.lists.asl.all.toFinset = l.k.g.waiting := by
      ext p
      rw [List.mem_toFinset, QueueMap.mem_all_iff, mem_waiting]
      constructor
      · rintro ⟨s, hs⟩
        obtain ⟨rfl, hne⟩ := (hinv.blocked p s).mp hs
        exact hne
      · exact fun hne => ⟨_, (hinv.blocked p _).mpr ⟨rfl, hne⟩⟩
    rw [hg, show l.k.g.sbProcs = _ from hinv.sb, hwait, ← List.toFinset_card_of_nodup hnd, hset]
    exact toNat_card _
  case current => rw [hg, hsim.exit]; exact hst.current
  case loaded =>
    intro p hp
    rw [hfree, hg]
    exact ⟨(hloose p hp).1, hinv.toKCore.semAdd_of_loose (hloose p hp)⟩
  case yielded => rw [hg]; exact hst.yielded

/-- As long as no DOIO with a misaligned address blocks, the representation invariant holds whenever
    a process is loaded or the processor waits, and the nucleus never finds a zombie or a blocked
    process running. -/
theorem execution_represented {g : Globals} (hg : PowerOn g)
    {tr : List (Mach Heap × Event × Mach Heap)} {m : Mach Heap}
    (h : Run (Step SyscallsOk) (boot g) tr m) (ha : ∀ x ∈ tr, DoioAligned x.1.obs x.2.1) :
    (m.exit.live → Represented m) ∧ m.exit ≠ .panic .zombie ∧ m.exit ≠ .panic .blockedProcess := by
  have hr := (execution_of_aligned hg h ha).reached hg
  refine ⟨hr.represented, fun he => ?_, fun he => ?_⟩
  · have := hr.good.proper
    rw [show m.obs.exit = _ from he] at this
    cases this
  · have := hr.good.proper
    rw [show m.obs.exit = _ from he] at this
    cases this

omit [Layout] in
/-- A process that was woken runs, two are blocked and one is dead. -/
theorem servedChild_run :
    letI := sampleLayout
    ∃ tr, ∃ m : Mach Heap, Run (Step SyscallsOk) (boot sampleGlobals) tr m ∧
      (∀ x ∈ tr, DoioAligned x.1.obs x.2.1) ∧ m.exit = .ldst 1 ∧
      m.k.lists.active.map m.k.lists.queue = [[0], [3]] ∧
      2 ∈ Heap.elems m.k.lists.procs .pcbFreeH := by
  let _ := sampleLayout
  obtain ⟨tr, m, hrun, hP⟩ := Mach.exists_run_of_play SyscallsOk (boot sampleGlobals) servedChild
    (P := fun tr m => decide ((∀ x ∈ tr, DoioAligned x.1.obs x.2.1) ∧ m.exit = .ldst 1 ∧
      m.k.lists.active.map m.k.lists.queue = [[0], [3]] ∧
      2 ∈ Heap.elems m.k.lists.procs .pcbFreeH)) (by decide +kernel)
  exact ⟨tr, m, hrun, of_decide_eq_true hP⟩

omit [Layout] in
theorem execution_represented_servedChild :
    letI := sampleLayout
    ∃ tr, ∃ m : Mach Heap, Run (Step SyscallsOk) (boot sampleGlobals) tr m ∧ m.exit = .ldst 1 ∧
      m.k.lists.active.map m.k.lists.queue = [[0], [3]] ∧
      2 ∈ Heap.elems m.k.lists.procs .pcbFreeH ∧ Represented m := by
  let _ := sampleLayout
  obtain ⟨tr, m, hrun, ha, he, hqueues, hdead⟩ := servedChild_run
  exact ⟨tr, m, hrun, he, hqueues, hdead,
    (execution_represented sampleGlobals_powerOn hrun ha).1 (by rw [he]; rfl)⟩

omit [Layout] in
/-- The child runs and is blocked: its next syscall panics. -/
theorem misalignedDoio_not_represented :
    letI := sampleLayout
    ∃ tr, ∃ m m' : Mach Heap, Run (Step SyscallsOk) (boot sampleGlobals) tr m ∧ m.exit.live ∧
      ¬ Represented m ∧ m.next (sysEvent GETTIME 0 0 0) = some m' ∧
      m'.exit = .panic .blockedProcess := by
  let _ := sampleLayout
  obtain ⟨tr, m, hrun, hP⟩ := Mach.exists_run_of_play SyscallsOk (boot sampleGlobals)
    (misalignedDoio (.dtp 0 0)) (P := fun _ m => m.exit.live ∧ m.k.g.actProc = some 1 ∧
      (m.k.g.pcb 1).pSemAdd ≠ NULL ∧ (m.next (sysEvent GETTIME 0 0 0)).any
        fun m' => m'.exit = .panic .blockedProcess) (by decide +kernel)
  obtain ⟨hl, hact, hsem, hnext⟩ := of_decide_eq_true hP
  obtain ⟨m', hm', he⟩ := (Option.any_eq_true _ _).mp hnext
  exact ⟨tr, m, m', hrun, hl, fun h => hsem (h.loaded 1 hact).2, hm', of_decide_eq_true he⟩

/-! ## The pool of semaphore descriptors -/

/-- There is a descriptor for whoever can block: the active ones have somebody in their queue, and
    while a process runs one is free. -/
structure PoolSuffices (m : Mach Heap) : Prop where
  nonempty : ∀ t ∈ m.k.lists.active, m.k.lists.queue t ≠ []
  once : m.k.lists.waiters.Nodup
  conserved : (m.k.lists.active ++ m.k.lists.idle).Perm (List.finRange MAXPROC)
  idle : ∀ p, m.exit.current = some p → m.k.lists.idle ≠ []
  insert : ∀ p, m.exit.current = some p → ∀ s, ∃ k', Heap.insertBlocked s p m.k = .ok false k'
  remove : ∀ s, ∃ w k', Heap.removeBlocked s m.k = .ok w k'

theorem Reached.poolSuffices {m : Mach Heap} (h : Reached m) (hl : m.exit.live) :
    PoolSuffices m := by
  have hrep := h.represented hl
  obtain ⟨hgood, l, hsim⟩ := h
  have hst := hgood.stable hl
  rw [hsim.obs] at hst
  have hocc : ∀ p, m.exit.current = some p → l.k.lists.occ p = 0 := by
    intro p hp
    rw [hsim.exit] at hp
    exact Lists.occ_eq_zero.mpr (hst.loose p (hst.current.trans hp))
  obtain ⟨-, -, -, hasl⟩ := hsim.sim.rep.elems
  constructor
  case nonempty => exact hrep.links.nonempty
  case once =>
    refine List.nodup_iff_count_le_one.mpr fun p => ?_
    have := hrep.once p
    omega
  case conserved => exact hrep.links.conserved
  case idle =>
    intro p hp he
    have hlt := Lists.asl_size_lt (hocc p hp)
    have hsize := hasl.size_add
    rw [he] at hsize
    exact absurd hsize (Nat.ne_of_lt hlt)
  case insert =>
    intro p hp s
    obtain ⟨_, k', _, hk', -, rfl⟩ := (corres_insertBlocked s p).returns hsim.sim
      (Q := fun b _ => b = false) (by
        change wp (ProcTable.insertBlocked s p) _ _ _
        rw [Lists.wp_insertBlocked (hocc p hp)])
    exact ⟨k', hk'⟩
  case remove =>
    intro s
    obtain ⟨w, k', _, hk', -, -⟩ := (corres_removeBlocked s).returns hsim.sim
      (Q := fun _ _ => True) (by
        change wp (ProcTable.removeBlocked s) _ _ _
        cases hq : l.k.lists.asl.get s with
        | nil => rw [Lists.wp_removeBlocked_nil hq]; trivial
        | cons => rw [Lists.wp_removeBlocked_cons hq]; trivial)
    exact ⟨w, k', hk'⟩

/-- As long as no DOIO with a misaligned address blocks, the pool of semaphore descriptors cannot
    run out: the exits for an `insert_blocked` that fails and for an active descriptor with an empty
    queue are never taken. -/
theorem execution_poolSuffices {g : Globals} (hg : PowerOn g)
    {tr : List (Mach Heap × Event × Mach Heap)} {m : Mach Heap}
    (h : Run (Step SyscallsOk) (boot g) tr m) (ha : ∀ x ∈ tr, DoioAligned x.1.obs x.2.1) :
    (m.exit.live → PoolSuffices m) ∧ m.exit ≠ .panic .insertBlockedP ∧
      m.exit ≠ .panic .insertBlockedV ∧ m.exit ≠ .emptyDescriptor := by
  have hr := (execution_of_aligned hg h ha).reached hg
  refine ⟨hr.poolSuffices, fun he => ?_, fun he => ?_, fun he => ?_⟩
  all_goals
    have := hr.good.proper
    rw [show m.obs.exit = _ from he] at this
    cases this

omit [Layout] in
theorem execution_poolSuffices_servedChild :
    letI := sampleLayout
    ∃ tr, ∃ m : Mach Heap, Run (Step SyscallsOk) (boot sampleGlobals) tr m ∧ m.exit = .ldst 1 ∧
      m.k.lists.active.map m.k.lists.queue = [[0], [3]] ∧ PoolSuffices m := by
  let _ := sampleLayout
  obtain ⟨tr, m, hrun, ha, he, hqueues, -⟩ := servedChild_run
  exact ⟨tr, m, hrun, he, hqueues,
    (execution_poolSuffices sampleGlobals_powerOn hrun ha).1 (by rw [he]; rfl)⟩

omit [Layout] in
/-- All descriptors are lost in this way, and a PASSEREN cannot block. -/
theorem lostDescriptor_exhausts :
    letI := sampleLayout
    ∃ tr, ∃ m : Mach Heap, Run (Step SyscallsOk) (boot sampleGlobals) tr m ∧
      m.exit = .panic .insertBlockedP := by
  let _ := sampleLayout
  obtain ⟨tr, m, hrun, hP⟩ := Mach.exists_run_of_play SyscallsOk (boot sampleGlobals)
    ((SubDev.all.take MAXPROC).flatMap lostDescriptor ++ [sysEvent PASSEREN 0x20030000 0 0])
    (P := fun _ m => m.exit = .panic .insertBlockedP) (by decide +kernel)
  exact ⟨tr, m, hrun, of_decide_eq_true hP⟩

end Rocm
