import Rocm.Lib.QueueMap
import Rocm.Nucleus.Heap

/-!
# The process table as a data type

`ProcTable` lists the functions of `pcb.c` and `asl.c` that the rest of the nucleus calls. The
program is the instance `Heap`, on links. The instance `Lists` says what these functions are
for: every PCB is in at most one list, the semaphores map to FIFO queues, the children are
lists. It gives up (`misuse`) where a call would break an intrusive list.
-/

namespace Rocm

open Ring Prog

/-- What a process table looks like from outside: the free list, the ready queues, the queue of
    PCBs blocked on the semaphore at an address, the children of each PCB. -/
@[ext] structure View where
  free : List PcbId
  ready : Queue → List PcbId
  blocked : Word → List PcbId
  child : PcbId → List PcbId

/-- The functions of `pcb.c` and `asl.c`, and the table before they are first called. -/
class ProcTable (D : Type) where
  uninit : D
  view : D → View
  initPcbs : KM D PUnit
  initAsl : KM D PUnit
  mkEmptyProcQ : Queue → KM D PUnit
  isAlive : PcbId → KM D Bool
  freePcb : PcbId → KM D PUnit
  allocPcb : KM D (Option PcbId)
  emptyProcQ : Queue → KM D Bool
  insertProcQ : Queue → PcbId → KM D PUnit
  removeProcQ : Queue → KM D (Option PcbId)
  outProcQ : Queue → PcbId → KM D (Option PcbId)
  insertChild : PcbId → PcbId → KM D PUnit
  removeChild : PcbId → KM D (Option PcbId)
  outChild : PcbId → KM D (Option PcbId)
  insertBlocked : Word → PcbId → KM D Bool
  removeBlocked : Word → KM D (Option PcbId)
  outBlocked : PcbId → KM D (Option PcbId)
  unlinkProc : PcbId → KM D PUnit

/-! ## The program -/

namespace Heap

/-- The elements of a list of links, as a walk from its head meets them. -/
def elems {η μ : Type} [DecidableEq η] [DecidableEq μ] (l : Links (Node η μ)) (head : η) : List μ :=
  ((toList l (.head head) walkFuel (l.next (.head head))).getD []).filterMap
    fun | .elem m => some m | .head _ => none

/-- The queue of the active semaphore descriptor with key `s`. -/
def blocked (d : Heap) (s : Word) : List PcbId :=
  match (elems d.semds .semdH).find? fun tmp => d.sKey tmp = s with
  | some tmp => elems d.procs (.sProcq tmp)
  | none => []

def view (d : Heap) : View where
  free := elems d.procs .pcbFreeH
  ready q := elems d.procs q.head
  blocked := d.blocked
  child p := elems d.tree p

/-- Static memory: every link is 0. -/
def uninit : Heap where
  procs := ⟨fun _ => none, fun _ => none⟩
  tree := ⟨fun _ => none, fun _ => none⟩
  semds := ⟨fun _ => none, fun _ => none⟩
  sKey _ := 0

end Heap

instance : ProcTable Heap where
  uninit := Heap.uninit
  view := Heap.view
  initPcbs := Heap.initPcbs
  initAsl := Heap.initAsl
  mkEmptyProcQ q := Heap.mkEmptyProcQ q.head
  isAlive := Heap.isAlive
  freePcb := Heap.freePcb
  allocPcb := Heap.allocPcb
  emptyProcQ q := Heap.emptyProcQ q.head
  insertProcQ q := Heap.insertProcQ q.head
  removeProcQ q := Heap.removeProcQ q.head
  outProcQ q := Heap.outProcQ q.head
  insertChild := Heap.insertChild
  removeChild := Heap.removeChild
  outChild := Heap.outChild
  insertBlocked := Heap.insertBlocked
  removeBlocked := Heap.removeBlocked
  outBlocked := Heap.outBlocked
  unlinkProc := Heap.unlinkProc

/-! ## The abstract lists -/

/-- Lists in which every PCB occurs at most once; every PCB has at most one parent, and a free
    one neither parent nor children. -/
structure Lists where
  free : List PcbId
  ready : Queue → List PcbId
  asl : QueueMap Word PcbId
  child : PcbId → List PcbId
  unique : ∀ p, free.count p + (ready .high).count p + (ready .low).count p + asl.all.count p ≤ 1
  siblings : ∀ q, (child q).Nodup
  parent : ∀ p q q', p ∈ child q → p ∈ child q' → q = q'
  leaf : ∀ p ∈ free, child p = [] ∧ ∀ q, p ∉ child q

namespace Lists

/-- How often `p` occurs in the free list and the queues. -/
def occ (a : Lists) (p : PcbId) : Nat :=
  a.free.count p + (a.ready .high).count p + (a.ready .low).count p + a.asl.all.count p

def view (a : Lists) : View where
  free := a.free
  ready := a.ready
  blocked := a.asl.get
  child := a.child

/-- The lists before `init_pcbs`. -/
def blank : Lists where
  free := []
  ready _ := []
  asl := .empty
  child _ := []
  unique _ := by simp [QueueMap.empty, QueueMap.all]
  siblings _ := .nil
  parent _ _ _ h := by simp at h
  leaf _ h := by simp at h

/-- Every PCB is free. -/
def allFree : Lists where
  free := List.finRange MAXPROC
  ready _ := []
  asl := .empty
  child _ := []
  unique p := by
    have := List.nodup_iff_count_le_one.mp (List.nodup_finRange MAXPROC) p
    simp only [QueueMap.empty, QueueMap.all, List.flatMap_nil, List.count_nil]
    omega
  siblings _ := .nil
  parent _ _ _ h := by simp at h
  leaf _ _ := by simp

/-- Puts a PCB that is nowhere on the free list. -/
def pushFree (a : Lists) (p : PcbId) (h : a.occ p = 0) (hc : a.child p = [])
    (hp : ∀ q, p ∉ a.child q) : Lists where
  __ := a
  free := p :: a.free
  unique q := by
    have hq := a.unique q
    unfold occ at h
    rw [List.count_cons]
    by_cases e : p = q
    · subst e; simp only [beq_self_eq_true, if_true]; omega
    · simp only [beq_iff_eq, e, if_false]; omega
  leaf q hq := by
    rcases List.mem_cons.mp hq with rfl | hq
    · exact ⟨hc, hp⟩
    · exact a.leaf q hq

/-- Takes the first PCB off the free list. -/
def popFree (a : Lists) : Lists where
  __ := a
  free := a.free.tail
  unique q := by
    have hq := a.unique q
    have := (List.tail_sublist a.free).count_le q
    omega
  leaf q hq := a.leaf q (List.mem_of_mem_tail hq)

/-- Gives a ready queue other contents. -/
def setReady (a : Lists) (q : Queue) (ps : List PcbId)
    (h : ∀ p, ps.count p ≤ (a.ready q).count p ∨ ps.count p ≤ 1 ∧ a.occ p = 0) : Lists where
  __ := a
  ready := Function.update a.ready q ps
  unique p := by
    have hp := a.unique p
    have h := h p
    unfold occ at h
    cases q <;> simp only [Function.update_self, ne_eq, reduceCtorEq, not_false_eq_true,
      Function.update_of_ne] <;> omega

/-- Appends a PCB that is nowhere to a ready queue. -/
def pushReady (a : Lists) (q : Queue) (p : PcbId) (h : a.occ p = 0) : Lists :=
  a.setReady q (a.ready q ++ [p]) fun r => by
    rw [List.count_append]
    by_cases e : p = r
    · subst e
      have hz : (a.ready q).count p = 0 := by
        unfold occ at h
        cases q <;> omega
      right
      simp [h, hz]
    · left; simp [e]

/-- Takes the first PCB out of a ready queue. -/
def popReady (a : Lists) (q : Queue) : Lists :=
  a.setReady q (a.ready q).tail fun p => .inl ((List.tail_sublist _).count_le p)

/-- Takes a PCB out of a ready queue. -/
def eraseReady (a : Lists) (q : Queue) (p : PcbId) : Lists :=
  a.setReady q ((a.ready q).erase p) fun r => .inl (List.erase_sublist.count_le r)

/-- Gives the semaphores other queues. -/
def setAsl (a : Lists) (m : QueueMap Word PcbId)
    (h : ∀ p, m.all.count p ≤ a.asl.all.count p ∨ m.all.count p ≤ 1 ∧ a.occ p = 0) : Lists where
  __ := a
  asl := m
  unique p := by
    have hp := a.unique p
    have h := h p
    unfold occ at h
    omega

/-- Appends a PCB that is nowhere to the queue of a semaphore. -/
def pushBlocked (a : Lists) (s : Word) (p : PcbId) (h : a.occ p = 0) : Lists :=
  a.setAsl (a.asl.push s p) fun r => by
    rw [QueueMap.count_push]
    by_cases e : p = r
    · subst e
      have hz : a.asl.all.count p = 0 := by unfold occ at h; omega
      right
      simp [h, hz]
    · left; simp [e]

/-- Takes the first PCB out of the queue of a semaphore. -/
def popBlocked (a : Lists) (s : Word) (h : a.asl.get s ≠ []) : Lists :=
  a.setAsl (a.asl.pop s) fun r => by
    obtain ⟨p, q, hp⟩ := List.exists_cons_of_ne_nil h
    have := QueueMap.count_pop hp r
    left; omega

/-- Takes a PCB out of the queue of a semaphore. -/
def eraseBlocked (a : Lists) (s : Word) (p : PcbId) (h : p ∈ a.asl.get s) : Lists :=
  a.setAsl (a.asl.erase s p) fun r => by
    have := QueueMap.count_erase h r
    left; omega

/-- Makes `p`, which has no parent, the first child of `q`. -/
def pushChild (a : Lists) (q p : PcbId) (hp : ∀ r, p ∉ a.child r) (hqf : q ∉ a.free)
    (hpf : p ∉ a.free) : Lists where
  __ := a
  child := Function.update a.child q (p :: a.child q)
  siblings r := by
    by_cases e : r = q
    · subst e; simpa using ⟨hp r, a.siblings r⟩
    · simpa [e] using a.siblings r
  parent c r r' h h' := by
    have mem : ∀ r, c ∈ Function.update a.child q (p :: a.child q) r →
        c = p ∧ r = q ∨ c ∈ a.child r := by
      intro r h
      by_cases e : r = q
      · rw [e, Function.update_self] at h
        exact (List.mem_cons.mp h).imp (⟨·, e⟩) (e ▸ ·)
      · rw [Function.update_of_ne e] at h
        exact .inr h
    rcases mem r h with ⟨hc, hr⟩ | ho <;> rcases mem r' h' with ⟨hc', hr'⟩ | ho'
    · exact hr.trans hr'.symm
    · exact absurd (hc ▸ ho') (hp r')
    · exact absurd (hc' ▸ ho) (hp r)
    · exact a.parent c r r' ho ho'
  leaf r hr := by
    have hrq : r ≠ q := fun e => hqf (e ▸ hr)
    have hrp : r ≠ p := fun e => hpf (e ▸ hr)
    refine ⟨by simpa [hrq] using (a.leaf r hr).1, fun s => ?_⟩
    by_cases e : s = q
    · subst e; simpa [hrp] using (a.leaf r hr).2 s
    · simpa [e] using (a.leaf r hr).2 s

/-- Takes `p` out of the children of every PCB. -/
def eraseChild (a : Lists) (p : PcbId) : Lists where
  __ := a
  child q := (a.child q).erase p
  siblings q := (a.siblings q).erase p
  parent c r r' h h' := a.parent c r r' (List.mem_of_mem_erase h) (List.mem_of_mem_erase h')
  leaf r hr := by
    refine ⟨by rw [(a.leaf r hr).1]; rfl, fun q hq => (a.leaf r hr).2 q (List.mem_of_mem_erase hq)⟩

/-! ### The functions -/

def initPcbs : KM Lists PUnit := do
  modify fun k => { lists := allFree, g := { k.g with pcb := fun p => { k.g.pcb p with pSemAdd := NULL } } }

def isAlive (p : PcbId) : KM Lists Bool := do
  let k ← get
  return !(k.lists.free.any fun c => (k.g.pcb c).pPid = (k.g.pcb p).pPid)

def freePcb (p : PcbId) : KM Lists PUnit := do
  let k ← get
  if h : k.lists.occ p = 0 ∧ k.lists.child p = [] ∧ ∀ q, p ∉ k.lists.child q then
    set (⟨k.lists.pushFree p h.1 h.2.1 h.2.2, k.g.setPcb p fun c => { c with pSemAdd := NULL }⟩ :
      Kernel Lists)
  else throw .misuse

def allocPcb : KM Lists (Option PcbId) := do
  let k ← get
  match k.lists.free with
  | [] => return none
  | p :: _ =>
    set (⟨k.lists.popFree, k.g.setPcb p fun c => { c with
      pParent := none, pS := .zero, pSupportStruct := NULL, pTime := 0, pTmUpdt := 0,
      pSemAdd := NULL }⟩ : Kernel Lists)
    return some p

def emptyProcQ (q : Queue) : KM Lists Bool := do
  return (← get).lists.ready q |>.isEmpty

def insertProcQ (q : Queue) (p : PcbId) : KM Lists PUnit := do
  let k ← get
  if h : k.lists.occ p = 0 then set { k with lists := k.lists.pushReady q p h }
  else throw .misuse

def removeProcQ (q : Queue) : KM Lists (Option PcbId) := do
  let k ← get
  match k.lists.ready q with
  | [] => return none
  | p :: _ =>
    set { k with lists := k.lists.popReady q }
    return some p

def outProcQ (q : Queue) (p : PcbId) : KM Lists (Option PcbId) := do
  let k ← get
  if p ∈ k.lists.ready q then
    set { k with lists := k.lists.eraseReady q p }
    return some p
  else
    return none

def insertChild (prnt p : PcbId) : KM Lists PUnit := do
  let k ← get
  if h : (∀ q, p ∉ k.lists.child q) ∧ prnt ∉ k.lists.free ∧ p ∉ k.lists.free then
    set (⟨k.lists.pushChild prnt p h.1 h.2.1 h.2.2,
      k.g.setPcb p fun c => { c with pParent := some prnt }⟩ : Kernel Lists)
  else throw .misuse

def removeChild (p : PcbId) : KM Lists (Option PcbId) := do
  let k ← get
  if p ∈ k.lists.free then throw .misuse
  else match k.lists.child p with
  | [] => return none
  | c :: _ =>
    set (⟨k.lists.eraseChild c, k.g.setPcb c fun c => { c with pParent := none }⟩ : Kernel Lists)
    return some c

def outChild (p : PcbId) : KM Lists (Option PcbId) := do
  let k ← get
  if (k.g.pcb p).pParent = none then return none
  else if ∃ q, p ∈ k.lists.child q then
    set (⟨k.lists.eraseChild p, k.g.setPcb p fun c => { c with pParent := none }⟩ : Kernel Lists)
    return some p
  else throw .misuse

def insertBlocked (semAdd : Word) (p : PcbId) : KM Lists Bool := do
  let k ← get
  if k.lists.asl.get semAdd = [] ∧ MAXPROC ≤ k.lists.asl.size then return true
  else if h : k.lists.occ p = 0 then
    set (⟨k.lists.pushBlocked semAdd p h, k.g.setPcb p fun c => { c with pSemAdd := semAdd }⟩ :
      Kernel Lists)
    return false
  else throw .misuse

def removeBlocked (semAdd : Word) : KM Lists (Option PcbId) := do
  let k ← get
  match h : k.lists.asl.get semAdd with
  | [] => return none
  | p :: _ =>
    set (⟨k.lists.popBlocked semAdd (by simp [h]),
      k.g.setPcb p fun c => { c with pSemAdd := NULL }⟩ : Kernel Lists)
    return some p

def outBlocked (p : PcbId) : KM Lists (Option PcbId) := do
  let k ← get
  let semAdd := (k.g.pcb p).pSemAdd
  if semAdd = NULL ∨ k.lists.asl.get semAdd = [] then return none
  else if h : p ∈ k.lists.asl.get semAdd then
    set (⟨k.lists.eraseBlocked semAdd p h, k.g.setPcb p fun c => { c with pSemAdd := NULL }⟩ :
      Kernel Lists)
    return some p
  else
    set { k with g := k.g.setPcb p fun c => { c with pSemAdd := NULL } }
    return none

/-- The link of a PCB that is nowhere points to itself, so there is nothing to unlink. -/
def unlinkProc (p : PcbId) : KM Lists PUnit := do
  if (← get).lists.occ p = 0 then return ⟨⟩ else throw .misuse

end Lists

instance : ProcTable Lists where
  uninit := Lists.blank
  view := Lists.view
  initPcbs := Lists.initPcbs
  initAsl := pure ⟨⟩
  mkEmptyProcQ _ := pure ⟨⟩
  isAlive := Lists.isAlive
  freePcb := Lists.freePcb
  allocPcb := Lists.allocPcb
  emptyProcQ := Lists.emptyProcQ
  insertProcQ := Lists.insertProcQ
  removeProcQ := Lists.removeProcQ
  outProcQ := Lists.outProcQ
  insertChild := Lists.insertChild
  removeChild := Lists.removeChild
  outChild := Lists.outChild
  insertBlocked := Lists.insertBlocked
  removeBlocked := Lists.removeBlocked
  outBlocked := Lists.outBlocked
  unlinkProc := Lists.unlinkProc

end Rocm
