import Mathlib.Logic.Relation
import Rocm.Nucleus.Machine

/-!
# What the nucleus does to its queues

The actions of the nucleus on what can be seen of it: blocking, waking, creating and killing
processes, and dispatching. They are the vocabulary of the specification of the handlers.
-/

namespace Rocm

namespace View

/-- `p` is in no list. -/
def Loose (v : View) (p : PcbId) : Prop :=
  p ∉ v.free ∧ (∀ q, p ∉ v.ready q) ∧ ∀ s, p ∉ v.blocked s

/-- What the shape of the lists alone says. -/
structure Wf (v : View) : Prop where
  free_nodup : v.free.Nodup
  ready_nodup : ∀ q, (v.ready q).Nodup
  blocked_nodup : ∀ s, (v.blocked s).Nodup
  free_ready : ∀ p ∈ v.free, ∀ q, p ∉ v.ready q
  free_blocked : ∀ p ∈ v.free, ∀ s, p ∉ v.blocked s
  ready_blocked : ∀ q, ∀ p ∈ v.ready q, ∀ s, p ∉ v.blocked s
  ready_unique : ∀ p q q', p ∈ v.ready q → p ∈ v.ready q' → q = q'
  siblings : ∀ q, (v.child q).Nodup
  parent : ∀ p q q', p ∈ v.child q → p ∈ v.child q' → q = q'
  leaf : ∀ p ∈ v.free, v.child p = [] ∧ ∀ q, p ∉ v.child q

def popFree (v : View) : View := { v with free := v.free.tail }

def pushFree (v : View) (p : PcbId) : View := { v with free := p :: v.free }

def pushReady (v : View) (q : Queue) (p : PcbId) : View :=
  { v with ready := Function.update v.ready q (v.ready q ++ [p]) }

def popReady (v : View) (q : Queue) : View :=
  { v with ready := Function.update v.ready q (v.ready q).tail }

def eraseReady (v : View) (q : Queue) (p : PcbId) : View :=
  { v with ready := Function.update v.ready q ((v.ready q).erase p) }

def pushBlocked (v : View) (s : Word) (p : PcbId) : View :=
  { v with blocked := Function.update v.blocked s (v.blocked s ++ [p]) }

def popBlocked (v : View) (s : Word) : View :=
  { v with blocked := Function.update v.blocked s (v.blocked s).tail }

def eraseBlocked (v : View) (s : Word) (p : PcbId) : View :=
  { v with blocked := Function.update v.blocked s ((v.blocked s).erase p) }

def pushChild (v : View) (q p : PcbId) : View :=
  { v with child := Function.update v.child q (p :: v.child q) }

def eraseChild (v : View) (p : PcbId) : View :=
  { v with child := fun q => (v.child q).erase p }

/-- `enqueue_proc` for a PCB that is nowhere. -/
def enqueue (v : View) (p : PcbId) (prio : Word) : View :=
  if prio = PROCESS_PRIO_HIGH then v.pushReady .high p
  else if prio = PROCESS_PRIO_LOW then v.pushReady .low p
  else v

/-- `r` is `p` or a descendant of `p`. -/
def Desc (v : View) : PcbId → PcbId → Prop := Relation.ReflTransGen fun a b => b ∈ v.child a

/-- The children of the members of `S` are in `S`. -/
def Closed (v : View) (S : List PcbId) : Prop := ∀ q ∈ S, ∀ p ∈ v.child q, p ∈ S

/-- `S` lists `p` and its descendants. -/
structure Subtree (v : View) (p : PcbId) (S : List PcbId) : Prop where
  nodup : S.Nodup
  mem_iff : ∀ r, r ∈ S ↔ v.Desc p r

/-- The PCBs of `S` are freed, the last one first. -/
def remove (v : View) (S : List PcbId) : View where
  free := S ++ v.free
  ready q := (v.ready q).filter (· ∉ S)
  blocked s := (v.blocked s).filter (· ∉ S)
  child q := if q ∈ S then [] else (v.child q).filter (· ∉ S)

theorem eraseChild_of_notMem {v : View} {p : PcbId} (h : ∀ q, p ∉ v.child q) :
    v.eraseChild p = v :=
  View.ext rfl rfl rfl (funext fun q => List.erase_of_not_mem (h q))

end View

namespace Globals

/-- `p` is counted and tagged as blocked on `s`. -/
def block (g : Globals) (s : Word) (p : PcbId) : Globals :=
  { g.setPcb p fun c => { c with pSemAdd := s } with sbProcs := g.sbProcs + 1 }

/-- `p` is no longer blocked. -/
def unblock (g : Globals) (p : PcbId) : Globals :=
  { g.setPcb p fun c => { c with pSemAdd := NULL } with sbProcs := g.sbProcs - 1 }

/-- The PCBs of `S` are no longer processes. -/
def kill (g : Globals) (S : List PcbId) : Globals :=
  { g with
    pcb := fun p =>
      if p ∈ S then { g.pcb p with pParent := none, pSemAdd := NULL } else g.pcb p
    procsCount := g.procsCount - BitVec.ofNat 32 S.length
    sbProcs := g.sbProcs - BitVec.ofNat 32 (S.countP fun p => (g.pcb p).pSemAdd ≠ NULL) }

/-- The PCB of a new process. -/
def newPcb [Layout] (g : Globals) (c r : PcbId) (statep prio supportp : Word) : Pcb where
  pParent := some r
  pS := g.states statep
  pTime := 0
  pTmUpdt := 0
  pSemAdd := NULL
  pSupportStruct := supportp
  pPrio := prio
  pPid := Layout.toAddresses.pcbAddr c

/-- `c` becomes a process with parent `r`. -/
def create [Layout] (g : Globals) (c r : PcbId) (statep prio supportp : Word) : Globals :=
  { g.setPcb c fun _ => g.newPcb c r statep prio supportp with procsCount := g.procsCount + 1 }

/-- `load_proc` gives the processor to `p`. -/
def load [Layout] (g : Globals) (p : PcbId) : Globals :=
  { g.setPcb p fun c => { c with
      pS := { c.pS with status := loadStatus c.pPrio c.pS.status }
      pTmUpdt := g.clock.reading g.clock.next } with
    actProc := some p
    timer := TIMESLICE * Layout.toAddresses.timescale
    clock := { g.clock with next := g.clock.next + 1 } }

/-- The processor waits. -/
def idle [Layout] (g : Globals) : Globals :=
  { g with
    actProc := none
    timer := TIMESLICE * Layout.toAddresses.timescale
    cpuStatus := (g.cpuStatus ||| STATUS_IEc ||| STATUS_TE) ^^^ STATUS_TE }

/-- The time `p` has run is added to its age. -/
def age (g : Globals) (p : PcbId) : Globals :=
  { g.setPcb p fun c => { c with
      pTime := c.pTime + (g.clock.reading g.clock.next - c.pTmUpdt)
      pTmUpdt := g.clock.reading g.clock.next } with
    clock := { g.clock with next := g.clock.next + 1 } }

/-- A store to the command register of `d`. -/
def command (g : Globals) (d : SubDev) (cmd : Word) : Globals :=
  { g with dev := Function.update g.dev d ((g.dev d).store cmd) }

/-- The result of a V reaches `reg_v0` of the process it returned. -/
def deliver (g : Globals) (p : Option PcbId) (status : Word) : Globals :=
  match p with
  | some p => g.setPS p (·.setReg regV0 status)
  | none => g

end Globals

namespace Kernel

/-- `p` goes to the end of the queue of `s`. -/
def block (k : Kernel View) (s : Word) (p : PcbId) : Kernel View :=
  ⟨k.lists.pushBlocked s p, k.g.block s p⟩

/-- `w`, the first in the queue of `s`, goes to the ready queue of its priority. -/
def wake (k : Kernel View) (s : Word) (w : PcbId) : Kernel View :=
  ⟨(k.lists.popBlocked s).enqueue w (k.g.pcb w).pPrio, k.g.unblock w⟩

/-- The processes `ws`, which are the whole queue of `s`, wake up in their order. -/
def wakeAll (k : Kernel View) (s : Word) : List PcbId → Kernel View
  | [] => k
  | w :: ws => (k.wake s w).wakeAll s ws

/-- The processes of `S` are killed. -/
def kill (k : Kernel View) (S : List PcbId) : Kernel View := ⟨k.lists.remove S, k.g.kill S⟩

/-- A process is made from the PCB `c`, the first free one, as a child of `r`. -/
def create [Layout] (k : Kernel View) (c r : PcbId) (statep prio supportp : Word) : Kernel View :=
  ⟨(k.lists.popFree.pushChild r c).enqueue c prio, k.g.create c r statep prio supportp⟩

/-- The process that called `YIELD` goes to the ready queue of its priority. -/
def flushYielded (k : Kernel View) : Kernel View :=
  match k.g.yieldedProc with
  | none => k
  | some y => ⟨k.lists.enqueue y (k.g.pcb y).pPrio, { k.g with yieldedProc := none }⟩

/-- `p` gets the processor. -/
def load [Layout] (k : Kernel View) (p : PcbId) : Kernel View :=
  ⟨k.flushYielded.lists, k.flushYielded.g.load p⟩

end Kernel

/-! ## The semaphore operations -/

/-- A P of the running process `p` on `s`. -/
inductive PStep (s : Word) (p : PcbId) (k : Kernel View) : EhAct → Kernel View → Prop where
  | block : k.g.int s = 0 → PStep s p k .nothing (k.block s p)
  | wake {w ws} : k.g.int s ≠ 0 → k.lists.blocked s = w :: ws →
      PStep s p k .renqueue (k.wake s w)
  | take : k.g.int s ≠ 0 → k.lists.blocked s = [] →
      PStep s p k .renqueue (k.mapG (·.setInt s 0))

/-- A V on `s` of the running process, or of an interrupt handler. -/
inductive VStep (s : Word) (k : Kernel View) : Option PcbId → Kernel View → Prop where
  | idle : k.g.int s = 1 → k.g.actProc = none → VStep s k none k
  | block {p} : k.g.int s = 1 → k.g.actProc = some p → VStep s k none (k.block s p)
  | wake {w ws} : k.g.int s ≠ 1 → k.lists.blocked s = w :: ws → VStep s k (some w) (k.wake s w)
  | give : k.g.int s ≠ 1 → k.lists.blocked s = [] →
      VStep s k k.g.actProc (k.mapG (·.setInt s 1))

/-! ## Dispatching -/

/-- What `scheduler_next` does. -/
inductive Dispatch [Layout] (k : Kernel View) : Exit → Kernel View → Prop where
  | high {p ps} : k.lists.ready .high = p :: ps →
      Dispatch k (.ldst p) (Kernel.load ⟨k.lists.popReady .high, k.g⟩ p)
  | low {p ps} : k.lists.ready .high = [] → k.lists.ready .low = p :: ps →
      Dispatch k (.ldst p) (Kernel.load ⟨k.lists.popReady .low, k.g⟩ p)
  | halt : (∀ q, k.lists.ready q = []) → k.g.procsCount = 0 → Dispatch k .halt k
  | wait : (∀ q, k.lists.ready q = []) → k.g.procsCount ≠ 0 → k.g.sbProcs ≠ 0 →
      Dispatch k .wait (k.flushYielded.mapG (·.idle))
  | deadlock : (∀ q, k.lists.ready q = []) → k.g.procsCount ≠ 0 → k.g.sbProcs = 0 →
      Dispatch k (.panic .deadlock) k

/-- What `update_age` and `dispose` leave for `scheduler_next`. -/
inductive Disposed (k : Kernel View) : EhAct → Kernel View → Prop where
  | none {r} : k.g.actProc = none → Disposed k r k
  | renqueue {p} : k.g.actProc = some p →
      Disposed k .renqueue ⟨k.lists.enqueue p (k.g.pcb p).pPrio, k.g.age p⟩
  | nothing {p r} : k.g.actProc = some p → r ≠ .continue → r ≠ .renqueue →
      Disposed k r (k.mapG (·.age p))

/-- What follows the handler of an exception: the age of the running process, what its action
    says, `scheduler_next`. -/
inductive Finish [Layout] (k : Kernel View) : EhAct → Exit → Kernel View → Prop where
  | none {r e k'} : k.g.actProc = none → Dispatch k e k' → Finish k r e k'
  | continue {p} : k.g.actProc = some p →
      Finish k .continue (.ldst p) ((k.mapG (·.age p)).load p)
  | renqueue {p e k'} : k.g.actProc = some p →
      Dispatch ⟨k.lists.enqueue p (k.g.pcb p).pPrio, k.g.age p⟩ e k' →
      Finish k .renqueue e k'
  | nothing {p r e k'} : k.g.actProc = some p → r ≠ .continue → r ≠ .renqueue →
      Dispatch (k.mapG (·.age p)) e k' → Finish k r e k'

/-! ## Interrupts -/

/-- The line that is served. -/
def Globals.servedLine (g : Globals) : Option (Fin 8) := (List.finRange 8).find? g.causeIP

/-- The sub-device whose completion is served, if any: of a terminal the first half whose
    status is a success. -/
def Globals.served (g : Globals) : Option SubDev :=
  match g.servedLine with
  | none => none
  | some line =>
    if h : 3 ≤ line.val then
      let line : Fin 5 := ⟨line.val - 3, by omega⟩
      let index := topBit 32 (g.bitmap line) 0
      if hi : index < 8 then
        (subDevs line ⟨index, hi⟩).find? fun d => line.val < 4 ∨ okCharTrans (g.dev d).status
      else none
    else none

end Rocm
