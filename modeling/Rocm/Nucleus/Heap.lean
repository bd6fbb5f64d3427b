import Rocm.Lib.Family
import Rocm.Nucleus.Listx
import Rocm.Nucleus.Types

/-!
# The links of the nucleus

The `list_head`s of the nucleus fall into three families that never mix: process queues
(through `p_list`), children (through `p_sib`) and semaphore descriptors (through `s_link`).
Each family has its heads and its elements.
-/

namespace Rocm

open Ring Prog

/-- The index of an element of `semd_table`. -/
abbrev SemdId := Fin MAXPROC

/-- The heads of the lists that run through `p_list`: those of the nucleus, and `other` for any
    further queue that a caller of `pcb.c` makes, as the test of phase 1 does. -/
inductive PHead where
  | pcbFreeH
  | hQueue
  | lQueue
  | sProcq (s : SemdId)
  | other (n : Nat)
  deriving DecidableEq

/-- The heads of the lists that run through `s_link`: `semd_h` and `semd_free_h`. -/
inductive SHead where
  | semdH
  | semdFreeH
  deriving DecidableEq

/-- The two ready queues. -/
inductive Queue where
  | high
  | low
  deriving DecidableEq

/-- `h_queue` and `l_queue` (`scheduler.c:25-27`). -/
def Queue.head : Queue → PHead
  | .high => .hQueue
  | .low => .lQueue

/-- All links of the nucleus, and the keys of the semaphore descriptors. -/
structure Heap where
  procs : Links (Node PHead PcbId)
  tree : Links (Node PcbId PcbId)
  semds : Links (Node SHead SemdId)
  sKey : SemdId → Word

/-- More steps than a loop over a list can take before it meets a node twice. -/
def walkFuel : Nat := 64

namespace Heap

/-- Rewrites the process queues. -/
def procsM (f : Links (Node PHead PcbId) → Option (Links (Node PHead PcbId))) : KM Heap PUnit := do
  let k ← get
  match f k.lists.procs with
  | some procs => set { k with lists := { k.lists with procs := procs } }
  | none => throw .fault

/-- Rewrites the lists of children. -/
def treeM (f : Links (Node PcbId PcbId) → Option (Links (Node PcbId PcbId))) : KM Heap PUnit := do
  let k ← get
  match f k.lists.tree with
  | some tree => set { k with lists := { k.lists with tree := tree } }
  | none => throw .fault

/-- Rewrites the lists of semaphore descriptors. -/
def semdsM (f : Links (Node SHead SemdId) → Option (Links (Node SHead SemdId))) :
    KM Heap PUnit := do
  let k ← get
  match f k.lists.semds with
  | some semds => set { k with lists := { k.lists with semds := semds } }
  | none => throw .fault

/-- `container_of` for a pointer that the caller takes for an element. -/
def containerOf {η μ : Type} : Option (Node η μ) → KM Heap μ
  | some (.elem m) => pure m
  | _ => throw .fault

/-- A `list_for_each` loop that stops at the first element with `f`. -/
def listForEach {η μ : Type} [DecidableEq η] [DecidableEq μ] (l : Links (Node η μ)) (head : η)
    (f : μ → Bool) : KM Heap (Option μ) :=
  match walk l (.head head) (fun | .elem m => f m | .head _ => false) walkFuel
      (l.next (.head head)) with
  | .hit (.elem m) => pure (some m)
  | .hit (.head _) => throw .fault
  | .stop => pure none
  | .null => throw .fault
  | .endless => throw .endless

/-! ## `pcb.c` -/

/-- `init_pcbs` (`pcb.c:41-51`). -/
def initPcbs : KM Heap PUnit := do
  procsM fun l => some (initListHead (.head .pcbFreeH) l)
  (List.finRange MAXPROC).forM fun i => do
    modifyG (·.setPcb i fun c => { c with pSemAdd := NULL })
    procsM (listAddTail (.elem i) (.head .pcbFreeH))

/-- `is_alive` (`pcb.c:15-26`). -/
def isAlive (pcb : PcbId) : KM Heap Bool := do
  let k ← get
  let found ← listForEach k.lists.procs .pcbFreeH
    fun curr => (k.g.pcb curr).pPid = (k.g.pcb pcb).pPid
  return found.isNone

/-- `free_pcb` (`pcb.c:53-57`). -/
def freePcb (p : PcbId) : KM Heap PUnit := do
  modifyG (·.setPcb p fun c => { c with pSemAdd := NULL })
  procsM (listAdd (.elem p) (.head .pcbFreeH))

/-- `alloc_pcb` (`pcb.c:62-94`). -/
def allocPcb : KM Heap (Option PcbId) := do
  let k ← get
  if listEmpty (.head .pcbFreeH) k.lists.procs then
    return none
  else
    let pcb ← containerOf (k.lists.procs.next (.head .pcbFreeH))
    procsM (listDel (.elem pcb))
    modifyG (·.setPcb pcb fun c => { c with pParent := none })
    procsM fun l => some (initListHead (.elem pcb) l)
    treeM fun l => some (initListHead (.head pcb) l)
    treeM fun l => some (initListHead (.elem pcb) l)
    modifyG (·.setPcb pcb fun c => { c with
      pS := .zero, pSupportStruct := NULL, pTime := 0, pTmUpdt := 0, pSemAdd := NULL })
    return some pcb

/-- `mk_empty_proc_q` (`pcb.c:97`). -/
def mkEmptyProcQ (head : PHead) : KM Heap PUnit :=
  procsM fun l => some (initListHead (.head head) l)

/-- `empty_proc_q` (`pcb.c:100`). -/
def emptyProcQ (head : PHead) : KM Heap Bool := do
  return listEmpty (.head head) (← get).lists.procs

/-- `insert_proc_q` (`pcb.c:103-106`). -/
def insertProcQ (head : PHead) (p : PcbId) : KM Heap PUnit :=
  procsM (listAddTail (.elem p) (.head head))

/-- `head_proc_q` (`pcb.c:110-118`). -/
def headProcQ (head : PHead) : KM Heap (Option PcbId) := do
  if ← emptyProcQ head then
    return none
  else
    some <$> containerOf ((← get).lists.procs.next (.head head))

/-- `remove_proc_q` (`pcb.c:122-135`). -/
def removeProcQ (head : PHead) : KM Heap (Option PcbId) := do
  match ← headProcQ head with
  | none => return none
  | some pcb =>
    procsM (listDel (.elem pcb))
    procsM fun l => some (initListHead (.elem pcb) l)
    return some pcb

/-- `out_proc_q` (`pcb.c:139-157`). -/
def outProcQ (head : PHead) (p : PcbId) : KM Heap (Option PcbId) := do
  match ← listForEach (← get).lists.procs head (fun iter => iter = p) with
  | some iter =>
    procsM (listDel (.elem iter))
    procsM fun l => some (initListHead (.elem iter) l)
    return some p
  | none => return none

/-- `empty_child` (`pcb.c:162`). -/
def emptyChild (p : PcbId) : KM Heap Bool := do return listEmpty (.head p) (← get).lists.tree

/-- `insert_child` (`pcb.c:165-169`). -/
def insertChild (prnt p : PcbId) : KM Heap PUnit := do
  modifyG (·.setPcb p fun c => { c with pParent := some prnt })
  treeM (listAdd (.elem p) (.head prnt))

/-- `remove_child` (`pcb.c:172-192`). -/
def removeChild (p : PcbId) : KM Heap (Option PcbId) := do
  let k ← get
  if listEmpty (.head p) k.lists.tree then
    return none
  else
    let firstChild ← containerOf (listNext (.head p) k.lists.tree)
    treeM (listDel (.elem firstChild))
    modifyG (·.setPcb firstChild fun c => { c with pParent := none })
    return some firstChild

/-- `out_child` (`pcb.c:195-206`). -/
def outChild (p : PcbId) : KM Heap (Option PcbId) := do
  if ((← getG).pcb p).pParent = none then
    return none
  else
    treeM (listDel (.elem p))
    modifyG (·.setPcb p fun c => { c with pParent := none })
    return some p

/-- `if (!list_empty(&p->p_list)) list_del(&p->p_list);` (`syscalls.c:205-206`, `238-239`). -/
def unlinkProc (p : PcbId) : KM Heap PUnit := do
  if listEmpty (.elem p) (← get).lists.procs then
    return ⟨⟩
  else
    procsM (listDel (.elem p))

/-! ## `asl.c` -/

/-- `get_semd` (`asl.c:22-35`). -/
def getSemd (sKey : Word) : KM Heap (Option SemdId) := do
  let k ← get
  listForEach k.lists.semds .semdH fun tmp => k.lists.sKey tmp = sKey

/-- `insert_blocked` (`asl.c:37-64`); `true` when no descriptor is free. -/
def insertBlocked (semAdd : Word) (p : PcbId) : KM Heap Bool := do
  match ← getSemd semAdd with
  | none =>
    let k ← get
    if listEmpty (.head .semdFreeH) k.lists.semds then
      return true
    else
      let tmp ← containerOf (k.lists.semds.next (.head .semdFreeH))
      modify fun k => { k with lists := { k.lists with
        sKey := Function.update k.lists.sKey tmp semAdd } }
      semdsM (listDel (.elem tmp))
      semdsM (listAdd (.elem tmp) (.head .semdH))
      procsM fun l => some (initListHead (.head (.sProcq tmp)) l)
      insertProcQ (.sProcq tmp) p
      modifyG (·.setPcb p fun c => { c with pSemAdd := semAdd })
      return false
  | some s =>
    insertProcQ (.sProcq s) p
    modifyG (·.setPcb p fun c => { c with pSemAdd := semAdd })
    return false

/-- `remove_blocked` (`asl.c:66-84`); it writes to the PCB before it looks whether there was
    one. -/
def removeBlocked (semAdd : Word) : KM Heap (Option PcbId) := do
  match ← getSemd semAdd with
  | none => return none
  | some s =>
    match ← removeProcQ (.sProcq s) with
    | none => throw .emptyDescriptor
    | some pcb =>
      modifyG (·.setPcb pcb fun c => { c with pSemAdd := NULL })
      if listEmpty (.head (.sProcq s)) (← get).lists.procs then
        semdsM (listDel (.elem s))
        semdsM (listAdd (.elem s) (.head .semdFreeH))
      return some pcb

/-- `out_blocked` (`asl.c:86-112`) for a PCB. -/
def outBlocked (p : PcbId) : KM Heap (Option PcbId) := do
  let semAdd := ((← getG).pcb p).pSemAdd
  if semAdd = NULL then
    return none
  else
    match ← getSemd semAdd with
    | none => return none
    | some s =>
      modifyG (·.setPcb p fun c => { c with pSemAdd := NULL })
      match ← outProcQ (.sProcq s) p with
      | none => return none
      | some pcb =>
        if listEmpty (.head (.sProcq s)) (← get).lists.procs then
          semdsM (listDel (.elem s))
          semdsM (listAddTail (.elem s) (.head .semdFreeH))
        return some pcb

/-- `head_blocked` (`asl.c:114-124`). -/
def headBlocked (semAdd : Word) : KM Heap (Option PcbId) := do
  match ← getSemd semAdd with
  | none => return none
  | some s => headProcQ (.sProcq s)

/-- `init_asl` (`asl.c:126-142`). -/
def initAsl : KM Heap PUnit := do
  semdsM fun l => some (initListHead (.head .semdH) l)
  semdsM fun l => some (initListHead (.head .semdFreeH) l)
  (List.finRange MAXPROC).forM fun i => do
    semdsM fun l => some (initListHead (.elem i) l)
    procsM fun l => some (initListHead (.head (.sProcq i)) l)
    semdsM (listAddTail (.elem i) (.head .semdFreeH))

end Heap

end Rocm
