import Rocm.Support.Stages

/-!
# The abstract system

The user processes with the stages of their handlers in place of the code. A `Move` is labelled
with what the step is; `Rocm.Refine.Support` shows that every step of the system is a move. The
invariants of the support level are proved over the moves.
-/

namespace Rocm

variable [Umps]

structure Abs where
  mem : Mem
  sem : Sem → Semaphore.State Uproc
  wait : Uproc → Wait
  stage : Uproc → Stage

namespace Abs

def setMem (a : Abs) (m : Mem) : Abs := { a with mem := m }

def setWait (a : Abs) (p : Uproc) (w : Wait) : Abs :=
  { a with wait := Function.update a.wait p w }

def setStage (a : Abs) (p : Uproc) (S : Stage) : Abs :=
  { a with stage := Function.update a.stage p S }

/-- What a semaphore operation of `p` makes of who waits. -/
def waitAfter (a : Abs) (p : Uproc) (s : Sem) (op : Semaphore.Op) : Uproc → Wait :=
  if (a.sem s).up = op.blocksAt then Function.update a.wait p (.sem s)
  else match (a.sem s).queue with
    | w :: _ => Function.update a.wait w .ready
    | [] => a.wait

/-- A semaphore operation of `p`, which goes to the stage `S`. -/
def semOp (a : Abs) (p : Uproc) (s : Sem) (op : Semaphore.Op) (S : Stage) : Abs where
  mem := a.mem
  sem := Function.update a.sem s ((a.sem s).call p op)
  wait := a.waitAfter p s op
  stage := Function.update a.stage p S

end Abs

/-- A stage in which addresses of the user program are used. -/
def Stage.usesMemory (S : Stage) : Prop :=
  S = .user ∨ ∃ sup s, S = ⟨some (.holding sup s), none⟩

/-- The steps of the system. -/
inductive Move (a : Abs) : Did → Abs → Prop where
  | quiet : Move a .quiet a
  | loaded {p va e} : a.wait p = .ready → (a.stage p).usesMemory →
      a.mem.translate (hiOf p va) = some e → e.valid →
      Move a (.loaded p va (a.mem.ram (physAddr e va))) a
  | stored {p va b e} : a.wait p = .ready → (a.stage p).usesMemory →
      a.mem.translate (hiOf p va) = some e → e.valid →
      Move a (.stored p va b)
        (a.setMem { a.mem with ram := Function.update a.mem.ram (physAddr e va) b })
  | refill {p va} (r : Refill) : a.wait p = .ready → (a.stage p).usesMemory →
      a.mem.translate (hiOf p va) = none →
      Move a (.missed p va) (a.setMem (a.mem.uTlbRefill p (hiOf p va) r))
  | fault {p va e s} : a.wait p = .ready → (a.stage p).usesMemory →
      a.mem.translate (hiOf p va) = some e →
      (e.valid → CAUSE_GET_EXCCODE s.cause = EXC_MOD) → s.entryHi = hiOf p va →
      Move a (.faulted p va) ((a.setMem (a.mem.setExceptState p PGFAULTEXCEPT s)).setStage p
        ⟨(a.stage p).gen, some .entry⟩)
  | trap {p pc e s} : a.wait p = .ready → a.stage p = .user →
      a.mem.translate (hiOf p pc) = some e → e.valid →
      Move a (.trapped p) ((a.setMem (a.mem.setExceptState p GENERALEXCEPT s)).setStage p
        ⟨some .entry, none⟩)
  | again {p sup s} : a.wait p = .ready → a.stage p = ⟨some (.plain sup), none⟩ →
      ¬ sup.IsTerminate → s.IsTerminate →
      Move a (.gave p (.call .terminate))
        ((a.setMem (a.mem.setExceptState p GENERALEXCEPT s)).setStage p ⟨some .entry, none⟩)
  | act {p} (x : Act) : a.wait p = .ready → (a.stage p).allows p (.act x) →
      Move a (.gave p (.act x)) ((a.setMem (x.run a.mem).2).setStage p
        ((a.stage p).next (.act x) (x.run a.mem).1))
  | passeren {p} (s : Sem) : a.wait p = .ready → (a.stage p).allows p (.call (.passeren s)) →
      Move a (.gave p (.call (.passeren s)))
        (a.semOp p s .passeren ((a.stage p).next (.call (.passeren s)) ()))
  | verhogen {p} (s : Sem) : a.wait p = .ready → (a.stage p).allows p (.call (.verhogen s)) →
      Move a (.gave p (.call (.verhogen s)))
        (a.semOp p s .verhogen ((a.stage p).next (.call (.verhogen s)) ()))
  | issue {p} (d : SubDev) (v : Word) : a.wait p = .ready →
      (a.stage p).allows p (.call (.doio d v)) →
      Move a (.gave p (.call (.doio d v))) ((a.setMem (a.mem.setCommand d v)).setWait p .io)
  | ended {p d v} (status : Word) : a.wait p = .io → (a.stage p).allows p (.call (.doio d v)) →
      Move a (.ended p d v status) (((a.setMem (a.mem.complete d status)).setWait p .ready).setStage
        p ((a.stage p).next (.call (.doio d v)) status))
  | die {p} : a.wait p = .ready → (a.stage p).allows p (.call .termProcess) →
      Move a (.gave p (.call .termProcess)) (a.setWait p .dead)
  | stck {p} : a.wait p = .ready → Move a (.gave p (.call .stck)) a
  | readLoop {p va i n} : a.wait p = .ready → Move a (.gave p (.call (.readLoop va i n))) a
  | resume {p} : a.wait p = .ready → (a.stage p).tlb = some .released →
      Move a (.gave p (.call (.ldst 0))) (a.setStage p ⟨(a.stage p).gen, none⟩)
  | finish {p} : a.wait p = .ready → a.stage p = ⟨some .returning, none⟩ →
      Move a (.gave p (.call (.ldst 1))) (a.setStage p .user)

/-- The abstract system when nothing has run. -/
def Abs.start (m : Mem) : Abs := ⟨m, fun _ => ⟨true, []⟩, fun _ => .ready, fun _ => .user⟩

end Rocm
