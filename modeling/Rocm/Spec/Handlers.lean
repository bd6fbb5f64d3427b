import Rocm.Spec.Actions

/-!
# What the handlers of the nucleus do

`Outcome` lists everything the handler of an exception may have done when it returns an action,
`EarlyExit` how it ends otherwise, `Next` a whole step of the machine. The state `k` is the one
after the registers of the running process have been saved in its PCB.
-/

namespace Rocm

variable [Layout]

/-- The registers of the running process go to its PCB. -/
def Globals.save (g : Globals) : Globals :=
  match g.actProc with
  | some act => g.setPS act fun _ => g.biosDataPage
  | none => g

/-- The number and the arguments of a system call. -/
def ProcState.number (s : ProcState) : Word := s.gpr regA0
def ProcState.arg1 (s : ProcState) : Word := s.gpr regA1
def ProcState.arg2 (s : ProcState) : Word := s.gpr regA2
def ProcState.arg3 (s : ProcState) : Word := s.gpr regA3

/-- The saved state is that of a kernel syscall made in kernel mode. -/
def Globals.KernelCall (g : Globals) (s : ProcState) : Prop :=
  CAUSE_GET_EXCCODE s.cause = EXC_SYS ∧ (g.cpuStatus &&& STATUS_KUp) >>> STATUS_KUp_BIT = 0 ∧
    s.number.slt 0

/-- `getppid` for a process: its own PID, or the one of its parent, or 0. -/
def Globals.pidOf (g : Globals) (act : PcbId) (parent : Word) : Word :=
  if parent = 0 then (g.pcb act).pPid
  else match (g.pcb act).pParent with
    | some q => (g.pcb q).pPid
    | none => 0

/-- The result of the syscalls that only read. -/
def Globals.sysResult (g : Globals) (act : PcbId) (s : ProcState) : Option Word :=
  if s.number = GETTIME then some (g.pcb act).pTime
  else if s.number = GETSUPPORTPTR then some (g.pcb act).pSupportStruct
  else if s.number = GETPROCESSID then some (g.pidOf act s.arg1)
  else none

/-- The effect of a store of a word (`storeWord`). -/
def Globals.storeWord (g : Globals) (a v : Word) : Globals :=
  match SubDev.all.find? fun d => d.commandAddr = a with
  | some d => g.command d v
  | none => g.setInt a v

/-- The process a TERMPROCESS of `act` is about. -/
def termTarget (act : PcbId) (pid : Word) : Option PcbId :=
  if pid = 0 then some act else pcbAt (searchByPid pid)

/-- The numbers `handle_syscall` knows. -/
def sysNumbers : List Word :=
  [CREATEPROCESS, TERMPROCESS, PASSEREN, VERHOGEN, DOIO, GETTIME, CLOCKWAIT, GETSUPPORTPTR,
    GETPROCESSID, YIELD]

/-- What a kernel syscall with saved state `s` of the process `act` does. -/
inductive SysOutcome (k : Kernel View) (act : PcbId) (s : ProcState) :
    EhAct → Kernel View → Prop where
  | value {v} : k.g.sysResult act s = some v →
      SysOutcome k act s .continue (k.mapG (·.setPS act (·.setReg regV0 v)))
  | full : s.number = CREATEPROCESS → k.lists.free = [] → SysOutcome k act s (.other (-1)) k
  | create {c cs} : s.number = CREATEPROCESS → k.lists.free = c :: cs →
      SysOutcome k act s .continue ((k.create c act s.arg1 s.arg2 s.arg3).mapG
        (·.setPS act (·.setReg regV0 (Layout.toAddresses.pcbAddr c))))
  | terminate {q S} : s.number = TERMPROCESS → termTarget act s.arg1 = some q →
      q ∉ k.lists.free → k.lists.Subtree q S →
      SysOutcome k act s (if act ∈ S then .nothing else .renqueue) (k.kill S)
  | passeren {r k'} : s.number = PASSEREN → s.arg1 &&& 3 = 0 →
      k.g.int s.arg1 = 0 ∨ k.g.int s.arg1 = 1 → PStep s.arg1 act k r k' → SysOutcome k act s r k'
  | verhogen {p k'} : s.number = VERHOGEN → s.arg1 &&& 3 = 0 →
      k.g.int s.arg1 = 0 ∨ k.g.int s.arg1 = 1 → VStep s.arg1 k p k' →
      SysOutcome k act s (if p = none then .nothing else .renqueue) k'
  | doio {r k'} : s.number = DOIO → s.arg1 ≠ 0 → s.arg1 ≠ NULL → s.arg1 &&& 3 = 0 →
      doIoSem k.g.junk s.arg1 &&& 3 = 0 → PStep (doIoSem k.g.junk s.arg1) act k r k' →
      SysOutcome k act s .nothing (k'.mapG (·.storeWord s.arg1 s.arg2))
  | clockwait {r k'} : s.number = CLOCKWAIT →
      PStep (Layout.toAddresses.semAddr .it) act k r k' → SysOutcome k act s r k'
  | yield : s.number = YIELD →
      SysOutcome k act s .nothing (k.mapG fun g => { g with yieldedProc := some act })
  | unknown {S} : s.number ∉ sysNumbers → (k.g.pcb act).pSupportStruct = NULL →
      k.lists.Subtree act S → SysOutcome k act s .nothing (k.kill S)

/-- Everybody who waits for the clock wakes up. -/
def Kernel.tick (k : Kernel View) : Kernel View :=
  let it := Layout.toAddresses.semAddr .it
  ((k.mapG fun g => { g with intervalTimer := PSECOND }).wakeAll it (k.lists.blocked it)).mapG
    fun g => (g.setInt it 1).setInt it 0

/-- An interrupt is handled. -/
def Globals.IntTaken (g : Globals) : Prop := CAUSE_GET_EXCCODE g.biosDataPage.cause = EXC_INT

/-- A trap, or a syscall that is no kernel syscall, is handled. -/
def Globals.TrapTaken (g : Globals) : Prop := ¬ g.IntTaken ∧ ¬ g.KernelCall g.biosDataPage

/-- What the handler of an exception has done when it returns an action. -/
inductive Outcome (k : Kernel View) : EhAct → Kernel View → Prop where
  | slice : k.g.IntTaken → k.g.servedLine = some 1 → Outcome k .renqueue
      (k.mapG fun g => { g with timer := TIMESLICE * Layout.toAddresses.timescale })
  | tick : k.g.IntTaken → k.g.servedLine = some 2 → Outcome k .continue k.tick
  | served {d p k'} : k.g.IntTaken → k.g.served = some d →
      VStep (Layout.toAddresses.semAddr (.dev d)) k p k' →
      Outcome k .continue
        (k'.mapG fun g => (g.deliver p (k.g.dev d).status).command d ACK)
  /-- An interrupt of the line 0, or of a terminal neither half of which has succeeded. -/
  | unserved {line} : k.g.IntTaken → k.g.servedLine = some line → line ≠ 1 → line ≠ 2 →
      k.g.served = none → Outcome k .continue k
  /-- No interrupt is pending, or the cause has no case. -/
  | spurious : k.g.IntTaken ∧ k.g.servedLine = none ∨
      k.g.TrapTaken ∧ ¬ k.g.biosDataPage.IsAddressError → Outcome k .renqueue k
  | sys {act r k'} : k.g.actProc = some act → k.g.KernelCall k.g.biosDataPage →
      SysOutcome k act k.g.biosDataPage r k' →
      Outcome k r (k'.mapG (·.setPS act (·.advance)))
  | die {act f S} : k.g.TrapTaken → k.g.actProc = some act →
      (k.g.pcb act).pSupportStruct = NULL → k.lists.Subtree act S →
      Outcome k .nothing ((k.mapG (·.setPS act f)).kill S)

/-- How a kernel syscall of `act` with saved state `s` ends when it does not return. -/
inductive SysExit (k : Kernel View) (act : PcbId) (s : ProcState) : Exit → Kernel View → Prop where
  | passUp : s.number ∉ sysNumbers → (k.g.pcb act).pSupportStruct ≠ NULL →
      SysExit k act s (.ldcxt act
          ((k.g.supports (k.g.pcb act).pSupportStruct).supExceptContext GENERALEXCEPT))
        (k.mapG (·.passUp (k.g.pcb act).pSupportStruct GENERALEXCEPT))
  | rangeP : s.number = PASSEREN → k.g.int s.arg1 ≠ 0 → k.g.int s.arg1 ≠ 1 →
      SysExit k act s (.panic .semRangeP) k
  | rangeV : s.number = VERHOGEN → k.g.int s.arg1 ≠ 0 → k.g.int s.arg1 ≠ 1 →
      SysExit k act s (.panic .semRangeV) k
  | doIoNull : s.number = DOIO → s.arg1 = 0 ∨ s.arg1 = NULL → SysExit k act s (.panic .doIoNull) k
  | sem : s.number = PASSEREN ∨ s.number = VERHOGEN → s.arg1 &&& 3 ≠ 0 → SysExit k act s .fault k
  | doioSem : s.number = DOIO → doIoSem k.g.junk s.arg1 &&& 3 ≠ 0 → SysExit k act s .fault k
  /-- The caller may have blocked when the command cannot be stored. -/
  | doio {r k'} : s.number = DOIO → s.arg1 &&& 3 ≠ 0 → doIoSem k.g.junk s.arg1 &&& 3 = 0 →
      PStep (doIoSem k.g.junk s.arg1) act k r k' → SysExit k act s .fault k'

/-- How the handler of an exception ends when it does not return. -/
inductive EarlyExit (k : Kernel View) : Exit → Kernel View → Prop where
  | trap {act kind} : k.g.TrapTaken → k.g.actProc = some act →
      (k.g.pcb act).pSupportStruct ≠ NULL →
      EarlyExit k (.ldcxt act ((k.g.supports (k.g.pcb act).pSupportStruct).supExceptContext kind))
        (k.mapG (·.passUp (k.g.pcb act).pSupportStruct kind))
  /-- A user syscall counts as a reserved instruction. -/
  | user {act f kind} : k.g.TrapTaken → k.g.actProc = some act →
      (k.g.pcb act).pSupportStruct ≠ NULL →
      EarlyExit k (.ldcxt act ((k.g.supports (k.g.pcb act).pSupportStruct).supExceptContext kind))
        ((k.mapG (·.setPS act f)).mapG (·.passUp (k.g.pcb act).pSupportStruct kind))
  | sys {act e k'} : k.g.actProc = some act → k.g.KernelCall k.g.biosDataPage →
      SysExit k act k.g.biosDataPage e k' → EarlyExit k e k'

/-- What an exception does. -/
inductive Handled (k : Kernel View) : Exit → Kernel View → Prop where
  | exit {e k'} : EarlyExit (k.mapG (·.save)) e k' → Handled k e k'
  | finish {r k1 e k'} : Outcome (k.mapG (·.save)) r k1 → Finish k1 r e k' → Handled k e k'

/-- What an event does to what can be seen of the machine. -/
inductive Next (o : Obs) : Event → Obs → Prop where
  | exception {saved status pending junk e k'} : o.exit.canTake saved →
      Handled (o.k.mapG (·.enter saved status pending junk)) e k' →
      Next o (.exception saved status pending junk) ⟨k', e⟩
  | resume {e k'} : o.exit = .wait → Dispatch o.k e k' → Next o .resume ⟨k', e⟩
  | complete {d status} : o.exit.live → Next o (.complete d status)
      ⟨o.k.mapG fun g => { g with dev := Function.update g.dev d ((g.dev d).complete status) },
        o.exit⟩
  | store {a v} : o.exit.running → ¬ Layout.toAddresses.IsSem a →
      Next o (.store a v) ⟨o.k.mapG (·.setInt a v), o.exit⟩
  | storeState {a s} : o.exit.running → Next o (.storeState a s)
      ⟨o.k.mapG fun g => { g with states := Function.update g.states a s }, o.exit⟩
  | storeSupport {a s} : o.exit.running → Next o (.storeSupport a s)
      ⟨o.k.mapG fun g => { g with supports := Function.update g.supports a s }, o.exit⟩
  | addressError {saved status pending junk e k'} : o.exit = .fault → saved.IsAddressError →
      Handled (o.k.mapG (·.enter saved status pending junk)) e k' →
      Next o (.addressError saved status pending junk) ⟨k', e⟩

end Rocm
