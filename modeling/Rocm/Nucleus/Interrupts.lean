import Rocm.Nucleus.Syscalls

/-!
# Interrupts (`interrupts.c`)
-/

namespace Rocm

open ProcTable

variable {D : Type} [ProcTable D] [Layout]

/-- `init_dev_sem` (`interrupts.c:35-44`). -/
def initDevSem : KM D PUnit :=
  modifyG fun g =>
    (SubDev.all.map KernelSem.dev).foldl
      (fun g s => g.setInt (Layout.toAddresses.semAddr s) 0)
      (g.setInt (Layout.toAddresses.semAddr .it) 0)

/-- The sub-devices of device `no` of a line, counted from `IL_DISK`. -/
def subDevs (line : Fin 5) (no : Fin 8) : List SubDev :=
  if h : line.val < 4 then [.dtp ⟨line, h⟩ no] else [.transm no, .recv no]

/-- The interrupting devices of a line: bit `no` of `*CDEV_BITMAP_ADDR(line)`. -/
def Globals.bitmap (g : Globals) (line : Fin 5) : Word :=
  (List.finRange 8).foldl (fun w no =>
    if (subDevs line no).any fun d => (g.dev d).intr then w ||| 1#32 <<< no.val else w) 0#32

/-- `CAUSE_IP(line)` of the cause register, for `line` 0..7. -/
def Globals.causeIP (g : Globals) (line : Fin 8) : Bool :=
  if h : line.val < 3 then g.pending ⟨line, h⟩
  else g.bitmap ⟨line.val - 3, by omega⟩ ≠ 0

/-- The loop that looks for the most significant bit (`interrupts.c:82-86`, `139-143`). -/
def topBit : Nat → Word → Nat → Nat
  | 0, _, index => index
  | n + 1, bitmap, index => if 1 < bitmap then topBit n (bitmap >>> 1) (index + 1) else index

/-- The number of the device to serve; `PANIC` when it is none of the eight. -/
def interruptingDevice (line : Fin 5) : KM D (Fin 8) := do
  let index := topBit 32 ((← getG).bitmap line) 0
  if h : index < 8 then return ⟨index, h⟩ else PANIC .interruptIndex

/-- Writes to `reg_v0` of the process a V returned, if any (`interrupts.c:113-115`, `156-157`). -/
def deliver (p : Option PcbId) (status : Word) : KM D PUnit :=
  match p with
  | some p => modifyG (·.setPS p (·.setReg regV0 status))
  | none => pure ⟨⟩

/-- A store of 1 to the command register. -/
def acknowledge (d : SubDev) : KM D PUnit :=
  modifyG fun g => { g with dev := Function.update g.dev d ((g.dev d).store ACK) }

/-- `generic_interrupt_handler` (`interrupts.c:128-163`). -/
def genericInterruptHandler (line : Fin 4) : KM D PUnit := do
  let index ← interruptingDevice line.castSucc
  let d := SubDev.dtp line index
  let p ← verhogen (Layout.toAddresses.semAddr (.dev d))
  deliver p ((← getG).dev d).status
  acknowledge d

/-- `OKCHARTRANS` under `TERMSTATMASK` (`pandos_const.h:111`, `interrupts.h:14`). -/
def okCharTrans (status : Word) : Bool := status &&& 0xFF = 5

/-- The case `IL_TERMINAL` (`interrupts.c:90-123`): the first of transmitter and receiver whose
    status is a success. -/
def terminalInterruptHandler : KM D PUnit := do
  let index ← interruptingDevice 4
  let g ← getG
  match (subDevs 4 index).find? fun d => okCharTrans (g.dev d).status with
  | some d =>
    let p ← verhogen (Layout.toAddresses.semAddr (.dev d))
    deliver p (g.dev d).status
    acknowledge d
  | none => pure ⟨⟩

/-- The loop `while (sem_it != 1) verhogen(&sem_it)` (`interrupts.c:62-66`). -/
def tickLoop : Nat → KM D PUnit
  | 0 => throw .endless
  | fuel + 1 => do
    if (← getG).int Layout.toAddresses.semIt ≠ 1 then
      discard <| verhogen Layout.toAddresses.semIt
      tickLoop fuel

/-- One round for each PCB that can wait, and those that set the semaphore and read it. -/
def tickFuel : Nat := MAXPROC + 2

/-- `handle_interrupts` (`interrupts.c:46-126`), for the lines 0..7. -/
def handleInterrupts (line : Fin 8) : KM D EhAct := do
  if line = 1 then
    setTIMER (TIMESLICE * Layout.toAddresses.timescale)
    return .renqueue
  else if line = 2 then
    LDIT PSECOND
    tickLoop tickFuel
    modifyG (·.setInt Layout.toAddresses.semIt 0)
    return .continue
  else if line = 0 then
    return .continue
  else if h : line.val < 7 then
    genericInterruptHandler ⟨line.val - 3, by omega⟩
    return .continue
  else
    terminalInterruptHandler
    return .continue

end Rocm
