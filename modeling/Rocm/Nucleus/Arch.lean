import Mathlib.Algebra.GroupWithZero.Nat
import Mathlib.Data.Fintype.Basic
import Mathlib.Logic.Function.Basic

/-!
# The machine below the nucleus

Words, saved processor states and device registers of uMPS3, and the addresses fixed by the
linker. The constants of `umps3/umps/arch.h` and `cp0.h` have their documented values; those
of `pandos_const.h` are cited. Typed objects (`int`, `state_t`, `support_t`) live in memories
of their own, so that a store to one type is never read at another.
-/

namespace Rocm

/-- A 32-bit machine word: `unsigned int`, `memaddr`, and `int` in two's complement. -/
abbrev Word := BitVec 32

instance instLawfulBEqWord : LawfulBEq Word := inferInstance

/-! The sizes of the types of numbers that are written as literals. -/

instance instNeZeroTwo : NeZero 2 := ⟨Nat.succ_ne_zero _⟩
instance instNeZeroThree : NeZero 3 := ⟨Nat.succ_ne_zero _⟩
instance instNeZeroFour : NeZero 4 := ⟨Nat.succ_ne_zero _⟩
instance instNeZeroFive : NeZero 5 := ⟨Nat.succ_ne_zero _⟩
instance instNeZeroSix : NeZero 6 := ⟨Nat.succ_ne_zero _⟩
instance instNeZeroEight : NeZero 8 := ⟨Nat.succ_ne_zero _⟩
instance instNeZeroSixteen : NeZero 16 := ⟨Nat.succ_ne_zero _⟩
instance instNeZeroThirtyTwo : NeZero 32 := ⟨Nat.succ_ne_zero _⟩

/-- `NULL` (`listx.h:6`). -/
def NULL : Word := 0xFFFFFFFF#32

/-- `MAXPROC` (`pandos_const.h:38`). -/
abbrev MAXPROC : Nat := 20

instance instNeZeroMaxproc : NeZero MAXPROC := ⟨Nat.succ_ne_zero _⟩

/-- `PROCESS_PRIO_LOW`, `PROCESS_PRIO_HIGH` (`pandos_const.h:57-58`). -/
def PROCESS_PRIO_LOW : Word := 0
def PROCESS_PRIO_HIGH : Word := 1

/-- `WORD_SIZE` (`arch.h`). -/
def WORD_SIZE : Word := 4

/-- `TIMESLICE`, `PSECOND` (`pandos_const.h:137-138`). -/
def TIMESLICE : Word := 5000
def PSECOND : Word := 100000

/-- `PRIVINSTR`, `CAUSESHIFT`, `CLEAREXECCODE` (`pandos_const.h:83`, `84`, `71`). -/
def PRIVINSTR : Word := 10
def CAUSESHIFT : Nat := 2
def CLEAREXECCODE : Word := 0xFFFFFF00

/-- `PGFAULTEXCEPT`, `GENERALEXCEPT` (`pandos_const.h:33-34`). -/
def PGFAULTEXCEPT : Fin 2 := 0
def GENERALEXCEPT : Fin 2 := 1

/-- Bits of the status register (`cp0.h`). -/
def STATUS_IEc : Word := 0x00000001
def STATUS_KUc : Word := 0x00000002
def STATUS_IEp : Word := 0x00000004
def STATUS_KUp : Word := 0x00000008
def STATUS_KUp_BIT : Nat := 3
def STATUS_IM_MASK : Word := 0x0000FF00
def STATUS_TE : Word := 0x08000000

/-- Exception codes (`cp0.h`). -/
def EXC_INT : Word := 0
def EXC_MOD : Word := 1
def EXC_TLBL : Word := 2
def EXC_TLBS : Word := 3
def EXC_ADEL : Word := 4
def EXC_ADES : Word := 5
def EXC_IBE : Word := 6
def EXC_DBE : Word := 7
def EXC_SYS : Word := 8
def EXC_BP : Word := 9
def EXC_RI : Word := 10
def EXC_CPU : Word := 11
def EXC_OV : Word := 12

/-- `CAUSE_GET_EXCCODE` (`cp0.h`). -/
def CAUSE_GET_EXCCODE (cause : Word) : Word := (cause &&& 0x7C) >>> 2

/-- `state_t` (`umps3/umps/types.h`); `gpr` is indexed as there. -/
@[ext] structure ProcState where
  entryHi : Word
  cause : Word
  status : Word
  pcEpc : Word
  gpr : Fin 29 → Word
  hi : Word
  lo : Word

/-- `reg_v0`, `reg_a0` .. `reg_a3`, `reg_t9`, `reg_sp` as indices of `gpr`. -/
def regV0 : Fin 29 := 1
def regA0 : Fin 29 := 3
def regA1 : Fin 29 := 4
def regA2 : Fin 29 := 5
def regA3 : Fin 29 := 6
def regT9 : Fin 29 := 24
def regSp : Fin 29 := 26

/-- A processor state with every field 0. -/
def ProcState.zero : ProcState := ⟨0, 0, 0, 0, fun _ => 0, 0, 0⟩

/-- Assignment to a general register of a saved state. -/
def ProcState.setReg (s : ProcState) (r : Fin 29) (v : Word) : ProcState :=
  { s with gpr := Function.update s.gpr r v }

/-- `context_t` (`pandos_types.h:23-27`). -/
structure Context where
  stackPtr : Word
  status : Word
  pc : Word
  deriving DecidableEq

/-- `pteEntry_t` (`pandos_types.h:17-20`). -/
@[ext] structure PteEntry where
  entryHI : Word
  entryLO : Word
  deriving DecidableEq

/-- `USERPGTBLSIZE` (`pandos_const.h:149-150`). -/
abbrev USERPGTBLSIZE : Nat := 32

/-- `support_t` without its stacks (`pandos_types.h:30-37`). -/
structure SupportT where
  supAsid : Word
  supExceptState : Fin 2 → ProcState
  supExceptContext : Fin 2 → Context
  supPrivatePgTbl : Fin USERPGTBLSIZE → PteEntry

/-! ## Devices

A device of the lines disk, flash, ethernet and printer has one command register; a terminal
has a receiver and a transmitter, which work independently. -/

/-- What executes a command: a device of the lines 3..6, or half a terminal. -/
inductive SubDev where
  | dtp (line : Fin 4) (no : Fin 8)
  | recv (no : Fin 8)
  | transm (no : Fin 8)
  deriving DecidableEq

/-- The registers of a sub-device and what the controller is doing: `busy` while it executes
    a command, `intr` from the completion to the acknowledgement. -/
structure DevState where
  status : Word
  command : Word
  busy : Bool
  intr : Bool

/-- Device status and command codes (`arch.h`). -/
def READY : Word := 1
def BUSY : Word := 3
def ACK : Word := 1

/-- A store to the command register: `ACK` takes the interrupt away, any other command starts
    an operation (and acknowledges the one before); a busy controller ignores both. -/
def DevState.store (d : DevState) (cmd : Word) : DevState :=
  if d.busy then d
  else if cmd = ACK then { d with status := READY, command := cmd, intr := false }
  else { status := BUSY, command := cmd, busy := true, intr := false }

/-- The controller ends the operation it was executing and raises its interrupt. -/
def DevState.complete (d : DevState) (status : Word) : DevState :=
  if d.busy then { d with status := status, busy := false, intr := true } else d

/-- `DEV_REG_START`, `DEV_REG_SIZE` (`arch.h`). -/
def DEV_REG_START : Word := 0x10000054
def DEV_REG_SIZE : Word := 16

/-- `DEV_REG_ADDR(IL_DISK + line, no)` (`arch.h`). -/
def devRegAddr (line : Fin 5) (no : Fin 8) : Word :=
  DEV_REG_START + BitVec.ofNat 32 (line * 8) * DEV_REG_SIZE + BitVec.ofNat 32 no * DEV_REG_SIZE

/-- The line of a sub-device, counted from `IL_DISK`. -/
def SubDev.line : SubDev → Fin 5
  | .dtp line _ => line.castSucc
  | .recv _ => 4
  | .transm _ => 4

def SubDev.no : SubDev → Fin 8
  | .dtp _ no => no
  | .recv no => no
  | .transm no => no

/-- The address of the command register of a sub-device: word 1 of the register block, or
    word 3 for a transmitter. -/
def SubDev.commandAddr (d : SubDev) : Word :=
  devRegAddr d.line d.no + match d with
    | .dtp _ _ => 4
    | .recv _ => 4
    | .transm _ => 12

/-- The sub-devices in the order of their command registers. -/
def SubDev.all : List SubDev :=
  ((List.finRange 4).flatMap fun line => (List.finRange 8).map (SubDev.dtp line)) ++
    (List.finRange 8).flatMap fun no => [.recv no, .transm no]

/-! ## Addresses -/

/-- What the linker and the machine fix: the process table, the semaphores of the nucleus
    (`interrupts.c:19-25`), the entry point of the first process. -/
structure Addresses where
  pcbFreeTable : Word
  sizeofPcb : Word
  semIt : Word
  semDisk : Word
  semFlash : Word
  semNet : Word
  semPrinter : Word
  semTermIn : Word
  semTermOut : Word
  instantiatorProc : Word
  ramTop : Word
  timescale : Word

/-- The semaphores of the nucleus: the pseudo-clock's and one for each sub-device. -/
inductive KernelSem where
  | it
  | dev (d : SubDev)
  deriving DecidableEq

/-- The array of semaphores of a line (`sem_disk` .. `sem_printer`). -/
def Addresses.lineSems (L : Addresses) : Fin 4 → Word
  | 0 => L.semDisk
  | 1 => L.semFlash
  | 2 => L.semNet
  | 3 => L.semPrinter

/-- The address of `sems[no]` for an array `sems` of `int`. -/
def elemAddr (sems : Word) (no : Fin 8) : Word := sems + 4 * BitVec.ofNat 32 no

/-- The address of a semaphore of the nucleus. -/
def Addresses.semAddr (L : Addresses) : KernelSem → Word
  | .it => L.semIt
  | .dev (.dtp line no) => elemAddr (L.lineSems line) no
  | .dev (.recv no) => elemAddr L.semTermIn no
  | .dev (.transm no) => elemAddr L.semTermOut no

/-- Every semaphore of the nucleus. -/
def KernelSem.all : List KernelSem := .it :: SubDev.all.map .dev

/-- `a` is the address of a semaphore of the nucleus. -/
def Addresses.IsSem (L : Addresses) (a : Word) : Prop := ∃ s ∈ KernelSem.all, L.semAddr s = a

instance (L : Addresses) (a : Word) : Decidable (L.IsSem a) :=
  inferInstanceAs (Decidable (∃ s ∈ KernelSem.all, L.semAddr s = a))

theorem SubDev.mem_all (d : SubDev) : d ∈ SubDev.all := by
  cases d <;> simp [SubDev.all]

theorem KernelSem.mem_all (s : KernelSem) : s ∈ KernelSem.all := by
  cases s <;> simp [KernelSem.all, SubDev.mem_all]

theorem Addresses.isSem_semAddr (L : Addresses) (s : KernelSem) : L.IsSem (L.semAddr s) :=
  ⟨s, s.mem_all, rfl⟩

/-- The address of an element of `pcb_free_table`. -/
def Addresses.pcbAddr (L : Addresses) (p : Fin MAXPROC) : Word :=
  L.pcbFreeTable + L.sizeofPcb * BitVec.ofNat 32 p

/-- A link map: the table does not start at 0 nor wrap, and the semaphores are distinct `int`
    objects, so word aligned. -/
class Layout extends Addresses where
  size_pos : 0 < sizeofPcb.toNat
  base_pos : 0 < pcbFreeTable.toNat
  no_wrap : pcbFreeTable.toNat + sizeofPcb.toNat * MAXPROC < 2 ^ 32
  sem_injective : Function.Injective toAddresses.semAddr
  sem_aligned : ∀ s, toAddresses.semAddr s &&& 3 = 0

end Rocm
