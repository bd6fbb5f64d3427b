import Rocm.Support.Pager

/-!
# The services of the support level (`sys_support.c`, `support.c`)
-/

namespace Rocm

open Threads

/-- `INTMIN` (`sys_support.c:25`). -/
def INTMIN : Word := 0x80000000

/-- `TRANSMITCHAR`, `OKCHARTRANS` (`pandos_const.h:112`, `111`), `TERMSTATMASK`
    (`interrupts.h:14`). -/
def TRANSMITCHAR : Word := 2
def OKCHARTRANS : Word := 5
def TERMSTATMASK : Word := 0xFF

/-- `terminate` (`sys_support.c:83-93`). -/
def terminate {α : Type} (asid : Word) : SM α := do
  cleanFrames asid
  safeKill

/-- A service that writes a string: its semaphore, and for each character the command of a device
    and the test on the status. -/
structure Writer where
  sems : Nat
  dev : Fin DEVPERINT → SubDev
  /-- The character goes to `data0` before it is tested. -/
  viaData0 : Bool
  cmdval : Word → Word
  ok : Word → Bool

/-- `write_to_printer` (`sys_support.c:95-135`): the device is ready again. -/
def printer : Writer where
  sems := PRINTER_SEMS
  dev no := .dtp 3 no
  viaData0 := true
  cmdval _ := TRANSMITCHAR
  ok status := status = READY

/-- `write_to_terminal` (`sys_support.c:137-174`): the character is part of the command. -/
def terminal : Writer where
  sems := TERMOUT_SEMS
  dev no := .transm no
  viaData0 := false
  cmdval c := c <<< 8 ||| TRANSMITCHAR
  ok status := status &&& TERMSTATMASK = OKCHARTRANS

/-- A `char` as an `int`. -/
def charVal (c : Byte) : Word := c.signExtend 32

/-- The loop of a writer from `i` on, with `n` rounds left, and what follows it
    (`sys_support.c:113-134`, `153-173`). -/
def Writer.loop (w : Writer) (virtAddr asid : Word) (i : Nat) : Nat → SM Word
  | 0 => do
    vOnDev w.sems (asid - 1)
    return BitVec.ofNat 32 i
  | n + 1 => do
    let addr := virtAddr + BitVec.ofNat 32 i
    let c ← call (.load addr)
    if w.viaData0 then act (.setData0 (w.dev (devNo asid)) (charVal c))
    let c' ← call (.load addr)
    if c' = 0 then
      vOnDev w.sems (asid - 1)
      return BitVec.ofNat 32 i
    else
      let status ← call (.doio (w.dev (devNo asid)) (w.cmdval (charVal c)))
      if w.ok status then w.loop virtAddr asid (i + 1) n
      else
        vOnDev w.sems (asid - 1)
        return - (← act (.status (w.dev (devNo asid))))

/-- What `write_to_printer` and `write_to_terminal` have in common. -/
def Writer.write (w : Writer) (virtAddr len asid : Word) : SM Word :=
  if (128 : Word).slt len ∨ len.slt 0 ∨ virtAddr < KUSEG then exit .terminate Call.terminate_res
  else do
    pOnDev w.sems (asid - 1)
    w.loop virtAddr asid 0 len.toNat

def writeToPrinter : Word → Word → Word → SM Word := printer.write
def writeToTerminal : Word → Word → Word → SM Word := terminal.write

/-- A round of the loop of `read_from_terminal` (`sys_support.c:190-212`): the values of `virtAddr`
    and `i` for the next one, or what the function returns. -/
def readRound (virtAddr i asid : Word) : SM ((Word × Word) ⊕ Word) := do
  let status ← call (.doio (.recv (devNo asid)) TRANSMITCHAR)
  if status &&& TERMSTATMASK ≠ OKCHARTRANS then
    vOnDev TERMIN_SEMS (asid - 1)
    return .inr (-status)
  else
    call (.store virtAddr ((status >>> 8).setWidth 8))
    if status >>> 8 ≠ 0x0A then return .inl (virtAddr + 1, i + 1)
    else
      vOnDev TERMIN_SEMS (asid - 1)
      return .inr (i + 1)

/-- `read_from_terminal` (`sys_support.c:176-213`). -/
def readFromTerminal (virtAddr asid : Word) : SM Word :=
  if virtAddr < KUSEG then safeKill
  else do
    pOnDev TERMIN_SEMS (asid - 1)
    call (.readLoop virtAddr 0 asid)

/-- The state a service returns to (`sys_support.c:258-265`). -/
def returnState (ret : Word) (s : ProcState) : ProcState :=
  let s := if ret ≠ INTMIN then s.setReg regV0 ret else s
  { s.setReg regT9 (s.pcEpc + WORD_SIZE) with pcEpc := s.pcEpc + WORD_SIZE }

/-- The services of `support_syscall_handler`. -/
def service (sup : SupportT) : SM Word :=
  let s := sup.supExceptState GENERALEXCEPT
  let number := s.gpr regA0
  let arg1 := s.gpr regA1
  let arg2 := s.gpr regA2
  if number = GETTOD then call .stck
  else if number = TERMINATE then terminate sup.supAsid
  else if number = WRITEPRINTER then writeToPrinter arg1 arg2 sup.supAsid
  else if number = WRITETERMINAL then writeToTerminal arg1 arg2 sup.supAsid
  else if number = READTERMINAL then readFromTerminal arg1 sup.supAsid
  else safeKill

/-- `support_syscall_handler` (`sys_support.c:215-268`). -/
def supportSyscallHandler (p : Uproc) (sup : SupportT) : SM Unit := do
  let ret ← service sup
  let sup' ← act (.support p)
  act (.setExceptState p 1 (returnState ret (sup'.supExceptState GENERALEXCEPT)))
  exit (.ldst 1) Call.ldst_one_res

/-- `support_exec_handler` (`support.c:82-105`); `support_trap_handler` is `safe_kill`. -/
def supportExecHandler (p : Uproc) : SM Unit := do
  let sup ← act (.support p)
  if CAUSE_GET_EXCCODE (sup.supExceptState GENERALEXCEPT).cause = EXC_SYS then
    supportSyscallHandler p sup
  else safeKill

end Rocm
