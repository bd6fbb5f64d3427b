import Rocm.Support.Commands

/-!
# The pager (`pager.c`)

The handlers of a process `p` get `p` where the source gets the pointer to its support structure.
-/

namespace Rocm

open Threads

/-- `DEVINTNUM`, `DEVPERINT` (`const.h`). -/
abbrev DEVINTNUM : Nat := 5
abbrev DEVPERINT : Nat := 8

/-- `FLASH_SEMS`, `PRINTER_SEMS`, `TERMIN_SEMS`, `TERMOUT_SEMS` (`support.h:15-28`). -/
abbrev FLASH_SEMS : Nat := 1
abbrev PRINTER_SEMS : Nat := 3
abbrev TERMIN_SEMS : Nat := 4
abbrev TERMOUT_SEMS : Nat := 5

/-- The checks of `p_on_dev` and `v_on_dev`, and the semaphore they operate on
    (`support.c:107-133`). A type of `DEVINTNUM + 1` passes the check. -/
def devSem (type : Nat) (no : Word) : SM Sem :=
  if type > DEVINTNUM + 1 then exit .panic Call.panic_res
  else if hno : no.toNat < DEVPERINT then
    if htype : type < DEVINTNUM + 1 then return .dev ⟨type, htype⟩ ⟨no.toNat, hno⟩
    else exit .wild Call.wild_res
  else exit .panic Call.panic_res

/-- `p_on_dev` (`support.c:107-119`). -/
def pOnDev (type : Nat) (no : Word) : SM Unit := do call (.passeren (← devSem type no))

/-- `v_on_dev` (`support.c:121-133`). -/
def vOnDev (type : Nat) (no : Word) : SM Unit := do call (.verhogen (← devSem type no))

/-- The number of the devices of an ASID, `asid - 1`; for an ASID without devices the check of
    `p_on_dev` has failed before. -/
def devNo (asid : Word) : Fin DEVPERINT := Fin.ofNat _ (asid - 1).toNat

/-- What `read_from_flash` and `write_to_flash` have in common (`pager.c:315-368`). -/
def flashIo (asid blkNo data cmd : Word) : SM Word := do
  pOnDev FLASH_SEMS (asid - 1)
  let devReg := SubDev.dtp 1 (devNo asid)
  act (.setData0 devReg data)
  let devStat ← call (.doio devReg (blkNo <<< 8 ||| cmd))
  vOnDev FLASH_SEMS (asid - 1)
  return devStat

/-- `read_from_flash` (`pager.c:315-341`). -/
def readFromFlash (asid pgNo dest : Word) : SM Word := flashIo asid pgNo dest FLASHREAD

/-- `write_to_flash` (`pager.c:343-368`). -/
def writeToFlash (asid blkNo data : Word) : SM Word := flashIo asid blkNo data FLASHWRITE

/-- `free_frame` (`pager.c:248-286`). -/
def freeFrame [Umps] (frame : Frame) (asid : Word) : SM Unit := do
  let procPgtblEntry ← act (.pgTblEntry frame)
  act (.invalidate procPgtblEntry)
  let entry ← act (.pte procPgtblEntry)
  let vpn := pageIndex entry.entryHI
  let devStat ← writeToFlash asid vpn (Umps.entryloGetPfn entry.entryLO)
  if devStat ≠ READY then return
  act (.setFree frame)

/-- `tlb_exc_handler` (`pager.c:122-196`). -/
def tlbExcHandler [Umps] (p : Uproc) : SM Unit := do
  let sup ← act (.support p)
  if CAUSE_GET_EXCCODE (sup.supExceptState PGFAULTEXCEPT).cause = EXC_MOD then
    safeKill
  else
    call (.passeren .spSem)
    let mpgNo := pageIndex (sup.supExceptState PGFAULTEXCEPT).entryHi
    let chosenFrame ← act .chooseFrame
    if ← act (.usable chosenFrame) then
      freeFrame chosenFrame sup.supAsid
    let devStat ← readFromFlash sup.supAsid mpgNo (frameAddr chosenFrame)
    if devStat ≠ READY then return
    if h : mpgNo.toNat < USERPGTBLSIZE then
      act (.install p chosenFrame ⟨mpgNo.toNat, h⟩)
      call (.verhogen .spSem)
      exit (.ldst 0) Call.ldst_zero_res
    else exit .wild Call.wild_res

/-- `clean_frames` (`pager.c:288-304`). The interrupts are on: `sp_asids` is loaded and stored. -/
def cleanFrames (asid : Word) : SM Unit := do
  if asid.toNat > 8 ∨ asid = 0 then exit .panic Call.panic_res
  else
    let spAsids ← act .loadAsids
    act (.storeAsids (spAsids ^^^ Mem.asidBit asid))

end Rocm
