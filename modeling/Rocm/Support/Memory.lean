import Rocm.Nucleus.Arch

/-!
# What the support level shares

The support structures of the user processes with their page tables, the swap pool and its table
(`pager.c`), the TLB, the registers of the devices and the flash blocks. The physical memory that
holds the frames is an array of bytes of its own.
-/

namespace Rocm

abbrev Byte := BitVec 8

/-! ## Constants -/

/-- `UPROCMAX`, `PAGESIZE` (`pandos_const.h:163`, `13`). -/
abbrev UPROCMAX : Nat := 8
abbrev PAGESIZE : Nat := 4096

/-- `SP_SIZE`, `STK_PG` (`pager.h:14-19`). -/
abbrev SP_SIZE : Nat := 16
def STK_PG : Word := 0x3FFFF

/-- `SP_BEGIN` (`pager.c:22`). -/
def SP_BEGIN : Word := 0x20020000

/-- `KUSEG`, `GETPAGENO`, `VPNSHIFT`, `ASIDSHIFT` (`pandos_const.h:27`, `92-95`). -/
def KUSEG : Word := 0x80000000
def GETPAGENO : Word := 0x3FFFF000
def VPNSHIFT : Nat := 12
def ASIDSHIFT : Nat := 6

/-- Fields of the entries of the TLB (`cp0.h`). -/
def ENTRYLO_DIRTY : Word := 0x00000400
def ENTRYLO_VALID : Word := 0x00000200
def ENTRYLO_GLOBAL : Word := 0x00000100
def ENTRYLO_PFN_MASK : Word := 0xFFFFF000
def ENTRYHI_PAGE_MASK : Word := 0xFFFFF000
def ENTRYHI_ASID_MASK : Word := 0x00000FC0

/-- `ENTRYHI_GET_VPN` (`cp0.h`): the bits 12..29. -/
def ENTRYHI_GET_VPN (entryHi : Word) : Word := (entryHi &&& 0x3FFFF000) >>> 12

/-- `ENTRYHI_GET_ASID` (`cp0.h`). -/
def ENTRYHI_GET_ASID (entryHi : Word) : Word := (entryHi &&& ENTRYHI_ASID_MASK) >>> 6

/-- `PRESENTFLAG` (`pandos_const.h:99`): the sign bit of `Index`. -/
def PRESENTFLAG : Word := 0x80000000

/-- `P_BIT` (`pager.c:200`). -/
def P_BIT : Word := 0x40000000

/-- `FLASHREAD`, `FLASHWRITE` (`pandos_const.h:117-118`). -/
def FLASHREAD : Word := 2
def FLASHWRITE : Word := 3

/-- What differs between machines: the size of the TLB and `Index` after a `TLBP` that has found
    nothing; and the macro `ENTRYLO_GET_PFN` of `cp0.h`, of which the source says nothing. -/
class Umps where
  tlbSize : Nat
  tlbSize_pos : 0 < tlbSize
  tlbSize_le : tlbSize ≤ 64
  missIndex : Word
  missIndex_sign : missIndex &&& PRESENTFLAG ≠ 0
  entryloGetPfn : Word → Word

/-! ## Processes and pages -/

/-- A user process, by its index in `tp_supps`. -/
abbrev Uproc := Fin UPROCMAX

/-- The ASID of a user process (`init_proc.c:56`). -/
def asid (p : Uproc) : Word := BitVec.ofNat 32 (p.val + 1)

/-- An index of a page table. -/
abbrev Page := Fin USERPGTBLSIZE

/-- A frame of the swap pool. -/
abbrev Frame := Fin SP_SIZE

/-- The page number and the segment of a page (`support.c:70-79`). -/
def pageAddr (i : Page) : Word :=
  if i.val < USERPGTBLSIZE - 1 then KUSEG + BitVec.ofNat 32 i <<< VPNSHIFT else KUSEG + GETPAGENO

/-- The `pte_entryHI` that `init_page_table` stores (`support.c:70-79`). -/
def pteHi (p : Uproc) (i : Page) : Word := pageAddr i + asid p <<< ASIDSHIFT

/-- `init_page_table` (`support.c:60-80`) for the page table of `p`. -/
def initPageTable (p : Uproc) : Page → PteEntry := fun i => ⟨pteHi p i, ENTRYLO_DIRTY⟩

/-- The index that the handlers compute from `entry_hi` (`pager.c:151-152`, `kernel.c:185-187`). -/
def pageIndex (entryHi : Word) : Word :=
  if ENTRYHI_GET_VPN entryHi = STK_PG then BitVec.ofNat 32 (USERPGTBLSIZE - 1)
  else ENTRYHI_GET_VPN entryHi

/-- `SP_BEGIN + (chosen_frame * PAGESIZE)`. -/
def frameAddr (f : Frame) : Word := SP_BEGIN + BitVec.ofNat 32 f * BitVec.ofNat 32 PAGESIZE

/-- What the pager stores in `pte_entryLO` of a page that is in the frame `f` (`pager.c:180-181`). -/
def frameLo (f : Frame) : Word := frameAddr f ||| ENTRYLO_VALID ||| ENTRYLO_DIRTY

def PteEntry.valid (e : PteEntry) : Bool := e.entryLO &&& ENTRYLO_VALID ≠ 0

/-- `sp_entry_t` (`pager.h:30-34`). -/
structure SpEntry where
  asid : Word
  vpn : Word
  pgTblEntry : Uproc × Page

/-! ## The TLB -/

section Tlb

variable [Umps]

abbrev Slot := Fin Umps.tlbSize
abbrev Tlb := Slot → PteEntry

/-- What a refill of the TLB depends on besides the page tables: the slot that `TLBWR` takes, and the
    words that a read past the end of a page table finds. -/
structure Refill where
  slot : Slot
  behind : PteEntry

/-- The entry translates the page of `hi` for the ASID of `hi`. -/
def PteEntry.hits (e : PteEntry) (hi : Word) : Bool :=
  (e.entryHI ^^^ hi) &&& ENTRYHI_PAGE_MASK = 0 ∧
    (e.entryLO &&& ENTRYLO_GLOBAL ≠ 0 ∨ (e.entryHI ^^^ hi) &&& ENTRYHI_ASID_MASK = 0)

/-- The first entry that translates `hi`. -/
def Tlb.probe (t : Tlb) (hi : Word) : Option Slot := (List.finRange _).find? fun i => (t i).hits hi

/-- `Index` after a `TLBP` with `hi` in `EntryHi`. -/
def Tlb.tlbp (t : Tlb) (hi : Word) : Word :=
  match t.probe hi with
  | some i => BitVec.ofNat 32 i <<< 8
  | none => Umps.missIndex

/-- The slot that `Index` names. -/
def indexSlot (index : Word) : Slot :=
  ⟨(index >>> 8 &&& 0x3F).toNat % Umps.tlbSize, Nat.mod_lt _ Umps.tlbSize_pos⟩

/-- `TLBWI`. -/
def Tlb.tlbwi (t : Tlb) (index hi lo : Word) : Tlb := Function.update t (indexSlot index) ⟨hi, lo⟩

/-- `update_tlb` (`pager.c:198-215`): what it returns and the TLB it leaves. -/
def updateTlb (entryHi entryLo : Word) (t : Tlb) : Word × Tlb :=
  let index := t.tlbp entryHi
  if index &&& P_BIT ≠ 0 then (0, t) else (1, t.tlbwi index entryHi entryLo)

end Tlb

/-! ## The memory -/

/-- The registers of a sub-device that the support level uses. -/
structure DevReg where
  status : Word
  command : Word
  data0 : Word

/-- A block of a flash device. -/
abbrev Block := Fin PAGESIZE → Byte

/-- The support structures carry what is fixed when they are set up: the ASIDs and the
    `pte_entryHI` of the page tables. -/
structure Mem [Umps] where
  /-- `tp_supps` (`init_proc.c:34`). -/
  sup : Uproc → SupportT
  sup_asid : ∀ p, (sup p).supAsid = asid p
  pte_hi : ∀ p i, ((sup p).supPrivatePgTbl i).entryHI = pteHi p i
  /-- `sp_tbl`, `sp_asids`, `frame_top` (`pager.c:31`, `46`, `219`). -/
  spTbl : Frame → SpEntry
  spAsids : BitVec 8
  frameTop : Frame
  tlb : Tlb
  /-- The physical memory. -/
  ram : Word → Byte
  dev : SubDev → DevReg
  /-- The blocks of the flash devices. -/
  flash : Fin 8 → Word → Block

variable [Umps]

namespace Mem

/-- The page table entry a pointer points to. -/
def pte (m : Mem) (x : Uproc × Page) : PteEntry := (m.sup x.1).supPrivatePgTbl x.2

/-- Assignment to `pte_entryLO`. -/
def setLo (m : Mem) (x : Uproc × Page) (lo : Word) : Mem where
  __ := m
  sup := Function.update m.sup x.1 { m.sup x.1 with
    supPrivatePgTbl := Function.update (m.sup x.1).supPrivatePgTbl x.2
      { m.pte x with entryLO := lo } }
  sup_asid p := by
    by_cases h : p = x.1
    · subst h
      rw [Function.update_self]
      exact m.sup_asid _
    · rw [Function.update_of_ne h]
      exact m.sup_asid p
  pte_hi p i := by
    by_cases h : p = x.1
    · subst h
      rw [Function.update_self]
      by_cases hi : i = x.2
      · subst hi
        simp only [Function.update_self]
        exact m.pte_hi _ _
      · simp only [Function.update_of_ne hi]
        exact m.pte_hi _ i
    · rw [Function.update_of_ne h]
      exact m.pte_hi p i

/-- Assignment to an element of `sup_exceptState`. -/
def setExceptState (m : Mem) (p : Uproc) (k : Fin 2) (s : ProcState) : Mem where
  __ := m
  sup := Function.update m.sup p { m.sup p with
    supExceptState := Function.update (m.sup p).supExceptState k s }
  sup_asid q := by
    by_cases h : q = p
    · subst h
      rw [Function.update_self]
      exact m.sup_asid _
    · rw [Function.update_of_ne h]
      exact m.sup_asid q
  pte_hi q i := by
    by_cases h : q = p
    · subst h
      rw [Function.update_self]
      exact m.pte_hi _ i
    · rw [Function.update_of_ne h]
      exact m.pte_hi q i

/-- `init_supp_structures` (`support.c:37-58`) without the semaphores, and the parts of
    `instantiator_proc` that fill the support structures (`init_proc.c:56-57`). -/
def initSupp (sup : Uproc → SupportT) (spTbl : Frame → SpEntry) (tlb : Tlb) (ram : Word → Byte)
    (dev : SubDev → DevReg) (flash : Fin 8 → Word → Block) : Mem where
  sup p := { sup p with supAsid := asid p, supPrivatePgTbl := initPageTable p }
  sup_asid _ := rfl
  pte_hi _ _ := rfl
  spTbl f := { spTbl f with asid := -1 }
  spAsids := 0
  frameTop := 0
  tlb := tlb
  ram := ram
  dev := dev
  flash := flash

/-! ## The functions of the pager that run as one -/

/-- `choose_frame` (`pager.c:217-232`): the frame and the new `frame_top`. -/
def chooseFrame (m : Mem) : Frame :=
  match (List.finRange SP_SIZE).find? fun i => (m.spTbl (m.frameTop + i)).asid = -1 with
  | some i => m.frameTop + i
  | none => m.frameTop + 1

/-- The bit of an ASID in `sp_asids`, `1 << (asid - 1)`. -/
def asidBit (asid : Word) : BitVec 8 := (1#32 <<< (asid - 1)).setWidth 8

/-- The test of `tlb_exc_handler` on the chosen frame (`pager.c:158`). -/
def usable (m : Mem) (f : Frame) : Bool :=
  (m.spTbl f).asid ≠ -1 ∧ m.spAsids.signExtend 32 &&& 1#32 <<< ((m.spTbl f).asid - 1) ≠ 0

/-- `fill_frame` (`pager.c:234-246`). -/
def fillFrame (m : Mem) (p : Uproc) (f : Frame) (i : Page) : Mem :=
  { m with
    spTbl := Function.update m.spTbl f
      ⟨(m.sup p).supAsid, KUSEG + BitVec.ofNat 32 i <<< VPNSHIFT, (p, i)⟩
    spAsids := m.spAsids ||| asidBit (m.sup p).supAsid }

/-- What `tlb_exc_handler` does with the interrupts off (`pager.c:174-188`). -/
def install (m : Mem) (p : Uproc) (f : Frame) (i : Page) : Mem :=
  let m := (m.fillFrame p f i).setLo (p, i) (frameLo f)
  { m with tlb := (updateTlb (m.pte (p, i)).entryHI (m.pte (p, i)).entryLO m.tlb).2 }

/-- What `free_frame` does with the interrupts off (`pager.c:257-268`). -/
def invalidate (m : Mem) (x : Uproc × Page) : Mem :=
  let lo := (m.pte x).entryLO
  let m := m.setLo x (if lo &&& ENTRYLO_VALID ≠ 0 then lo ^^^ ENTRYLO_VALID else lo)
  { m with tlb := (updateTlb (m.pte x).entryHI (m.pte x).entryLO m.tlb).2 }

/-- `frame->asid = -1` (`pager.c:285`). -/
def setFree (m : Mem) (f : Frame) : Mem :=
  { m with spTbl := Function.update m.spTbl f { m.spTbl f with asid := -1 } }

/-! ## Devices -/

def setData0 (m : Mem) (d : SubDev) (v : Word) : Mem :=
  { m with dev := Function.update m.dev d { m.dev d with data0 := v } }

/-- A command begins. -/
def setCommand (m : Mem) (d : SubDev) (v : Word) : Mem :=
  { m with dev := Function.update m.dev d { m.dev d with status := BUSY, command := v } }

/-- The bytes of physical memory from `a` on. -/
def readBlock (m : Mem) (a : Word) : Block := fun o => m.ram (a + BitVec.ofNat 32 o)

/-- Copies a block to physical memory. -/
def writeBlock (m : Mem) (a : Word) (b : Block) : Mem :=
  { m with ram := fun x => if h : (x - a).toNat < PAGESIZE then b ⟨(x - a).toNat, h⟩ else m.ram x }

/-- What a flash device has done when it ends a command: a read or a write that succeeds copies one
    block. -/
def transfer (m : Mem) (no : Fin 8) (status : Word) : Mem :=
  let r := m.dev (.dtp 1 no)
  if status ≠ READY then m
  else if r.command &&& 0xFF = FLASHREAD then m.writeBlock r.data0 (m.flash no (r.command >>> 8))
  else if r.command &&& 0xFF = FLASHWRITE then
    { m with
      flash := Function.update m.flash no
        (Function.update (m.flash no) (r.command >>> 8) (m.readBlock r.data0)) }
  else m

/-- A device ends its command; the nucleus acknowledges it. -/
def complete (m : Mem) (d : SubDev) (status : Word) : Mem :=
  let m := match d with
    | .dtp 1 no => m.transfer no status
    | _ => m
  { m with dev := Function.update m.dev d { m.dev d with status := READY } }

/-! ## Translation -/

/-- The entry of the TLB that translates `hi`. -/
def translate (m : Mem) (hi : Word) : Option PteEntry := (m.tlb.probe hi).map m.tlb

/-- The entry of the page table of `p` that an index selects. Past the table it is what the memory
    behind `sup_privatePgTbl` holds. -/
def pgTblAt (m : Mem) (p : Uproc) (i : Word) (behind : PteEntry) : PteEntry :=
  if h : i.toNat < USERPGTBLSIZE then m.pte (p, ⟨i.toNat, h⟩) else behind

/-- `uTLB_RefillHandler` (`kernel.c:176-198`) when the state saved for `p` has `hi` in `entry_hi`. -/
def uTlbRefill (m : Mem) (p : Uproc) (hi : Word) (r : Refill) : Mem :=
  { m with tlb := Function.update m.tlb r.slot (m.pgTblAt p (pageIndex hi) r.behind) }

variable {m : Mem} {p : Uproc} {i hi : Word} {e : PteEntry} {r : Refill}

theorem pgTblAt_of_lt (h : i.toNat < USERPGTBLSIZE) : m.pgTblAt p i e = m.pte (p, ⟨i.toNat, h⟩) :=
  dif_pos h

theorem pgTblAt_of_le (h : USERPGTBLSIZE ≤ i.toNat) : m.pgTblAt p i e = e := dif_neg h.not_gt

@[simp] theorem uTlbRefill_sup : (m.uTlbRefill p hi r).sup = m.sup := rfl

theorem uTlbRefill_tlb : (m.uTlbRefill p hi r).tlb r.slot = m.pgTblAt p (pageIndex hi) r.behind :=
  Function.update_self ..

end Mem

/-- `EntryHi` when `p` uses the address `va`. -/
def hiOf (p : Uproc) (va : Word) : Word := (va &&& ENTRYHI_PAGE_MASK) ||| asid p <<< ASIDSHIFT

/-- The physical address of `va` in the page frame of an entry. -/
def physAddr (e : PteEntry) (va : Word) : Word := (e.entryLO &&& ENTRYLO_PFN_MASK) ||| (va &&& 0xFFF)

end Rocm
