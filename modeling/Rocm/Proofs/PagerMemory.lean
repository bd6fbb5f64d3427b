import Rocm.Proofs.Flash
import Rocm.Proofs.Frames
import Rocm.Proofs.Records

/-!
# What the pager finds where it left it

From a page fault to `fill_frame` the page of the fault is not in the page table, the victim is the
page that the table of the swap pool names, and the registers of the flash device are as the
handler has set them, whatever the other processes do in between.
-/

namespace Rocm

variable [Umps] {p q : Uproc} {a a' : Abs} {d : Did} {m m' : Mem} {w w' : Wait} {i : Page}
  {t : TlbStage} {f : Frame} {x : Uproc × Page}

/-- The number of the block of a page on the flash of its process. -/
def blockNo (i : Page) : Word := BitVec.ofNat 32 i

/-- What is on the flash of a process for a page. -/
def Mem.home (m : Mem) (x : Uproc × Page) : Block := m.flash x.1 (blockNo x.2)

def ProcState.exc (s : ProcState) : Word := CAUSE_GET_EXCCODE s.cause

/-- The page `i` of the fault of `p` is not in its page table. -/
structure Mem.Missing (m : Mem) (p : Uproc) (i : Page) : Prop where
  hi : (m.saved p PGFAULTEXCEPT).entryHi = pteHi p i
  absent : ¬ (m.pte (p, i)).valid

/-- The page `x` of `p` has been made invalid, and is in the frame `f`. -/
structure Mem.Victim (m : Mem) (p : Uproc) (f : Frame) (x : Uproc × Page) : Prop where
  owner : (m.spTbl f).asid = asid p
  entry : (m.spTbl f).pgTblEntry = x
  own : x.1 = p
  lo : (m.pte x).entryLO = invalidLo (frameLo f)
  pfn : Umps.entryloGetPfn (invalidLo (frameLo f)) = frameAddr f

/-- The registers of the flash device for the operation that is next. -/
def IoStage.Set (r : DevReg) (w : Wait) (data cmdval : Word) : IoStage → Prop
  | .ready => r.data0 = data ∧ (w = .io → r.command = cmdval)
  | _ => True

/-- What holds of the memory while the pager of `p` brings in the page `i`. -/
def TlbStage.Ok (m : Mem) (w : Wait) (p : Uproc) (i : Page) : TlbStage → Prop
  | .entry => (m.saved p PGFAULTEXCEPT).entryHi = pteHi p i ∧
      ((m.saved p PGFAULTEXCEPT).exc ≠ EXC_MOD → ¬ (m.pte (p, i)).valid)
  | .started _ => (m.saved p PGFAULTEXCEPT).entryHi = pteHi p i ∧
      ((m.saved p PGFAULTEXCEPT).exc ≠ EXC_MOD → ¬ (m.pte (p, i)).valid)
  | .victimAt _ f _ => m.Missing p i ∧ Umps.entryloGetPfn (invalidLo (frameLo f)) = frameAddr f
  | .invalid _ f x => m.Missing p i ∧ m.Victim p f x
  | .saving _ f x e io => m.Missing p i ∧ m.Victim p f x ∧ e = m.pte x ∧
      io.Set (m.dev (flashDev p)) w (Umps.entryloGetPfn e.entryLO) (writeCmd e)
  | .loading _ f (.done _) => m.Missing p i ∧ m.frame f = m.home (p, i)
  | .loading sup f io => m.Missing p i ∧
      io.Set (m.dev (flashDev p)) w (frameAddr f) (readCmd sup)
  | .loaded _ f => m.Missing p i ∧ m.frame f = m.home (p, i)
  | .installed => True
  | .released => True
  | _ => m.Missing p i

/-- The pager of every process finds what it expects. -/
def Abs.PagerOk (a : Abs) (p : Uproc) : Prop :=
  ∀ t, (a.stage p).tlb = some t → ∃ i, t.Ok a.mem (a.wait p) p i

/-- What the pager of `p` relies on does not change. -/
structure Mem.Same (m m' : Mem) (w w' : Wait) (p : Uproc) : Prop where
  saved : m'.saved p PGFAULTEXCEPT = m.saved p PGFAULTEXCEPT
  pte : ∀ j, m'.pte (p, j) = m.pte (p, j)
  dev : m'.dev (flashDev p) = m.dev (flashDev p)
  home : ∀ j, m'.home (p, j) = m.home (p, j)
  wait : w' = .io → w = .io

theorem Mem.Missing.keep (h : m.Missing p i) (hs : m.Same m' w w' p) : m'.Missing p i := by
  constructor
  · rw [hs.saved]
    exact h.hi
  · rw [hs.pte]
    exact h.absent

theorem Mem.Victim.keep (h : m.Victim p f x) (hs : m.Same m' w w' p)
    (hf : m'.spTbl f = m.spTbl f) : m'.Victim p f x := by
  obtain ⟨r, j⟩ := x
  obtain rfl : r = p := h.own
  refine ⟨?_, ?_, rfl, ?_, h.pfn⟩
  · rw [hf]
    exact h.owner
  · rw [hf]
    exact h.entry
  · rw [hs.pte]
    exact h.lo

omit [Umps] in
theorem IoStage.Set.keep {r : DevReg} {data cmdval : Word} {io : IoStage}
    (h : io.Set r w data cmdval) (hw : w' = .io → w = .io) : io.Set r w' data cmdval := by
  cases io with
  | ready => exact ⟨h.1, fun he => h.2 (hw he)⟩
  | _ => trivial

theorem TlbStage.Ok.keep (h : t.Ok m w p i) (hs : m.Same m' w w' p)
    (hf : ∀ f, t.spare = some f → m'.spTbl f = m.spTbl f ∧ m'.frame f = m.frame f) :
    t.Ok m' w' p i := by
  cases t with
  | entry =>
    refine ⟨?_, ?_⟩
    · rw [hs.saved]
      exact h.1
    · rw [hs.saved, hs.pte]
      exact h.2
  | started sup =>
    refine ⟨?_, ?_⟩
    · rw [hs.saved]
      exact h.1
    · rw [hs.saved, hs.pte]
      exact h.2
  | victimAt sup f x => exact ⟨h.1.keep hs, h.2⟩
  | invalid sup f x => exact ⟨h.1.keep hs, h.2.keep hs (hf f rfl).1⟩
  | saving sup f x e io =>
    obtain ⟨hmiss, hvictim, he, hio⟩ := h
    obtain ⟨r, j⟩ := x
    obtain rfl : r = p := hvictim.own
    refine ⟨hmiss.keep hs, hvictim.keep hs (hf f rfl).1, ?_, ?_⟩
    · rw [hs.pte]
      exact he
    · rw [hs.dev]
      exact hio.keep hs.wait
  | loading sup f io =>
    cases io with
    | done status =>
      refine ⟨h.1.keep hs, ?_⟩
      rw [(hf f rfl).2, hs.home]
      exact h.2
    | _ =>
      refine ⟨h.1.keep hs, ?_⟩
      rw [hs.dev]
      exact h.2.keep hs.wait
  | loaded sup f =>
    refine ⟨h.1.keep hs, ?_⟩
    rw [(hf f rfl).2, hs.home]
    exact h.2
  | installed => trivial
  | released => trivial
  | _ => exact Mem.Missing.keep h hs

/-- The pager of `p` has done nothing, and nobody has changed what it relies on. -/
theorem Abs.PagerOk.keep (h : a.PagerOk p)
    (ht : ∀ t, (a'.stage p).tlb = some t → (a.stage p).tlb = some t)
    (hs : a.mem.Same a'.mem (a.wait p) (a'.wait p) p)
    (hf : ∀ f, a.paging.spare p = some f →
      a'.mem.spTbl f = a.mem.spTbl f ∧ a'.mem.frame f = a.mem.frame f) : a'.PagerOk p := by
  intro t hst
  obtain ⟨i, hi⟩ := h t (ht t hst)
  refine ⟨i, hi.keep hs fun f hspare => hf f ?_⟩
  change (a.stage p).spare = some f
  rw [Stage.spare, ht t hst]
  exact hspare

/-! ## What a move changes -/

/-- The memory is the same for a process whose page table, saved state and flash are. -/
theorem Mem.Same.of_sup (hsup : m'.sup = m.sup) (hdev : m'.dev (flashDev p) = m.dev (flashDev p))
    (hflash : m'.flash p = m.flash p) (hw : w' = .io → w = .io) : m.Same m' w w' p := by
  constructor
  · rw [saved_of_sup hsup]
  · intro j
    rw [Mem.pte, Mem.pte, hsup]
  · exact hdev
  · intro j
    rw [Mem.home, Mem.home]
    exact congrFun hflash _
  · exact hw

omit [Umps] in
theorem flashDev_ne (h : q ≠ p) : flashDev q ≠ flashDev p := by
  intro he
  cases he
  exact h rfl

/-- An access of `p` leaves what the pager of another process relies on alone. -/
theorem Stage.act_same {S : Stage} {x : Act} (hx : S.allows p (.act x)) (hq : q ≠ p)
    (hown : ∀ y, x = .invalidate y → y.1 = p) : m.Same (x.run m).2 w w q := by
  have hsaved := Stage.saved_act m hx q PGFAULTEXCEPT (.inl hq)
  have hdev : ∀ (d : SubDev) (v : Word), d ≠ flashDev q →
      (m.setData0 d v).dev (flashDev q) = m.dev (flashDev q) := fun d v hd =>
    Function.update_of_ne hd.symm ..
  rcases Stage.allows_act hx with ⟨t, -, hact⟩ | ⟨g, -, hact⟩
  · cases hact with
    | @invalidate sup f y =>
      refine ⟨hsaved, fun j => ?_, rfl, fun _ => rfl, id⟩
      have hne : (q, j) ≠ y := by
        rintro rfl
        exact hq (hown (q, j) rfl)
      exact (congrFun (m.invalidate_pte y) (q, j)).trans (Function.update_of_ne hne ..)
    | @install sup f i =>
      refine ⟨hsaved, fun j => ?_, rfl, fun _ => rfl, id⟩
      have hne : (q, j) ≠ (p, i) := fun he => hq (congrArg Prod.fst he)
      exact (congrFun (m.install_pte p f i) (q, j)).trans (Function.update_of_ne hne ..)
    | saveData0 => exact .of_sup rfl (hdev _ _ (flashDev_ne hq).symm) rfl id
    | loadData0 => exact .of_sup rfl (hdev _ _ (flashDev_ne hq).symm) rfl id
    | _ => exact .of_sup rfl rfl rfl id
  · cases hact with
    | setExceptState s =>
      refine ⟨hsaved, fun j => ?_, rfl, fun _ => rfl, id⟩
      exact congrFun (m.setExceptState_pte p 1 s) (q, j)
    | setData0 d v hd => exact .of_sup rfl (hdev d v (hd.not_flash q)) rfl id
    | _ => exact .of_sup rfl rfl rfl id

/-! ## The end of an operation -/

/-- The flash device of `p` ends an operation. -/
theorem Mem.complete_flash (m : Mem) (status : Word) :
    (m.complete (flashDev p) status).ram = (m.transfer p status).ram ∧
      (m.complete (flashDev p) status).flash = (m.transfer p status).flash := ⟨rfl, rfl⟩

/-- A read copies a block to memory. -/
theorem Mem.transfer_read (m : Mem) {b : Word} (hlow : b.toNat < 2 ^ 24)
    (hcmd : (m.dev (flashDev p)).command = b <<< 8 ||| FLASHREAD) :
    m.transfer p READY = m.writeBlock (m.dev (flashDev p)).data0 (m.flash p b) := by
  have hread : (m.dev (flashDev p)).command &&& 0xFF = FLASHREAD := by
    rw [hcmd]
    exact flashCmd_low b (by decide)
  have hblk : (m.dev (flashDev p)).command >>> 8 = b := by
    rw [hcmd]
    exact flashCmd_high hlow (by decide)
  unfold Mem.transfer
  simp only [ne_eq, not_true_eq_false, if_false, hread, if_true, hblk]

/-- A write copies memory to a block. -/
theorem Mem.transfer_write (m : Mem) {b : Word} (hlow : b.toNat < 2 ^ 24)
    (hcmd : (m.dev (flashDev p)).command = b <<< 8 ||| FLASHWRITE) :
    m.transfer p READY =
      { m with
        flash := Function.update m.flash p
          (Function.update (m.flash p) b (m.readBlock (m.dev (flashDev p)).data0)) } := by
  have hwrite : (m.dev (flashDev p)).command &&& 0xFF = FLASHWRITE := by
    rw [hcmd]
    exact flashCmd_low b (by decide)
  have hblk : (m.dev (flashDev p)).command >>> 8 = b := by
    rw [hcmd]
    exact flashCmd_high hlow (by decide)
  have hne : FLASHWRITE ≠ FLASHREAD := by decide
  unfold Mem.transfer
  simp only [ne_eq, not_true_eq_false, if_false, hwrite, hne, if_true, hblk]

/-- A read has copied a block to a frame. -/
theorem Mem.complete_read (m : Mem) {b : Word} (hlow : b.toNat < 2 ^ 24)
    (hcmd : (m.dev (flashDev p)).command = b <<< 8 ||| FLASHREAD)
    (hdata : (m.dev (flashDev p)).data0 = frameAddr f) :
    (m.complete (flashDev p) READY).frame = Function.update m.frame f (m.flash p b) ∧
      (m.complete (flashDev p) READY).flash = m.flash := by
  have htransfer := m.transfer_read hlow hcmd
  rw [hdata] at htransfer
  have hends := m.complete_flash (p := p) READY
  rw [htransfer] at hends
  refine ⟨?_, hends.2⟩
  rw [← m.frame_writeBlock f (m.flash p b)]
  funext f' o
  rw [Mem.frame_apply, Mem.frame_apply, hends.1]

/-- A write has copied a frame to a block. -/
theorem Mem.complete_write (m : Mem) {b : Word} (hlow : b.toNat < 2 ^ 24)
    (hcmd : (m.dev (flashDev p)).command = b <<< 8 ||| FLASHWRITE)
    (hdata : (m.dev (flashDev p)).data0 = frameAddr f) :
    (m.complete (flashDev p) READY).frame = m.frame ∧
      (m.complete (flashDev p) READY).flash =
        Function.update m.flash p (Function.update (m.flash p) b (m.frame f)) := by
  have htransfer := m.transfer_write hlow hcmd
  rw [hdata, ← Mem.frame] at htransfer
  have hends := m.complete_flash (p := p) READY
  rw [htransfer] at hends
  refine ⟨?_, hends.2⟩
  funext f' o
  rw [Mem.frame_apply, Mem.frame_apply, hends.1]

omit [Umps] in
theorem pageIndex_lt (hi : Word) : (pageIndex hi).toNat < 2 ^ 24 := by
  have hvpn : (ENTRYHI_GET_VPN hi).toNat < 2 ^ 20 := by
    unfold ENTRYHI_GET_VPN
    rw [BitVec.toNat_ushiftRight, Nat.shiftRight_eq_div_pow]
    have := (hi &&& 0x3FFFF000).isLt
    omega
  unfold pageIndex
  split
  · decide
  · omega

omit [Umps] in
theorem pageIndex_blockNo (p : Uproc) (i : Page) : pageIndex (pteHi p i) = blockNo i := by
  revert p i
  decide +kernel

/-- An operation of a device that is no flash device. -/
theorem Mem.complete_other (m : Mem) {d : SubDev} (status : Word) (hd : ∀ q, d ≠ flashDev q) :
    (m.complete d status).ram = m.ram ∧ (m.complete d status).flash = m.flash := by
  unfold Mem.complete
  split
  · next no => exact absurd rfl (hd no)
  · exact ⟨rfl, rfl⟩

theorem Mem.complete_flash_ne (m : Mem) {d : SubDev} (status : Word) (hd : d ≠ flashDev q) :
    (m.complete d status).flash q = m.flash q := by
  obtain ⟨ram, flash, h, hflash⟩ := m.complete_eq d status
  rw [h]
  exact hflash q hd

theorem Mem.complete_dev (m : Mem) {d : SubDev} (status : Word) (hd : d ≠ flashDev q) :
    (m.complete d status).dev (flashDev q) = m.dev (flashDev q) := by
  obtain ⟨ram, flash, h, -⟩ := m.complete_eq d status
  rw [h]
  exact Function.update_of_ne hd.symm ..

end Rocm
