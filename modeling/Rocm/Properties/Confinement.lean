import Rocm.Proofs.Entries
import Rocm.Properties.PageContents

/-!
# What the support level can change

As long as the TLB misses only at pages of the table, physical memory changes only in the swap pool,
and a flash device only by an operation of its own process. As long as no process loses its bit of
`sp_asids` either, a page in memory changes only by the stores of the process it belongs to, and a
process reads only its own pages.
-/

namespace Rocm

open Runs

variable [Umps]

/-- The address lies in the swap pool. -/
def InPool (a : Word) : Prop := (a - SP_BEGIN).toNat < SP_SIZE * PAGESIZE

instance (a : Word) : Decidable (InPool a) := inferInstanceAs (Decidable (_ < _))

omit [Umps] in
theorem inPool_of_frame {f : Frame} {a : Word} (h : (a - frameAddr f).toNat < PAGESIZE) :
    InPool a := by
  have hf : f.val < 16 := f.isLt
  have ho : (a - frameAddr f).toNat < 4096 := h
  have hframe : ∀ f : Frame, (frameAddr f - SP_BEGIN).toNat = f.val * 4096 := by decide
  have hsum : a - SP_BEGIN = (a - frameAddr f) + (frameAddr f - SP_BEGIN) := by bv_omega
  change (a - SP_BEGIN).toNat < 16 * 4096
  rw [hsum, BitVec.toNat_add, hframe]
  omega

omit [Umps] in
theorem inPool_offset (f : Frame) (o : Fin PAGESIZE) : InPool (frameAddr f + BitVec.ofNat 32 o) := by
  have ho : o.val < 4096 := o.isLt
  have hsum : frameAddr f + BitVec.ofNat 32 o - frameAddr f = BitVec.ofNat 32 o := by bv_omega
  refine inPool_of_frame (f := f) ?_
  rw [hsum, BitVec.toNat_ofNat]
  change _ < 4096
  omega

/-! ## What a move does to the contents of memory and flash -/

variable {a a' : Abs} {d : Did}

/-- The parts of a memory that hold data. -/
structure Mem.SameData (m m' : Mem) : Prop where
  ram : m'.ram = m.ram
  flash : m'.flash = m.flash

/-- What a move does to the data: nothing, a store of a process to one of its pages, a read of a block
    into the chosen frame, a write of a block. -/
inductive DataMove (a : Abs) (d : Did) (a' : Abs) : Prop where
  | same : a.mem.SameData a'.mem → DataMove a d a'
  | store {p va b i f} : d = .stored p va b → a.wait p = .ready → (a.stage p).usesMemory →
      hiOf p va = pteHi p i → (∃ s, (a.mem.tlb s).hits (hiOf p va) ∧
        (a.mem.tlb s).entryLO = frameLo f) →
      a'.mem.frame = Function.update a.mem.frame f
        (Function.update (a.mem.frame f) (pageOffset va) b) →
      (∀ x, ¬ InPool x → a'.mem.ram x = a.mem.ram x) → a'.mem.flash = a.mem.flash →
      DataMove a d a'
  | read {p v sup f b} : d = .ended p (flashDev p) v READY →
      (a.stage p).tlb = some (.loading sup f .ready) →
      a'.mem.frame = Function.update a.mem.frame f b →
      (∀ x, ¬ InPool x → a'.mem.ram x = a.mem.ram x) → a'.mem.flash = a.mem.flash →
      DataMove a d a'
  | write {p v status blk b} : d = .ended p (flashDev p) v status → a'.mem.ram = a.mem.ram →
      a'.mem.flash = Function.update a.mem.flash p (Function.update (a.mem.flash p) blk b) →
      DataMove a d a'

theorem Mem.sameData_act (m : Mem) (x : Act) : m.SameData (x.run m).2 := by
  cases x <;> exact ⟨rfl, rfl⟩

theorem Mem.writeBlock_outside (m : Mem) (f : Frame) (b : Block) {x : Word} (hx : ¬ InPool x) :
    (m.writeBlock (frameAddr f) b).ram x = m.ram x := by
  have hout : ¬ (x - frameAddr f).toNat < PAGESIZE := fun hlt => hx (inPool_of_frame hlt)
  simp only [Mem.writeBlock, hout, dif_neg, not_false_eq_true]

/-- The flash device of a process ends the operation of its pager. -/
theorem DataMove.ended {p : Uproc} {t : TlbStage} {v status : Word} (hp : a.PagerAimed p)
    (hw : a.wait p = .io) (ht : (a.stage p).tlb = some t) (hc : t.CallOf p (.doio (flashDev p) v))
    (hmem : a'.mem = a.mem.complete (flashDev p) status) :
    DataMove a (.ended p (flashDev p) v status) a' := by
  obtain ⟨haim, -⟩ := hp t ht
  obtain ⟨hram, hflash⟩ := a.mem.complete_flash (p := p) status
  rw [← hmem] at hram hflash
  by_cases hready : status = READY
  · subst hready
    cases hc with
    | @saveIo sup f x e =>
      have htransfer := a.mem.transfer_write (pageIndex_lt e.entryHI) (haim.2 hw)
      rw [htransfer] at hram hflash
      exact .write rfl hram hflash
    | @loadIo sup f =>
      obtain ⟨hdata, hcmd⟩ := haim
      have htransfer := a.mem.transfer_read (pageIndex_lt sup.faultHi) (hcmd hw)
      rw [htransfer, hdata] at hram hflash
      refine .read rfl ht (b := a.mem.flash p (pageIndex sup.faultHi)) ?_ (fun x hx => ?_) hflash
      · rw [← a.mem.frame_writeBlock f]
        funext g o
        rw [Mem.frame_apply, Mem.frame_apply, hram]
      · rw [hram]
        exact a.mem.writeBlock_outside f _ hx
  · have hsame : a.mem.transfer p status = a.mem := by
      unfold Mem.transfer
      simp only [ne_eq, hready, not_false_eq_true, if_true]
    rw [hsame] at hram hflash
    exact .same ⟨hram, hflash⟩

theorem Move.data (h : Move a d a') (ht : a.paging.Tame) (hp : ∀ q, a.PagerAimed q) :
    DataMove a d a' := by
  cases h with
  | @stored p va b e hw hS htr hv =>
    obtain ⟨⟨i, hva⟩, hlo⟩ := Abs.translated ht htr
    obtain ⟨f, hf⟩ := hlo.frame hv
    obtain ⟨s, hs, rfl⟩ := Option.map_eq_some_iff.mp htr
    have haddr := physAddr_frameLo hf va
    refine .store rfl hw hS hva ⟨s, Tlb.hits_of_probe hs, hf⟩ ?_ (fun x hx => ?_) rfl
    · rw [haddr]
      exact a.mem.frame_store f (pageOffset va) b
    · have hne : x ≠ physAddr (a.mem.tlb s) va := by
        rintro rfl
        rw [haddr] at hx
        exact hx (inPool_offset f (pageOffset va))
      exact Function.update_of_ne hne ..
  | act x => exact .same (a.mem.sameData_act x)
  | @ended p e v status hw hc =>
    rcases Stage.allows_doio hc with ⟨t, ht, hcall, rfl⟩ | ⟨-, hd⟩
    · exact .ended (hp p) hw ht hcall rfl
    · obtain ⟨hram, hflash⟩ := a.mem.complete_other status hd
      exact .same ⟨hram, hflash⟩
  | _ => exact .same ⟨rfl, rfl⟩

/-! ## Every run -/

/-- What a run has changed of memory and flash. -/
structure Confined (mem : Mem) (tr : List (System × UserEvent × System)) (m : System) : Prop where
  /-- Outside the swap pool, memory is what it was at the start. -/
  ram : ∀ x, ¬ InPool x → m.mem.ram x = mem.ram x
  /-- A step changes at most one block of a flash device, at the end of an operation of the process
      of the device. -/
  flash : ∀ x ∈ tr, ∀ q, x.2.2.mem.flash q = x.1.mem.flash q ∨
    ∃ v status blk b, x.1.did x.2.1 = .ended q (flashDev q) v status ∧
      x.2.2.mem.flash q = Function.update (x.1.mem.flash q) blk b

theorem DataMove.outside (h : DataMove a d a') {x : Word} (hx : ¬ InPool x) :
    a'.mem.ram x = a.mem.ram x := by
  cases h with
  | same h => rw [h.ram]
  | store _ _ _ _ _ _ hram => exact hram x hx
  | read _ _ _ hram => exact hram x hx
  | write _ hram => rw [hram]

theorem DataMove.flash_cases (h : DataMove a d a') (q : Uproc) :
    a'.mem.flash q = a.mem.flash q ∨
      ∃ v status blk b, d = .ended q (flashDev q) v status ∧
        a'.mem.flash q = Function.update (a.mem.flash q) blk b := by
  cases h with
  | same h => exact .inl (by rw [h.flash])
  | store _ _ _ _ _ _ _ hflash => exact .inl (by rw [hflash])
  | read _ _ _ _ hflash => exact .inl (by rw [hflash])
  | @write p v status blk b hd _ hflash =>
    by_cases hq : q = p
    · subst hq
      exact .inr ⟨v, status, blk, b, hd, by rw [hflash, Function.update_self]⟩
    · exact .inl (by rw [hflash, Function.update_of_ne hq])

/-- In every run whose TLB misses are at pages of the table, whatever else the user processes do:
    physical memory changes only in the swap pool, and a flash device only by the operations of its
    own process, a block at a time. -/
theorem data_confined {mem : Mem} {tr : List (System × UserEvent × System)} {m : System}
    (hi : Initial mem) (h : Run (UserStep fun m e => (m.did e).InPages) (.start mem) tr m) :
    Confined mem tr m := by
  obtain ⟨⟨st, -, -, hram⟩, hsteps⟩ := run_invariant
    (I := fun a => a.Tamed ∧ ∀ x, ¬ InPool x → a.mem.ram x = mem.ram x) h
    ⟨Abs.start_tamed hi, fun _ _ => rfl⟩ fun _ _ _ _ _ hin _ hm hI =>
      ⟨hm.tamed hin hI.1, fun x hx =>
        ((hm.data hI.1.tame hI.1.aimed).outside hx).trans (hI.2 x hx)⟩
  refine ⟨hram, fun x hx q => ?_⟩
  obtain ⟨st, st', -, ⟨hI, -⟩, hm, -, -⟩ := hsteps x hx
  exact (hm.data hI.tame hI.aimed).flash_cases q

omit [Umps] in
/-- A process stores a byte, and the page goes to its flash device. -/
theorem data_confined_writeBack :
    letI := sampleUmps
    ∃ tr m, Run (UserStep fun m e => (m.did e).InPages) (.start sampleMem) tr m ∧
      m.mem.ram (frameAddr 1) = 7 ∧ m.mem.flash 0 0 0 = 7 ∧ Confined sampleMem tr m := by
  let _ := sampleUmps
  obtain ⟨tr, m, h, hP⟩ := System.exists_run_of_play (fun m e => (m.did e).InPages)
    (.start sampleMem)
    (bringInPage 0 0 0 ++ .user 0 KUSEG (.store KUSEG 7) (refillAt 0) .zero ::
      ((List.finRange 15).flatMap fun i => bringInPage 0 (i.succ.castLE (by decide)) 0) ++
      replacePage 0 16 0 ++ replacePage 0 0 0)
    (P := fun _ m => m.mem.ram (frameAddr 1) = 7 ∧ m.mem.flash 0 0 0 = 7) (by decide +kernel)
  obtain ⟨hram, hflash⟩ := of_decide_eq_true hP
  exact ⟨tr, m, h, hram, hflash, data_confined sampleMem_initial h⟩

/-! ## Runs in which no bit is lost -/

/-- A step leaves the pages of the other processes alone. -/
structure Isolated (m : System) (d : Did) (m' : System) : Prop where
  /-- What a process loads is in a page of its own. -/
  loads : ∀ p va b, d = .loaded p va b → ∃ i f, va &&& ENTRYHI_PAGE_MASK = pageAddr i ∧
    (m.mem.pte (p, i)).entryLO = frameLo f ∧ b = m.mem.frame f (pageOffset va)
  /-- The page of a process that goes on changes only by a store of this process. -/
  keeps : ∀ q i f, ¬ m.Terminating q → (m.mem.pte (q, i)).entryLO = frameLo f →
    m'.mem.frame f = m.mem.frame f ∨
      ∃ va b, d = .stored q va b ∧ va &&& ENTRYHI_PAGE_MASK = pageAddr i ∧
        m'.mem.frame f = Function.update (m.mem.frame f) (pageOffset va) b

/-- A process that uses its memory has not ended. -/
theorem Abs.not_gone_of_usesMemory {p : Uproc} (hw : a.wait p = .ready)
    (hS : (a.stage p).usesMemory) : ¬ a.Gone p := by
  refine Abs.not_gone (by rw [hw]; simp) fun sup hgen => ?_
  rcases hS with hS | ⟨sup', s, hS⟩ <;> rw [hS] at hgen <;> cases hgen

/-- Only the page that is stored to changes, and no page that is in use. -/
theorem DataMove.isolated (h : DataMove a d a') (hc : a.paging.Coherent) {q : Uproc} {i : Page}
    {f : Frame} (hq : ¬ a.Gone q) (hlo : (a.mem.pte (q, i)).entryLO = frameLo f) :
    a'.mem.frame f = a.mem.frame f ∨
      ∃ va b, d = .stored q va b ∧ va &&& ENTRYHI_PAGE_MASK = pageAddr i ∧
        a'.mem.frame f = Function.update (a.mem.frame f) (pageOffset va) b := by
  have hsame : a'.mem.ram = a.mem.ram → a'.mem.frame f = a.mem.frame f := fun hram => by
    funext o
    rw [Mem.frame_apply, Mem.frame_apply, hram]
  cases h with
  | same h => exact .inl (hsame h.ram)
  | write _ hram => exact .inl (hsame hram)
  | @store p va b j g hd hw hS hva htlb hframe =>
    by_cases hg : g = f
    · subst hg
      obtain ⟨s, hs, htlo⟩ := htlb
      obtain ⟨i', hva', he⟩ := hc.mirrors.eq_of_hits hc.tables hs
      have hp : ¬ a.Gone p := Abs.not_gone_of_usesMemory hw hS
      have hplo : (a.mem.pte (p, i')).entryLO = frameLo g :=
        (congrArg PteEntry.entryLO he).symm.trans htlo
      have hpage : (p, i') = (q, i) :=
        (hc.owner (x := (p, i')) hp hplo).2.symm.trans (hc.owner (x := (q, i)) hq hlo).2
      obtain ⟨rfl, rfl⟩ := Prod.mk.inj hpage
      exact .inr ⟨va, b, hd, hiOf_eq_pteHi.mp hva', by rw [hframe, Function.update_self]⟩
    · refine .inl ?_
      rw [hframe, Function.update_of_ne (Ne.symm hg)]
  | @read p v sup g b hd ht hframe =>
    have hspare : a.paging.spare p = some g := by
      change (a.stage p).spare = some g
      rw [Stage.spare, ht]
      rfl
    have hg : f ≠ g := by
      rintro rfl
      exact hc.spare p f (q, i) hspare hq hlo
    exact .inl (by rw [hframe, Function.update_of_ne hg])

/-- A byte that is loaded comes from a page of the process. -/
theorem Move.loads {p : Uproc} {va : Word} {b : Byte} (h : Move a (.loaded p va b) a')
    (hc : a.paging.Coherent) : ∃ i f, va &&& ENTRYHI_PAGE_MASK = pageAddr i ∧
      (a.mem.pte (p, i)).entryLO = frameLo f ∧ b = a.mem.frame f (pageOffset va) := by
  cases h with
  | @loaded _ _ e hw hS htr hv =>
    obtain ⟨s, hs, rfl⟩ := Option.map_eq_some_iff.mp htr
    obtain ⟨i, hva, he⟩ := hc.mirrors.eq_of_hits hc.tables (Tlb.hits_of_probe hs)
    have he : a.mem.tlb s = a.mem.pte (p, i) := he
    rw [he] at hv ⊢
    obtain ⟨f, hlo, -⟩ := hc.owned (p, i) (Abs.not_gone_of_usesMemory hw hS) hv
    have hlo : (a.mem.pte (p, i)).entryLO = frameLo f := hlo
    exact ⟨i, f, hiOf_eq_pteHi.mp hva, hlo, by rw [physAddr_frameLo hlo, Mem.frame_apply]⟩

/-- In every run in which no process loses its bit in `sp_asids`, whoever else faults, stores, is
    swapped out or ends: a page in memory changes only by the stores of its own process, and a
    process loads only from pages of its own. -/
theorem pages_isolated {mem : Mem} {tr : List (System × UserEvent × System)} {m : System}
    (hi : Initial mem)
    (h : Run (UserStep fun m e => (m.did e).InPages ∧ BitsKept m (m.did e)) (.start mem) tr m) :
    ∀ x ∈ tr, Isolated x.1 (x.1.did x.2.1) x.2.2 := by
  obtain ⟨-, hsteps⟩ := run_invariant (I := fun a => a.Tamed ∧ a.paging.Coherent) h
    ⟨Abs.start_tamed hi, Abs.start_coherent hi⟩ fun _ _ _ _ _ hok _ hm hI =>
      ⟨hm.tamed hok.1 hI.1, (hm.paging hI.1.toDisciplined).coherent (pageSafe_of hok.1 hok.2) hI.2⟩
  intro x hx
  obtain ⟨st, st', hf, ⟨ht, hc⟩, hm, -, -⟩ := hsteps x hx
  refine ⟨fun p va b hd => ?_, fun q i f hq hlo => ?_⟩
  · rw [hd] at hm
    exact hm.loads hc
  · exact (hm.data ht.tame ht.aimed).isolated hc
      (fun hg => hq (System.terminating_of_gone hf ht.sane hg)) hlo

omit [Umps] in
/-- Two processes store to the same address, and each finds what it has stored. -/
theorem pages_isolated_two :
    letI := sampleUmps
    ∃ tr m, Run (UserStep fun m e => (m.did e).InPages ∧ BitsKept m (m.did e)) (.start sampleMem)
        tr m ∧ (m.mem.frame 0 0, m.mem.frame 1 0) = (7, 9) ∧
      ∀ x ∈ tr, Isolated x.1 (x.1.did x.2.1) x.2.2 := by
  let _ := sampleUmps
  obtain ⟨tr, m, h, hP⟩ := System.exists_run_of_play
    (fun m e => (m.did e).InPages ∧ BitsKept m (m.did e)) (.start sampleMem)
    (bringInPage 0 0 0 ++ .user 0 KUSEG (.store KUSEG 7) (refillAt 0) .zero :: bringInPage 1 0 1 ++
      [.user 1 KUSEG (.store KUSEG 9) (refillAt 0) .zero,
        .user 0 KUSEG (.load KUSEG) (refillAt 0) .zero])
    (P := fun _ m => (m.mem.frame 0 0, m.mem.frame 1 0) = (7, 9)) (by decide +kernel)
  exact ⟨tr, m, h, of_decide_eq_true hP, pages_isolated sampleMem_initial h⟩

end Rocm
