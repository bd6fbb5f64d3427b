import Rocm.Proofs.WriteBack
import Rocm.Properties.LiveBits

/-!
# The pages survive the swap pool

What a process finds in its memory when other processes use the same frames. As long as each process
frees only frames of its own, a page that is written back goes to its block and a process reads what
it has stored last. `free_frame` writes a frame to the flash of the process that needs it, not to
that of the process whose page is in it: the page of another process is lost.
-/

namespace Rocm

open Runs Paged

variable [Umps]

/-- The process that frees a frame, and the frame. -/
def Did.evicts : Did → Option (Uproc × Frame)
  | .gave p (.act (.pgTblEntry f)) => some (p, f)
  | _ => none

/-- The status with which an operation of a flash device ends. -/
def Did.flashStatus : Did → Option Word
  | .ended _ (.dtp 1 _) _ status => some status
  | _ => none

/-- The flash devices work, the missing pages exist, and no process loses its bit of `sp_asids`. -/
structure Regular (m : System) (d : Did) : Prop where
  inPages : d.InPages
  kept : BitsKept m d
  ready : ∀ status ∈ d.flashStatus, status = READY

instance (m : System) (d : Did) : Decidable (Regular m d) :=
  letI := Option.decidableForallMem (p := fun status : Word => status = READY) d.flashStatus
  decidable_of_iff (d.InPages ∧ BitsKept m d ∧ ∀ status ∈ d.flashStatus, status = READY)
    ⟨fun h => ⟨h.1, h.2.1, h.2.2⟩, fun h => ⟨h.inPages, h.kept, h.ready⟩⟩

/-- A process frees a frame of its own, and `ENTRYLO_GET_PFN` gives the address of the frame. -/
structure FreesOwn (m : System) (d : Did) : Prop where
  own : ∀ x ∈ d.evicts, (m.mem.spTbl x.2).asid = asid x.1
  pfn : ∀ x ∈ d.evicts, Umps.entryloGetPfn (frameLo x.2 ^^^ ENTRYLO_VALID) = frameAddr x.2

instance (m : System) (d : Did) : Decidable (FreesOwn m d) :=
  letI := Option.decidableForallMem
    (p := fun x : Uproc × Frame => (m.mem.spTbl x.2).asid = asid x.1) d.evicts
  letI := Option.decidableForallMem
    (p := fun x : Uproc × Frame =>
      Umps.entryloGetPfn (frameLo x.2 ^^^ ENTRYLO_VALID) = frameAddr x.2) d.evicts
  decidable_of_iff ((∀ x ∈ d.evicts, (m.mem.spTbl x.2).asid = asid x.1) ∧
      ∀ x ∈ d.evicts, Umps.entryloGetPfn (frameLo x.2 ^^^ ENTRYLO_VALID) = frameAddr x.2)
    ⟨fun h => ⟨h.1, h.2⟩, fun h => ⟨h.own, h.pfn⟩⟩

/-- What the processes have stored last, or what was on their flash devices before. -/
def written (mem : Mem) (tr : List (System × UserEvent × System)) : Uproc → Word → Byte :=
  tr.foldl (fun V x => (x.1.did x.2.1).write V)
    fun p va => mem.flash p (pageIndex (hiOf p va)) (pageOffset va)

theorem written_snoc {mem : Mem} {tr : List (System × UserEvent × System)}
    {x : System × UserEvent × System} :
    written mem (tr ++ [x]) = (x.1.did x.2.1).write (written mem tr) := by
  rw [written, List.foldl_append]
  rfl

/-- The processes find `V` in their memories. -/
structure ReadsBack (V : Uproc → Word → Byte) (m : System) : Prop where
  /-- Where an address is translated, its byte is in memory. -/
  byte : ∀ p va e, ¬ m.Terminating p → m.mem.translate (hiOf p va) = some e → e.valid →
    m.mem.ram (physAddr e va) = V p va
  /-- A page that is in the page table is in its frame. -/
  page : ∀ p i, ¬ m.Terminating p → (m.mem.pte (p, i)).valid →
    ∃ f, (m.mem.pte (p, i)).entryLO = frameLo f ∧ m.mem.frame f = pages V (p, i)

/-- The frame that has been chosen goes to its page on the flash of the process that owns it, and
    nothing else changes on any flash device. -/
def WritesBack (m m' : System) : Prop :=
  ∀ q x, m.Alive q → (m.mem.spTbl m.mem.frameTop).asid = asid q →
    (m.mem.spTbl m.mem.frameTop).pgTblEntry = x →
    m'.mem.flash = Function.update m.mem.flash q
      (Function.update (m.mem.flash q) (blockNo x.2) (m.mem.frame m.mem.frameTop))

/-! ## Runs -/

omit [Umps] in
theorem frameLo_xor (f : Frame) : frameLo f ^^^ ENTRYLO_VALID = invalidLo (frameLo f) := by
  revert f
  decide

theorem copySafe_of {m : System} {st : Uproc → Stage} {d : Did} (hreg : Regular m d)
    (hown : FreesOwn m d) : CopySafe (m.abs st) d := by
  constructor
  · rintro p v status rfl
    exact hreg.ready status rfl
  · rintro p f rfl
    exact hown.own (p, f) rfl
  · rintro p f rfl
    rw [← frameLo_xor]
    exact hown.pfn (p, f) rfl

/-- What holds along a run. -/
structure ContentsKept (mem : Mem) (tr : List (System × UserEvent × System)) (a : Abs) : Prop where
  paged : a.Paged
  cursor : a.Cursor
  backed : Backed a.store (pages (written mem tr))

/-- The flash devices hold all pages. -/
theorem Abs.start_kept {mem : Mem} (h : Initial mem) : ContentsKept mem [] (.start mem) := by
  have hcoh := Abs.start_coherent h
  have hinvalid : ∀ x, ¬ (mem.pte x).valid := by
    obtain ⟨⟨sup, spTbl, tlb, ram, dev, flash, rfl⟩, -⟩ := h
    intro x
    change ¬ decide (ENTRYLO_DIRTY &&& ENTRYLO_VALID ≠ 0) = true
    decide
  have hfree : ∀ f q, (mem.spTbl f).asid ≠ asid q := by
    obtain ⟨⟨sup, spTbl, tlb, ram, dev, flash, rfl⟩, -⟩ := h
    intro f q ha
    exact absurd ha.symm (asid_ne_free q)
  refine ⟨⟨Abs.start_disciplined mem, hcoh, ⟨?_, ?_, ?_⟩, fun p => .of_none rfl⟩, ?_, ?_, ?_⟩
  · intro f q ha
    exact absurd ha (hfree f q)
  · intro f q ha
    exact absurd ha (hfree f q)
  · intro p f x hx
    cases hx
  · intro p f hf
    cases hf
  · rintro x f - (he | ⟨p, hp⟩)
    · exact absurd (PteEntry.valid_of_frameLo he) (hinvalid x)
    · cases hp
  · intro x _ _
    funext o
    have hadd := base_add (o := o) (pageAddr_page x.2)
    have hhi := (hiOf_eq_pteHi (p := x.1)).mpr hadd.1
    change mem.flash x.1 (blockNo x.2) o = mem.flash x.1 (pageIndex (hiOf x.1 _)) (pageOffset _)
    rw [hhi, hadd.2, pageIndex_blockNo]

theorem ContentsKept.step {mem : Mem} {tr : List (System × UserEvent × System)} {m m' : System}
    {e : UserEvent} {st st' : Uproc → Stage} (h : ContentsKept mem tr (m.abs st))
    (hok : Regular m (m.did e) ∧ FreesOwn m (m.did e))
    (hm : Move (m.abs st) (m.did e) (m'.abs st')) :
    ContentsKept mem (tr ++ [(m, e, m')]) (m'.abs st') := by
  have hs : CopySafe (m.abs st) (m.did e) := copySafe_of hok.1 hok.2
  refine ⟨hm.paged h.paged hs (pageSafe_of hok.1.inPages hok.1.kept),
    hm.cursor h.paged.disciplined h.cursor, ?_⟩
  rw [written_snoc]
  exact hm.backed h.paged hs h.backed

section Run

variable {mem : Mem} {tr : List (System × UserEvent × System)} {m : System}

theorem run_kept (hi : Initial mem)
    (h : Run (UserStep fun m e => Regular m (m.did e) ∧ FreesOwn m (m.did e)) (.start mem) tr m) :
    ∃ st, m.Fits st ∧ ContentsKept mem tr (m.abs st) :=
  run_invariant_past h (Abs.start_kept hi) fun _ _ _ _ _ _ hok _ hm hI => hI.step hok hm

theorem run_writesBack (hi : Initial mem)
    (h : Run (UserStep fun m e => Regular m (m.did e) ∧ FreesOwn m (m.did e)) (.start mem) tr m) :
    ∀ x ∈ tr, (x.1.did x.2.1).isWriteBack → WritesBack x.1 x.2.2 := by
  induction h with
  | nil => simp
  | @snoc tr m e m' hr hstep ih =>
    intro x hx hd
    rcases List.mem_append.mp hx with hx | hx
    · exact ih x hx hd
    · obtain rfl := List.mem_singleton.mp hx
      obtain ⟨st, hf, hI⟩ := run_kept hi hr
      obtain ⟨st', -, hm⟩ := System.next_moves hf hstep.1
      intro q y _ howner hentry
      exact hm.writes hI.paged hI.cursor (copySafe_of hstep.2.1 hstep.2.2) hd howner hentry

/-- What the invariant says of the memories of the processes. -/
theorem ContentsKept.readsBack {st : Uproc → Stage} (hf : m.Fits st)
    (h : ContentsKept mem tr (m.abs st)) : ReadsBack (written mem tr) m := by
  have hlive : ∀ {p}, ¬ m.Terminating p → ¬ (m.abs st).Gone p := fun hp hg =>
    hp (System.terminating_of_gone hf h.paged.disciplined.sane hg)
  have hpage : ∀ p i, ¬ m.Terminating p → (m.mem.pte (p, i)).valid →
      ∃ f, (m.mem.pte (p, i)).entryLO = frameLo f ∧
        m.mem.frame f = pages (written mem tr) (p, i) := by
    intro p i hp hv
    obtain ⟨f, hlo, -⟩ := h.paged.coherent.owned (p, i) (hlive hp) hv
    exact ⟨f, hlo, h.backed.framed (p, i) f (hlive hp) (.inl hlo)⟩
  refine ⟨?_, hpage⟩
  intro p va e hp htr hv
  obtain ⟨j, hj, rfl⟩ := Option.map_eq_some_iff.mp htr
  obtain ⟨i, hva, he⟩ := h.paged.coherent.mirrors.eq_of_hits h.paged.coherent.tables
    (Tlb.hits_of_probe hj)
  have he : m.mem.tlb j = m.mem.pte (p, i) := he
  rw [he] at hv ⊢
  obtain ⟨f, hlo, hframe⟩ := hpage p i hp hv
  have hva := eq_pageAddr_add (hiOf_eq_pteHi.mp hva)
  rw [physAddr_frameLo hlo, ← m.mem.frame_apply, hframe, pages, ← hva]

end Run

/-- In every run in which the processes free only frames of their own, at every moment: each
    process finds in its memory what it has stored there last, and every page that has been written
    back went to its own block. -/
theorem pages_kept {mem : Mem} {tr : List (System × UserEvent × System)} {m : System}
    (hi : Initial mem)
    (h : Run (UserStep fun m e => Regular m (m.did e) ∧ FreesOwn m (m.did e)) (.start mem) tr m) :
    ReadsBack (written mem tr) m ∧
      ∀ x ∈ tr, (x.1.did x.2.1).isWriteBack → WritesBack x.1 x.2.2 := by
  obtain ⟨st, hf, hI⟩ := run_kept hi h
  exact ⟨hI.readsBack hf, run_writesBack hi h⟩

omit [Umps] in
/-- A process stores a byte, fills the swap pool with its other pages, and comes back to the first
    one, which has been written back. -/
theorem pages_kept_own :
    letI := sampleUmps
    ∃ tr m e, Run (UserStep fun m e => Regular m (m.did e) ∧ FreesOwn m (m.did e))
        (.start sampleMem) tr m ∧
      (∃ x ∈ tr, (x.1.did x.2.1).isWriteBack ∧ WritesBack x.1 x.2.2) ∧
      m.mem.translate (hiOf 0 KUSEG) = some e ∧ m.mem.ram (physAddr e KUSEG) = 7 := by
  let _ := sampleUmps
  obtain ⟨tr, m, h, hP⟩ := System.exists_run_of_play
    (fun m e => Regular m (m.did e) ∧ FreesOwn m (m.did e)) (.start sampleMem)
    (bringInPage 0 0 0 ++ .user 0 KUSEG (.store KUSEG 7) (refillAt 0) .zero ::
      ((List.finRange 15).flatMap fun i => bringInPage 0 (i.succ.castLE (by decide)) 0) ++
      replacePage 0 16 0 ++ replacePage 0 0 0)
    (P := fun tr m => (tr.any fun x => (x.1.did x.2.1).isWriteBack) ∧ ¬ m.Terminating 0 ∧
      ((m.mem.translate (hiOf 0 KUSEG)).any (·.valid)) ∧ written sampleMem tr 0 KUSEG = 7)
    (by decide +kernel)
  obtain ⟨hwrite, hlive, htr, hV⟩ := of_decide_eq_true hP
  obtain ⟨e, he, hv⟩ := (Option.any_eq_true _ _).mp htr
  obtain ⟨x, hx, hd⟩ := List.any_eq_true.mp hwrite
  obtain ⟨hread, hback⟩ := pages_kept sampleMem_initial h
  refine ⟨tr, m, e, h, ⟨x, hx, hd, hback x hx hd⟩, he, ?_⟩
  rw [hread.byte 0 KUSEG e hlive he hv, hV]

omit [Umps] in
/-- A process stores a byte. Another one fills the pool and takes the frame, so the page goes to the
    wrong flash device; when the first one comes back to it, the byte is gone. -/
theorem pages_kept_lost :
    letI := sampleUmps
    ∃ tr m, Run (UserStep fun m e => Regular m (m.did e)) (.start sampleMem) tr m ∧
      ¬ ReadsBack (written sampleMem tr) m := by
  let _ := sampleUmps
  obtain ⟨tr, m, h, hP⟩ := System.exists_run_of_play (fun m e => Regular m (m.did e))
    (.start sampleMem)
    (bringInPage 0 0 0 ++ .user 0 KUSEG (.store KUSEG 7) (refillAt 0) .zero ::
      ((List.finRange 15).flatMap fun i => bringInPage 1 (i.castLE (by decide)) 0) ++
      replacePage 1 15 0 ++ replacePage 0 0 0)
    (P := fun tr m => ¬ m.Terminating 0 ∧ ((m.mem.translate (hiOf 0 KUSEG)).any fun e =>
      e.valid && decide (m.mem.ram (physAddr e KUSEG) ≠ written sampleMem tr 0 KUSEG)))
    (by decide +kernel)
  obtain ⟨hlive, htr⟩ := of_decide_eq_true hP
  obtain ⟨e, he, hbad⟩ := (Option.any_eq_true _ _).mp htr
  obtain ⟨hv, hne⟩ := (Bool.and_eq_true ..).mp hbad
  exact ⟨tr, m, h, fun hread => of_decide_eq_true hne (hread.byte 0 KUSEG e hlive he hv)⟩

end Rocm
