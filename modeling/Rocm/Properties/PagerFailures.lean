import Rocm.Proofs.Flash
import Rocm.Proofs.Handlers
import Rocm.Properties.SupportSample
import Rocm.Support.Session

/-!
# Failures of the flash

What `tlb_exc_handler` does when the write of the old page or the read of the new one fails: it
gives up after the failed read without releasing `sp_sem`, and it does not learn of the failed
write.
-/

namespace Rocm

open Session Threads

variable [Umps] {p : Uproc} {f : Frame} {s : Session} {fuel : Nat}

/-! ## The pager alone -/

/-- `read_from_flash` or `write_to_flash` has run. -/
def Session.flashed (s : Session) (p : Uproc) (blkNo data cmd : Word) : Session :=
  let s := s.note (.passeren (flashSem p))
  let s := { s with mem := s.mem.setData0 (flashDev p) data }
  (s.operate (flashDev p) (blkNo <<< 8 ||| cmd)).note (.verhogen (flashSem p))

/-- `free_frame` has run. -/
def Session.freed (s : Session) (p : Uproc) (f : Frame) : Session :=
  let x := (s.mem.spTbl f).pgTblEntry
  let m := s.mem.invalidate x
  let s' := ({ s with mem := m } : Session).flashed p (pageIndex (m.pte x).entryHI)
    (Umps.entryloGetPfn (m.pte x).entryLO) FLASHWRITE
  if s.statuses 0 ≠ READY then s' else { s' with mem := s'.mem.setFree f }

/-- The frame has been chosen, and freed if it is in use by a process that lives. -/
def Session.cleared (s : Session) (p : Uproc) : Session :=
  let f := s.mem.chooseFrame
  let s' := { s.note (.passeren .spSem) with mem := { s.mem with frameTop := f } }
  if s.mem.usable f then s'.freed p f else s'

/-- The page has been read. -/
def Session.filled (s : Session) (p : Uproc) : Session :=
  (s.cleared p).flashed p (pageIndex (s.mem.sup p).faultHi) (frameAddr s.mem.chooseFrame) FLASHREAD

theorem run_flashIo {α : Type} {blkNo data cmd : Word} {k : Word → SM α} :
    s.run fuel (flashIo (asid p) blkNo data cmd >>= k) =
      (s.flashed p blkNo data cmd).run fuel (k (s.statuses 0)) := by
  rw [flashIo_asid]
  refine (run_call (c := .passeren _) nofun rfl).trans ?_
  refine run_act.trans ?_
  refine (run_call (c := .doio _ _) nofun rfl).trans ?_
  exact run_call (c := .verhogen _) nofun rfl

theorem run_freeFrame {α : Type} {k : Unit → SM α} :
    s.run fuel (freeFrame f (asid p) >>= k) = (s.freed p f).run fuel (k ()) := by
  refine run_act.trans (run_act.trans (run_act.trans ?_))
  change Session.run _ fuel (flashIo (asid p) _ _ FLASHWRITE >>= _ >>= k) = _
  rw [Code.bind_assoc, run_flashIo]
  unfold Session.freed
  by_cases h : s.statuses 0 = READY
  · simp only [h, ne_eq, not_true_eq_false, if_false]
    exact run_act
  · simp only [h, ne_eq, not_false_eq_true, if_true]
    rfl

/-- The status by which the read ends: the second one when the old page has been written before. -/
def Session.readStatus (s : Session) : Word :=
  s.statuses (if s.mem.usable s.mem.chooseFrame then 1 else 0)

theorem freed_statuses : (s.freed p f).statuses = fun n => s.statuses (n + 1) := by
  unfold Session.freed
  dsimp only
  split <;> rfl

theorem cleared_statuses : (s.cleared p).statuses 0 = s.readStatus := by
  unfold Session.cleared Session.readStatus
  by_cases h : s.mem.usable s.mem.chooseFrame
  · simp only [h, if_true, freed_statuses]
    rfl
  · simp only [h, Bool.false_eq_true, if_false]
    rfl

/-- The rest of `tlb_exc_handler` after the read. -/
def afterRead (p : Uproc) (mpgNo : Word) (f : Frame) (devStat : Word) : SM Unit := do
  if devStat ≠ READY then return
  if h : mpgNo.toNat < USERPGTBLSIZE then
    act (.install p f ⟨mpgNo.toNat, h⟩)
    call (.verhogen .spSem)
    exit (.ldst 0) Call.ldst_zero_res
  else exit .wild Call.wild_res

theorem run_afterRead {mpgNo devStat : Word} :
    s.run fuel (afterRead p mpgNo f devStat) =
      if devStat ≠ READY then (.returned (), s)
      else if hi : mpgNo.toNat < USERPGTBLSIZE then
        (.ended (.call (.ldst 0)),
          { s with mem := s.mem.install p f ⟨_, hi⟩ }.note (.verhogen .spSem))
      else (.ended (.call .wild), s) := by
  unfold afterRead
  split
  · rfl
  · split
    · refine run_act.trans ?_
      refine (run_call (c := .verhogen _) (by simp) rfl).trans ?_
      exact run_exit (by simp) rfl
    · exact run_exit (by simp) rfl

/-- `tlb_exc_handler` from the choice of the frame on. -/
def afterChoice (p : Uproc) (sup : SupportT) (f : Frame) (usable : Bool) : SM Unit := do
  if usable then freeFrame f sup.supAsid
  let devStat ← readFromFlash sup.supAsid (pageIndex sup.faultHi) (frameAddr f)
  afterRead p (pageIndex sup.faultHi) f devStat

theorem tlbExcHandler_eq : tlbExcHandler p = .cmd (.act (.support p)) fun sup =>
    if CAUSE_GET_EXCCODE (sup.supExceptState PGFAULTEXCEPT).cause = EXC_MOD then safeKill
    else .cmd (.call (.passeren .spSem)) fun _ => .cmd (.act .chooseFrame) fun f =>
      .cmd (.act (.usable f)) fun usable => afterChoice p sup f usable := rfl

theorem run_afterChoice {t : Session} {sup : SupportT} {usable : Bool} (h : sup.supAsid = asid p) :
    t.run fuel (afterChoice p sup f usable) =
      ((if usable then t.freed p f else t).flashed p (pageIndex sup.faultHi) (frameAddr f)
        FLASHREAD).run fuel (afterRead p (pageIndex sup.faultHi) f
          ((if usable then t.freed p f else t).statuses 0)) := by
  cases usable with
  | false =>
    change t.run fuel (flashIo sup.supAsid _ _ _ >>= _) = _
    rw [h, run_flashIo]
    rfl
  | true =>
    change t.run fuel (freeFrame f sup.supAsid >>= fun _ => flashIo sup.supAsid _ _ _ >>= _) = _
    rw [h, run_freeFrame, run_flashIo]
    rfl

/-- A TLB-modification trap ends the process. -/
theorem run_pager_mod (h : CAUSE_GET_EXCCODE ((s.mem.sup p).supExceptState PGFAULTEXCEPT).cause =
    EXC_MOD) : s.run fuel (tlbExcHandler p) = (.ended (.call .termProcess), s) := by
  rw [tlbExcHandler_eq]
  refine run_act.trans ?_
  refine (congrArg (Session.run _ fuel) (if_pos h)).trans ?_
  exact run_exit nofun rfl

/-- What the pager does about another fault. -/
theorem run_pager (h : CAUSE_GET_EXCCODE ((s.mem.sup p).supExceptState PGFAULTEXCEPT).cause ≠
    EXC_MOD) :
    s.run fuel (tlbExcHandler p) =
      if s.readStatus ≠ READY then (.returned (), s.filled p)
      else if hi : (pageIndex (s.mem.sup p).faultHi).toNat < USERPGTBLSIZE then
        (.ended (.call (.ldst 0)),
          { s.filled p with mem := (s.filled p).mem.install p s.mem.chooseFrame ⟨_, hi⟩ }.note
            (.verhogen .spSem))
      else (.ended (.call .wild), s.filled p) := by
  rw [tlbExcHandler_eq]
  refine run_act.trans ?_
  refine (congrArg (Session.run _ fuel) (if_neg h)).trans ?_
  refine (run_call (c := .passeren _) nofun rfl).trans (run_act.trans (run_act.trans ?_))
  refine (run_afterChoice (s.mem.sup_asid p)).trans ?_
  rw [run_afterRead]
  rw [← cleared_statuses (p := p)]
  rfl

/-! ## What it records -/

/-- A flash device has ended a command for the block at a physical address. -/
def FlashEnded (log : List Io) (cmd addr status : Word) : Prop :=
  ∃ no cmdval, Io.doio (.dtp 1 no) cmdval addr status ∈ log ∧ cmdval &&& 0xFF = cmd

/-- What `read_from_flash` and `write_to_flash` record. -/
def flashLog (p : Uproc) (blkNo data cmd status : Word) : List Io :=
  [.passeren (flashSem p), .doio (flashDev p) (blkNo <<< 8 ||| cmd) data status,
    .verhogen (flashSem p)]

omit [Umps] in
theorem flashEnded_append {l l' : List Io} {cmd addr status : Word} :
    FlashEnded (l ++ l') cmd addr status ↔
      FlashEnded l cmd addr status ∨ FlashEnded l' cmd addr status := by
  simp only [FlashEnded, List.mem_append, or_and_right, exists_or]

omit [Umps] in
theorem flashEnded_flashLog {blkNo data cmd status cmd' addr status' : Word}
    (hcmd : cmd &&& 0xFF = cmd) :
    FlashEnded (flashLog p blkNo data cmd status) cmd' addr status' ↔
      cmd' = cmd ∧ addr = data ∧ status' = status := by
  have hlow := flashCmd_low blkNo hcmd
  constructor
  · rintro ⟨no, cmdval, hmem, rfl⟩
    simp only [flashLog, List.mem_cons, reduceCtorEq, Io.doio.injEq, List.not_mem_nil,
      or_false, false_or] at hmem
    obtain ⟨-, rfl, rfl, rfl⟩ := hmem
    exact ⟨hlow, rfl, rfl⟩
  · rintro ⟨rfl, rfl, rfl⟩
    exact ⟨p, _, by simp [flashLog], hlow⟩

theorem flashed_log {blkNo data cmd : Word} :
    (s.flashed p blkNo data cmd).log = s.log ++ flashLog p blkNo data cmd (s.statuses 0) := by
  have hdata : (s.mem.setData0 (flashDev p) data |>.dev (flashDev p)).data0 = data := by
    simp [Mem.setData0]
  simp [Session.flashed, Session.note, Session.operate, flashLog, hdata]

/-- The record of `free_frame`. -/
theorem freed_log : ∃ blkNo data,
    (s.freed p f).log = s.log ++ flashLog p blkNo data FLASHWRITE (s.statuses 0) := by
  unfold Session.freed
  dsimp only
  split <;> exact ⟨_, _, flashed_log⟩

/-- The record of `tlb_exc_handler` up to the read. -/
theorem filled_log (hlog : s.log = []) : ∃ w,
    (s.filled p).log = .passeren .spSem :: w ++
      flashLog p (pageIndex (s.mem.sup p).faultHi) (frameAddr s.mem.chooseFrame) FLASHREAD
        s.readStatus ∧
      if s.mem.usable s.mem.chooseFrame then
        ∃ blkNo data, w = flashLog p blkNo data FLASHWRITE (s.statuses 0)
      else w = [] := by
  unfold Session.filled
  rw [flashed_log, cleared_statuses]
  unfold Session.cleared
  by_cases hu : s.mem.usable s.mem.chooseFrame
  · simp only [hu, if_true]
    obtain ⟨blkNo, data, h⟩ := freed_log (p := p) (f := s.mem.chooseFrame)
      (s := { s.note (.passeren .spSem) with mem := { s.mem with frameTop := s.mem.chooseFrame } })
    refine ⟨_, ?_, blkNo, data, rfl⟩
    rw [h]
    simp [Session.note, hlog]
  · simp only [hu, Bool.false_eq_true, if_false]
    exact ⟨[], by simp [Session.note, hlog], rfl⟩

theorem filled_count (hlog : s.log = []) :
    (s.filled p).log.count (.verhogen .spSem) = 0 ∧
      (s.filled p).log.count (.passeren .spSem) = 1 := by
  obtain ⟨w, hl, hw⟩ := filled_log (p := p) hlog
  rw [hl]
  split at hw
  · obtain ⟨blkNo, data, rfl⟩ := hw
    simp [flashLog]
  · subst hw
    simp [flashLog]

theorem filled_read (hlog : s.log = []) {a status : Word} :
    FlashEnded (s.filled p).log FLASHREAD a status ↔
      a = frameAddr s.mem.chooseFrame ∧ status = s.readStatus := by
  obtain ⟨w, hl, hw⟩ := filled_log (p := p) hlog
  have hw' : ¬ FlashEnded (.passeren .spSem :: w) FLASHREAD a status := by
    rw [← List.singleton_append, flashEnded_append]
    split at hw
    · obtain ⟨blkNo, data, rfl⟩ := hw
      rw [flashEnded_flashLog (by decide)]
      simp [FlashEnded, FLASHREAD, FLASHWRITE]
    · subst hw
      simp [FlashEnded]
  rw [hl, flashEnded_append, flashEnded_flashLog (by decide)]
  simp [hw']

theorem filled_write (hlog : s.log = []) {status : Word} :
    (∃ a, FlashEnded (s.filled p).log FLASHWRITE a status) ↔
      s.mem.usable s.mem.chooseFrame ∧ status = s.statuses 0 := by
  obtain ⟨w, hl, hw⟩ := filled_log (p := p) hlog
  have hread : ∀ a, ¬ FlashEnded (flashLog p (pageIndex (s.mem.sup p).faultHi)
      (frameAddr s.mem.chooseFrame) FLASHREAD s.readStatus) FLASHWRITE a status := by
    intro a
    rw [flashEnded_flashLog (by decide)]
    simp [FLASHREAD, FLASHWRITE]
  simp only [hl, flashEnded_append, hread, or_false, ← List.singleton_append (l := w)]
  split at hw
  · next hu =>
    obtain ⟨blkNo, data, rfl⟩ := hw
    simp only [flashEnded_flashLog (show FLASHWRITE &&& 0xFF = FLASHWRITE by decide)]
    simp [FlashEnded, hu]
  · next hu =>
    subst hw
    simp [FlashEnded, hu]

/-! ## What a fault leaves behind -/

/-- The pager is done with a fault. -/
structure FaultDone (p : Uproc) (s : Session) (x : Threads.Outcome Cmd Unit × Session) : Prop where
  balanced : x.2.log.count (.verhogen .spSem) = x.2.log.count (.passeren .spSem)
  /-- `sp_sem` has been released, but for a trap that does not take it. -/
  released : CAUSE_GET_EXCCODE ((s.mem.sup p).supExceptState PGFAULTEXCEPT).cause ≠ EXC_MOD →
    x.2.log.count (.verhogen .spSem) = 1
  /-- After a read that has failed the page is not mapped, and the process does not go on. -/
  unread : ∀ a status, FlashEnded x.2.log FLASHREAD a status → status ≠ READY →
    (∀ i : Page, i.val = (pageIndex (s.mem.sup p).faultHi).toNat → ¬ (x.2.mem.pte (p, i)).valid) ∧
      ∀ k, x.1 ≠ .ended (.call (.ldst k))
  /-- After a write that has failed nothing is read into the frame whose page was to be saved. -/
  kept : ∀ a status, s.mem.usable s.mem.chooseFrame → FlashEnded x.2.log FLASHWRITE a status →
    status ≠ READY → ¬ FlashEnded x.2.log FLASHREAD (frameAddr s.mem.chooseFrame) READY

/-- The conditions under which the pager is done with a fault as it should be. -/
def Session.Handled (s : Session) (p : Uproc) : Prop :=
  CAUSE_GET_EXCCODE ((s.mem.sup p).supExceptState PGFAULTEXCEPT).cause = EXC_MOD ∨
    (pageIndex (s.mem.sup p).faultHi).toNat < USERPGTBLSIZE ∧ s.readStatus = READY ∧
      (s.mem.usable s.mem.chooseFrame → s.statuses 0 = READY)

theorem faultDone_iff (p : Uproc) (s : Session) (fuel : Nat) (hlog : s.log = []) :
    FaultDone p s (s.run fuel (tlbExcHandler p)) ↔ s.Handled p := by
  by_cases hmod : CAUSE_GET_EXCCODE ((s.mem.sup p).supExceptState PGFAULTEXCEPT).cause = EXC_MOD
  · rw [run_pager_mod hmod]
    refine iff_of_true ⟨by simp [hlog], absurd hmod, ?_, ?_⟩ (.inl hmod)
    · rintro a status ⟨no, cmdval, hmem, -⟩
      simp [hlog] at hmem
    · rintro a status - ⟨no, cmdval, hmem, -⟩
      simp [hlog] at hmem
  · rw [run_pager hmod]
    obtain ⟨hv, hp⟩ := filled_count (p := p) hlog
    by_cases hread : s.readStatus = READY
    · simp only [hread, ne_eq, not_true_eq_false, if_false]
      split
      · next hi =>
        have hended : ∀ cmd a status,
            FlashEnded ((s.filled p).log ++ [.verhogen .spSem]) cmd a status ↔
              FlashEnded (s.filled p).log cmd a status := by
          intro cmd a status
          rw [flashEnded_append]
          simp [FlashEnded]
        constructor
        · intro h
          refine .inr ⟨hi, hread, fun hu => ?_⟩
          obtain ⟨a, hw⟩ := (filled_write (p := p) hlog).mpr ⟨hu, rfl⟩
          by_contra hne
          exact h.kept a _ hu ((hended _ _ _).mpr hw) hne
            ((hended _ _ _).mpr ((filled_read hlog).mpr ⟨rfl, hread.symm⟩))
        · intro h
          have hwrite := (h.resolve_left hmod).2.2
          refine ⟨?_, fun _ => ?_, fun a status hr hne => ?_, fun a status hu hw hne => ?_⟩
          · simp [Session.note, List.count_append, hv, hp]
          · simp [Session.note, List.count_append, hv]
          · exact absurd (((filled_read hlog).mp ((hended _ _ _).mp hr)).2.trans hread) hne
          · have hstatus := ((filled_write hlog).mp ⟨a, (hended _ _ _).mp hw⟩).2
            exact absurd (hstatus.trans (hwrite hu)) hne
      · next hi =>
        refine iff_of_false (fun h => ?_) fun h => ?_
        · exact absurd (hv.symm.trans (h.released hmod)) (by decide)
        · exact hi (h.resolve_left hmod).1
    · simp only [hread, ne_eq, not_false_eq_true, if_true]
      refine iff_of_false (fun h => ?_) fun h => ?_
      · exact absurd (hv.symm.trans (h.released hmod)) (by decide)
      · exact hread (h.resolve_left hmod).2.1

/-- The first fault of a process; the flash ends every command with `status`. -/
def flashAnswers (status : Word) : @Session sampleUmps :=
  letI := sampleUmps
  { mem := sampleMem.setExceptState 0 PGFAULTEXCEPT
      { ProcState.zero with entryHi := KUSEG ||| asid 0 <<< ASIDSHIFT, cause := EXC_TLBL <<< 2 }
    user := fun _ => 0
    now := 0
    statuses := fun _ => status
    log := [] }

omit [Umps] in
theorem faultDone_first :
    letI := sampleUmps
    FaultDone 0 (flashAnswers READY) ((flashAnswers READY).run 0 (tlbExcHandler 0)) := by
  let _ := sampleUmps
  exact (faultDone_iff 0 (flashAnswers READY) 0 rfl).mpr (.inr (by decide +kernel))

omit [Umps] in
/-- The read of the first page of a process fails, and `sp_sem` stays taken. -/
theorem faultDone_readError :
    letI := sampleUmps
    ¬ FaultDone 0 (flashAnswers 4) ((flashAnswers 4).run 0 (tlbExcHandler 0)) := by
  let _ := sampleUmps
  intro h
  exact absurd (h.released (by decide +kernel)) (by decide +kernel)

end Rocm
