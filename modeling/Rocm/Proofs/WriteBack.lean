import Rocm.Lib.Paged
import Rocm.Proofs.PagerMoves

/-!
# The pages of the processes

The frames and the flash devices are the store of `Lib.Paged`: a page is in the frame that its entry
names, and in the frame that is being written to the flash. Every move keeps what is in the pages,
but for a store of the process itself.
-/

namespace Rocm

open Paged

variable [Umps] {p q : Uproc} {a a' : Abs} {d : Did} {i : Page} {t : TlbStage} {f : Frame}
  {x y : Uproc × Page}

/-- The frame that is about to be written to the flash, and its page. -/
def TlbStage.saves : TlbStage → Option (Frame × (Uproc × Page))
  | .invalid _ f x => some (f, x)
  | .saving _ _ _ _ (.done _) => none
  | .saving _ f x _ _ => some (f, x)
  | _ => none

def Stage.saves (S : Stage) : Option (Frame × (Uproc × Page)) := S.tlb.bind TlbStage.saves

/-- Where the pages are. -/
def Abs.store (a : Abs) : Store (Uproc × Page) Frame Block where
  frame := a.mem.frame
  home := a.mem.home
  place x f := (a.mem.pte x).entryLO = frameLo f ∨ ∃ p, (a.stage p).saves = some (f, x)
  live x := ¬ a.Gone x.1

/-- The pages of a user memory. -/
def pages (V : Uproc → Word → Byte) (x : Uproc × Page) : Block :=
  fun o => V x.1 (pageAddr x.2 + BitVec.ofNat 32 o)

/-- The memories of the processes after a step. -/
def Did.write (V : Uproc → Word → Byte) : Did → Uproc → Word → Byte
  | .stored p va b => Function.update V p (Function.update (V p) va b)
  | _ => V

/-! ## Frames and blocks -/

omit [Umps] in
theorem TlbStage.spare_of_saves (h : t.saves = some (f, x)) : t.spare = some f := by
  cases t with
  | invalid sup g y => exact congrArg (·.map Prod.fst) h
  | saving sup g y e io =>
    cases io with
    | done status => cases h
    | _ => exact congrArg (·.map Prod.fst) h
  | _ => cases h

omit [Umps] in
theorem Stage.spare_of_saves {S : Stage} (h : S.saves = some (f, x)) : S.spare = some f := by
  obtain ⟨t, ht, hs⟩ := Option.bind_eq_some_iff.mp h
  rw [Stage.spare, ht]
  exact TlbStage.spare_of_saves hs

omit [Umps] in
theorem Stage.saves_of_tlb {S : Stage} (h : S.tlb = some t) : S.saves = t.saves := by
  rw [Stage.saves, h]
  rfl

omit [Umps] in
theorem Stage.saves_of_none {S : Stage} (h : S.tlb = none) : S.saves = none := by
  rw [Stage.saves, h]
  rfl

omit [Umps] in
theorem blockNo_inj {i j : Page} (h : blockNo i = blockNo j) : i = j := by
  revert i j
  decide

omit [Umps] in
theorem frameLo_ne_invalidLo (f g : Frame) : frameLo f ≠ invalidLo (frameLo g) := by
  intro h
  have hvalid := frameLo_valid f
  rw [h] at hvalid
  exact hvalid (invalidLo_valid _)

/-- A block of a flash device is the page of one process. -/
theorem Mem.home_write {m m' : Mem} {b : Block} (h : m'.flash =
    Function.update m.flash p (Function.update (m.flash p) (blockNo i) b)) :
    m'.home = Function.update m.home (p, i) b := by
  funext y
  obtain ⟨q, j⟩ := y
  rw [Mem.home, h]
  by_cases hq : q = p
  · subst hq
    by_cases hj : j = i
    · subst hj
      simp only [Function.update_self]
    · have hblk : blockNo j ≠ blockNo i := fun he => hj (blockNo_inj he)
      have hne : (q, j) ≠ (q, i) := fun he => hj (congrArg Prod.snd he)
      rw [Function.update_self, Function.update_of_ne hblk, Function.update_of_ne hne]
      rfl
  · have hne : (q, j) ≠ (p, i) := fun he => hq (congrArg Prod.fst he)
    rw [Function.update_of_ne hq, Function.update_of_ne hne]
    rfl

omit [Umps] in
theorem pages_write {V : Uproc → Word → Byte} {va : Word} (b : Byte)
    (hva : va &&& ENTRYHI_PAGE_MASK = pageAddr i) :
    pages (Function.update V p (Function.update (V p) va b)) =
      Function.update (pages V) (p, i) (Function.update (pages V (p, i)) (pageOffset va) b) := by
  have heq := eq_pageAddr_add hva
  funext ⟨r, j⟩ o
  have hadd := base_add (o := o) (pageAddr_page j)
  by_cases hx : (r, j) = (p, i)
  · cases hx
    rw [Function.update_self, pages, Function.update_self]
    by_cases ho : o = pageOffset va
    · subst ho
      rw [Function.update_self]
      dsimp only
      rw [← heq, Function.update_self]
    · rw [Function.update_of_ne ho, pages]
      refine Function.update_of_ne (fun he => ho ?_) ..
      rw [← he]
      exact hadd.2.symm
  · rw [Function.update_of_ne hx, pages, pages]
    by_cases hr : r = p
    · subst hr
      rw [Function.update_self]
      refine Function.update_of_ne (fun he => hx ?_) ..
      have hpage : pageAddr j = pageAddr i := by
        rw [← hva, ← he]
        exact hadd.1.symm
      rw [pageAddr_inj hpage]
    · rw [Function.update_of_ne hr]

/-! ## Moves -/

theorem PageMove.gone_mono {P P' : Paging} (h : PageMove P d P') (hq : P.gone q) : P'.gone q := by
  cases h with
  | store => exact gone_update_of hq
  | die => exact gone_update_of hq
  | _ => exact hq

/-- What the table of the swap pool records stays true. -/
theorem Move.recordSafe (h : Move a d a') (hp : a.Paged) (hs : CopySafe a d) :
    RecordSafe a.paging d := by
  constructor
  · rintro p f rfl
    cases h with
    | act _ hw hy =>
      rcases Stage.allows_act hy with ⟨t, ht, hact⟩ | ⟨g, -, hact⟩
      · cases hact
        change (a.stage p).spare = none ∧ (a.stage p).aim = none
        rw [Stage.spare, Stage.aim, ht]
        exact ⟨rfl, rfl⟩
      · cases hact
  · rintro p f rfl
    cases h with
    | act _ hw hy =>
      rcases Stage.allows_act hy with ⟨t, ht, hact⟩ | ⟨g, -, hact⟩
      · refine ⟨?_, hp.disciplined.sane.not_gone (by rw [hw]; simp) ht, hs.own p f rfl⟩
        cases hact
        change (a.stage p).spare = none
        rw [Stage.spare, ht]
        rfl
      · cases hact
  · rintro p f i rfl
    cases h with
    | act _ hw hy =>
      rcases Stage.allows_act hy with ⟨t, ht, hact⟩ | ⟨g, -, hact⟩
      · obtain ⟨j, hj⟩ := hp.pager p t ht
        cases hact with
        | @install sup _ _ hi =>
          obtain rfl := hp.disciplined.installs_missing ht sup rfl hj.1 hi
          exact hj.1.absent
      · cases hact

theorem Move.paged (h : Move a d a') (hp : a.Paged) (hs : CopySafe a d)
    (hsafe : PageSafe a.paging d) : a'.Paged := by
  have hpage := h.paging hp.disciplined
  exact ⟨h.disciplined hp.disciplined, hpage.coherent hsafe hp.coherent,
    hpage.recorded (h.recordSafe hp hs) hp.recorded, h.pagerOk hp hs⟩

/-! ## What is in the pages -/

/-- What a move leaves where it is. -/
theorem Abs.backed_of_same {V : Uproc × Page → Block} (h : Backed a.store V)
    (hframe : a'.mem.frame = a.mem.frame) (hhome : a'.mem.home = a.mem.home)
    (hpte : a'.mem.pte = a.mem.pte) (hsaves : ∀ p, (a'.stage p).saves = (a.stage p).saves)
    (hlive : ∀ q, ¬ a'.Gone q → ¬ a.Gone q) : Backed a'.store V := by
  refine h.mono hframe hhome (fun x f => ?_) fun x => hlive x.1
  change (a'.mem.pte x).entryLO = frameLo f ∨ (∃ p, (a'.stage p).saves = some (f, x)) ↔
    (a.mem.pte x).entryLO = frameLo f ∨ ∃ p, (a.stage p).saves = some (f, x)
  simp only [hpte, hsaves]

theorem Abs.saves_setStage {S : Stage} (h : S.saves = (a.stage p).saves) (q : Uproc) :
    ((a.setStage p S).stage q).saves = (a.stage q).saves := by
  by_cases hq : q = p
  · subst hq
    rw [Abs.setStage_stage, h]
  · rw [Abs.setStage_stage_ne hq]

/-- While a process works on a frame, nobody else does. -/
theorem Abs.saves_none (ha : a.Disciplined) (hp : a.frame p ≠ none) (hq : q ≠ p) :
    (a.stage q).saves = none := by
  have hspare : (a.stage q).spare = none := a.spare_none ha hp hq
  cases hs : (a.stage q).saves with
  | none => rfl
  | some y =>
    rw [Stage.spare_of_saves (x := y.2) hs] at hspare
    cases hspare

theorem Abs.Disciplined.no_saves (ha : a.Disciplined) (ht : (a.stage p).tlb = some t)
    (hf : t.frame ≠ none) (hs : t.saves = none) (q : Uproc) : (a.stage q).saves = none := by
  by_cases hq : q = p
  · subst hq
    rw [Stage.saves_of_tlb ht, hs]
  · exact a.saves_none ha (by rwa [Abs.frame, Stage.frame_of_tlb ht]) hq

theorem Abs.no_saves_setStage {S : Stage} (hS : S.saves = none)
    (h : ∀ q, q ≠ p → (a.stage q).saves = none) (q : Uproc) :
    ((a.setStage p S).stage q).saves = none := by
  by_cases hq : q = p
  · subst hq
    rw [Abs.setStage_stage, hS]
  · rw [Abs.setStage_stage_ne hq]
    exact h q hq

section Backing

variable {V : Uproc × Page → Block}

/-- A page whose entry is for a frame is in this one only. -/
theorem Abs.Paged.place_eq (hp : a.Paged) {g : Frame} (hlo : (a.mem.pte x).entryLO = frameLo f)
    (hg : a.store.place x g) : g = f := by
  rcases hg with hg | ⟨r, hr⟩
  · exact frameLo_inj (hg.symm.trans hlo)
  · exfalso
    obtain ⟨t, ht, hs⟩ := Option.bind_eq_some_iff.mp hr
    obtain ⟨j, hj⟩ := hp.pager r t ht
    have hvictim : (a.mem.pte x).entryLO = invalidLo (frameLo g) := by
      cases t with
      | invalid sup f' x' =>
        cases hs
        exact hj.2.lo
      | saving sup f' x' e io =>
        cases io with
        | done status => cases hs
        | _ =>
          cases hs
          exact hj.2.1.lo
      | _ => cases hs
    exact frameLo_ne_invalidLo f g (hlo.symm.trans hvictim)

/-- A frame in use has one page. -/
theorem Abs.Paged.place_inj (hp : a.Paged) (hx : ¬ a.Gone x.1)
    (hlo : (a.mem.pte x).entryLO = frameLo f) (hy : ¬ a.Gone y.1) (hy' : a.store.place y f) :
    y = x := by
  rcases hy' with hlo' | ⟨r, hr⟩
  · exact (hp.coherent.owner hy hlo').2.symm.trans (hp.coherent.owner hx hlo).2
  · exact absurd hlo (hp.coherent.spare r f x (Stage.spare_of_saves hr) hx)

/-- A process stores a byte to its memory. -/
theorem Abs.Paged.backed_store (hp : a.Paged) {V : Uproc → Word → Byte}
    (hb : Backed a.store (pages V)) (hx : ¬ a.Gone p) (va : Word) (b : Byte)
    (hva : va &&& ENTRYHI_PAGE_MASK = pageAddr i)
    (hlo : (a.mem.pte (p, i)).entryLO = frameLo f) :
    Backed (a.setMem { a.mem with
        ram := Function.update a.mem.ram (frameAddr f + BitVec.ofNat 32 (pageOffset va)) b }).store
      (pages (Function.update V p (Function.update (V p) va b))) := by
  have hplace : a.store.place (p, i) f := .inl hlo
  have hframe : a.mem.frame f = pages V (p, i) := hb.framed (p, i) f hx hplace
  rw [pages_write b hva]
  refine (hb.write hplace (fun g => hp.place_eq hlo)
    (fun y hy hy' => hp.place_inj hx hlo hy hy') _).mono ?_ rfl (fun _ _ => Iff.rfl) fun _ h => h
  rw [← hframe]
  exact a.mem.frame_store f (pageOffset va) b

/-- A page of `p` has been made invalid. It is still in its frame. -/
theorem Abs.Paged.backed_invalidate (hp : a.Paged) (hb : Backed a.store V) {sup : SupportT}
    (ht : (a.stage p).tlb = some (.victimAt sup f x)) {S : Stage} (hS : S.saves = some (f, x))
    (hgone : ∀ q, ¬ ((a.setMem (a.mem.invalidate x)).setStage p S).Gone q → ¬ a.Gone q) :
    Backed ((a.setMem (a.mem.invalidate x)).setStage p S).store V := by
  have haim : a.paging.aim p = some (f, x) := by
    change (a.stage p).aim = _
    rw [Stage.aim, ht]
    rfl
  have hlo : (a.mem.pte x).entryLO = frameLo f := (hp.recorded.aimed p f x haim).2.2.1
  have hnone := hp.disciplined.no_saves ht (by simp [TlbStage.frame]) rfl
  refine hb.mono rfl rfl (fun y g => ?_) fun y => hgone y.1
  change ((a.mem.invalidate x).pte y).entryLO = frameLo g ∨
    (∃ r, (((a.setMem (a.mem.invalidate x)).setStage p S).stage r).saves = some (g, y)) ↔
    (a.mem.pte y).entryLO = frameLo g ∨ ∃ r, (a.stage r).saves = some (g, y)
  have hsaves : ∀ r, (((a.setMem (a.mem.invalidate x)).setStage p S).stage r).saves = some (g, y) ↔
      r = p ∧ g = f ∧ y = x := by
    intro r
    by_cases hr : r = p
    · subst hr
      rw [Abs.setStage_stage, hS, Option.some.injEq, Prod.mk.injEq]
      exact ⟨fun h => ⟨rfl, h.1.symm, h.2.symm⟩, fun h => ⟨h.2.1.symm, h.2.2.symm⟩⟩
    · rw [Abs.setStage_stage_ne hr]
      refine iff_of_false (fun h => ?_) fun h => hr h.1
      cases (hnone r).symm.trans h
  simp only [hsaves, hnone, exists_eq_left, reduceCtorEq, exists_false, or_false]
  rw [a.mem.invalidate_pte]
  by_cases hy : y = x
  · subst hy
    rw [Function.update_self, hlo]
    refine ⟨?_, fun he => .inr ⟨(frameLo_inj he).symm, rfl⟩⟩
    rintro (he | ⟨rfl, -⟩)
    · exact absurd he.symm (frameLo_ne_invalidLo g f)
    · rfl
  · rw [Function.update_of_ne hy]
    exact or_iff_left fun he => hy he.2

/-- A page of `p` gets the frame it has been read to. -/
theorem Abs.Paged.backed_install (hp : a.Paged) (hb : Backed a.store V) {sup : SupportT}
    (ht : (a.stage p).tlb = some (.loaded sup f)) {S : Stage} (hS : S.saves = none)
    (habsent : ¬ (a.mem.pte (p, i)).valid) (hframe : a.mem.frame f = a.mem.home (p, i))
    (hgone : ∀ q, ¬ ((a.setMem (a.mem.install p f i)).setStage p S).Gone q → ¬ a.Gone q) :
    Backed ((a.setMem (a.mem.install p f i)).setStage p S).store V := by
  have hnone := hp.disciplined.no_saves ht (by simp [TlbStage.frame]) rfl
  have hnone' : ∀ r, (((a.setMem (a.mem.install p f i)).setStage p S).stage r).saves = none :=
    Abs.no_saves_setStage hS fun r _ => hnone r
  have hno : ∀ g, ¬ a.store.place (p, i) g := by
    rintro g (he | ⟨r, hr⟩)
    · exact habsent (PteEntry.valid_of_frameLo he)
    · cases (hnone r).symm.trans hr
  refine (hb.bring hno hframe).mono rfl rfl (fun y g => ?_) fun y => hgone y.1
  change ((a.mem.install p f i).pte y).entryLO = frameLo g ∨
    (∃ r, (((a.setMem (a.mem.install p f i)).setStage p S).stage r).saves = some (g, y)) ↔
    ((a.mem.pte y).entryLO = frameLo g ∨ ∃ r, (a.stage r).saves = some (g, y)) ∨
      y = (p, i) ∧ g = f
  simp only [hnone, hnone', reduceCtorEq, exists_false, or_false]
  rw [a.mem.install_pte]
  by_cases hy : y = (p, i)
  · subst hy
    rw [Function.update_self]
    refine ⟨fun he => .inr ⟨rfl, (frameLo_inj he).symm⟩, ?_⟩
    rintro (he | ⟨-, rfl⟩)
    · exact absurd (PteEntry.valid_of_frameLo he) habsent
    · rfl
  · rw [Function.update_of_ne hy]
    exact (or_iff_left fun he => hy he.1).symm

/-- The flash device of `p` ends the write of a page. -/
theorem Abs.Paged.written (hp : a.Paged) (hw : a.wait p = .io) {sup : SupportT} {e : PteEntry}
    (ht : (a.stage p).tlb = some (.saving sup f x e .ready)) :
    (a.mem.complete (flashDev p) READY).frame = a.mem.frame ∧
      (a.mem.complete (flashDev p) READY).flash =
        Function.update a.mem.flash p
          (Function.update (a.mem.flash p) (blockNo x.2) (a.mem.frame f)) := by
  obtain ⟨j, -, hvictim, he, hdata, hcmd⟩ := hp.pager p _ ht
  have hlo : e.entryLO = invalidLo (frameLo f) := he ▸ hvictim.lo
  have hhi : e.entryHI = pteHi x.1 x.2 := he ▸ a.mem.pte_hi x.1 x.2
  have hcmd := hcmd hw
  rw [hlo, hvictim.pfn] at hdata
  rw [writeCmd, hhi] at hcmd
  have hwrite := a.mem.complete_write (pageIndex_lt _) hcmd hdata
  rwa [pageIndex_blockNo] at hwrite

/-- The page has been written, and is no longer in the frame. -/
theorem Abs.Paged.backed_evict (hp : a.Paged) (hb : Backed a.store V) (hw : a.wait p = .io)
    {sup : SupportT} {e : PteEntry} (ht : (a.stage p).tlb = some (.saving sup f x e .ready))
    {S : Stage} (hS : S.saves = none)
    (hgone : ∀ q, ¬ (((a.setMem (a.mem.complete (flashDev p) READY)).setWait p .ready).setStage
      p S).Gone q → ¬ a.Gone q) :
    Backed (((a.setMem (a.mem.complete (flashDev p) READY)).setWait p .ready).setStage
      p S).store V := by
  obtain ⟨j, -, hvictim, -⟩ := hp.pager p _ ht
  obtain ⟨hframe, hflash⟩ := hp.written hw ht
  obtain ⟨r, k⟩ := x
  obtain rfl : r = p := hvictim.own
  have hother : ∀ q, q ≠ r → (a.stage q).saves = none := by
    intro q hq
    refine a.saves_none hp.disciplined ?_ hq
    rw [Abs.frame, Stage.frame_of_tlb ht]
    simp [TlbStage.frame]
  have hself : (a.stage r).saves = some (f, (r, k)) := Stage.saves_of_tlb ht
  have hplace : a.store.place (r, k) f := .inr ⟨r, hself⟩
  refine (hb.evict hplace).mono hframe ?_ (fun y g => ?_) fun y => hgone y.1
  · exact Mem.home_write hflash
  · have hpte := (a.mem.complete_paging (flashDev r) READY).1
    have hsaves : ∀ q, ((((a.setMem (a.mem.complete (flashDev r) READY)).setWait r .ready).setStage
        r S).stage q).saves = none :=
      Abs.no_saves_setStage (a := (a.setMem _).setWait r .ready) hS hother
    have hbefore : (∃ q, (a.stage q).saves = some (g, y)) ↔ g = f ∧ y = (r, k) := by
      constructor
      · rintro ⟨q, hq⟩
        by_cases hqr : q = r
        · subst hqr
          cases hself.symm.trans hq
          exact ⟨rfl, rfl⟩
        · cases (hother q hqr).symm.trans hq
      · rintro ⟨rfl, rfl⟩
        exact ⟨r, hself⟩
    change ((a.mem.complete (flashDev r) READY).pte y).entryLO = frameLo g ∨ (∃ q, ((((a.setMem
        (a.mem.complete (flashDev r) READY)).setWait r .ready).setStage r S).stage q).saves =
        some (g, y)) ↔
      ((a.mem.pte y).entryLO = frameLo g ∨ ∃ q, (a.stage q).saves = some (g, y)) ∧ y ≠ (r, k)
    simp only [hpte, hsaves, hbefore, reduceCtorEq, exists_false, or_false]
    refine ⟨fun he => ⟨.inl he, ?_⟩, ?_⟩
    · rintro rfl
      exact frameLo_ne_invalidLo g f (he.symm.trans hvictim.lo)
    · rintro ⟨he | ⟨-, he⟩, hne⟩
      · exact he
      · exact absurd he hne

/-- A page has been read to a frame that holds none in use. -/
theorem Abs.Paged.backed_load (hp : a.Paged) (hb : Backed a.store V) (hw : a.wait p = .io)
    {sup : SupportT} (ht : (a.stage p).tlb = some (.loading sup f .ready)) {S : Stage}
    (hS : S.saves = none)
    (hgone : ∀ q, ¬ (((a.setMem (a.mem.complete (flashDev p) READY)).setWait p .ready).setStage
      p S).Gone q → ¬ a.Gone q) :
    Backed (((a.setMem (a.mem.complete (flashDev p) READY)).setWait p .ready).setStage
      p S).store V := by
  obtain ⟨j, hmiss, hdata, hcmd⟩ := hp.pager p _ ht
  have hcmd := hcmd hw
  obtain ⟨hframe, hflash⟩ := a.mem.complete_read (pageIndex_lt _) hcmd hdata
  have hspare : a.paging.spare p = some f := by
    change (a.stage p).spare = _
    rw [Stage.spare, ht]
    rfl
  have hnone := hp.disciplined.no_saves ht (by simp [TlbStage.frame]) rfl
  have hfree : ∀ y, ¬ a.Gone y.1 → ¬ a.store.place y f := by
    rintro y hy (he | ⟨q, hq⟩)
    · exact hp.coherent.spare p f y hspare hy he
    · cases (hnone q).symm.trans hq
  have hload := hb.overwrite hfree (a.mem.flash p (pageIndex sup.faultHi))
  refine hload.mono hframe ?_ (fun y g => ?_) fun y => hgone y.1
  · funext y
    exact congrFun (congrFun hflash y.1) _
  · have hpte := (a.mem.complete_paging (flashDev p) READY).1
    change ((a.mem.complete (flashDev p) READY).pte y).entryLO = frameLo g ∨ (∃ q, ((((a.setMem
        (a.mem.complete (flashDev p) READY)).setWait p .ready).setStage p S).stage q).saves =
        some (g, y)) ↔
      (a.mem.pte y).entryLO = frameLo g ∨ ∃ q, (a.stage q).saves = some (g, y)
    have hsaves : ∀ q, ((((a.setMem (a.mem.complete (flashDev p) READY)).setWait p .ready).setStage
        p S).stage q).saves = none :=
      Abs.no_saves_setStage (a := (a.setMem _).setWait p .ready) hS fun q _ => hnone q
    simp only [hpte, hsaves, hnone]

omit [Umps] in
/-- The calls of the pager that are no operations of a device. -/
theorem TlbStage.saves_call {c : Call} (h : t.CallOf p c) (r : c.Res)
    (hc : ∀ e v, c ≠ .doio e v) : (t.next (.call c) r).saves = t.saves := by
  cases h with
  | saveUnlock =>
    rw [TlbStage.next_saved]
    split <;> rfl
  | loadUnlock =>
    rw [TlbStage.next_read]
    split <;> rfl
  | saveIo => exact absurd rfl (hc _ _)
  | loadIo => exact absurd rfl (hc _ _)
  | _ => rfl

theorem Stage.saves_call {S : Stage} {c : Call} (h : S.allows p (.call c)) (r : c.Res)
    (hc : ∀ e v, c ≠ .doio e v) : (S.next (.call c) r).saves = S.saves := by
  rcases Stage.allows_call h with ⟨t, ht, hcall⟩ | ⟨g, rfl, -⟩
  · rw [Stage.saves_of_tlb (Stage.next_tlb ht (.call c) r), Stage.saves_of_tlb ht,
      TlbStage.saves_call hcall r hc]
  · rfl

/-- The end of an operation. -/
theorem Abs.Paged.backed_ended (hp : a.Paged) (hb : Backed a.store V) {e : SubDev} {v : Word}
    {status : Word} (hw : a.wait p = .io) (hc : (a.stage p).allows p (.call (.doio e v)))
    (hready : e = flashDev p → status = READY)
    (hgone : ∀ q, ¬ (((a.setMem (a.mem.complete e status)).setWait p .ready).setStage p
      ((a.stage p).next (.call (.doio e v)) status)).Gone q → ¬ a.Gone q) :
    Backed (((a.setMem (a.mem.complete e status)).setWait p .ready).setStage p
      ((a.stage p).next (.call (.doio e v)) status)).store V := by
  rcases Stage.allows_doio hc with ⟨t, ht, hcall, rfl⟩ | ⟨hnone, hd⟩
  · obtain rfl := hready rfl
    have hsaves := Stage.saves_of_tlb (Stage.next_tlb ht (.call (.doio (flashDev p) v)) READY)
    cases hcall with
    | saveIo => exact hp.backed_evict hb hw ht hsaves hgone
    | loadIo => exact hp.backed_load hb hw ht hsaves hgone
  · obtain ⟨hram, hflash⟩ := a.mem.complete_other status hd
    refine a.backed_of_same hb ?_ ?_ ?_ (Abs.saves_setStage (a := (a.setMem _).setWait p .ready) ?_)
      hgone
    · funext f o
      exact congrFun hram _
    · funext y
      exact congrFun (congrFun hflash y.1) _
    · exact (a.mem.complete_paging e status).1
    · exact (Stage.saves_of_none (Stage.next_none hnone)).trans (Stage.saves_of_none hnone).symm

/-- An access of a handler. -/
theorem Abs.Paged.backed_act (hp : a.Paged) (hb : Backed a.store V) {z : Act}
    (hz : (a.stage p).allows p (.act z))
    (hgone : ∀ q, ¬ ((a.setMem (z.run a.mem).2).setStage p
      ((a.stage p).next (.act z) (z.run a.mem).1)).Gone q → ¬ a.Gone q) :
    Backed ((a.setMem (z.run a.mem).2).setStage p
      ((a.stage p).next (.act z) (z.run a.mem).1)).store V := by
  rcases Stage.allows_act hz with ⟨t, ht, hact⟩ | ⟨g, hS, hact⟩
  · have hsaves := Stage.saves_of_tlb (Stage.next_tlb ht (.act z) (z.run a.mem).1)
    have hsame : (t.next (.act z) (z.run a.mem).1).saves = t.saves → ∀ q,
        (((a.setMem (z.run a.mem).2).setStage p
          ((a.stage p).next (.act z) (z.run a.mem).1)).stage q).saves = (a.stage q).saves :=
      fun h => Abs.saves_setStage (a := a.setMem _)
        (hsaves.trans (h.trans (Stage.saves_of_tlb ht).symm))
    cases hact with
    | usable =>
      refine a.backed_of_same hb rfl rfl rfl (hsame ?_) hgone
      rw [TlbStage.next_usable]
      split <;> rfl
    | invalidate => exact hp.backed_invalidate hb ht hsaves hgone
    | @install sup f i hi =>
      obtain ⟨j, hmiss, hframe⟩ := hp.pager p _ ht
      obtain rfl := hp.disciplined.installs_missing ht sup rfl hmiss hi
      exact hp.backed_install hb ht hsaves hmiss.absent hframe hgone
    | _ => exact a.backed_of_same hb rfl rfl rfl (hsame rfl) hgone
  · have hsaves : ∀ q, (((a.setMem (z.run a.mem).2).setStage p
        ((a.stage p).next (.act z) (z.run a.mem).1)).stage q).saves = (a.stage q).saves := by
      refine Abs.saves_setStage (a := a.setMem _) ?_
      change _ = (a.stage p).saves
      rw [hS]
      rfl
    cases hact with
    | setExceptState s =>
      exact a.backed_of_same hb rfl rfl (a.mem.setExceptState_pte p 1 s) hsaves hgone
    | _ => exact a.backed_of_same hb rfl rfl rfl hsaves hgone

end Backing

/-- A move keeps what is in the pages, but for what the processes store. -/
theorem Move.backed (h : Move a d a') (hp : a.Paged) (hs : CopySafe a d)
    {V : Uproc → Word → Byte} (hb : Backed a.store (pages V)) :
    Backed a'.store (pages (d.write V)) := by
  have hgone : ∀ q, ¬ a'.Gone q → ¬ a.Gone q := fun q hq hg =>
    hq ((h.paging hp.disciplined).gone_mono hg)
  cases h with
  | quiet => exact hb
  | loaded => exact hb
  | stck => exact hb
  | readLoop => exact hb
  | @stored p va b e hw hS htr hv =>
    obtain ⟨hlive, i, hi, rfl, hlo⟩ := hp.translated hw hS htr
    obtain ⟨f, hf⟩ := hlo hv
    rw [physAddr_frameLo hf]
    exact hp.backed_store hb hlive va b (hiOf_eq_pteHi.mp hi) hf
  | refill => exact a.backed_of_same hb rfl rfl rfl (fun _ => rfl) hgone
  | @fault p va e s hw hS =>
    refine a.backed_of_same hb rfl rfl (a.mem.setExceptState_pte p PGFAULTEXCEPT s)
      (Abs.saves_setStage (a := a.setMem _) ?_) hgone
    have hnone : (a.stage p).tlb = none := by
      rcases hS with hS | ⟨sup, sem, hS⟩
      · rw [hS]
        rfl
      · rw [hS]
    exact (Stage.saves_of_none hnone).symm
  | @trap p pc e s hw hS =>
    refine a.backed_of_same hb rfl rfl (a.mem.setExceptState_pte p GENERALEXCEPT s)
      (Abs.saves_setStage (a := a.setMem _) ?_) hgone
    exact (Stage.saves_of_none (S := a.stage p) (by rw [hS]; rfl)).symm
  | @again p sup s hw hS =>
    refine a.backed_of_same hb rfl rfl (a.mem.setExceptState_pte p GENERALEXCEPT s)
      (Abs.saves_setStage (a := a.setMem _) ?_) hgone
    exact (Stage.saves_of_none (S := a.stage p) (by rw [hS])).symm
  | act z hw hz => exact hp.backed_act hb hz hgone
  | @passeren p s hw hc =>
    refine a.backed_of_same hb rfl rfl rfl (fun q => ?_) hgone
    exact Abs.saves_setStage (Stage.saves_call hc () (by simp)) q
  | @verhogen p s hw hc =>
    refine a.backed_of_same hb rfl rfl rfl (fun q => ?_) hgone
    exact Abs.saves_setStage (Stage.saves_call hc () (by simp)) q
  | issue => exact a.backed_of_same hb rfl rfl rfl (fun _ => rfl) hgone
  | @ended p e v status hw hc =>
    exact hp.backed_ended hb hw hc (fun he => hs.ready p v status (by rw [he])) hgone
  | die => exact a.backed_of_same hb rfl rfl rfl (fun _ => rfl) hgone
  | @resume p hw ht =>
    refine a.backed_of_same hb rfl rfl rfl (Abs.saves_setStage ?_) hgone
    exact (Stage.saves_of_tlb ht).symm
  | @finish p hw hS =>
    refine a.backed_of_same hb rfl rfl rfl (Abs.saves_setStage ?_) hgone
    exact (Stage.saves_of_none (by rw [hS])).symm

/-! ## The write of a page -/

/-- Who works on a frame has chosen it last. -/
def Abs.Cursor (a : Abs) : Prop := ∀ p f, a.frame p = some f → a.mem.frameTop = f

theorem Move.cursor (h : Move a d a') (ha : a.Disciplined) (hc : a.Cursor) : a'.Cursor := by
  intro q f hf
  cases h.pool with
  | @choose p sup _ hw ht _ htop hframe =>
    rw [hframe] at hf
    by_cases hq : q = p
    · subst hq
      rw [Function.update_self] at hf
      exact htop.trans (Option.some.inj hf)
    · rw [Function.update_of_ne hq, a.frame_eq_none_of_locked ha.toOrdered ha.guarded hw ht q] at hf
      cases hf
  | setFree _ _ htop hframe =>
    rw [hframe] at hf
    exact htop.trans (hc q f hf)
  | @install p g j _ _ _ htop hframe =>
    rw [hframe] at hf
    by_cases hq : q = p
    · subst hq
      rw [Function.update_self] at hf
      cases hf
    · rw [Function.update_of_ne hq] at hf
      exact htop.trans (hc q f hf)
  | other _ _ _ htop hframe =>
    rw [hframe] at hf
    exact htop.trans (hc q f hf)

/-- A write of a flash device has ended. -/
def Did.isWriteBack : Did → Bool
  | .ended _ (.dtp 1 _) v _ => v &&& 0xFF = FLASHWRITE
  | _ => false

omit [Umps] in
theorem Did.ended_of_isWriteBack (h : d.isWriteBack) :
    ∃ p q v status, d = .ended p (flashDev q) v status ∧ v &&& 0xFF = FLASHWRITE := by
  unfold Did.isWriteBack at h
  split at h
  · next p q v status => exact ⟨p, q, v, status, rfl, of_decide_eq_true h⟩
  · cases h

/-- The frame that has been chosen goes to the block of its page on the flash of the process that
    owns it. -/
theorem Move.writes (h : Move a d a') (hp : a.Paged) (hc : a.Cursor) (hs : CopySafe a d)
    (hd : d.isWriteBack) (howner : (a.mem.spTbl a.mem.frameTop).asid = asid q)
    (hentry : (a.mem.spTbl a.mem.frameTop).pgTblEntry = x) :
    a'.mem.flash = Function.update a.mem.flash q
      (Function.update (a.mem.flash q) (blockNo x.2) (a.mem.frame a.mem.frameTop)) := by
  obtain ⟨p, r, v, status, rfl, hwrite⟩ := Did.ended_of_isWriteBack hd
  cases h with
  | ended _ hw hcall =>
    rcases Stage.allows_doio hcall with ⟨t, ht, hcall, he⟩ | ⟨-, hno⟩
    · cases he
      obtain rfl := hs.ready p v status rfl
      cases hcall with
      | @saveIo sup f y e =>
        have htop : a.mem.frameTop = f := hc p f (Stage.frame_of_tlb ht)
        obtain ⟨j, -, hvictim, -⟩ := hp.pager p _ ht
        rw [htop] at howner hentry ⊢
        obtain rfl := asid_inj (hvictim.owner.symm.trans howner)
        obtain rfl := hvictim.entry.symm.trans hentry
        exact (hp.written hw ht).2
      | @loadIo sup f =>
        rw [readCmd, flashCmd_low _ (by decide)] at hwrite
        exact absurd hwrite (by decide)
    · exact absurd rfl (hno r)

end Rocm
