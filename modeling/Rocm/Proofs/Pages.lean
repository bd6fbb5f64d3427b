import Rocm.Proofs.Pool
import Rocm.Proofs.Translation

/-!
# The paging

The page tables, the TLB, the table of the swap pool and `sp_asids`, with who works on which frame:
the part of the abstract system that the pager is about. Every move of the abstract system is a
`PageMove` of it.
-/

namespace Rocm

variable [Umps] {p q : Uproc} {a a' : Abs} {d : Did} {f : Frame}

/-! ## What the pager does to the memory -/

/-- `pte_entryLO` of a page that has been made invalid. -/
def invalidLo (lo : Word) : Word := if lo &&& ENTRYLO_VALID ≠ 0 then lo ^^^ ENTRYLO_VALID else lo

theorem Mem.setLo_pte (m : Mem) (x : Uproc × Page) (lo : Word) :
    (m.setLo x lo).pte = Function.update m.pte x ⟨pteHi x.1 x.2, lo⟩ := by
  funext y
  by_cases hy : y = x
  · subst hy
    rw [Function.update_self]
    exact PteEntry.ext (Mem.pte_hi _ _ _) (by simp [Mem.pte, Mem.setLo])
  · rw [Function.update_of_ne hy]
    by_cases h1 : y.1 = x.1
    · have h2 : y.2 ≠ x.2 := fun h2 => hy (Prod.ext h1 h2)
      simp [Mem.pte, Mem.setLo, h1, Function.update_of_ne h2]
    · simp [Mem.pte, Mem.setLo, Function.update_of_ne h1]

theorem Mem.invalidate_pte (m : Mem) (x : Uproc × Page) :
    (m.invalidate x).pte =
      Function.update m.pte x ⟨pteHi x.1 x.2, invalidLo (m.pte x).entryLO⟩ :=
  m.setLo_pte x _

theorem Mem.install_pte (m : Mem) (p : Uproc) (f : Frame) (i : Page) :
    (m.install p f i).pte = Function.update m.pte (p, i) ⟨pteHi p i, frameLo f⟩ :=
  (m.fillFrame p f i).setLo_pte (p, i) _

theorem Mem.setExceptState_pte (m : Mem) (p : Uproc) (k : Fin 2) (s : ProcState) :
    (m.setExceptState p k s).pte = m.pte := by
  funext y
  by_cases hy : y.1 = p
  · simp [Mem.pte, Mem.setExceptState, hy]
  · simp [Mem.pte, Mem.setExceptState, Function.update_of_ne hy]

theorem Mem.tables (m : Mem) (h : ∀ x, (m.pte x).Local) : Tables m.pte := ⟨fun x => m.pte_hi x.1 x.2, h⟩

/-! ## The bits of `sp_asids` -/

/-- The bit of a process is set in `sp_asids`. -/
def Marked (spAsids : BitVec 8) (p : Uproc) : Prop := spAsids.getLsbD p = true

instance (v : BitVec 8) (p : Uproc) : Decidable (Marked v p) := inferInstanceAs (Decidable (_ = true))

omit [Umps] in
theorem asidBit_getLsbD (p q : Uproc) : (Mem.asidBit (asid p)).getLsbD q = decide (q = p) := by
  revert p q
  decide

omit [Umps] in
theorem marked_or (v : BitVec 8) : Marked (v ||| Mem.asidBit (asid p)) q ↔ Marked v q ∨ q = p := by
  simp only [Marked, BitVec.getLsbD_or, asidBit_getLsbD, Bool.or_eq_true, decide_eq_true_eq]

omit [Umps] in
theorem marked_xor (v : BitVec 8) :
    Marked (v ^^^ Mem.asidBit (asid p)) q ↔ (Marked v q ↔ q ≠ p) := by
  simp only [Marked, BitVec.getLsbD_xor, asidBit_getLsbD]
  by_cases h : q = p <;> cases v.getLsbD q <;> simp [h]

/-- The test of `tlb_exc_handler` on a frame of a user process. -/
theorem Mem.usable_iff (m : Mem) (h : (m.spTbl f).asid = asid p) :
    m.usable f ↔ Marked m.spAsids p := by
  have hbit : ∀ (p : Uproc) (v : BitVec 8), asid p ≠ -1 ∧
      (v.signExtend 32 &&& 1#32 <<< (asid p - 1) ≠ 0 ↔ v.getLsbD p = true) := by decide +kernel
  unfold Mem.usable Marked
  rw [h, decide_eq_true_eq, and_iff_right (hbit p m.spAsids).1]
  exact (hbit p m.spAsids).2

/-! ## The paging and its moves -/

/-- The frame that is about to be overwritten: the page in it has been made invalid, or nobody who
    lives has one in it. -/
def TlbStage.spare : TlbStage → Option Frame
  | .invalid _ f _ => some f
  | .saving _ f _ _ _ => some f
  | .saved _ f => some f
  | .cleared _ f => some f
  | .loading _ f _ => some f
  | .loaded _ f => some f
  | .failed _ f => some f
  | _ => none

/-- The frame whose page is about to be made invalid, and that page. -/
def TlbStage.aim : TlbStage → Option (Frame × (Uproc × Page))
  | .victimAt _ f x => some (f, x)
  | _ => none

def Stage.spare (S : Stage) : Option Frame := S.tlb.bind TlbStage.spare
def Stage.aim (S : Stage) : Option (Frame × (Uproc × Page)) := S.tlb.bind TlbStage.aim

/-- The process has told the pager that it ends, or has ended. -/
def Abs.Gone (a : Abs) (p : Uproc) : Prop :=
  a.wait p = .dead ∨ ∃ sup, (a.stage p).gen = some (.cleaned sup)

theorem Abs.not_gone {a : Abs} {p : Uproc} (hw : a.wait p ≠ .dead)
    (hg : ∀ sup, (a.stage p).gen ≠ some (.cleaned sup)) : ¬ a.Gone p := by
  rintro (hd | ⟨sup, hgen⟩)
  · exact hw hd
  · exact hg sup hgen

/-- A process in its pager lives. -/
theorem Abs.Sane.not_gone {a : Abs} {p : Uproc} {t : TlbStage} (hs : a.Sane)
    (hw : a.wait p ≠ .dead) (ht : (a.stage p).tlb = some t) : ¬ a.Gone p :=
  Abs.not_gone hw ((hs p).not_cleaned (by rw [ht]; rfl))

/-- What the pager is about. -/
structure Paging where
  pte : Uproc × Page → PteEntry
  tlb : Tlb
  spTbl : Frame → SpEntry
  spAsids : BitVec 8
  gone : Uproc → Prop
  /-- The general handler of the process is active. -/
  serving : Uproc → Prop
  spare : Uproc → Option Frame
  aim : Uproc → Option (Frame × (Uproc × Page))

def Abs.paging (a : Abs) : Paging where
  pte := a.mem.pte
  tlb := a.mem.tlb
  spTbl := a.mem.spTbl
  spAsids := a.mem.spAsids
  gone := a.Gone
  serving p := (a.stage p).gen.isSome
  spare p := (a.stage p).spare
  aim p := (a.stage p).aim

/-- Nobody else works on a frame. -/
def Paging.Alone (P : Paging) (p : Uproc) : Prop :=
  ∀ q, q ≠ p → P.spare q = none ∧ P.aim q = none

/-- The moves of the paging. -/
inductive PageMove (P : Paging) : Did → Paging → Prop where
  /-- Where the table has no entry for the address, nothing is known of `e`. -/
  | refill {p : Uproc} {va : Word} {e : PteEntry} (slot : Slot) :
      (∀ s, ¬ (P.tlb s).hits (hiOf p va)) →
      (∀ h : (pageIndex (hiOf p va)).toNat < USERPGTBLSIZE, e = P.pte (p, ⟨_, h⟩)) →
      PageMove P (.missed p va) { P with tlb := Function.update P.tlb slot e }
  | trap {p : Uproc} {pc : Word} {s : Slot} : ¬ P.gone p → (P.tlb s).hits (hiOf p pc) →
      (P.tlb s).valid →
      PageMove P (.trapped p) { P with serving := Function.update P.serving p True }
  /-- The frame is taken as it is. -/
  | skip {p : Uproc} {f : Frame} : P.Alone p →
      (∀ q, (P.spTbl f).asid = asid q → ¬ Marked P.spAsids q) →
      PageMove P (.gave p (.act (.usable f)))
        { P with
          spare := Function.update P.spare p (some f)
          aim := Function.update P.aim p none }
  | aim {p : Uproc} {f : Frame} : P.Alone p → PageMove P (.gave p (.act (.pgTblEntry f)))
      { P with
        spare := Function.update P.spare p none
        aim := Function.update P.aim p (some (f, (P.spTbl f).pgTblEntry)) }
  | invalidate {p : Uproc} {f : Frame} {x : Uproc × Page} : P.Alone p → P.aim p = some (f, x) →
      PageMove P (.gave p (.act (.invalidate x)))
        { P with
          pte := Function.update P.pte x ⟨pteHi x.1 x.2, invalidLo (P.pte x).entryLO⟩
          tlb := (updateTlb (pteHi x.1 x.2) (invalidLo (P.pte x).entryLO) P.tlb).2
          spare := Function.update P.spare p (some f)
          aim := Function.update P.aim p none }
  | setFree {p : Uproc} {f : Frame} : P.Alone p → P.spare p = some f →
      PageMove P (.gave p (.act (.setFree f)))
        { P with
          spTbl := Function.update P.spTbl f { P.spTbl f with asid := -1 }
          spare := Function.update P.spare p (some f)
          aim := Function.update P.aim p none }
  | install {p : Uproc} {f : Frame} {i : Page} : P.Alone p → P.spare p = some f →
      PageMove P (.gave p (.act (.install p f i)))
        { P with
          pte := Function.update P.pte (p, i) ⟨pteHi p i, frameLo f⟩
          tlb := (updateTlb (pteHi p i) (frameLo f) P.tlb).2
          spTbl := Function.update P.spTbl f
            ⟨asid p, KUSEG + BitVec.ofNat 32 i <<< VPNSHIFT, (p, i)⟩
          spAsids := P.spAsids ||| Mem.asidBit (asid p)
          spare := Function.update P.spare p none
          aim := Function.update P.aim p none }
  /-- `clean_frames` stores. -/
  | store {p : Uproc} (v : BitVec 8) : ¬ P.gone p → P.serving p →
      PageMove P (.gave p (.act (.storeAsids v)))
        { P with spAsids := v, gone := Function.update P.gone p True }
  | die {p : Uproc} : PageMove P (.gave p (.call .termProcess))
      { P with gone := Function.update P.gone p True }
  /-- The general handler of `p` ends. -/
  | finish {p : Uproc} {d : Did} : (∀ q v, d ≠ .gave q (.act (.storeAsids v))) →
      PageMove P d { P with serving := Function.update P.serving p False }
  | same {d : Did} : (∀ q v, d ≠ .gave q (.act (.storeAsids v))) → PageMove P d P

theorem PageMove.of_eq {P P' : Paging} (h : P' = P)
    (hd : ∀ q v, d ≠ .gave q (.act (.storeAsids v))) : PageMove P d P' := h ▸ .same hd

/-! ## Every move is one of the paging -/

theorem Mem.complete_paging (m : Mem) (d : SubDev) (status : Word) :
    (m.complete d status).pte = m.pte ∧ (m.complete d status).tlb = m.tlb ∧
      (m.complete d status).spTbl = m.spTbl ∧ (m.complete d status).spAsids = m.spAsids := by
  obtain ⟨ram, flash, h, -⟩ := m.complete_eq d status
  rw [h]
  exact ⟨rfl, rfl, rfl, rfl⟩

theorem Abs.paging_ext {P P' : Paging} (hpte : P.pte = P'.pte) (htlb : P.tlb = P'.tlb)
    (htbl : P.spTbl = P'.spTbl) (hasids : P.spAsids = P'.spAsids)
    (hgone : ∀ q, P.gone q ↔ P'.gone q) (hserv : ∀ q, P.serving q ↔ P'.serving q)
    (hspare : P.spare = P'.spare) (haim : P.aim = P'.aim) : P = P' := by
  obtain ⟨_, _, _, _, g, s, _, _⟩ := P
  obtain ⟨_, _, _, _, g', s', _, _⟩ := P'
  obtain rfl : g = g' := funext fun q => propext (hgone q)
  obtain rfl : s = s' := funext fun q => propext (hserv q)
  cases hpte
  cases htlb
  cases htbl
  cases hasids
  cases hspare
  cases haim
  rfl

/-- The stages look the same to the paging. -/
structure Stage.Alike (S S' : Stage) : Prop where
  serving : S'.gen.isSome = S.gen.isSome
  cleaned : (∃ sup, S'.gen = some (.cleaned sup)) ↔ ∃ sup, S.gen = some (.cleaned sup)
  spare : S'.spare = S.spare
  aim : S'.aim = S.aim

omit [Umps] in
theorem Stage.Alike.refl (S : Stage) : S.Alike S := ⟨rfl, Iff.rfl, rfl, rfl⟩

omit [Umps] in
/-- Only the pager has moved. -/
theorem Stage.Alike.of_tlb {S S' : Stage} {t t' : TlbStage} (hgen : S'.gen = S.gen)
    (ht : S.tlb = some t) (ht' : S'.tlb = some t') (hspare : t'.spare = t.spare)
    (haim : t'.aim = t.aim) : S.Alike S' := by
  refine ⟨by rw [hgen], by rw [hgen], ?_, ?_⟩
  · rw [Stage.spare, Stage.spare, ht, ht']
    exact hspare
  · rw [Stage.aim, Stage.aim, ht, ht']
    exact haim

omit [Umps] in
/-- Only the general handler has moved. -/
theorem Stage.Alike.of_gen {g g' : GenStage} (hg : ∀ sup, g ≠ .cleaned sup)
    (hg' : ∀ sup, g' ≠ .cleaned sup) : Stage.Alike ⟨some g, none⟩ ⟨some g', none⟩ := by
  refine ⟨rfl, iff_of_false ?_ ?_, rfl, rfl⟩
  · rintro ⟨sup, h⟩
    exact hg' sup (Option.some.inj h)
  · rintro ⟨sup, h⟩
    exact hg sup (Option.some.inj h)

/-- A call moves no page. -/
theorem Stage.alike_call {S : Stage} {c : Call} (r : c.Res) (h : S.allows p (.call c)) :
    S.Alike (S.next (.call c) r) := by
  rcases Stage.allows_call h with ⟨t, ht, hc⟩ | ⟨g, rfl, hc⟩
  · have hgen : (S.next (.call c) r).gen = S.gen := by
      unfold Stage.next
      rw [ht]
    have htlb := Stage.next_tlb ht (.call c) r
    cases hc with
    | @saveUnlock sup f x e status =>
      refine .of_tlb hgen ht htlb ?_ ?_ <;> rw [TlbStage.next_saved] <;> split <;> rfl
    | @loadUnlock sup f status =>
      refine .of_tlb hgen ht htlb ?_ ?_ <;> rw [TlbStage.next_read] <;> split <;> rfl
    | _ => exact .of_tlb hgen ht htlb rfl rfl
  · cases hc with
    | passeren => exact .of_gen (by rintro _ ⟨⟩) (by rintro _ ⟨⟩)
    | verhogen => exact .of_gen (by rintro _ ⟨⟩) (by rintro _ ⟨⟩)
    | readLoop => exact .of_gen (by rintro _ ⟨⟩) (by rintro _ ⟨⟩)
    | _ => exact .refl _

/-- Nothing that the paging is about has changed. -/
theorem Abs.paging_alike (hpte : a'.mem.pte = a.mem.pte) (htlb : a'.mem.tlb = a.mem.tlb)
    (htbl : a'.mem.spTbl = a.mem.spTbl) (hasids : a'.mem.spAsids = a.mem.spAsids)
    (hdead : ∀ q, a'.wait q = .dead ↔ a.wait q = .dead)
    (hst : ∀ q, (a.stage q).Alike (a'.stage q)) : a'.paging = a.paging :=
  paging_ext hpte htlb htbl hasids (fun q => or_congr (hdead q) (hst q).cleaned)
    (fun q => by
      change (a'.stage q).gen.isSome = true ↔ (a.stage q).gen.isSome = true
      rw [(hst q).serving])
    (funext fun q => (hst q).spare) (funext fun q => (hst q).aim)

theorem Abs.alike_setStage {S : Stage} (h : (a.stage p).Alike S) (q : Uproc) :
    (a.stage q).Alike ((a.setStage p S).stage q) := by
  change (a.stage q).Alike (Function.update a.stage p S q)
  by_cases hq : q = p
  · subst hq
    rwa [Function.update_self]
  · rw [Function.update_of_ne hq]
    exact .refl _

/-- A semaphore operation neither starts nor ends a process. -/
theorem Abs.semOp_dead (hl : a.Locked) (hw : a.wait p = .ready) (s : Sem) (op : Semaphore.Op)
    (S : Stage) (q : Uproc) : (a.semOp p s op S).wait q = .dead ↔ a.wait q = .dead := by
  rcases a.semOp_cases hl s op S (p := p) with ⟨-, hwait, -⟩ | ⟨-, w, ws, -, hww, hwait, -⟩ |
    ⟨-, -, hwait, -⟩
  · rw [hwait, Function.update_apply]
    split
    · next he =>
      rw [he, hw]
      exact iff_of_false nofun nofun
    · rfl
  · rw [hwait, Function.update_apply]
    split
    · next he =>
      rw [he, hww]
      exact iff_of_false nofun nofun
    · rfl
  · rw [hwait]

/-- A process that lives waits for something else. -/
theorem Abs.setWait_dead {w : Wait} (hp : a.wait p ≠ .dead) (hw : w ≠ .dead) (q : Uproc) :
    Function.update a.wait p w q = .dead ↔ a.wait q = .dead := by
  by_cases hq : q = p
  · subst hq
    rw [Function.update_self]
    exact iff_of_false hw hp
  · rw [Function.update_of_ne hq]

/-- Only the stage of `p` changes, and the memory. -/
theorem Abs.paging_setStage {m : Mem} {S : Stage} :
    ((a.setMem m).setStage p S).paging =
      { pte := m.pte
        tlb := m.tlb
        spTbl := m.spTbl
        spAsids := m.spAsids
        gone := Function.update a.paging.gone p (a.wait p = .dead ∨ ∃ sup, S.gen = some (.cleaned sup))
        serving := Function.update a.paging.serving p S.gen.isSome
        spare := Function.update a.paging.spare p S.spare
        aim := Function.update a.paging.aim p S.aim } := by
  have hupd : ∀ {β : Type} (k : Uproc → Stage → β),
      (fun q => k q (Function.update a.stage p S q)) =
        Function.update (fun q => k q (a.stage q)) p (k p S) := fun k =>
    funext fun q => Function.apply_update k a.stage p S q
  refine paging_ext rfl rfl rfl rfl (fun q => ?_) (fun q => ?_) (hupd fun _ => Stage.spare)
    (hupd fun _ => Stage.aim)
  · exact (congrFun (hupd fun q S => a.wait q = .dead ∨ ∃ sup, S.gen = some (.cleaned sup)) q).to_iff
  · exact (congrFun (hupd fun _ S => (S.gen.isSome : Prop)) q).to_iff

/-- The pager of `p` has moved. -/
theorem Abs.paging_pager {m : Mem} {S : Stage} (hgen : S.gen = (a.stage p).gen) :
    ((a.setMem m).setStage p S).paging =
      { a.paging with
        pte := m.pte
        tlb := m.tlb
        spTbl := m.spTbl
        spAsids := m.spAsids
        spare := Function.update a.paging.spare p S.spare
        aim := Function.update a.paging.aim p S.aim } := by
  rw [Abs.paging_setStage, hgen]
  have hgone : Function.update a.paging.gone p
      (a.wait p = .dead ∨ ∃ sup, (a.stage p).gen = some (.cleaned sup)) = a.paging.gone :=
    Function.update_eq_self p a.paging.gone
  have hserv : Function.update a.paging.serving p (a.stage p).gen.isSome = a.paging.serving :=
    Function.update_eq_self p a.paging.serving
  rw [hgone, hserv]

/-- The general handler of `p` has moved. -/
theorem Abs.paging_gen {m : Mem} {S : Stage} (gone serving : Prop) (htlb : (a.stage p).tlb = none)
    (hS : S.tlb = none)
    (hgone : (a.wait p = .dead ∨ ∃ sup, S.gen = some (.cleaned sup)) ↔ gone)
    (hserv : S.gen.isSome = true ↔ serving) :
    ((a.setMem m).setStage p S).paging =
      { a.paging with
        pte := m.pte
        tlb := m.tlb
        spTbl := m.spTbl
        spAsids := m.spAsids
        gone := Function.update a.paging.gone p gone
        serving := Function.update a.paging.serving p serving } := by
  have hspare : Function.update a.paging.spare p S.spare = a.paging.spare := by
    rw [show S.spare = a.paging.spare p by
      change _ = (a.stage p).spare
      rw [Stage.spare, Stage.spare, hS, htlb]]
    exact Function.update_eq_self p a.paging.spare
  have haim : Function.update a.paging.aim p S.aim = a.paging.aim := by
    rw [show S.aim = a.paging.aim p by
      change _ = (a.stage p).aim
      rw [Stage.aim, Stage.aim, hS, htlb]]
    exact Function.update_eq_self p a.paging.aim
  rw [Abs.paging_setStage, hspare, haim, propext hgone, propext hserv]

omit [Umps] in
theorem TlbStage.spare_of_frame {t : TlbStage} (h : t.frame = none) :
    t.spare = none ∧ t.aim = none := by
  cases t <;> first | exact ⟨rfl, rfl⟩ | cases h

theorem Abs.alone (ha : a.Disciplined) (hp : a.frame p ≠ none) : a.paging.Alone p := by
  intro q hq
  have hframe : a.frame q = none := by
    by_contra hne
    exact hq (a.frame_unique ha.toOrdered ha.guarded hne hp)
  change (a.stage q).spare = none ∧ (a.stage q).aim = none
  unfold Abs.frame Stage.frame at hframe
  unfold Stage.spare Stage.aim
  cases ht : (a.stage q).tlb with
  | none => exact ⟨rfl, rfl⟩
  | some t =>
    rw [ht] at hframe
    exact t.spare_of_frame hframe

/-- An access of the pager. -/
theorem Move.pager_paging (ha : a.Disciplined) {t : TlbStage} {x : Act}
    (ht : (a.stage p).tlb = some t) (hact : t.ActOf p x) :
    PageMove a.paging (.gave p (.act x)) ((a.setMem (x.run a.mem).2).setStage p
        ((a.stage p).next (.act x) (x.run a.mem).1)).paging := by
  have hgen : ∀ r, ((a.stage p).next (.act x) r).gen = (a.stage p).gen := fun r => by
    unfold Stage.next
    rw [ht]
  have htlb := Stage.next_tlb ht (.act x)
  have halone : t.frame ≠ none → a.paging.Alone p := fun hne =>
    a.alone ha (by rwa [Abs.frame, Stage.frame_of_tlb ht])
  have hspare : ∀ r, ((a.stage p).next (.act x) r).spare = (t.next (.act x) r).spare := fun r => by
    rw [Stage.spare, htlb]
    rfl
  have haim : ∀ r, ((a.stage p).next (.act x) r).aim = (t.next (.act x) r).aim := fun r => by
    rw [Stage.aim, htlb]
    rfl
  have hp : a.paging.spare p = t.spare ∧ a.paging.aim p = t.aim := by
    change (a.stage p).spare = _ ∧ (a.stage p).aim = _
    rw [Stage.spare, Stage.aim, ht]
    exact ⟨rfl, rfl⟩
  have hsame : (x.run a.mem).2.pte = a.mem.pte → (x.run a.mem).2.tlb = a.mem.tlb →
      (x.run a.mem).2.spTbl = a.mem.spTbl → (x.run a.mem).2.spAsids = a.mem.spAsids →
      (t.next (.act x) (x.run a.mem).1).spare = t.spare →
      (t.next (.act x) (x.run a.mem).1).aim = t.aim →
      ((a.setMem (x.run a.mem).2).setStage p
        ((a.stage p).next (.act x) (x.run a.mem).1)).paging = a.paging :=
    fun h1 h2 h3 h4 h5 h6 => Abs.paging_alike h1 h2 h3 h4 (fun _ => Iff.rfl)
      (Abs.alike_setStage (a := a) (.of_tlb (hgen _) ht (htlb _) h5 h6))
  cases hact with
  | @usable sup f =>
    by_cases hu : a.mem.usable f = true
    · rw [hsame rfl rfl rfl rfl]
      · exact .same (by simp)
      · simp only [Act.run, TlbStage.next, hu, if_true]
        rfl
      · simp only [Act.run, TlbStage.next, hu, if_true]
        rfl
    · rw [Abs.paging_pager (hgen _), hspare, haim]
      simp only [Act.run, TlbStage.next, hu]
      refine .skip (halone (by rintro ⟨⟩)) fun q hq hm => hu ((a.mem.usable_iff hq).mpr hm)
  | @pgTblEntry sup f =>
    rw [Abs.paging_pager (hgen _), hspare, haim]
    exact .aim (halone (by rintro ⟨⟩))
  | @invalidate sup f x =>
    rw [Abs.paging_pager (hgen _), hspare, haim]
    have hpte := a.mem.invalidate_pte x
    have htlb' := a.mem.invalidate_tlb x
    rw [hpte, Function.update_self] at htlb'
    simp only [Act.run, hpte, htlb']
    exact .invalidate (halone (by rintro ⟨⟩)) hp.2
  | setFree =>
    rw [Abs.paging_pager (hgen _), hspare, haim]
    exact .setFree (halone (by rintro ⟨⟩)) hp.1
  | @install sup f i hi =>
    rw [Abs.paging_pager (hgen _), hspare, haim]
    have htbl : (a.mem.install p f i).spTbl = Function.update a.mem.spTbl f
        ⟨asid p, KUSEG + BitVec.ofNat 32 i <<< VPNSHIFT, (p, i)⟩ := by
      rw [← a.mem.sup_asid p]
      rfl
    have hasids : (a.mem.install p f i).spAsids = a.mem.spAsids ||| Mem.asidBit (asid p) := by
      rw [← a.mem.sup_asid p]
      rfl
    simp only [Act.run, a.mem.install_pte, a.mem.install_tlb, htbl, hasids]
    exact .install (halone (by rintro ⟨⟩)) hp.1
  | chooseFrame =>
    rw [hsame rfl rfl rfl rfl rfl rfl]
    exact .same (by simp)
  | support =>
    rw [hsame rfl rfl rfl rfl rfl rfl]
    exact .same (by simp)
  | pte =>
    rw [hsame rfl rfl rfl rfl rfl rfl]
    exact .same (by simp)
  | saveData0 =>
    rw [hsame rfl rfl rfl rfl rfl rfl]
    exact .same (by simp)
  | loadData0 =>
    rw [hsame rfl rfl rfl rfl rfl rfl]
    exact .same (by simp)

/-- An access of the general handler. -/
theorem Move.gen_paging (hw : a.wait p = .ready) {g : GenStage} {x : Act}
    (hS : a.stage p = ⟨some g, none⟩) (hact : g.ActOf p x) :
    PageMove a.paging (.gave p (.act x)) ((a.setMem (x.run a.mem).2).setStage p
        ((a.stage p).next (.act x) (x.run a.mem).1)).paging := by
  have hsame : (x.run a.mem).2.pte = a.mem.pte → (x.run a.mem).2.tlb = a.mem.tlb →
      (x.run a.mem).2.spTbl = a.mem.spTbl → (x.run a.mem).2.spAsids = a.mem.spAsids →
      (∀ sup, g ≠ .cleaned sup) → (∀ sup, g.next (.act x) (x.run a.mem).1 ≠ .cleaned sup) →
      ((a.setMem (x.run a.mem).2).setStage p
        ((a.stage p).next (.act x) (x.run a.mem).1)).paging = a.paging := fun h1 h2 h3 h4 h5 h6 => by
    refine Abs.paging_alike h1 h2 h3 h4 (fun _ => Iff.rfl) (Abs.alike_setStage (a := a) ?_)
    rw [hS]
    exact .of_gen h5 h6
  cases hact with
  | @storeAsids sup v =>
    have hgone : ¬ a.Gone p := Abs.not_gone (by rw [hw]; simp) (by rw [hS]; simp)
    have hserv : a.paging.serving p := by
      change (a.stage p).gen.isSome = true
      rw [hS]
      rfl
    rw [Abs.paging_gen True True (by rw [hS]) (by rw [hS]; rfl)]
    · have hself : Function.update a.paging.serving p True = a.paging.serving := by
        rw [← eq_true hserv]
        exact Function.update_eq_self p a.paging.serving
      rw [hself]
      exact .store _ hgone hserv
    · rw [hS]
      exact iff_of_true (.inr ⟨sup, rfl⟩) trivial
    · rw [hS]
      exact iff_of_true rfl trivial
  | entry =>
    rw [hsame rfl rfl rfl rfl nofun nofun]
    exact .same nofun
  | support =>
    rw [hsame rfl rfl rfl rfl nofun nofun]
    exact .same nofun
  | status d =>
    rw [hsame rfl rfl rfl rfl nofun nofun]
    exact .same nofun
  | setExceptState s hn =>
    rw [hsame (a.mem.setExceptState_pte _ _ _) rfl rfl rfl nofun nofun]
    exact .same nofun
  | loadAsids hn =>
    rw [hsame rfl rfl rfl rfl nofun nofun]
    exact .same nofun
  | setData0 d v hd =>
    rw [hsame rfl rfl rfl rfl nofun nofun]
    exact .same nofun

theorem Move.paging (h : Move a d a') (ha : a.Disciplined) : PageMove a.paging d a'.paging := by
  cases h with
  | quiet => exact .same (by simp)
  | loaded => exact .same (by simp)
  | stored => exact .same (by simp)
  | @refill p va r hw hS htr =>
    have hprobe : a.mem.tlb.probe (hiOf p va) = none := Option.map_eq_none_iff.mp htr
    refine .refill r.slot (Tlb.probe_eq_none.mp hprobe) fun h => ?_
    exact Mem.pgTblAt_of_lt h
  | @fault p va e s hw hS =>
    refine .of_eq (Abs.paging_alike (a.mem.setExceptState_pte _ _ _) rfl rfl rfl (fun _ => Iff.rfl)
      (Abs.alike_setStage (a := a) ?_)) (by simp)
    rcases hS with hS | ⟨sup, sem, hS⟩ <;> rw [hS] <;> exact ⟨rfl, Iff.rfl, rfl, rfl⟩
  | @trap p pc e s hw hS htr hv =>
    obtain ⟨i, hi, rfl⟩ := Option.map_eq_some_iff.mp htr
    have hgone : ¬ a.Gone p := Abs.not_gone (by rw [hw]; simp) (by rw [hS]; rintro sup ⟨⟩)
    rw [Abs.paging_gen (a.Gone p) True (by rw [hS]; rfl) rfl]
    · have hself : Function.update a.paging.gone p (a.Gone p) = a.paging.gone :=
        Function.update_eq_self p a.paging.gone
      rw [hself, a.mem.setExceptState_pte]
      exact .trap hgone (Tlb.hits_of_probe hi) hv
    · rw [hw]
      exact iff_of_false (by rintro (hd | ⟨_, hd⟩) <;> cases hd) hgone
    · exact iff_of_true rfl trivial
  | again hw hS =>
    refine .of_eq (Abs.paging_alike (a.mem.setExceptState_pte _ _ _) rfl rfl rfl (fun _ => Iff.rfl)
      (Abs.alike_setStage (a := a) ?_)) (by simp)
    rw [hS]
    exact .of_gen (by simp) (by simp)
  | @act p x hw hx =>
    rcases Stage.allows_act hx with ⟨t, ht, hact⟩ | ⟨g, hS, hact⟩
    · exact Move.pager_paging ha ht hact
    · exact Move.gen_paging hw hS hact
  | passeren s hw hc =>
    exact .of_eq (Abs.paging_alike rfl rfl rfl rfl (a.semOp_dead ha.locked hw s _ _)
      (Abs.alike_setStage (a := a) (Stage.alike_call _ hc))) (by simp)
  | verhogen s hw hc =>
    exact .of_eq (Abs.paging_alike rfl rfl rfl rfl (a.semOp_dead ha.locked hw s _ _)
      (Abs.alike_setStage (a := a) (Stage.alike_call _ hc))) (by simp)
  | @issue p d v hw hc =>
    exact .of_eq (Abs.paging_alike rfl rfl rfl rfl
      (Abs.setWait_dead (ne_of_eq_of_ne hw (by simp)) (by simp)) fun _ => .refl _) (by simp)
  | @ended p d v status hw hc =>
    obtain ⟨h1, h2, h3, h4⟩ := a.mem.complete_paging d status
    exact .of_eq (Abs.paging_alike h1 h2 h3 h4 (Abs.setWait_dead (ne_of_eq_of_ne hw (by simp)) (by simp))
      (Abs.alike_setStage (a := a) (Stage.alike_call status hc))) (by simp)
  | @die p hw hc =>
    have hview : (a.setWait p .dead).paging =
        { a.paging with gone := Function.update a.paging.gone p True } := by
      refine Abs.paging_ext rfl rfl rfl rfl (fun q => ?_) (fun _ => Iff.rfl) rfl rfl
      change Function.update a.wait p .dead q = .dead ∨ _ ↔ Function.update a.Gone p True q
      by_cases hq : q = p
      · subst hq
        rw [Function.update_self, Function.update_self]
        exact iff_of_true (.inl rfl) trivial
      · rw [Function.update_of_ne hq, Function.update_of_ne hq]
        rfl
    exact hview ▸ .die
  | stck => exact .same (by simp)
  | readLoop => exact .same (by simp)
  | @resume p hw ht =>
    refine .of_eq (Abs.paging_alike rfl rfl rfl rfl (fun _ => Iff.rfl)
      (Abs.alike_setStage (a := a) ?_)) (by simp)
    refine ⟨rfl, Iff.rfl, ?_, ?_⟩
    · rw [Stage.spare, Stage.spare, ht]
      rfl
    · rw [Stage.aim, Stage.aim, ht]
      rfl
  | @finish p hw hS =>
    have hview : (a.setStage p .user).paging =
        { a.paging with serving := Function.update a.paging.serving p False } := by
      have hgone : Function.update a.paging.gone p (a.Gone p) = a.paging.gone :=
        Function.update_eq_self p a.paging.gone
      refine (Abs.paging_gen (m := a.mem) (a.Gone p) False (by rw [hS]) rfl ?_ ?_).trans (by rw [hgone]; rfl)
      · refine iff_of_false ?_ ?_
        · rw [hw]
          rintro (hd | ⟨_, hd⟩) <;> cases hd
        · rintro (hd | ⟨_, hd⟩)
          · rw [hw] at hd
            cases hd
          · rw [hS] at hd
            cases hd
      · exact iff_of_false (by rintro ⟨⟩) not_false
    exact hview ▸ .finish (by simp)

end Rocm
