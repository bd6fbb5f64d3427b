import Rocm.Proofs.PagerMemory

/-!
# The pager through the moves

Every move keeps what the pagers of all processes rely on.
-/

namespace Rocm

variable [Umps] {p q : Uproc} {a a' : Abs} {d : Did} {i : Page} {t : TlbStage} {f : Frame}
  {x : Uproc × Page}

/-- What a move must not do: end an operation of a flash device in failure, or free a frame of
    another process or one whose address `ENTRYLO_GET_PFN` does not give. -/
structure CopySafe (a : Abs) (d : Did) : Prop where
  ready : ∀ p v status, d = .ended p (flashDev p) v status → status = READY
  own : ∀ p f, d = .gave p (.act (.pgTblEntry f)) → (a.mem.spTbl f).asid = asid p
  pfn : ∀ p f, d = .gave p (.act (.pgTblEntry f)) →
    Umps.entryloGetPfn (invalidLo (frameLo f)) = frameAddr f

/-- What is known of the pagers and their pages. -/
structure Abs.Paged (a : Abs) : Prop where
  disciplined : a.Disciplined
  coherent : a.paging.Coherent
  recorded : a.paging.Recorded
  pager : ∀ p, a.PagerOk p

omit [Umps] in
theorem Stage.next_none {S : Stage} {c : Cmd} {r : c.Res} (h : S.tlb = none) :
    (S.next c r).tlb = none := by
  unfold Stage.next
  rw [h]

/-- A stage without the pager. -/
theorem Abs.PagerOk.of_none (h : (a.stage p).tlb = none) : a.PagerOk p := by
  intro t ht
  rw [h] at ht
  cases ht

/-- The pager of `p` gets to the stage `t`. -/
theorem Abs.PagerOk.of_stage (h : (a.stage p).tlb = some t) (ht : t.Ok a.mem (a.wait p) p i) :
    a.PagerOk p := by
  intro t' ht'
  obtain rfl : t = t' := Option.some.inj (h.symm.trans ht')
  exact ⟨i, ht⟩

theorem Abs.setStage_stage {S : Stage} : (a.setStage p S).stage p = S :=
  Function.update_self ..

theorem Abs.setStage_stage_ne {S : Stage} (h : q ≠ p) : (a.setStage p S).stage q = a.stage q :=
  Function.update_of_ne h ..

/-- The state that the pager has read is the one that is saved. -/
theorem Abs.Disciplined.faultState (ha : a.Disciplined) (ht : (a.stage p).tlb = some t)
    (sup : SupportT) (hsup : t.sup = some sup) :
    sup.supExceptState PGFAULTEXCEPT = a.mem.saved p PGFAULTEXCEPT :=
  (ha.sane p).tlb t sup ht hsup

/-- The pager works on the page that is missing. -/
theorem Abs.Disciplined.faultHi (ha : a.Disciplined) (ht : (a.stage p).tlb = some t)
    (sup : SupportT) (hsup : t.sup = some sup) (hmiss : a.mem.Missing p i) :
    sup.faultHi = pteHi p i :=
  (congrArg ProcState.entryHi (ha.faultState ht sup hsup)).trans hmiss.hi

/-- The page it installs is that one. -/
theorem Abs.Disciplined.installs_missing (ha : a.Disciplined) (ht : (a.stage p).tlb = some t)
    (sup : SupportT) (hsup : t.sup = some sup) (hmiss : a.mem.Missing p i) {j : Page}
    (hj : j.val = (pageIndex sup.faultHi).toNat) : j = i := by
  rw [ha.faultHi ht sup hsup hmiss, pageIndex_pteHi] at hj
  exact Fin.ext hj

theorem Mem.Missing.of_sup {m m' : Mem} (h : m.Missing p i) (hsup : m'.sup = m.sup) :
    m'.Missing p i := by
  constructor
  · rw [saved_of_sup hsup]
    exact h.hi
  · rw [Mem.pte, hsup]
    exact h.absent

theorem Mem.Victim.of_sup {m m' : Mem} (h : m.Victim p f x) (hsup : m'.sup = m.sup)
    (htbl : m'.spTbl = m.spTbl) : m'.Victim p f x := by
  refine ⟨?_, ?_, h.own, ?_, h.pfn⟩
  · rw [htbl]
    exact h.owner
  · rw [htbl]
    exact h.entry
  · rw [Mem.pte, hsup]
    exact h.lo

theorem Mem.setData0_dev (m : Mem) (d : SubDev) (v : Word) :
    (m.setData0 d v).dev d = { m.dev d with data0 := v } := Function.update_self ..

theorem Mem.setCommand_dev (m : Mem) (d : SubDev) (v : Word) :
    (m.setCommand d v).dev d = { m.dev d with status := BUSY, command := v } :=
  Function.update_self ..

/-- The pager of `p` has accessed the memory. -/
theorem Abs.PagerOk.act_pager (hp : a.Paged) {y : Act} (hs : CopySafe a (.gave p (.act y)))
    (hw : a.wait p = .ready) (hy : (a.stage p).allows p (.act y)) (ht : (a.stage p).tlb = some t)
    (hact : t.ActOf p y) :
    ((a.setMem (y.run a.mem).2).setStage p
      ((a.stage p).next (.act y) (y.run a.mem).1)).PagerOk p := by
  obtain ⟨i, hi⟩ := hp.pager p t ht
  have hsaved := Stage.saved_act a.mem hy p PGFAULTEXCEPT (.inr (.inr rfl))
  have hst : ((a.setMem (y.run a.mem).2).setStage p
      ((a.stage p).next (.act y) (y.run a.mem).1)).stage p =
        (a.stage p).next (.act y) (y.run a.mem).1 := Abs.setStage_stage
  have htlb := Stage.next_tlb ht (.act y) (y.run a.mem).1
  rw [← hst] at htlb
  refine .of_stage (i := i) htlb ?_
  change (t.next (.act y) (y.run a.mem).1).Ok (y.run a.mem).2 (a.wait p) p i
  have hnow : ∀ {P : Prop}, a.wait p = .io → P := fun he => by
    rw [hw] at he
    cases he
  cases hact with
  | support => exact hi
  | chooseFrame => exact Mem.Missing.of_sup hi rfl
  | usable =>
    rw [TlbStage.next_usable]
    split <;> exact hi
  | @pgTblEntry sup f => exact ⟨hi, hs.pfn p f rfl⟩
  | @invalidate sup f x =>
    have haim : a.paging.aim p = some (f, x) := by
      change (a.stage p).aim = _
      rw [Stage.aim, ht]
      rfl
    obtain ⟨hown, hxp, hlo, -⟩ := hp.recorded.aimed p f x haim
    have hlo : (a.mem.pte x).entryLO = frameLo f := hlo
    have hpte := a.mem.invalidate_pte x
    have hne : (p, i) ≠ x := by
      rintro rfl
      exact hi.1.absent (PteEntry.valid_of_frameLo hlo)
    refine ⟨⟨?_, ?_⟩, ⟨hown, hp.coherent.aim p f x haim, hxp, ?_, hi.2⟩⟩
    · exact (congrArg ProcState.entryHi hsaved).trans hi.1.hi
    · intro hv
      refine hi.1.absent ?_
      change ((a.mem.invalidate x).pte (p, i)).valid at hv
      rwa [hpte, Function.update_of_ne hne] at hv
    · change ((a.mem.invalidate x).pte x).entryLO = _
      rw [hpte, Function.update_self, hlo]
  | pte => exact ⟨hi.1, hi.2, rfl, trivial⟩
  | @saveData0 sup f x e =>
    obtain ⟨hmiss, hvictim, he, -⟩ := hi
    refine ⟨hmiss.of_sup rfl, hvictim.of_sup rfl rfl, he, ?_, hnow⟩
    exact congrArg DevReg.data0 (a.mem.setData0_dev _ _)
  | setFree => exact Mem.Missing.of_sup hi rfl
  | @loadData0 sup f =>
    refine ⟨hi.1.of_sup rfl, ?_, hnow⟩
    exact congrArg DevReg.data0 (a.mem.setData0_dev _ _)
  | install => trivial

/-- The frame that a process works on is the only one that is spare. -/
theorem Abs.spare_none (ha : a.Disciplined) (hp : a.frame p ≠ none) (hq : q ≠ p) :
    a.paging.spare q = none := (a.alone ha hp q hq).1

/-- An access of `p` leaves the other pagers what they rely on. -/
theorem Abs.PagerOk.act_other (hp : a.Paged) {y : Act} (hy : (a.stage p).allows p (.act y))
    (hq : q ≠ p) :
    ((a.setMem (y.run a.mem).2).setStage p
      ((a.stage p).next (.act y) (y.run a.mem).1)).PagerOk q := by
  have hown : ∀ z, y = .invalidate z → z.1 = p := by
    rintro z rfl
    rcases Stage.allows_act hy with ⟨t, ht, hact⟩ | ⟨g, -, hact⟩
    · cases hact with
      | @invalidate sup f =>
        have haim : a.paging.aim p = some (f, z) := by
          change (a.stage p).aim = _
          rw [Stage.aim, ht]
          rfl
        exact (hp.recorded.aimed p f z haim).2.1
    · cases hact
  refine (hp.pager q).keep (fun t ht => ?_) (Stage.act_same hy hq hown) fun f hf => ?_
  · rwa [Abs.setStage_stage_ne hq] at ht
  · have hnone : a.frame p = none := by
      by_contra hne
      rw [a.spare_none hp.disciplined hne hq] at hf
      cases hf
    have hnot : ∀ t, (a.stage p).tlb = some t → t.frame = none := fun t ht => by
      rwa [Abs.frame, Stage.frame_of_tlb ht] at hnone
    rcases Stage.allows_act hy with ⟨t, ht, hact⟩ | ⟨g, -, hact⟩
    · cases hact with
      | setFree => cases hnot _ ht
      | install => cases hnot _ ht
      | _ => exact ⟨rfl, rfl⟩
    · cases hact <;> exact ⟨rfl, rfl⟩

/-! ## Calls -/

/-- Nobody but who is in an operation of a device is so after an operation on a semaphore. -/
theorem Abs.waitAfter_io (s : Sem) (op : Semaphore.Op) (h : a.waitAfter p s op q = .io) :
    a.wait q = .io := by
  have hupd : ∀ {r w}, w ≠ .io → Function.update a.wait r w q = .io → a.wait q = .io := by
    intro r w hw h
    by_cases hq : q = r
    · subst hq
      rw [Function.update_self] at h
      exact absurd h hw
    · rwa [Function.update_of_ne hq] at h
  unfold Abs.waitAfter at h
  by_cases hup : (a.sem s).up = op.blocksAt
  · rw [if_pos hup] at h
    exact hupd (by simp) h
  · rw [if_neg hup] at h
    cases hq : (a.sem s).queue with
    | nil =>
      rw [hq] at h
      exact h
    | cons w ws =>
      rw [hq] at h
      exact hupd (by simp) h

/-- A call of `p` that changes no memory leaves the other pagers what they rely on. -/
theorem Abs.PagerOk.call_other (h : a.PagerOk q) (hmem : a'.mem = a.mem)
    (hst : a'.stage q = a.stage q) (hw : a'.wait q = .io → a.wait q = .io) : a'.PagerOk q := by
  refine h.keep (fun t ht => ?_) ?_ (fun f _ => ?_)
  · rwa [hst] at ht
  · rw [hmem]
    exact .of_sup rfl rfl rfl hw
  · rw [hmem]
    exact ⟨rfl, rfl⟩

/-- The pager of `p` has done an operation on a semaphore. -/
theorem Abs.PagerOk.call_pager (ha : a.Disciplined) (hp : a.PagerOk p)
    (ht : (a.stage p).tlb = some t) {c : Call} (hc : t.CallOf p c) {r : c.Res}
    (hsem : ∃ s, c = .passeren s ∨ c = .verhogen s) (hmem : a'.mem = a.mem)
    (hst : a'.stage p = (a.stage p).next (.call c) r) : a'.PagerOk p := by
  obtain ⟨i, hi⟩ := hp t ht
  have htlb := Stage.next_tlb ht (.call c) r
  rw [← hst] at htlb
  refine .of_stage (i := i) htlb ?_
  rw [hmem]
  cases hc with
  | @lock sup hne =>
    have hsup := ha.faultState ht sup rfl
    rw [hsup] at hne
    exact ⟨hi.1, hi.2 hne⟩
  | saveLock => exact ⟨hi.1, hi.2.1, hi.2.2.1, trivial⟩
  | saveUnlock =>
    rw [TlbStage.next_saved]
    split <;> exact hi.1
  | loadLock => exact ⟨hi, trivial⟩
  | loadRelock => exact ⟨hi.1, trivial⟩
  | loadUnlock =>
    rw [TlbStage.next_read]
    split
    · exact hi
    · exact hi.1
  | unlock => trivial
  | termProcess =>
    obtain ⟨s, hs | hs⟩ := hsem <;> cases hs
  | saveIo =>
    obtain ⟨s, hs | hs⟩ := hsem <;> cases hs
  | loadIo =>
    obtain ⟨s, hs | hs⟩ := hsem <;> cases hs
  | wild =>
    obtain ⟨s, hs | hs⟩ := hsem <;> cases hs
  | ldst =>
    obtain ⟨s, hs | hs⟩ := hsem <;> cases hs

/-! ## Every move -/

/-- What translates an address that a process uses. -/
theorem Abs.Paged.translated (hp : a.Paged) (hw : a.wait p = .ready)
    (hS : (a.stage p).usesMemory) {va : Word} {e : PteEntry}
    (htr : a.mem.translate (hiOf p va) = some e) :
    ¬ a.Gone p ∧ ∃ i, hiOf p va = pteHi p i ∧ e = a.mem.pte (p, i) ∧
      (e.valid → ∃ f, e.entryLO = frameLo f) := by
  have hgone : ¬ a.Gone p := by
    rintro (hd | ⟨sup, hgen⟩)
    · rw [hw] at hd
      cases hd
    · rcases hS with hS | ⟨sup', s, hS⟩ <;> rw [hS] at hgen <;> cases hgen
  obtain ⟨j, hj, rfl⟩ := Option.map_eq_some_iff.mp htr
  obtain ⟨i, hi, he⟩ := hp.coherent.mirrors.eq_of_hits hp.coherent.tables (Tlb.hits_of_probe hj)
  refine ⟨hgone, i, hi, he, fun hv => ?_⟩
  have he : a.mem.tlb j = a.mem.pte (p, i) := he
  rw [he] at hv ⊢
  obtain ⟨f, hf, -⟩ := hp.coherent.owned (p, i) hgone hv
  exact ⟨f, hf⟩

omit [Umps] in
/-- Only `p` waits for something else. -/
theorem wait_update_io {wait : Uproc → Wait} {w : Wait} (hw : w ≠ .io)
    (h : Function.update wait p w q = .io) : wait q = .io := by
  by_cases hq : q = p
  · subst hq
    rw [Function.update_self] at h
    exact absurd h hw
  · rwa [Function.update_of_ne hq] at h

/-- A system call or a trap of `p` leaves the other pagers what they rely on. -/
theorem Abs.PagerOk.raise_other {k : Fin 2} {s : ProcState} {S : Stage} (h : a.PagerOk q)
    (hq : q ≠ p) : ((a.setMem (a.mem.setExceptState p k s)).setStage p S).PagerOk q := by
  refine h.keep (fun t ht => ?_) ⟨?_, ?_, rfl, fun _ => rfl, id⟩ fun _ _ => ⟨rfl, rfl⟩
  · rwa [Abs.setStage_stage_ne hq] at ht
  · exact congrFun (saved_setExceptState a.mem k s hq) _
  · intro j
    exact congrFun (a.mem.setExceptState_pte p k s) (q, j)

/-- An operation that `p` may give is one of its flash device, or of one that is none. -/
theorem Stage.allows_doio {S : Stage} {e : SubDev} {v : Word}
    (h : S.allows p (.call (.doio e v))) :
    (∃ t, S.tlb = some t ∧ t.CallOf p (.doio e v) ∧ e = flashDev p) ∨
      S.tlb = none ∧ ∀ q, e ≠ flashDev q := by
  rcases Stage.allows_call h with ⟨t, ht, hc⟩ | ⟨g, rfl, hc⟩
  · refine .inl ⟨t, ht, hc, ?_⟩
    cases hc <;> rfl
  · cases hc with
    | doio _ _ hd => exact .inr ⟨rfl, hd.not_flash⟩

theorem Stage.doio_ne {S : Stage} {e : SubDev} {v : Word} (h : S.allows p (.call (.doio e v)))
    (hq : q ≠ p) : e ≠ flashDev q := by
  rcases Stage.allows_doio h with ⟨-, -, -, rfl⟩ | ⟨-, hd⟩
  · exact flashDev_ne hq.symm
  · exact hd q

/-- The pager of `p` has given a command to its flash device. -/
theorem Abs.PagerOk.issue_pager (hp : a.PagerOk p) {v : Word}
    (ht : (a.stage p).tlb = some t) (hc : t.CallOf p (.doio (flashDev p) v)) :
    ((a.setMem (a.mem.setCommand (flashDev p) v)).setWait p .io).PagerOk p := by
  obtain ⟨i, hi⟩ := hp t ht
  refine .of_stage (t := t) (i := i) ht ?_
  have hdev := a.mem.setCommand_dev (flashDev p) v
  cases hc with
  | @saveIo sup f x e =>
    obtain ⟨hmiss, hvictim, he, hio⟩ := hi
    refine ⟨hmiss.of_sup rfl, hvictim.of_sup rfl rfl, he, ?_, fun _ => ?_⟩
    · exact (congrArg DevReg.data0 hdev).trans hio.1
    · exact congrArg DevReg.command hdev
  | @loadIo sup f =>
    refine ⟨hi.1.of_sup rfl, ?_, fun _ => ?_⟩
    · exact (congrArg DevReg.data0 hdev).trans hi.2.1
    · exact congrArg DevReg.command hdev

/-- The flash device of `p` has ended the operation of its pager. -/
theorem Abs.PagerOk.ended_pager (ha : a.Disciplined) (hp : a.PagerOk p) {v : Word}
    (hw : a.wait p = .io) (ht : (a.stage p).tlb = some t)
    (hc : t.CallOf p (.doio (flashDev p) v)) :
    (((a.setMem (a.mem.complete (flashDev p) READY)).setWait p .ready).setStage p
      ((a.stage p).next (.call (.doio (flashDev p) v)) READY)).PagerOk p := by
  obtain ⟨i, hi⟩ := hp t ht
  have hst : ∀ b : Abs, (b.setStage p ((a.stage p).next (.call (.doio (flashDev p) v)) READY)).stage
      p = (a.stage p).next (.call (.doio (flashDev p) v)) READY := fun b => Abs.setStage_stage
  have htlb := Stage.next_tlb ht (.call (.doio (flashDev p) v)) READY
  rw [← hst] at htlb
  refine .of_stage (i := i) htlb ?_
  change (t.next (.call (.doio (flashDev p) v)) READY).Ok (a.mem.complete (flashDev p) READY) _ p i
  have hsup := a.mem.complete_sup (flashDev p) READY
  have htbl := (a.mem.complete_pool (flashDev p) READY).1
  cases hc with
  | @saveIo sup f x e =>
    obtain ⟨hmiss, hvictim, he, -⟩ := hi
    refine ⟨hmiss.of_sup hsup, hvictim.of_sup hsup htbl, ?_, trivial⟩
    rw [Mem.pte, hsup]
    exact he
  | @loadIo sup f =>
    obtain ⟨hmiss, hdata, hcmd⟩ := hi
    refine ⟨hmiss.of_sup hsup, ?_⟩
    have hcmd := hcmd hw
    rw [readCmd, ha.faultHi ht sup rfl hmiss] at hcmd
    obtain ⟨hframe, hflash⟩ := a.mem.complete_read (pageIndex_lt _) hcmd hdata
    rw [hframe, Function.update_self, Mem.home, hflash, pageIndex_blockNo]

theorem Move.pagerOk (h : Move a d a') (hp : a.Paged) (hs : CopySafe a d) (q : Uproc) :
    a'.PagerOk q := by
  cases h with
  | quiet => exact hp.pager q
  | loaded => exact hp.pager q
  | stck => exact hp.pager q
  | readLoop => exact hp.pager q
  | @stored p va b e hw hS htr hv =>
    obtain ⟨hgone, i, -, rfl, hlo⟩ := hp.translated hw hS htr
    obtain ⟨f0, hf0⟩ := hlo hv
    refine (hp.pager q).keep (fun _ h => h) (.of_sup rfl rfl rfl id) fun f hf => ⟨rfl, ?_⟩
    have hne : f ≠ f0 := by
      rintro rfl
      exact hp.coherent.spare q f (p, i) hf hgone hf0
    change ({ a.mem with ram := Function.update a.mem.ram (physAddr _ va) b } : Mem).frame f = _
    rw [physAddr_frameLo hf0, a.mem.frame_store, Function.update_of_ne hne]
  | refill => exact (hp.pager q).keep (fun _ h => h) (.of_sup rfl rfl rfl id) fun _ _ => ⟨rfl, rfl⟩
  | @fault p va e s hw hS htr he hhi =>
    by_cases hq : q = p
    · subst hq
      obtain ⟨-, i, hva, rfl, -⟩ := hp.translated hw hS htr
      refine .of_stage (i := i) (t := .entry) (congrArg Stage.tlb Abs.setStage_stage) ?_
      have hsaved : (a.mem.setExceptState q PGFAULTEXCEPT s).saved q PGFAULTEXCEPT = s :=
        a.mem.setExceptState_self q PGFAULTEXCEPT s
      refine ⟨?_, fun hne hv => hne ?_⟩
      · exact (congrArg ProcState.entryHi hsaved).trans (hhi.trans hva)
      · change ((a.mem.setExceptState q PGFAULTEXCEPT s).pte (q, i)).valid at hv
        rw [a.mem.setExceptState_pte] at hv
        exact (congrArg ProcState.exc hsaved).trans (he hv)
    · exact (hp.pager q).raise_other hq
  | @trap p pc e s =>
    by_cases hq : q = p
    · subst hq
      exact .of_none (congrArg Stage.tlb Abs.setStage_stage)
    · exact (hp.pager q).raise_other hq
  | @again p sup s =>
    by_cases hq : q = p
    · subst hq
      exact .of_none (congrArg Stage.tlb Abs.setStage_stage)
    · exact (hp.pager q).raise_other hq
  | @act p y hw hy =>
    by_cases hq : q = p
    · subst hq
      rcases Stage.allows_act hy with ⟨t, ht, hact⟩ | ⟨g, hS, -⟩
      · exact .act_pager hp hs hw hy ht hact
      · exact .of_none ((congrArg Stage.tlb Abs.setStage_stage).trans
          (Stage.next_none (by rw [hS])))
    · exact .act_other hp hy hq
  | @passeren p s hw hc =>
    by_cases hq : q = p
    · subst hq
      rcases Stage.allows_call hc with ⟨t, ht, hcall⟩ | ⟨g, hS, -⟩
      · exact .call_pager hp.disciplined (hp.pager q) ht hcall (r := ()) ⟨s, .inl rfl⟩ rfl
          (Function.update_self ..)
      · exact .of_none ((congrArg Stage.tlb (Function.update_self ..)).trans
          (Stage.next_none (by rw [hS])))
    · exact (hp.pager q).call_other rfl (Function.update_of_ne hq ..) (a.waitAfter_io s .passeren)
  | @verhogen p s hw hc =>
    by_cases hq : q = p
    · subst hq
      rcases Stage.allows_call hc with ⟨t, ht, hcall⟩ | ⟨g, hS, -⟩
      · exact .call_pager hp.disciplined (hp.pager q) ht hcall (r := ()) ⟨s, .inr rfl⟩ rfl
          (Function.update_self ..)
      · exact .of_none ((congrArg Stage.tlb (Function.update_self ..)).trans
          (Stage.next_none (by rw [hS])))
    · exact (hp.pager q).call_other rfl (Function.update_of_ne hq ..) (a.waitAfter_io s .verhogen)
  | @issue p e v hw hc =>
    by_cases hq : q = p
    · subst hq
      rcases Stage.allows_doio hc with ⟨t, ht, hcall, rfl⟩ | ⟨hnone, -⟩
      · exact (hp.pager q).issue_pager ht hcall
      · exact .of_none hnone
    · refine (hp.pager q).keep (fun _ h => h) (.of_sup rfl ?_ rfl fun he => ?_) fun _ _ => ⟨rfl, rfl⟩
      · exact Function.update_of_ne (Stage.doio_ne hc hq).symm ..
      · change Function.update a.wait p .io q = .io at he
        rwa [Function.update_of_ne hq] at he
  | @ended p e v status hw hc =>
    by_cases hq : q = p
    · subst hq
      rcases Stage.allows_doio hc with ⟨t, ht, hcall, rfl⟩ | ⟨hnone, -⟩
      · obtain rfl := hs.ready q v status rfl
        exact (hp.pager q).ended_pager hp.disciplined hw ht hcall
      · exact .of_none ((congrArg Stage.tlb Abs.setStage_stage).trans (Stage.next_none hnone))
    · have hne := Stage.doio_ne hc hq
      refine (hp.pager q).keep (fun t ht => ?_) (.of_sup (a.mem.complete_sup e status)
        (a.mem.complete_dev status hne) (a.mem.complete_flash_ne status hne) fun he => ?_)
        fun f hf => ⟨congrFun (a.mem.complete_pool e status).1 f, ?_⟩
      · rwa [Abs.setStage_stage_ne hq] at ht
      · exact wait_update_io (by simp) he
      · rcases Stage.allows_doio hc with ⟨t, ht, hcall, -⟩ | ⟨-, hd⟩
        · have hframe : a.frame p ≠ none := by
            rw [Abs.frame, Stage.frame_of_tlb ht]
            cases hcall <;> simp [TlbStage.frame]
          rw [a.spare_none hp.disciplined hframe hq] at hf
          cases hf
        · funext o
          exact congrFun (a.mem.complete_other status hd).1 _
  | @die p =>
    exact (hp.pager q).keep (fun _ h => h) (.of_sup rfl rfl rfl (wait_update_io (by simp)))
      fun _ _ => ⟨rfl, rfl⟩
  | @resume p =>
    by_cases hq : q = p
    · subst hq
      exact .of_none (congrArg Stage.tlb Abs.setStage_stage)
    · exact (hp.pager q).call_other rfl (Abs.setStage_stage_ne hq) id
  | @finish p =>
    by_cases hq : q = p
    · subst hq
      exact .of_none (congrArg Stage.tlb Abs.setStage_stage)
    · exact (hp.pager q).call_other rfl (Abs.setStage_stage_ne hq) id

end Rocm
