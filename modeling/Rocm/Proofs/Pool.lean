import Rocm.Proofs.Locks

/-!
# The swap pool and who works on it

From `choose_frame` to the end of `fill_frame` a handler works on one frame. It holds `sp_sem` all
the time, so no two processes do, and the table of the swap pool changes only there.
-/

namespace Rocm

variable [Umps] {p q : Uproc} {a a' : Abs} {d : Did} {f : Frame}

/-- The frame that has been chosen for a page that is not yet there. -/
def TlbStage.frame : TlbStage → Option Frame
  | .chosen _ f => some f
  | .victim _ f => some f
  | .victimAt _ f _ => some f
  | .invalid _ f _ => some f
  | .saving _ f _ _ _ => some f
  | .saved _ f => some f
  | .cleared _ f => some f
  | .loading _ f _ => some f
  | .loaded _ f => some f
  | .failed _ f => some f
  | _ => none

def Stage.frame (S : Stage) : Option Frame := S.tlb.bind TlbStage.frame

/-- The frame that `p` works on. -/
def Abs.frame (a : Abs) (p : Uproc) : Option Frame := (a.stage p).frame

/-- Who works on a frame holds `sp_sem`. -/
def Abs.Guarded (a : Abs) : Prop := ∀ p, a.frame p ≠ none → a.Holds p .spSem

/-- At most one process works on a frame. -/
theorem Abs.Locked.holder_unique (hl : a.Locked) {s : Sem} (hp : a.Holds p s) (hq : a.Holds q s) :
    p = q := by
  cases hup : (a.sem s).up with
  | true => exact absurd hp ((hl.free s hup).2 p)
  | false =>
    obtain ⟨r, hr⟩ := hl.taken s hup
    rw [(hr p).mp hp, (hr q).mp hq]

omit [Umps] in
theorem asid_ne_free (p : Uproc) : asid p ≠ -1 := by
  revert p
  decide

omit [Umps] in
theorem asid_inj (h : asid p = asid q) : p = q := by
  revert p q
  decide

/-! ## Moves -/

omit [Umps] in
theorem Stage.frame_of_tlb {S : Stage} {t : TlbStage} (h : S.tlb = some t) : S.frame = t.frame := by
  rw [Stage.frame, h]
  rfl

omit [Umps] in
theorem Stage.frame_of_gen {S : Stage} (h : S.tlb = none) : S.frame = none := by
  rw [Stage.frame, h]
  rfl

omit [Umps] in
theorem Stage.next_tlb {S : Stage} {t : TlbStage} (h : S.tlb = some t) (c : Cmd) (r : c.Res) :
    (S.next c r).tlb = some (t.next c r) := by
  unfold Stage.next
  rw [h]

theorem Abs.setStage_frame {S : Stage} :
    (a.setStage p S).frame = Function.update a.frame p S.frame := by
  funext q
  change (Function.update a.stage p S q).frame = _
  by_cases hq : q = p
  · subst hq
    rw [Function.update_self, Function.update_self]
  · rw [Function.update_of_ne hq, Function.update_of_ne hq]
    rfl

/-- Only the stage of `p` changes, and the frame it works on does not. -/
theorem Abs.frame_setStage {S : Stage} (h : S.frame = a.frame p) :
    (a.setStage p S).frame = a.frame := by
  rw [Abs.setStage_frame, h, Function.update_eq_self]

/-- A call of a handler does not change the frame it works on. -/
theorem Stage.frame_call {S : Stage} {c : Call} (r : c.Res) (h : S.allows p (.call c)) :
    (S.next (.call c) r).frame = S.frame := by
  rcases Stage.allows_call h with ⟨t, ht, hc⟩ | ⟨g, rfl, hc⟩
  · rw [Stage.frame_of_tlb ht, Stage.frame_of_tlb (Stage.next_tlb ht (.call c) r)]
    cases hc with
    | @saveUnlock sup f x e status =>
      rw [TlbStage.next_saved]
      split <;> rfl
    | @loadUnlock sup f status =>
      rw [TlbStage.next_read]
      split <;> rfl
    | _ => rfl
  · rfl

/-- What a move does to the table of the swap pool, to the cursor and to who works on which
    frame. -/
inductive PoolMove (a : Abs) : Did → Abs → Prop where
  | choose {p : Uproc} {sup : SupportT} {a' : Abs} : a.wait p = .ready → (a.stage p).tlb = some (.locked sup) →
      a'.mem.spTbl = a.mem.spTbl → a'.mem.frameTop = a.mem.chooseFrame →
      a'.frame = Function.update a.frame p (some a.mem.chooseFrame) →
      PoolMove a (.gave p (.act .chooseFrame)) a'
  | setFree {p : Uproc} {f : Frame} {a' : Abs} : a.frame p = some f → a'.mem.spTbl = (a.mem.setFree f).spTbl →
      a'.mem.frameTop = a.mem.frameTop → a'.frame = a.frame →
      PoolMove a (.gave p (.act (.setFree f))) a'
  | install {p : Uproc} {f : Frame} {i : Page} {a' : Abs} : a.frame p = some f →
      a'.mem.spTbl = (a.mem.fillFrame p f i).spTbl → a'.mem.frameTop = a.mem.frameTop →
      a'.frame = Function.update a.frame p none → PoolMove a (.gave p (.act (.install p f i))) a'
  | other {d : Did} {a' : Abs} : (∀ p, d ≠ .gave p (.act .chooseFrame)) →
      (∀ p q f i, d ≠ .gave p (.act (.install q f i))) →
      a'.mem.spTbl = a.mem.spTbl → a'.mem.frameTop = a.mem.frameTop → a'.frame = a.frame →
      PoolMove a d a'

theorem Mem.complete_pool (m : Mem) (d : SubDev) (status : Word) :
    (m.complete d status).spTbl = m.spTbl ∧ (m.complete d status).frameTop = m.frameTop := by
  obtain ⟨ram, flash, h, -⟩ := m.complete_eq d status
  rw [h]
  exact ⟨rfl, rfl⟩

theorem Move.pool (h : Move a d a') : PoolMove a d a' := by
  have hother : ∀ {p : Uproc} {c : Call} {a' : Abs}, a'.mem.spTbl = a.mem.spTbl →
      a'.mem.frameTop = a.mem.frameTop → a'.frame = a.frame →
      PoolMove a (.gave p (.call c)) a' := fun h1 h2 h3 => .other (by simp) (by simp) h1 h2 h3
  cases h with
  | quiet => exact .other (by simp) (by simp) rfl rfl rfl
  | loaded => exact .other (by simp) (by simp) rfl rfl rfl
  | stored => exact .other (by simp) (by simp) rfl rfl rfl
  | refill => exact .other (by simp) (by simp) rfl rfl rfl
  | @fault p va e s _ hS =>
    refine .other (by simp) (by simp) rfl rfl (Abs.frame_setStage (a := a) ?_)
    unfold Abs.frame
    rcases hS with hS | ⟨sup, sem, hS⟩ <;> rw [hS] <;> rfl
  | trap _ hS =>
    refine .other (by simp) (by simp) rfl rfl (Abs.frame_setStage (a := a) ?_)
    unfold Abs.frame
    rw [hS]
    rfl
  | again _ hS =>
    refine hother rfl rfl (Abs.frame_setStage (a := a) ?_)
    unfold Abs.frame
    rw [hS]
    rfl
  | @act p x hw hx =>
    rcases Stage.allows_act hx with ⟨t, ht, hact⟩ | ⟨g, hS, hact⟩
    · have hframe : ∀ {r : x.Res} {m : Mem},
          ((a.setMem m).setStage p ((a.stage p).next (.act x) r)).frame =
            Function.update a.frame p (t.next (.act x) r).frame := fun {r m} => by
        rw [Abs.setStage_frame, Stage.frame_of_tlb (Stage.next_tlb ht (.act x) r)]
        rfl
      have hp : a.frame p = t.frame := Stage.frame_of_tlb ht
      have hsame : ∀ {r : x.Res} {m : Mem}, (t.next (.act x) r).frame = t.frame →
          ((a.setMem m).setStage p ((a.stage p).next (.act x) r)).frame = a.frame := fun he => by
        rw [hframe, he, ← hp, Function.update_eq_self]
      cases hact with
      | support => exact .other (by simp) (by simp) rfl rfl (hsame rfl)
      | chooseFrame => exact .choose hw ht rfl rfl hframe
      | usable =>
        refine .other (by simp) (by simp) rfl rfl (hsame ?_)
        rw [TlbStage.next_usable]
        split <;> rfl
      | pgTblEntry => exact .other (by simp) (by simp) rfl rfl (hsame rfl)
      | invalidate => exact .other (by simp) (by simp) rfl rfl (hsame rfl)
      | pte => exact .other (by simp) (by simp) rfl rfl (hsame rfl)
      | saveData0 => exact .other (by simp) (by simp) rfl rfl (hsame rfl)
      | setFree => exact .setFree hp rfl rfl (hsame rfl)
      | loadData0 => exact .other (by simp) (by simp) rfl rfl (hsame rfl)
      | install i hi => exact .install hp rfl rfl hframe
    · have hsame : ∀ {r : x.Res} {m : Mem},
          ((a.setMem m).setStage p ((a.stage p).next (.act x) r)).frame = a.frame := fun {r m} =>
        Abs.frame_setStage (a := a.setMem m) (by
          change _ = (a.stage p).frame
          rw [hS]
          rfl)
      cases hact <;> exact .other (by simp) (by simp) rfl rfl hsame
  | passeren s hw hc => exact hother rfl rfl (Abs.frame_setStage (a := a) (Stage.frame_call () hc))
  | verhogen s hw hc => exact hother rfl rfl (Abs.frame_setStage (a := a) (Stage.frame_call () hc))
  | issue => exact hother rfl rfl rfl
  | ended status hw hc =>
    obtain ⟨h1, h2⟩ := a.mem.complete_pool _ status
    exact .other (by simp) (by simp) h1 h2 (Abs.frame_setStage (a := a) (Stage.frame_call status hc))
  | die => exact hother rfl rfl rfl
  | stck => exact hother rfl rfl rfl
  | readLoop => exact hother rfl rfl rfl
  | resume hw ht =>
    refine hother rfl rfl (Abs.frame_setStage (a := a) ?_)
    exact (Stage.frame_of_tlb ht).symm
  | finish hw hS =>
    refine hother rfl rfl (Abs.frame_setStage (a := a) ?_)
    exact (Stage.frame_of_gen (by rw [hS])).symm

/-! ## Only one process works on a frame -/

/-- Who waits for nothing has what it holds. -/
theorem Abs.holds_of_ready {s : Sem} (hw : a.wait p = .ready) (h : s ∈ (a.stage p).held p) :
    a.Holds p s := by
  refine ⟨h, ?_⟩
  rw [hw]
  nofun

/-- Before `choose_frame` nobody works on a frame. -/
theorem Abs.frame_eq_none_of_locked (ho : a.Ordered) (hg : a.Guarded) (hw : a.wait p = .ready)
    {sup : SupportT} (ht : (a.stage p).tlb = some (.locked sup)) (q : Uproc) : a.frame q = none := by
  by_contra hq
  have hp : a.Holds p .spSem := a.holds_of_ready hw (by
    unfold Stage.held
    rw [ht]
    exact List.mem_cons_self)
  obtain rfl := ho.locked.holder_unique (hg q hq) hp
  exact hq (Stage.frame_of_tlb ht)

theorem Abs.frame_unique (ho : a.Ordered) (hg : a.Guarded) (hp : a.frame p ≠ none)
    (hq : a.frame q ≠ none) : p = q :=
  ho.locked.holder_unique (hg p hp) (hg q hq)

/-- The V on `sp_sem` comes after the work on the frame. -/
theorem Move.frame_of_unlock (h : Move a (.gave p (.call (.verhogen .spSem))) a') :
    a.frame p = none := by
  cases h with
  | verhogen s hw hc =>
    rcases Stage.allows_call hc with ⟨t, ht, hcall⟩ | ⟨g, hS, -⟩
    · cases hcall
      exact Stage.frame_of_tlb ht
    · rw [Abs.frame, hS]
      rfl

theorem Move.guarded (h : Move a d a') (ho : a.Ordered) (hg : a.Guarded) : a'.Guarded := by
  have hkeep : ∀ q, a.frame q ≠ none → a'.Holds q .spSem := fun q hq =>
    (h.holds_iff ho q .spSem).mpr ⟨fun he => hq (by subst he; exact h.frame_of_unlock),
      .inl (hg q hq)⟩
  intro q hq
  cases h.pool with
  | @choose p sup _ hw ht _ _ hframe =>
    by_cases hqp : q = p
    · subst hqp
      refine (h.holds_iff ho q .spSem).mpr ⟨nofun, .inl (a.holds_of_ready hw ?_)⟩
      unfold Stage.held
      rw [ht]
      exact List.mem_cons_self
    · rw [hframe, Function.update_of_ne hqp] at hq
      exact hkeep q hq
  | setFree _ _ _ hframe =>
    rw [hframe] at hq
    exact hkeep q hq
  | @install p _ _ _ _ _ _ hframe =>
    by_cases hqp : q = p
    · subst hqp
      rw [hframe, Function.update_self] at hq
      exact absurd rfl hq
    · rw [hframe, Function.update_of_ne hqp] at hq
      exact hkeep q hq
  | other _ _ _ _ hframe =>
    rw [hframe] at hq
    exact hkeep q hq

theorem Abs.start_guarded (m : Mem) : (Abs.start m).Guarded := fun _ h => absurd rfl h

/-- The invariants of the processes, of the semaphores and of the work on the frames. -/
structure Abs.Disciplined (a : Abs) : Prop extends a.Ordered where
  guarded : a.Guarded

theorem Move.disciplined (h : Move a d a') (ha : a.Disciplined) : a'.Disciplined :=
  ⟨h.ordered ha.toOrdered, h.guarded ha.toOrdered ha.guarded⟩

theorem Abs.start_disciplined (m : Mem) : (Abs.start m).Disciplined :=
  ⟨Abs.start_ordered m, Abs.start_guarded m⟩

end Rocm
