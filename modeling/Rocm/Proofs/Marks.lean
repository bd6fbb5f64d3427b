import Rocm.Proofs.Coherence

/-!
# Who is known to the pager

The invariant behind the bits of `sp_asids`: a process that can use a page, that has an entry in the
table of the swap pool or that has made a system call has had its bit set, and the bit is set until
the process tells the pager that it ends. It survives every move in which a process that ends has
told the pager so, and in which `clean_frames` stores what it should. A process that has no frame
when it tells the pager gets none afterwards.
-/

namespace Rocm

variable [Umps] {P P' : Paging} {d : Did} {p q : Uproc} {f : Frame} {x : Uproc × Page}

/-- The pager has given a page to the process, or knows that it has ended. -/
def Paging.Touched (P : Paging) (p : Uproc) : Prop := Marked P.spAsids p ∨ P.gone p

structure Paging.Tracked (P : Paging) : Prop where
  tables : Tables P.pte
  page : ∀ x, (P.pte x).valid → P.Touched x.1
  /-- An entry of the TLB by which a process can use a page. -/
  entry : ∀ s p va, (P.tlb s).hits (hiOf p va) → (P.tlb s).valid → P.Touched p
  owner : ∀ f p, (P.spTbl f).asid = asid p → P.Touched p
  serving : ∀ p, P.serving p → P.Touched p
  gone : ∀ p, P.gone p → ¬ Marked P.spAsids p

/-- What a move must not do: refill the TLB for an address without an entry, end a process of which
    the pager does not know it, or store to `sp_asids` what is not made from its value. -/
structure MarkSafe (P : Paging) (d : Did) : Prop where
  inPages : d.InPages
  told : ∀ p, d = .gave p (.call .termProcess) → P.gone p
  now : ∀ p v, d = .gave p (.act (.storeAsids v)) → v = P.spAsids ^^^ Mem.asidBit (asid p)
  lives : ∀ p f i, d = .gave p (.act (.install p f i)) → ¬ P.gone p

/-- What `clean_frames` is to do to the bits. -/
def Cleared (v v' : BitVec 8) (p : Uproc) : Prop := ∀ q, Marked v' q ↔ Marked v q ∧ q ≠ p

instance (v v' : BitVec 8) (p : Uproc) : Decidable (Cleared v v' p) :=
  inferInstanceAs (Decidable (∀ _, _))

omit [Umps] in
/-- The exclusive or clears a bit that is set. -/
theorem cleared_xor {v : BitVec 8} : Cleared v (v ^^^ Mem.asidBit (asid p)) p ↔ Marked v p := by
  constructor
  · intro h
    by_contra hp
    have hself : Marked (v ^^^ Mem.asidBit (asid p)) p := by
      rw [marked_xor]
      exact iff_of_false hp (fun hne => hne rfl)
    exact hp ((h p).mp hself).1
  · intro h q
    rw [marked_xor]
    by_cases hq : q = p
    · subst hq
      exact iff_of_false (fun hiff => hiff.mp h rfl) (fun hand => hand.2 rfl)
    · exact ⟨fun hiff => ⟨hiff.mpr hq, hq⟩, fun hand => iff_of_true hand.1 hq⟩

/-! ## A move -/

/-- Nothing is known of fewer processes. -/
theorem Paging.Tracked.keep (hc : P.Tracked) (hpte : P'.pte = P.pte) (htlb : P'.tlb = P.tlb)
    (htbl : P'.spTbl = P.spTbl) (ht : ∀ p, P.Touched p → P'.Touched p)
    (hserv : ∀ p, P'.serving p → P'.Touched p)
    (hgone : ∀ p, P'.gone p → ¬ Marked P'.spAsids p) : P'.Tracked := by
  constructor
  · rw [hpte]
    exact hc.tables
  · intro x hv
    rw [hpte] at hv
    exact ht x.1 (hc.page x hv)
  · intro s p va hs hv
    rw [htlb] at hs hv
    exact ht p (hc.entry s p va hs hv)
  · intro f p ha
    rw [htbl] at ha
    exact ht p (hc.owner f p ha)
  · exact hserv
  · exact hgone

/-- A slot of the TLB gets the entry of a page. -/
theorem touched_of_slot {e : PteEntry} {t : Tlb} {slot : Slot} (he : e.entryHI = pteHi x.1 x.2)
    (hl : e.Local) (hx : e.valid → P.Touched x.1)
    (ht : ∀ s p va, (t s).hits (hiOf p va) → (t s).valid → P.Touched p) (s : Slot) (p : Uproc)
    (va : Word) (hs : (Function.update t slot e s).hits (hiOf p va))
    (hv : (Function.update t slot e s).valid) : P.Touched p := by
  by_cases hslot : s = slot
  · subst hslot
    rw [Function.update_self] at hs hv
    obtain ⟨hxp, -⟩ := (hits_pteHi he hl).mp hs
    exact hxp ▸ hx hv
  · rw [Function.update_of_ne hslot] at hs hv
    exact ht s p va hs hv

/-- The TLB is updated for a page. -/
theorem touched_of_update {t : Tlb} {lo : Word} (hl : lo &&& ENTRYLO_GLOBAL = 0)
    (hx : (PteEntry.mk (pteHi x.1 x.2) lo).valid → P.Touched x.1)
    (ht : ∀ s p va, (t s).hits (hiOf p va) → (t s).valid → P.Touched p) (s : Slot) (p : Uproc)
    (va : Word) (hs : ((updateTlb (pteHi x.1 x.2) lo t).2 s).hits (hiOf p va))
    (hv : ((updateTlb (pteHi x.1 x.2) lo t).2 s).valid) : P.Touched p := by
  rcases updateTlb_cases (pteHi x.1 x.2) lo t with ⟨htlb, -⟩ | ⟨j, htlb, -⟩
  · rw [htlb] at hs hv
    exact ht s p va hs hv
  · rw [htlb] at hs hv
    exact touched_of_slot (e := ⟨pteHi x.1 x.2, lo⟩) rfl hl hx ht s p va hs hv

omit [Umps] in
theorem gone_update {gone : Uproc → Prop} : Function.update gone p True q ↔ q = p ∨ gone q := by
  by_cases hq : q = p
  · subst hq
    rw [Function.update_self]
    exact iff_of_true trivial (.inl rfl)
  · rw [Function.update_of_ne hq]
    exact (or_iff_right hq).symm

theorem PageMove.tracked (h : PageMove P d P') (hs : MarkSafe P d) (hc : P.Tracked) :
    P'.Tracked := by
  cases h with
  | @refill p va _ slot _ he =>
    obtain ⟨i, -, rfl⟩ := refill_eq (hs.inPages va rfl) he
    refine ⟨hc.tables, hc.page, ?_, hc.owner, hc.serving, hc.gone⟩
    exact touched_of_slot (x := (p, i)) (hc.tables.hi _) (hc.tables.isLocal _) (hc.page (p, i))
      hc.entry
  | @trap p pc s hgone hhit hv =>
    refine hc.keep rfl rfl rfl (fun _ h => h) ?_ hc.gone
    intro q hq
    dsimp only at hq
    by_cases hqp : q = p
    · exact hqp ▸ hc.entry s p pc hhit hv
    · rw [Function.update_of_ne hqp] at hq
      exact hc.serving q hq
  | skip => exact hc.keep rfl rfl rfl (fun _ h => h) hc.serving hc.gone
  | aim => exact hc.keep rfl rfl rfl (fun _ h => h) hc.serving hc.gone
  | @invalidate p f x =>
    have hlocal := invalidLo_local (hc.tables.isLocal x)
    have hinvalid : ¬ (PteEntry.mk (pteHi x.1 x.2) (invalidLo (P.pte x).entryLO)).valid :=
      PteEntry.invalid _ _
    refine ⟨hc.tables.update hlocal, ?_, touched_of_update hlocal (fun hv => absurd hv hinvalid)
      hc.entry, hc.owner, hc.serving, hc.gone⟩
    intro y hv
    dsimp only at hv
    by_cases hyx : y = x
    · subst hyx
      rw [Function.update_self] at hv
      exact absurd hv hinvalid
    · rw [Function.update_of_ne hyx] at hv
      exact hc.page y hv
  | @setFree p f =>
    refine ⟨hc.tables, hc.page, hc.entry, ?_, hc.serving, hc.gone⟩
    intro f' q ha
    dsimp only at ha
    by_cases hff : f' = f
    · subst hff
      rw [Function.update_self] at ha
      exact absurd ha.symm (asid_ne_free q)
    · rw [Function.update_of_ne hff] at ha
      exact hc.owner f' q ha
  | @install p f i =>
    set P' : Paging := { P with
      pte := Function.update P.pte (p, i) ⟨pteHi p i, frameLo f⟩
      tlb := (updateTlb (pteHi p i) (frameLo f) P.tlb).2
      spTbl := Function.update P.spTbl f ⟨asid p, KUSEG + BitVec.ofNat 32 i <<< VPNSHIFT, (p, i)⟩
      spAsids := P.spAsids ||| Mem.asidBit (asid p)
      spare := Function.update P.spare p none
      aim := Function.update P.aim p none }
    have hself : P'.Touched p := .inl ((marked_or P.spAsids).mpr (.inr rfl))
    have hkeep : ∀ q, P.Touched q → P'.Touched q := fun q hq =>
      hq.imp_left fun hm => (marked_or P.spAsids).mpr (.inl hm)
    have hlo := frameLo_local f
    refine ⟨hc.tables.update (x := (p, i)) hlo, ?_, touched_of_update (x := (p, i)) hlo
      (fun _ => hself) fun s q va h1 h2 => hkeep q (hc.entry s q va h1 h2), ?_,
      fun q hq => hkeep q (hc.serving q hq), ?_⟩
    · intro y hv
      by_cases hyx : y = (p, i)
      · rw [hyx]
        exact hself
      · have hpte : P'.pte y = P.pte y := Function.update_of_ne hyx ..
        rw [hpte] at hv
        exact hkeep y.1 (hc.page y hv)
    · intro f' q ha
      by_cases hff : f' = f
      · subst hff
        have htbl : P'.spTbl f' = ⟨asid p, KUSEG + BitVec.ofNat 32 i <<< VPNSHIFT, (p, i)⟩ :=
          Function.update_self ..
        rw [htbl] at ha
        exact asid_inj ha ▸ hself
      · have htbl : P'.spTbl f' = P.spTbl f' := Function.update_of_ne hff ..
        rw [htbl] at ha
        exact hkeep q (hc.owner f' q ha)
    · intro q hq hm
      have hne : q ≠ p := fun he => hs.lives p f i rfl (he ▸ hq)
      exact hc.gone q hq (((marked_or P.spAsids).mp hm).resolve_right hne)
  | @store p v hlive hserv =>
    have hmark : Marked P.spAsids p := (hc.serving p hserv).resolve_right hlive
    have hv : Cleared P.spAsids v p := hs.now p v rfl ▸ cleared_xor.mpr hmark
    have htouch : ∀ q, P.Touched q → Marked v q ∨ Function.update P.gone p True q := by
      intro q hq
      rw [gone_update]
      by_cases hqp : q = p
      · exact .inr (.inl hqp)
      · exact hq.imp (fun hm => (hv q).mpr ⟨hm, hqp⟩) .inr
    refine hc.keep rfl rfl rfl htouch (fun q hq => htouch q (hc.serving q hq)) ?_
    intro q hq hm
    obtain ⟨hmq, hqp⟩ := (hv q).mp hm
    exact hc.gone q ((gone_update.mp hq).resolve_left hqp) hmq
  | @die p =>
    have hgone : ∀ q, Function.update P.gone p True q ↔ P.gone q := by
      intro q
      rw [gone_update]
      exact or_iff_right_of_imp fun he => he ▸ hs.told p rfl
    have htouch : ∀ q, P.Touched q → Marked P.spAsids q ∨ Function.update P.gone p True q :=
      fun q hq => hq.imp_right (hgone q).mpr
    exact hc.keep rfl rfl rfl htouch (fun q hq => htouch q (hc.serving q hq))
      fun q hq => hc.gone q ((hgone q).mp hq)
  | @finish p =>
    refine hc.keep rfl rfl rfl (fun _ h => h) ?_ hc.gone
    intro q hq
    dsimp only at hq
    by_cases hqp : q = p
    · subst hqp
      rw [Function.update_self] at hq
      exact hq.elim
    · rw [Function.update_of_ne hqp] at hq
      exact hc.serving q hq
  | same => exact hc

/-! ## The frames of the processes that are gone -/

/-- The table of the swap pool names no process that is gone. -/
def Paging.Unowned (P : Paging) : Prop := ∀ p, P.gone p → ∀ f, (P.spTbl f).asid ≠ asid p

theorem PageMove.unowned (h : PageMove P d P') (hs : MarkSafe P d)
    (hstore : ∀ p v, d = .gave p (.act (.storeAsids v)) → ∀ f, (P.spTbl f).asid ≠ asid p)
    (hu : P.Unowned) : P'.Unowned := by
  intro q hq f'
  cases h with
  | @setFree p f =>
    by_cases hff : f' = f
    · subst hff
      dsimp only
      rw [Function.update_self]
      exact fun ha => asid_ne_free q ha.symm
    · dsimp only
      rw [Function.update_of_ne hff]
      exact hu q hq f'
  | @install p f i =>
    by_cases hff : f' = f
    · subst hff
      dsimp only
      rw [Function.update_self]
      -- the pager works for a process that lives
      exact fun ha => hs.lives p f' i rfl (asid_inj ha ▸ hq)
    · dsimp only
      rw [Function.update_of_ne hff]
      exact hu q hq f'
  | @store p v =>
    rcases gone_update.mp hq with rfl | hq
    · exact hstore q v rfl f'
    · exact hu q hq f'
  | @die p =>
    rcases gone_update.mp hq with rfl | hq
    · exact hu q (hs.told q rfl) f'
    · exact hu q hq f'
  | _ => exact hu q hq f'

end Rocm
