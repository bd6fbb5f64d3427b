import Rocm.Lib.Ring

/-!
# Families of intrusive lists

Nodes are the heads of lists and the elements that are in them. A `Family` is a partial map from
heads to lists that the links represent, with no element in two lists. Inserting, removing and
initialising change the list of one head.
-/

namespace Ring

variable {η μ : Type}

/-- A `list_head`: the head of a list, or the one inside an element. -/
inductive Node (η μ : Type) where
  | head (h : η)
  | elem (m : μ)
  deriving DecidableEq

/-- The nodes outside `S` have the same pointers in both. -/
def Frame {α : Type} (l l' : Links α) (S : List α) : Prop :=
  ∀ c, c ∉ S → l'.next c = l.next c ∧ l'.prev c = l.prev c

theorem IsRing.frame {α : Type} {l l' : Links α} {h : α} {xs S : List α} (hr : IsRing l h xs)
    (hf : Frame l l' S) (hS : ∀ c ∈ h :: xs, c ∉ S) : IsRing l' h xs :=
  hr.congr (fun c hc => (hf c (hS c hc)).1) fun c hc => (hf c (hS c hc)).2

section Frame

variable {α : Type} [DecidableEq α] (l : Links α) {x p n : α}

theorem frame_splice : Frame l (splice x p n l) [x, p, n] := by
  intro c hc
  simp only [List.mem_cons, List.not_mem_nil, or_false, not_or] at hc
  rw [splice_next, splice_prev, if_neg hc.2.1, if_neg hc.1, if_neg hc.1, if_neg hc.2.2]
  exact ⟨rfl, rfl⟩

theorem frame_bypass : Frame l (bypass p n l) [p, n] := by
  intro c hc
  simp only [List.mem_cons, List.not_mem_nil, or_false, not_or] at hc
  rw [bypass_next, bypass_prev, if_neg hc.1, if_neg hc.2]
  exact ⟨rfl, rfl⟩

theorem frame_selfLink : Frame l (selfLink x l) [x] := by
  intro c hc
  rw [List.mem_singleton] at hc
  rw [selfLink_next, selfLink_prev, if_neg hc, if_neg hc]
  exact ⟨rfl, rfl⟩

end Frame

/-- The links hold the list of every head that `Q` gives one. -/
structure Family (l : Links (Node η μ)) (Q : η → Option (List μ)) : Prop where
  ring : ∀ {h xs}, Q h = some xs → IsRing l (.head h) (xs.map .elem)
  disj : ∀ {h h' xs ys x}, Q h = some xs → Q h' = some ys → x ∈ xs → x ∈ ys → h = h'

/-- `x` is in the list of no head but `h`. -/
def OnlyIn (Q : η → Option (List μ)) (h : η) (x : μ) : Prop :=
  ∀ h' ys, Q h' = some ys → x ∈ ys → h' = h

/-- `x` is in no list. -/
def Absent (Q : η → Option (List μ)) (x : μ) : Prop := ∀ h ys, Q h = some ys → x ∉ ys

theorem Absent.onlyIn {Q : η → Option (List μ)} {x : μ} (h : Absent Q x) (h' : η) :
    OnlyIn Q h' x := fun h'' ys hQ hx => absurd hx (h h'' ys hQ)

theorem elem_notMem {h : η} {xs : List μ} {x : μ} (hx : x ∉ xs) :
    (Node.elem x : Node η μ) ∉ Node.head h :: xs.map .elem := by
  simpa using hx

variable {l l' : Links (Node η μ)} {Q : η → Option (List μ)} {h : η} {x : μ} {xs ys zs : List μ}

theorem Family.onlyIn (hf : Family l Q) (hQ : Q h = some xs) (hx : x ∈ xs) : OnlyIn Q h x :=
  fun _ _ hQ' hx' => hf.disj hQ' hQ hx' hx

/-- Some lists are given up. -/
theorem Family.mono {Q' : η → Option (List μ)} (hf : Family l Q)
    (h : ∀ h xs, Q' h = some xs → Q h = some xs) : Family l Q' :=
  ⟨fun hQ => hf.ring (h _ _ hQ), fun hQ hQ' => hf.disj (h _ _ hQ) (h _ _ hQ')⟩

/-- The nodes next to the head. -/
theorem getLastD_map (h : η) (xs : List μ) : (xs.map Node.elem).getLastD (.head h) = .head h ∨
    ∃ y ∈ xs, (xs.map Node.elem).getLastD (.head h) = .elem y := by
  rcases List.eq_nil_or_concat xs with rfl | ⟨ys, y, rfl⟩
  · exact .inl rfl
  · exact .inr ⟨y, by simp, by simp [List.getLastD_eq_getLast?]⟩

theorem headD_map (h : η) (xs : List μ) : (xs.map Node.elem).headD (.head h) = .head h ∨
    ∃ y ∈ xs, (xs.map Node.elem).headD (.head h) = .elem y := by
  cases xs with
  | nil => exact .inl rfl
  | cons y ys => exact .inr ⟨y, by simp, rfl⟩

variable [DecidableEq η]

/-- A change of the list of `h` that touches no other list. -/
theorem Family.update (hf : Family l Q) {S : List (Node η μ)} (hfr : Frame l l' S)
    (hS : ∀ c ∈ S, c = .head h ∨ ∃ x, c = .elem x ∧ OnlyIn Q h x)
    (hzs : ∀ x ∈ zs, OnlyIn Q h x) (hr : IsRing l' (.head h) (zs.map .elem)) :
    Family l' (Function.update Q h (some zs)) := by
  have hother : ∀ {h' ys}, h' ≠ h → Function.update Q h (some zs) h' = some ys → Q h' = some ys :=
    fun hne hQ => by rwa [Function.update_of_ne hne] at hQ
  refine ⟨fun {h' ys} hQ => ?_, fun {h1 h2 xs ys x} hQ1 hQ2 hx1 hx2 => ?_⟩
  · by_cases e : h' = h
    · subst e
      rw [Function.update_self, Option.some.injEq] at hQ
      rwa [← hQ]
    · have hQ' := hother e hQ
      refine (hf.ring hQ').frame hfr fun c hc hcS => ?_
      rcases hS c hcS with rfl | ⟨x, rfl, hx⟩
      · simp only [List.mem_cons, Node.head.injEq, List.mem_map, reduceCtorEq, and_false,
          exists_false, or_false] at hc
        exact e hc.symm
      · simp only [List.mem_cons, reduceCtorEq, List.mem_map, Node.elem.injEq, exists_eq_right,
          false_or] at hc
        exact e (hx h' ys hQ' hc)
  · by_cases e1 : h1 = h
    · by_cases e2 : h2 = h
      · rw [e1, e2]
      · subst e1
        rw [Function.update_self, Option.some.injEq] at hQ1
        exact absurd (hzs x (hQ1 ▸ hx1) h2 ys (hother e2 hQ2) hx2) e2
    · by_cases e2 : h2 = h
      · subst e2
        rw [Function.update_self, Option.some.injEq] at hQ2
        exact absurd (hzs x (hQ2 ▸ hx2) h1 xs (hother e1 hQ1) hx1) e1
      · exact hf.disj (hother e1 hQ1) (hother e2 hQ2) hx1 hx2

theorem absent_update (hx : Absent Q x) (hzs : x ∉ zs) : Absent (Function.update Q h (some zs)) x := by
  intro h' ys hQ
  rw [Function.update_apply] at hQ
  split at hQ
  · rw [← Option.some.inj hQ]; exact hzs
  · exact hx h' ys hQ

/-- An element that has been removed is in no list. -/
theorem Family.absent_remove (hf : Family l Q) (hQ : Q h = some (xs ++ x :: ys)) :
    Absent (Function.update Q h (some (xs ++ ys))) x := by
  intro h' zs hQ' hx
  rw [Function.update_apply] at hQ'
  split at hQ'
  · rw [← Option.some.inj hQ'] at hx
    have hnd : (xs ++ x :: ys).Nodup :=
      List.Nodup.of_map Node.elem (List.nodup_cons.mp (hf.ring hQ).nodup).2
    have := List.nodup_middle.mp hnd
    exact (List.nodup_cons.mp this).1 hx
  · next e => exact e (hf.onlyIn hQ (by simp) h' zs hQ' hx)

/-- The elements that are in no list are linked to themselves. -/
def SelfLinked (l : Links (Node η μ)) (Q : η → Option (List μ)) : Prop :=
  ∀ x, Absent Q x → l.next (.elem x) = some (.elem x)

theorem absent_of_update (hx : Absent (Function.update Q h (some zs)) x)
    (hsub : ∀ ys, Q h = some ys → x ∈ ys → x ∈ zs) : x ∉ zs ∧ Absent Q x := by
  have hzs : x ∉ zs := hx h zs (Function.update_self ..)
  refine ⟨hzs, fun h' ys hQ hmem => ?_⟩
  by_cases e : h' = h
  · subst e
    exact hzs (hsub ys hQ hmem)
  · exact hx h' ys (by rwa [Function.update_of_ne e]) hmem

/-- A list has grown, and no element outside it has been touched. -/
theorem SelfLinked.update (hs : SelfLinked l Q) {S : List (Node η μ)} (hfr : Frame l l' S)
    (hS : ∀ x, Node.elem x ∈ S → x ∈ zs) (hsub : ∀ ys, Q h = some ys → ∀ x ∈ ys, x ∈ zs) :
    SelfLinked l' (Function.update Q h (some zs)) := by
  intro x hx
  obtain ⟨hzs, hQ⟩ := absent_of_update hx fun ys hQ => hsub ys hQ x
  rw [(hfr _ fun hmem => hzs (hS x hmem)).1]
  exact hs x hQ

variable [DecidableEq μ]

theorem Family.push_front (hf : Family l Q) (hQ : Q h = some xs) (hx : Absent Q x) :
    Family (splice (.elem x) (.head h) ((xs.map Node.elem).headD (.head h)) l)
      (Function.update Q h (some (x :: xs))) := by
  refine hf.update (frame_splice l) (fun c hc => ?_) (fun y hy => ?_)
    ((hf.ring hQ).push_front (elem_notMem (hx h xs hQ)))
  · simp only [List.mem_cons, List.not_mem_nil, or_false] at hc
    rcases hc with rfl | rfl | rfl
    · exact .inr ⟨x, rfl, hx.onlyIn h⟩
    · exact .inl rfl
    · exact (headD_map h xs).imp id fun ⟨y, hy, e⟩ => ⟨y, e, hf.onlyIn hQ hy⟩
  · rcases List.mem_cons.mp hy with rfl | hy
    · exact hx.onlyIn h
    · exact hf.onlyIn hQ hy

theorem Family.push_back (hf : Family l Q) (hQ : Q h = some xs) (hx : Absent Q x) :
    Family (splice (.elem x) ((xs.map Node.elem).getLastD (.head h)) (.head h) l)
      (Function.update Q h (some (xs ++ [x]))) := by
  have hring := (hf.ring hQ).push_back (elem_notMem (hx h xs hQ))
  refine hf.update (frame_splice l) (fun c hc => ?_) (fun y hy => ?_) (by simpa using hring)
  · simp only [List.mem_cons, List.not_mem_nil, or_false] at hc
    rcases hc with rfl | rfl | rfl
    · exact .inr ⟨x, rfl, hx.onlyIn h⟩
    · exact (getLastD_map h xs).imp id fun ⟨y, hy, e⟩ => ⟨y, e, hf.onlyIn hQ hy⟩
    · exact .inl rfl
  · rcases List.mem_append.mp hy with hy | hy
    · exact hf.onlyIn hQ hy
    · rw [List.mem_singleton.mp hy]
      exact hx.onlyIn h

theorem SelfLinked.push_front (hs : SelfLinked l Q) (hQ : Q h = some xs) :
    SelfLinked (splice (.elem x) (.head h) ((xs.map Node.elem).headD (.head h)) l)
      (Function.update Q h (some (x :: xs))) := by
  refine hs.update (frame_splice l) (fun y hy => ?_) (fun ys hQ' y hy => ?_)
  · simp only [List.mem_cons, Node.elem.injEq, reduceCtorEq, List.not_mem_nil, or_false,
      false_or] at hy
    rcases hy with rfl | hy
    · simp
    · rcases headD_map h xs with e | ⟨z, hz, e⟩ <;> rw [e] at hy <;> cases hy
      exact List.mem_cons_of_mem x hz
  · rw [hQ, Option.some.injEq] at hQ'
    exact List.mem_cons_of_mem x (hQ' ▸ hy)

theorem SelfLinked.push_back (hs : SelfLinked l Q) (hQ : Q h = some xs) :
    SelfLinked (splice (.elem x) ((xs.map Node.elem).getLastD (.head h)) (.head h) l)
      (Function.update Q h (some (xs ++ [x]))) := by
  refine hs.update (frame_splice l) (fun y hy => ?_) (fun ys hQ' y hy => ?_)
  · simp only [List.mem_cons, Node.elem.injEq, reduceCtorEq, List.not_mem_nil, or_false] at hy
    rcases hy with rfl | hy
    · simp
    · rcases getLastD_map h xs with e | ⟨z, hz, e⟩ <;> rw [e] at hy <;> cases hy
      exact List.mem_append_left [x] hz
  · rw [hQ, Option.some.injEq] at hQ'
    exact List.mem_append_left [x] (hQ' ▸ hy)

theorem SelfLinked.init (hs : SelfLinked l Q) (hQ : Q h = none) :
    SelfLinked (selfLink (.head h) l) (Function.update Q h (some [])) :=
  hs.update (frame_selfLink l) (by simp) fun ys hQ' => by rw [hQ] at hQ'; cases hQ'

/-- An element is removed and then initialised. -/
theorem SelfLinked.remove (hs : SelfLinked l Q) (hQ : Q h = some (xs ++ x :: ys)) :
    SelfLinked (selfLink (.elem x) (bypass ((xs.map Node.elem).getLastD (.head h))
      ((ys.map Node.elem).headD (.head h)) l)) (Function.update Q h (some (xs ++ ys))) := by
  intro z hz
  rw [selfLink_next]
  split
  · next e => rw [e]
  · next e =>
    have hzx : z ≠ x := fun hzx => e (by rw [hzx])
    obtain ⟨hzs, hQz⟩ := absent_of_update hz fun zs hQ' hmem => by
      rw [hQ, Option.some.injEq] at hQ'
      rw [← hQ'] at hmem
      simpa [hzx] using hmem
    rw [(frame_bypass l _ fun hmem => ?_).1]
    · exact hs z hQz
    · simp only [List.mem_cons, List.not_mem_nil, or_false] at hmem
      rcases hmem with hmem | hmem
      · rcases getLastD_map h xs with e | ⟨w, hw, e⟩ <;> rw [e] at hmem <;> cases hmem
        exact hzs (List.mem_append_left ys hw)
      · rcases headD_map h ys with e | ⟨w, hw, e⟩ <;> rw [e] at hmem <;> cases hmem
        exact hzs (List.mem_append_right xs hw)

theorem Family.remove (hf : Family l Q) (hQ : Q h = some (xs ++ x :: ys)) :
    Family (bypass ((xs.map Node.elem).getLastD (.head h)) ((ys.map Node.elem).headD (.head h)) l)
      (Function.update Q h (some (xs ++ ys))) := by
  have hring := hf.ring hQ
  rw [List.map_append, List.map_cons] at hring
  refine hf.update (frame_bypass l) (fun c hc => ?_) (fun y hy => ?_)
    (by simpa using hring.remove)
  · simp only [List.mem_cons, List.not_mem_nil, or_false] at hc
    rcases hc with rfl | rfl
    · exact (getLastD_map h xs).imp id fun ⟨y, hy, e⟩ => ⟨y, e, hf.onlyIn hQ (by simp [hy])⟩
    · exact (headD_map h ys).imp id fun ⟨y, hy, e⟩ => ⟨y, e, hf.onlyIn hQ (by simp [hy])⟩
  · rcases List.mem_append.mp hy with hy | hy <;> exact hf.onlyIn hQ (by simp [hy])

/-- A head is initialised. -/
theorem Family.init (hf : Family l Q) (h : η) :
    Family (selfLink (.head h) l) (Function.update Q h (some [])) :=
  hf.update (frame_selfLink l) (fun c hc => .inl (List.mem_singleton.mp hc)) (by simp)
    (isRing_selfLink _ l)

/-- An element that is in no list is initialised. -/
theorem Family.initElem (hf : Family l Q) (hx : Absent Q x) : Family (selfLink (.elem x) l) Q where
  ring {h xs} hQ := by
    refine (hf.ring hQ).frame (frame_selfLink l) fun c hc hcx => ?_
    rw [List.mem_singleton.mp hcx] at hc
    exact elem_notMem (hx h xs hQ) hc
  disj := hf.disj

end Ring
