import Mathlib.Logic.Function.Basic
import Mathlib.Data.List.Nodup

/-!
# Circular doubly linked lists

Nodes of any type `α` carry a `next` and a `prev` pointer. `IsRing l h xs` says that from the
head `h` the `next` pointers run through `xs` and back to `h`, and the `prev` pointers run the
other way. A node is inserted between two neighbours by `splice` and taken out by `bypass`;
both leave alone every ring that contains none of the nodes they write to.
-/

namespace Ring

variable {α : Type}

/-- The pointers of the nodes; `none` is a pointer to no node. -/
structure Links (α : Type) where
  next : α → Option α
  prev : α → Option α

section Writes

variable [DecidableEq α]

def Links.setNext (l : Links α) (a : α) (v : Option α) : Links α :=
  { l with next := Function.update l.next a v }

def Links.setPrev (l : Links α) (a : α) (v : Option α) : Links α :=
  { l with prev := Function.update l.prev a v }

/-- Writes `x` between the neighbours `p` and `n`. -/
def splice (x p n : α) (l : Links α) : Links α :=
  (((l.setPrev n (some x)).setNext x (some n)).setPrev x (some p)).setNext p (some x)

/-- Links `p` and `n` to each other. -/
def bypass (p n : α) (l : Links α) : Links α :=
  (l.setPrev n (some p)).setNext p (some n)

/-- Links `a` to itself. -/
def selfLink (a : α) (l : Links α) : Links α :=
  (l.setNext a (some a)).setPrev a (some a)

theorem splice_next (x p n a : α) (l : Links α) :
    (splice x p n l).next a = if a = p then some x else if a = x then some n else l.next a := by
  simp only [splice, Links.setNext, Links.setPrev, Function.update_apply]

theorem splice_prev (x p n a : α) (l : Links α) :
    (splice x p n l).prev a = if a = x then some p else if a = n then some x else l.prev a := by
  simp only [splice, Links.setNext, Links.setPrev, Function.update_apply]

theorem bypass_next (p n a : α) (l : Links α) :
    (bypass p n l).next a = if a = p then some n else l.next a := by
  simp only [bypass, Links.setNext, Links.setPrev, Function.update_apply]

theorem bypass_prev (p n a : α) (l : Links α) :
    (bypass p n l).prev a = if a = n then some p else l.prev a := by
  simp only [bypass, Links.setNext, Links.setPrev, Function.update_apply]

theorem selfLink_next (a b : α) (l : Links α) :
    (selfLink a l).next b = if b = a then some a else l.next b := by
  simp only [selfLink, Links.setNext, Links.setPrev, Function.update_apply]

theorem selfLink_prev (a b : α) (l : Links α) :
    (selfLink a l).prev b = if b = a then some a else l.prev b := by
  simp only [selfLink, Links.setNext, Links.setPrev, Function.update_apply]

end Writes

/-! ## Paths and rings -/

/-- `next` leads from `a` through `xs` to `b`, and `prev` back. -/
def Path (l : Links α) : α → List α → α → Prop
  | a, [], b => l.next a = some b ∧ l.prev b = some a
  | a, x :: xs, b => (l.next a = some x ∧ l.prev x = some a) ∧ Path l x xs b

/-- The ring of the head `h` has the elements `xs`. -/
structure IsRing (l : Links α) (h : α) (xs : List α) : Prop where
  path : Path l h xs h
  nodup : (h :: xs).Nodup

theorem path_append {l : Links α} {y b : α} {ys : List α} :
    ∀ {a : α} {xs : List α}, Path l a (xs ++ y :: ys) b ↔ Path l a xs y ∧ Path l y ys b
  | _, [] => Iff.rfl
  | _, x :: xs => by
    simp only [List.cons_append, Path, path_append, and_assoc]

/-- A path only depends on the `next` of its first and the `prev` of its last node, and on both
    pointers of the nodes between. -/
theorem Path.congr {l l' : Links α} {b : α} : ∀ {a : α} {xs : List α},
    (∀ c ∈ a :: xs, l'.next c = l.next c) → (∀ c ∈ b :: xs, l'.prev c = l.prev c) →
      Path l a xs b → Path l' a xs b
  | a, [], hn, hp, h => ⟨(hn a (by simp)).trans h.1, (hp b (by simp)).trans h.2⟩
  | a, x :: xs, hn, hp, h => by
    refine ⟨⟨(hn a (by simp)).trans h.1.1, (hp x (by simp)).trans h.1.2⟩, ?_⟩
    apply Path.congr (l := l) _ _ h.2
    · intro c hc
      exact hn c (List.mem_cons_of_mem a hc)
    · intro c hc
      rcases List.mem_cons.mp hc with rfl | hc
      · exact hp c (by simp)
      · exact hp c (by simp [hc])

/-- Writes outside a ring leave it alone. -/
theorem IsRing.congr {l l' : Links α} {h : α} {xs : List α}
    (hn : ∀ c ∈ h :: xs, l'.next c = l.next c) (hp : ∀ c ∈ h :: xs, l'.prev c = l.prev c)
    (hr : IsRing l h xs) : IsRing l' h xs :=
  ⟨hr.path.congr hn hp, hr.nodup⟩

/-- The first node after `h`: the first element, or `h` itself. -/
theorem Path.next_first {l : Links α} {a b : α} {xs : List α} (h : Path l a xs b) :
    l.next a = some (xs.headD b) := by
  cases xs with
  | nil => exact h.1
  | cons x xs => exact h.1.1

theorem Path.prev_last {l : Links α} {b : α} : ∀ {a : α} {xs : List α}, Path l a xs b →
    l.prev b = some (xs.getLastD a)
  | _, [], h => h.2
  | _, x :: xs, h => by
    have hl := Path.prev_last h.2
    rw [hl, List.getLastD_cons]

theorem IsRing.eq_nil_iff {l : Links α} {h : α} {xs : List α} (hr : IsRing l h xs) :
    l.next h = some h ↔ xs = [] := by
  rw [hr.path.next_first]
  cases xs with
  | nil => simp
  | cons x xs =>
    have hne : x ≠ h := by
      have := (List.nodup_cons.mp hr.nodup).1
      intro hx
      exact this (by simp [hx])
    simp [hne]

section Surgery

variable {l : Links α} {h x : α} {xs ys : List α}

/-- The neighbours of an element of a ring. -/
theorem IsRing.neighbours (hr : IsRing l h (xs ++ x :: ys)) :
    l.prev x = some (xs.getLastD h) ∧ l.next x = some (ys.headD h) := by
  obtain ⟨h1, h2⟩ := path_append.mp hr.path
  exact ⟨h1.prev_last, h2.next_first⟩

variable [DecidableEq α]

/-- A node linked to itself is the head of an empty ring. -/
theorem isRing_selfLink (h : α) (l : Links α) : IsRing (selfLink h l) h [] :=
  ⟨⟨by simp [selfLink_next], by simp [selfLink_prev]⟩, by simp⟩

/-- Insertion after the head. -/
theorem IsRing.push_front (hr : IsRing l h xs) (hx : x ∉ h :: xs) :
    IsRing (splice x h (xs.headD h) l) h (x :: xs) := by
  have hxh : x ≠ h := fun e => hx (by simp [e])
  have hxs : x ∉ xs := fun e => hx (by simp [e])
  have hh := (List.nodup_cons.mp hr.nodup).1
  refine ⟨⟨⟨?_, ?_⟩, ?_⟩, ?_⟩
  · rw [splice_next, if_pos rfl]
  · rw [splice_prev, if_pos rfl]
  · cases xs with
    | nil => exact ⟨by simp [splice_next, hxh], by simp [splice_prev, hxh.symm]⟩
    | cons y ys =>
      have hy := (List.nodup_cons.mp (List.nodup_cons.mp hr.nodup).2).1
      refine ⟨⟨by simp [splice_next, hxh], ?_⟩, hr.path.2.congr ?_ ?_⟩
      · rw [splice_prev, if_neg (fun e => hxs (by simp [e])), List.headD_cons, if_pos rfl]
      · intro c hc
        rw [splice_next, if_neg (ne_of_mem_of_not_mem hc hh),
          if_neg (ne_of_mem_of_not_mem hc hxs)]
      · intro c hc
        have hcx : c ≠ x := by
          rcases List.mem_cons.mp hc with rfl | hc
          · exact hxh.symm
          · exact ne_of_mem_of_not_mem (List.mem_cons_of_mem y hc) hxs
        have hcy : c ≠ y := by
          rcases List.mem_cons.mp hc with rfl | hc
          · exact fun e => hh (by simp [e])
          · exact ne_of_mem_of_not_mem hc hy
        rw [splice_prev, if_neg hcx, List.headD_cons, if_neg hcy]
  · have hnd := hr.nodup
    simp only [List.nodup_cons, List.mem_cons, not_or] at hnd ⊢
    exact ⟨⟨hxh.symm, hnd.1⟩, hxs, hnd.2⟩

/-- Insertion before the head. -/
theorem IsRing.push_back (hr : IsRing l h xs) (hx : x ∉ h :: xs) :
    IsRing (splice x (xs.getLastD h) h l) h (xs ++ [x]) := by
  have hxh : x ≠ h := fun e => hx (by simp [e])
  have hxs : x ∉ xs := fun e => hx (by simp [e])
  have hh := (List.nodup_cons.mp hr.nodup).1
  have hnd := (List.nodup_cons.mp hr.nodup).2
  refine ⟨?_, ?_⟩
  · -- the last edge of the old path is the one that is cut
    rcases List.eq_nil_or_concat xs with rfl | ⟨ys, p, rfl⟩
    · exact ⟨⟨by simp [splice_next], by simp [splice_prev]⟩,
        by simp [splice_next, hxh], by simp [splice_prev, hxh.symm]⟩
    · rw [List.concat_eq_append] at *
      have hp : (ys ++ [p]).getLastD h = p := by simp [List.getLastD_eq_getLast?]
      rw [hp, List.append_assoc, List.singleton_append, path_append]
      have hpath := path_append.mp hr.path
      have hpy : p ∉ ys := by
        have := (List.nodup_append.mp hnd).2.2
        intro hmem
        exact this p hmem p (by simp) rfl
      have hph : p ≠ h := fun e => hh (by simp [e])
      have hpx : p ≠ x := fun e => hxs (by simp [e])
      refine ⟨hpath.1.congr ?_ ?_, ⟨by simp [splice_next], by simp [splice_prev]⟩,
        by simp [splice_next, hpx.symm], by simp [splice_prev, hxh.symm]⟩
      · intro c hc
        have hcp : c ≠ p := by
          rcases List.mem_cons.mp hc with rfl | hc
          · exact hph.symm
          · exact ne_of_mem_of_not_mem hc hpy
        have hcx : c ≠ x := by
          rcases List.mem_cons.mp hc with rfl | hc
          · exact hxh.symm
          · exact ne_of_mem_of_not_mem (List.mem_append_left [p] hc) hxs
        rw [splice_next, if_neg hcp, if_neg hcx]
      · intro c hc
        have hmem : c ∈ ys ++ [p] := by
          rcases List.mem_cons.mp hc with rfl | hc <;> simp [*]
        rw [splice_prev, if_neg (ne_of_mem_of_not_mem hmem hxs),
          if_neg (ne_of_mem_of_not_mem hmem hh)]
  · rw [← List.cons_append]
    exact List.Nodup.append hr.nodup (by simp) (by simpa using ⟨hxh, hxs⟩)

/-- Removal from any position. -/
theorem IsRing.remove (hr : IsRing l h (xs ++ x :: ys)) :
    IsRing (bypass (xs.getLastD h) (ys.headD h) l) h (xs ++ ys) := by
  obtain ⟨h1, h2⟩ := path_append.mp hr.path
  have hnd := hr.nodup
  rw [List.nodup_cons] at hnd
  obtain ⟨hh, hnd⟩ := hnd
  rw [List.mem_append, List.mem_cons, not_or, not_or] at hh
  obtain ⟨hhx, hxh, hhy⟩ := hh
  obtain ⟨ndx, ndy, disj⟩ := List.nodup_append.mp hnd
  have hxy : x ∉ ys := (List.nodup_cons.mp ndy).1
  have hdisj : ∀ c ∈ xs, c ∉ ys := fun c hc hc' => disj c hc c (List.mem_cons_of_mem x hc') rfl
  set p := xs.getLastD h with hpdef
  set n := ys.headD h with hndef
  have hpmem : p ∈ h :: xs := by
    rcases List.eq_nil_or_concat xs with rfl | ⟨zs, z, rfl⟩
    · simp [hpdef]
    · simp [hpdef, List.getLastD_eq_getLast?]
  have hnmem : n ∈ h :: ys := by
    cases ys <;> simp [hndef]
  refine ⟨?_, ?_⟩
  · -- the path before `x` and the path after it, joined by the new edge
    have before : ∀ zs z, xs = zs ++ [z] → Path (bypass p n l) h zs z := by
      rintro zs z rfl
      have hpz : p = z := by simp [hpdef, List.getLastD_eq_getLast?]
      have hz : z ∉ zs := fun hmem => (List.nodup_append.mp ndx).2.2 z hmem z (by simp) rfl
      refine (path_append.mp h1).1.congr ?_ ?_
      · intro c hc
        have hcz : c ≠ z := by
          rcases List.mem_cons.mp hc with rfl | hc
          · exact fun e => hhx (by simp [e])
          · exact ne_of_mem_of_not_mem hc hz
        rw [bypass_next, hpz, if_neg hcz]
      · intro c hc
        have hcm : c ∈ zs ++ [z] := by
          rcases List.mem_cons.mp hc with rfl | hc <;> simp [*]
        have hcn : c ≠ n := by
          intro e
          rcases List.mem_cons.mp hnmem with hn | hn
          · exact hhx (hn ▸ e ▸ hcm)
          · exact hdisj c hcm (e ▸ hn)
        rw [bypass_prev, if_neg hcn]
    have after : ∀ z zs, ys = z :: zs → Path (bypass p n l) z zs h := by
      rintro z zs rfl
      have hnz : n = z := by simp [hndef]
      have hz : z ∉ zs := (List.nodup_cons.mp (List.nodup_cons.mp ndy).2).1
      refine h2.2.congr ?_ ?_
      · intro c hc
        have hcp : c ≠ p := by
          intro e
          rcases List.mem_cons.mp hpmem with hp | hp
          · exact hhy (hp ▸ e ▸ hc)
          · exact hdisj p hp (e ▸ hc)
        rw [bypass_next, if_neg hcp]
      · intro c hc
        have hcz : c ≠ z := by
          rcases List.mem_cons.mp hc with rfl | hc
          · exact fun e => hhy (by simp [e])
          · exact ne_of_mem_of_not_mem hc hz
        rw [bypass_prev, hnz, if_neg hcz]
    rcases List.eq_nil_or_concat xs with hxs | ⟨zs, z, hxs⟩
    · have hph : p = h := by simp [hpdef, hxs]
      subst hxs
      cases hys : ys with
      | nil =>
        have hnh : n = h := by simp [hndef, hys]
        exact ⟨by simp [bypass_next, hph, hnh], by simp [bypass_prev, hph, hnh]⟩
      | cons y zs =>
        have hny : n = y := by simp [hndef, hys]
        exact ⟨⟨by simp [bypass_next, hph, hny], by simp [bypass_prev, hph, hny]⟩,
          after y zs hys⟩
    · rw [List.concat_eq_append] at hxs
      have hpz : p = z := by simp [hpdef, hxs, List.getLastD_eq_getLast?]
      rw [hxs, List.append_assoc, List.singleton_append, path_append]
      refine ⟨before zs z hxs, ?_⟩
      cases hys : ys with
      | nil =>
        have hnh : n = h := by simp [hndef, hys]
        exact ⟨by simp [bypass_next, hpz, hnh], by simp [bypass_prev, hpz, hnh]⟩
      | cons y zs =>
        have hny : n = y := by simp [hndef, hys]
        exact ⟨⟨by simp [bypass_next, hpz, hny], by simp [bypass_prev, hpz, hny]⟩,
          after y zs hys⟩
  · rw [List.nodup_cons, List.mem_append, not_or]
    refine ⟨⟨hhx, hhy⟩, ?_⟩
    rw [List.nodup_append]
    exact ⟨ndx, (List.nodup_cons.mp ndy).2, fun a ha b hb => disj a ha b (List.mem_cons_of_mem x hb)⟩

end Surgery

/-! ## Walking a ring -/

/-- What a walk from the node after `h` meets: a node that satisfies `f`, the head again, a
    pointer to no node, or none of these within the given number of steps. -/
inductive Walk (α : Type) where
  | hit (a : α)
  | stop
  | null
  | endless

/-- The loop `for (pos = start; pos != head; pos = pos->next)` with an early exit. -/
def walk [DecidableEq α] (l : Links α) (head : α) (f : α → Bool) : Nat → Option α → Walk α
  | 0, _ => .endless
  | _ + 1, none => .null
  | n + 1, some pos =>
    if pos = head then .stop else if f pos then .hit pos else walk l head f n (l.next pos)

/-- A walk over a ring finds what a search of its list finds. -/
theorem IsRing.walk_eq [DecidableEq α] {l : Links α} {h : α} {xs : List α} (f : α → Bool)
    (hr : IsRing l h xs) : ∀ {n : Nat}, xs.length < n →
      walk l h f n (l.next h) = match xs.find? f with | some a => .hit a | none => .stop := by
  have key : ∀ (ys : List α) (a : α) (n : Nat), Path l a ys h → h ∉ ys → ys.length < n →
      walk l h f n (l.next a) = match ys.find? f with | some a => .hit a | none => .stop := by
    intro ys
    induction ys with
    | nil =>
      intro a n hp _ hn
      obtain ⟨n, rfl⟩ : ∃ m, n = m + 1 := ⟨n - 1, by simp at hn; omega⟩
      rw [hp.1, walk, if_pos rfl]
      rfl
    | cons y ys ih =>
      intro a n hp hh hn
      obtain ⟨n, rfl⟩ : ∃ m, n = m + 1 := ⟨n - 1, by simp at hn; omega⟩
      have hy : y ≠ h := fun e => hh (by simp [e])
      rw [hp.1.1, walk, if_neg hy, List.find?_cons]
      cases hf : f y with
      | true => simp
      | false =>
        simpa using ih y n hp.2 (fun e => hh (List.mem_cons_of_mem y e)) (by simpa using hn)
  intro n hn
  exact key xs h n hr.path (List.nodup_cons.mp hr.nodup).1 hn

/-- The nodes from `start` up to the head, when the walk gets there. -/
def toList [DecidableEq α] (l : Links α) (head : α) : Nat → Option α → Option (List α)
  | 0, _ => none
  | _ + 1, none => none
  | n + 1, some pos =>
    if pos = head then some [] else (toList l head n (l.next pos)).map (pos :: ·)

theorem IsRing.toList_eq [DecidableEq α] {l : Links α} {h : α} {xs : List α}
    (hr : IsRing l h xs) : ∀ {n : Nat}, xs.length < n → toList l h n (l.next h) = some xs := by
  have key : ∀ (ys : List α) (a : α) (n : Nat), Path l a ys h → h ∉ ys → ys.length < n →
      toList l h n (l.next a) = some ys := by
    intro ys
    induction ys with
    | nil =>
      intro a n hp _ hn
      obtain ⟨n, rfl⟩ : ∃ m, n = m + 1 := ⟨n - 1, by simp at hn; omega⟩
      rw [hp.1, toList, if_pos rfl]
    | cons y ys ih =>
      intro a n hp hh hn
      obtain ⟨n, rfl⟩ : ∃ m, n = m + 1 := ⟨n - 1, by simp at hn; omega⟩
      have hy : y ≠ h := fun e => hh (by simp [e])
      rw [hp.1.1, toList, if_neg hy,
        ih y n hp.2 (fun e => hh (List.mem_cons_of_mem y e)) (by simpa using hn)]
      rfl
  intro n hn
  exact key xs h n hr.path (List.nodup_cons.mp hr.nodup).1 hn

end Ring
