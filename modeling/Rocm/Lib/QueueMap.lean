import Mathlib.Data.List.Nodup
import Mathlib.Data.List.Count

/-!
# Finite maps to non-empty FIFO queues

A `QueueMap κ α` maps finitely many keys to non-empty lists. `get` reads the queue of a key, and
gives `[]` for a key that is not there; a key enters with its first element and leaves with
its last.
-/

/-- Distinct keys, each with a non-empty queue. -/
structure QueueMap (κ α : Type) where
  entries : List (κ × List α)
  keys_nodup : (entries.map Prod.fst).Nodup
  nonempty : ∀ e ∈ entries, e.2 ≠ []

namespace QueueMap

variable {κ α : Type}

/-- The elements of all queues. -/
def all (m : QueueMap κ α) : List α := m.entries.flatMap Prod.snd

def keys (m : QueueMap κ α) : List κ := m.entries.map Prod.fst

def size (m : QueueMap κ α) : Nat := m.entries.length

/-- The map with no key. -/
def empty : QueueMap κ α := ⟨[], by simp, by simp⟩

/-- Every key has at least one element. -/
theorem size_le_length_all (m : QueueMap κ α) : m.size ≤ m.all.length := by
  have key : ∀ es : List (κ × List α), (∀ e ∈ es, e.2 ≠ []) →
      es.length ≤ (es.flatMap Prod.snd).length := by
    intro es
    induction es with
    | nil => intro _; simp
    | cons e es ih =>
      intro h
      have h1 := ih (fun e he => h e (by simp [he]))
      have h2 : 0 < e.2.length := List.length_pos_iff.mpr (h e (by simp))
      simp only [List.length_cons, List.flatMap_cons, List.length_append]
      omega
  exact key m.entries m.nonempty

variable [DecidableEq κ]

/-- The queue of `k` among some entries. -/
def getIn (k : κ) : List (κ × List α) → List α
  | [] => []
  | e :: es => if e.1 = k then e.2 else getIn k es

/-- The queue of `k`. -/
def get (m : QueueMap κ α) (k : κ) : List α := getIn k m.entries

/-- Gives the entry of `k` the queue `q`, and drops it when `q` is empty. -/
def putIn (k : κ) (q : List α) : List (κ × List α) → List (κ × List α)
  | [] => []
  | e :: es => if e.1 = k then (if q = [] then es else (k, q) :: es) else e :: putIn k q es

theorem putIn_keys (k : κ) (q : List α) :
    ∀ es : List (κ × List α), ((putIn k q es).map Prod.fst).Sublist (es.map Prod.fst)
  | [] => .slnil
  | e :: es => by
    rw [putIn]
    split
    · next hk =>
      split
      · exact List.sublist_cons_self _ _
      · simp [hk]
    · exact (putIn_keys k q es).cons_cons _

theorem putIn_nonempty (k : κ) (q : List α) :
    ∀ es : List (κ × List α), (∀ e ∈ es, e.2 ≠ []) → ∀ e ∈ putIn k q es, e.2 ≠ []
  | [], _, e, he => by simp [putIn] at he
  | e :: es, h, e', he' => by
    rw [putIn] at he'
    split at he'
    · split at he'
      · exact h e' (List.mem_cons_of_mem e he')
      · next hq =>
        rcases List.mem_cons.mp he' with rfl | he'
        · exact hq
        · exact h e' (List.mem_cons_of_mem e he')
    · rcases List.mem_cons.mp he' with rfl | he'
      · exact h _ (by simp)
      · exact putIn_nonempty k q es (fun e he => h e (by simp [he])) e' he'

/-- Replaces the queue of a key that is there. -/
def put (m : QueueMap κ α) (k : κ) (q : List α) : QueueMap κ α :=
  ⟨putIn k q m.entries, (putIn_keys k q m.entries).nodup m.keys_nodup,
    putIn_nonempty k q m.entries m.nonempty⟩

/-- Appends `a` to the queue of `k`; a new key comes first. -/
def push (m : QueueMap κ α) (k : κ) (a : α) : QueueMap κ α :=
  if h : k ∈ m.keys then m.put k (m.get k ++ [a])
  else ⟨(k, [a]) :: m.entries, List.nodup_cons.mpr ⟨h, m.keys_nodup⟩, by
    intro e he
    rcases List.mem_cons.mp he with rfl | he
    · simp
    · exact m.nonempty e he⟩

/-- Takes the first element out of the queue of `k`. -/
def pop (m : QueueMap κ α) (k : κ) : QueueMap κ α := m.put k (m.get k).tail

/-- Takes `a` out of the queue of `k`. -/
def erase [DecidableEq α] (m : QueueMap κ α) (k : κ) (a : α) : QueueMap κ α :=
  m.put k ((m.get k).erase a)

/-! ## Reading back -/

theorem getIn_eq_nil_iff (k : κ) : ∀ es : List (κ × List α), (∀ e ∈ es, e.2 ≠ []) →
    (getIn k es = [] ↔ k ∉ es.map Prod.fst)
  | [], _ => by simp [getIn]
  | e :: es, h => by
    rw [getIn]
    split
    · next hk => simp [h e (by simp), hk]
    · next hk =>
      rw [getIn_eq_nil_iff k es (fun e he => h e (by simp [he]))]
      simp [Ne.symm hk]

theorem get_eq_nil_iff (m : QueueMap κ α) (k : κ) : m.get k = [] ↔ k ∉ m.keys :=
  getIn_eq_nil_iff k m.entries m.nonempty

theorem getIn_of_mem {k : κ} {q : List α} : ∀ {es : List (κ × List α)},
    (es.map Prod.fst).Nodup → (k, q) ∈ es → getIn k es = q
  | e :: es, hnd, h => by
    rw [List.map_cons, List.nodup_cons] at hnd
    rw [getIn]
    rcases List.mem_cons.mp h with rfl | h
    · simp
    · have hne : e.1 ≠ k := fun he => hnd.1 (List.mem_map.mpr ⟨(k, q), h, he.symm⟩)
      rw [if_neg hne]
      exact getIn_of_mem hnd.2 h

theorem getIn_mem {k : κ} : ∀ {es : List (κ × List α)},
    getIn k es ≠ [] → (k, getIn k es) ∈ es
  | [], h => absurd rfl h
  | e :: es, h => by
    rw [getIn] at h ⊢
    split
    · next hk => simp [← hk]
    · next hk =>
      rw [if_neg hk] at h
      exact List.mem_cons_of_mem e (getIn_mem h)

/-- An element is in some queue iff it is in the queue of some key. -/
theorem mem_all_iff (m : QueueMap κ α) (a : α) : a ∈ m.all ↔ ∃ k, a ∈ m.get k := by
  rw [all, List.mem_flatMap]
  constructor
  · rintro ⟨⟨k, q⟩, he, ha⟩
    exact ⟨k, by rw [get, getIn_of_mem m.keys_nodup he]; exact ha⟩
  · rintro ⟨k, ha⟩
    exact ⟨(k, m.get k), getIn_mem (List.ne_nil_of_mem ha), ha⟩

theorem getIn_putIn (k k' : κ) (q : List α) : ∀ es : List (κ × List α),
    (es.map Prod.fst).Nodup → k ∈ es.map Prod.fst →
      getIn k' (putIn k q es) = if k' = k then q else getIn k' es
  | e :: es, hnd, hk => by
    rw [List.map_cons, List.nodup_cons] at hnd
    rw [putIn]
    by_cases hek : e.1 = k
    · rw [if_pos hek]
      by_cases hk' : k' = k
      · subst hk'
        by_cases hq : q = []
        · have habs : k' ∉ es.map Prod.fst := hek ▸ hnd.1
          have hnil : ∀ es : List (κ × List α), k' ∉ es.map Prod.fst → getIn k' es = [] := by
            intro es
            induction es with
            | nil => intro _; rfl
            | cons f fs ih =>
              intro hf
              simp only [List.map_cons, List.mem_cons, not_or] at hf
              rw [getIn, if_neg (Ne.symm hf.1), ih hf.2]
          simp [hq, hnil es habs]
        · simp [hq, getIn]
      · have hne : e.1 ≠ k' := fun h => hk' (h.symm.trans hek)
        by_cases hq : q = []
        · simp [hq, hk', getIn, hne]
        · simp [hq, hk', getIn, hne, Ne.symm hk']
    · have hmem : k ∈ es.map Prod.fst := by
        rcases List.mem_cons.mp hk with h | h
        · exact absurd h.symm hek
        · exact h
      rw [if_neg hek, getIn, getIn, getIn_putIn k k' q es hnd.2 hmem]
      by_cases hk' : k' = k
      · subst hk'; simp [hek]
      · simp [hk']

theorem get_put {m : QueueMap κ α} {k : κ} (hk : k ∈ m.keys) (q : List α) (k' : κ) :
    (m.put k q).get k' = if k' = k then q else m.get k' :=
  getIn_putIn k k' q m.entries m.keys_nodup hk

theorem get_push (m : QueueMap κ α) (k k' : κ) (a : α) :
    (m.push k a).get k' = if k' = k then m.get k ++ [a] else m.get k' := by
  rw [push]
  split
  · next hk => exact get_put hk _ k'
  · next hk =>
    have hnil := (m.get_eq_nil_iff k).mpr hk
    rw [hnil]
    by_cases h : k' = k
    · subst h; simp [get, getIn]
    · simp [get, getIn, h, Ne.symm h]

theorem get_pop (m : QueueMap κ α) (k k' : κ) :
    (m.pop k).get k' = if k' = k then (m.get k).tail else m.get k' := by
  by_cases hk : k ∈ m.keys
  · exact get_put hk _ k'
  · have hid : m.pop k = m := by
      have hput : ∀ es : List (κ × List α), k ∉ es.map Prod.fst → ∀ q, putIn k q es = es := by
        intro es
        induction es with
        | nil => intros; rfl
        | cons e es ih =>
          intro he q
          simp only [List.map_cons, List.mem_cons, not_or] at he
          rw [putIn, if_neg (Ne.symm he.1), ih he.2]
      cases m
      simp only [pop, put, mk.injEq]
      exact hput _ hk _
    rw [hid, (m.get_eq_nil_iff k).mpr hk]
    by_cases h : k' = k
    · subst h; simp [(m.get_eq_nil_iff k').mpr hk]
    · simp [h]

theorem get_erase [DecidableEq α] {m : QueueMap κ α} {k : κ} (hk : k ∈ m.keys) (k' : κ) (a : α) :
    (m.erase k a).get k' = if k' = k then (m.get k).erase a else m.get k' :=
  get_put hk _ k'

theorem get_empty (k : κ) : (empty : QueueMap κ α).get k = [] := rfl

theorem keys_putIn (k : κ) {q : List α} (hq : q ≠ []) : ∀ es : List (κ × List α),
    (putIn k q es).map Prod.fst = es.map Prod.fst
  | [] => rfl
  | e :: es => by
    rw [putIn]
    split
    · next hk => simp [hk]
    · simp [keys_putIn k hq es]

theorem keys_putIn_nil (k : κ) : ∀ es : List (κ × List α),
    (putIn k [] es).map Prod.fst = (es.map Prod.fst).erase k
  | [] => rfl
  | e :: es => by
    rw [putIn]
    split
    · next hk => simp [hk]
    · next hk =>
      have hk' : (e.1 == k) = false := beq_eq_false_iff_ne.mpr hk
      simp [keys_putIn_nil k es, hk']

theorem keys_put (m : QueueMap κ α) (k : κ) (q : List α) :
    (m.put k q).keys = if q = [] then m.keys.erase k else m.keys := by
  split
  · next hq => subst hq; exact keys_putIn_nil k m.entries
  · next hq => exact keys_putIn k hq m.entries

theorem keys_push (m : QueueMap κ α) (k : κ) (a : α) :
    (m.push k a).keys = if k ∈ m.keys then m.keys else k :: m.keys := by
  rw [push]
  split
  · rw [keys_put, if_neg (by simp)]
  · rfl

/-! ## Counting -/

section Count

variable [DecidableEq α]

theorem count_putIn (k : κ) (q : List α) (a : α) : ∀ es : List (κ × List α),
    k ∈ es.map Prod.fst →
      ((putIn k q es).flatMap Prod.snd).count a + (getIn k es).count a =
        (es.flatMap Prod.snd).count a + q.count a
  | e :: es, hk => by
    rw [putIn, getIn]
    by_cases hek : e.1 = k
    · rw [if_pos hek, if_pos hek]
      by_cases hq : q = []
      · simp only [hq, if_true, List.flatMap_cons, List.count_append, List.count_nil]
        omega
      · simp only [hq, if_false, List.flatMap_cons, List.count_append]
        omega
    · have hmem : k ∈ es.map Prod.fst := by
        rcases List.mem_cons.mp hk with h | h
        · exact absurd h.symm hek
        · exact h
      rw [if_neg hek, if_neg hek]
      have ih := count_putIn k q a es hmem
      simp only [List.flatMap_cons, List.count_append]
      omega

theorem count_put {m : QueueMap κ α} {k : κ} (hk : k ∈ m.keys) (q : List α) (a : α) :
    (m.put k q).all.count a + (m.get k).count a = m.all.count a + q.count a :=
  count_putIn k q a m.entries hk

theorem count_push (m : QueueMap κ α) (k : κ) (b a : α) :
    (m.push k b).all.count a = m.all.count a + [b].count a := by
  rw [push]
  split
  · next hk =>
    have h := count_put hk (m.get k ++ [b]) a
    rw [List.count_append] at h
    omega
  · simp only [all, List.flatMap_cons, List.count_append]
    omega

theorem count_pop {m : QueueMap κ α} {k : κ} {b : α} {q : List α} (h : m.get k = b :: q) (a : α) :
    (m.pop k).all.count a + [b].count a = m.all.count a := by
  have hk : k ∈ m.keys := by
    by_contra hk
    rw [(m.get_eq_nil_iff k).mpr hk] at h
    cases h
  have hc := count_put hk (m.get k).tail a
  rw [h, List.tail_cons] at hc
  have : (b :: q).count a = q.count a + [b].count a := by
    rw [← List.singleton_append, List.count_append]; omega
  rw [pop, h, List.tail_cons]
  omega

theorem count_erase {m : QueueMap κ α} {k : κ} {b : α} (hb : b ∈ m.get k) (a : α) :
    (m.erase k b).all.count a + [b].count a = m.all.count a := by
  have hk : k ∈ m.keys := by
    by_contra hk
    rw [(m.get_eq_nil_iff k).mpr hk] at hb
    cases hb
  have hc := count_put hk ((m.get k).erase b) a
  rw [List.count_erase] at hc
  have hpos : 0 < (m.get k).count b := List.count_pos_iff.mpr hb
  rw [erase]
  by_cases hab : b = a
  · subst hab
    simp only [beq_self_eq_true, if_true, List.count_singleton_self] at hc ⊢
    omega
  · simp only [beq_iff_eq, hab, if_false, List.count_singleton] at hc ⊢
    omega

end Count

end QueueMap
