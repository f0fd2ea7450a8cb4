/-
  Comparing strings and bytes: `strcmp`, `strncmp` and `memcmp` of `string.c`.

  A `char` is signed and the bytes that differ are compared as `unsigned char`, which puts the
  terminator before every other character.  So all three give the lexicographic order of the unsigned
  bytes: of the strings, of their first characters, of as many bytes as they are given.
-/
import Mathlib
import CSemantics.Library.StringSearch

namespace CSemantics.StringSearch

/-! ## The functions -/

def strcmp : List CChar → List CChar → Option Int
  | x :: xs, y :: ys =>
    if x = y then (if x = 0 then some 0 else strcmp xs ys)
    else some (if x.toNat < y.toNat then -1 else 1)
  | _, _ => none

def memcmp : List CChar → List CChar → ℕ → Option Int
  | _, _, 0 => some 0
  | x :: xs, y :: ys, n + 1 =>
    if x ≠ y then some (if x.toNat < y.toNat then -1 else 1) else memcmp xs ys n
  | _, _, _ => none

/-! ## The order -/

/-- Characters as `unsigned char` -/
def bytes (l : List CChar) : List ℕ := l.map BitVec.toNat

/-- How two sequences are ordered. -/
def order (a b : List ℕ) : Int := if a < b then -1 else if b < a then 1 else 0

theorem order_cons (x y : ℕ) (a b : List ℕ) :
    order (x :: a) (y :: b) = if x < y then -1 else if y < x then 1 else order a b := by
  simp only [order, List.cons_lt_cons_iff]
  rcases lt_trichotomy x y with h | rfl | h
  · simp [h]
  · simp
  · have h1 : ¬ x < y := Nat.lt_asymm h
    simp [h, h1, h.ne']

theorem order_differ {x y : CChar} (h : x ≠ y) (a b : List CChar) :
    order (bytes (x :: a)) (bytes (y :: b)) = if x.toNat < y.toNat then -1 else 1 := by
  rw [bytes, bytes, List.map_cons, List.map_cons, order_cons]
  have hne : x.toNat ≠ y.toNat := fun heq => h (BitVec.eq_of_toNat_eq heq)
  by_cases hlt : x.toNat < y.toNat
  · rw [if_pos hlt, if_pos hlt]
  · rw [if_neg hlt, if_neg hlt, if_pos (by omega)]

theorem order_same (x : CChar) (a b : List CChar) :
    order (bytes (x :: a)) (bytes (x :: b)) = order (bytes a) (bytes b) := by
  rw [bytes, bytes, List.map_cons, List.map_cons, order_cons, if_neg (lt_irrefl _), if_neg (lt_irrefl _)]
  rfl

/-- The terminator is the least of the bytes. -/
theorem zero_lt_toNat {x : CChar} (h : x ≠ 0) : (0 : CChar).toNat < x.toNat :=
  Nat.pos_of_ne_zero fun h0 => h (BitVec.eq_of_toNat_eq h0)

theorem order_nil_cons {y : CChar} (hy : y ≠ 0) (b : List CChar) :
    order (bytes []) (bytes (y :: b)) = if (0 : CChar).toNat < y.toNat then -1 else 1 := by
  rw [if_pos (zero_lt_toNat hy)]
  rfl

theorem order_cons_nil {x : CChar} (hx : x ≠ 0) (a : List CChar) :
    order (bytes (x :: a)) (bytes []) = if x.toNat < (0 : CChar).toNat then -1 else 1 := by
  rw [if_neg (Nat.lt_asymm (zero_lt_toNat hx))]
  rfl

/-! ## The functions give the order -/

theorem strcmp_object {s : List CChar} : ∀ {t : List CChar}, 0 ∉ s → 0 ∉ t → ∀ rest rest',
    strcmp (s ++ 0 :: rest) (t ++ 0 :: rest') = some (order (bytes s) (bytes t)) := by
  induction s with
  | nil =>
    intro t _ ht rest rest'
    cases t with
    | nil => rfl
    | cons y t =>
      have hy := (nonzero_cons ht).1
      show (if (0 : CChar) = y then _ else _) = _
      rw [if_neg hy.symm, order_nil_cons hy]
  | cons x s ih =>
    intro t hs ht rest rest'
    obtain ⟨hx, hs⟩ := nonzero_cons hs
    cases t with
    | nil =>
      show (if x = 0 then _ else _) = _
      rw [if_neg hx, order_cons_nil hx]
    | cons y t =>
      show (if x = y then _ else _) = _
      by_cases hxy : x = y
      · subst hxy
        rw [if_pos rfl, if_neg hx, order_same]
        exact ih hs (nonzero_cons ht).2 rest rest'
      · rw [if_neg hxy, order_differ hxy]

theorem compareUnsigned_differ {x y : CChar} (h : x ≠ y) :
    compareUnsigned x y = if x.toNat < y.toNat then -1 else 1 := by
  have hne : x.toNat ≠ y.toNat := fun heq => h (BitVec.eq_of_toNat_eq heq)
  rw [compareUnsigned]
  by_cases hlt : x.toNat < y.toNat
  · rw [if_pos hlt, if_pos hlt]
  · rw [if_neg hlt, if_neg hlt, if_pos (by omega)]

theorem strncmpLoop_object {s : List CChar} : ∀ {t : List CChar} (n : ℕ), 0 ∉ s → 0 ∉ t → ∀ rest rest',
    strncmpLoop (n + 1) (s ++ 0 :: rest) (t ++ 0 :: rest') =
      some (order (bytes (s.take (n + 1))) (bytes (t.take (n + 1)))) := by
  induction s with
  | nil =>
    intro t n _ ht rest rest'
    cases t with
    | nil =>
      show (if (0 : CChar) = 0 then _ else _) = _
      rw [if_pos rfl, if_pos (.inr rfl)]
      rfl
    | cons y t =>
      have hy := (nonzero_cons ht).1
      show (if (0 : CChar) = y then _ else _) = _
      rw [if_neg hy.symm, compareUnsigned_differ hy.symm, List.take_nil, List.take_succ_cons, order_nil_cons hy]
  | cons x s ih =>
    intro t n hs ht rest rest'
    obtain ⟨hx, hs⟩ := nonzero_cons hs
    cases t with
    | nil =>
      show (if x = 0 then _ else _) = _
      rw [if_neg hx, compareUnsigned_differ hx, List.take_nil, List.take_succ_cons, order_cons_nil hx]
    | cons y t =>
      show (if x = y then _ else _) = _
      rw [List.take_succ_cons, List.take_succ_cons]
      by_cases hxy : x = y
      · subst hxy
        rw [if_pos rfl, order_same]
        cases n with
        | zero =>
          rw [if_pos (.inl rfl)]
          rfl
        | succ n =>
          rw [if_neg (not_or.2 ⟨Nat.succ_ne_zero n, hx⟩)]
          exact ih n hs (nonzero_cons ht).2 rest rest'
      · rw [if_neg hxy, compareUnsigned_differ hxy, order_differ hxy]

theorem memcmp_eq {n : ℕ} : ∀ {p q : List CChar}, n ≤ p.length → n ≤ q.length →
    memcmp p q n = some (order (bytes (p.take n)) (bytes (q.take n))) := by
  induction n with
  | zero =>
    intro p q _ _
    cases p <;> cases q <;> rfl
  | succ n ih =>
    intro p q hp hq
    cases p with
    | nil => exact absurd hp (Nat.not_succ_le_zero n)
    | cons x p =>
      cases q with
      | nil => exact absurd hq (Nat.not_succ_le_zero n)
      | cons y q =>
        rw [memcmp, List.take_succ_cons, List.take_succ_cons]
        by_cases hxy : x = y
        · subst hxy
          rw [if_neg (not_not.2 rfl), order_same]
          exact ih (Nat.le_of_succ_le_succ hp) (Nat.le_of_succ_le_succ hq)
        · rw [if_pos hxy, order_differ hxy]

/-- **The comparisons are lexicographic**, on unsigned bytes. -/
theorem compare_lexicographic (s t : CString) (n : ℕ) {p q : List CChar} (hp : n ≤ p.length) (hq : n ≤ q.length) :
    strcmp s.object t.object = some (order (bytes s.chars) (bytes t.chars)) ∧
      strncmp s.object t.object n = some (order (bytes (s.chars.take n)) (bytes (t.chars.take n))) ∧
      memcmp p q n = some (order (bytes (p.take n)) (bytes (q.take n))) := by
  refine ⟨strcmp_object s.nonzero t.nonzero _ _, ?_, memcmp_eq hp hq⟩
  rw [strncmp]
  cases n with
  | zero => rfl
  | succ n =>
    rw [if_neg (Nat.succ_ne_zero n)]
    exact strncmpLoop_object n s.nonzero t.nonzero _ _

/-- A byte above 127 is behind the others, though it is a negative `char`. -/
theorem memcmp_200 : memcmp [200] [100] 1 = some 1 :=
  (compare_lexicographic ⟨[], [], by decide⟩ ⟨[], [], by decide⟩ 1 (p := [200]) (q := [100]) (by decide)
    (by decide)).2.2.trans (by decide)

end CSemantics.StringSearch
