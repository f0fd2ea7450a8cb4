/-
  Bits of unbounded integers.

  An unbounded integer is read as an infinite two's-complement bit string, so masking with
  `2 ^ k - 1` is the Euclidean remainder even for a NEGATIVE number, and or-ing a number below
  `2 ^ k` into one shifted up by `k` is addition.  The rest is about `slice x lo w`, the bits
  `[lo, lo + w)` of `x` as a number:

      slice_add         adjacent slices join
      slice_emod        a slice does not see a reduction modulo a higher power
      slice_join_low    below the seam of `b * 2 ^ k + a` only `a` is seen
      slice_join_high   above it only `b` is

  **Nothing here knows about bytes, types or memory**: a width is any natural number.
-/
import Mathlib.Data.Int.Bitwise
import Mathlib.Tactic.Ring
import Mathlib.Tactic.Linarith

namespace CSemantics.IntBits

/-! ## Masks and joins -/

private theorem two_pow_succ_sub_one (k : Nat) : (2 : Int) ^ (k + 1) - 1 = Int.bit true (2 ^ k - 1) := by
  rw [Int.bit_val]
  have h : (2 : Int) ^ (k + 1) = 2 * 2 ^ k := by ring
  simp only [cond_true]
  omega

/-- The low bit and the rest of a number. -/
private theorem bodd_add_two_mul (x : Int) : x = 2 * (x / 2) + cond (Int.bodd x) 1 0 := by
  have h := Int.bodd_add_div2 x
  rw [Int.div2_val] at h
  omega

/-- The remainder modulo `2 ^ (k + 1)`, one bit at a time. -/
private theorem emod_two_pow_succ (x : Int) (k : Nat) :
    x % 2 ^ (k + 1) = 2 * (x / 2 % 2 ^ k) + cond (Int.bodd x) 1 0 := by
  have hx := bodd_add_two_mul x
  have hp : (0 : Int) < 2 ^ k := by positivity
  have hr := Int.emod_nonneg (x / 2) (ne_of_gt hp)
  have hl := Int.emod_lt_of_pos (x / 2) hp
  have hq := Int.emod_add_mul_ediv (x / 2) (2 ^ k)
  have hbit : (0 : Int) ≤ cond (Int.bodd x) 1 0 ∧ (cond (Int.bodd x) 1 0 : Int) ≤ 1 := by
    cases Int.bodd x <;> simp
  have hsplit : x = (2 * (x / 2 % 2 ^ k) + cond (Int.bodd x) 1 0) + 2 ^ (k + 1) * (x / 2 / 2 ^ k) := by
    have : (2 : Int) ^ (k + 1) * (x / 2 / 2 ^ k) = 2 * (2 ^ k * (x / 2 / 2 ^ k)) := by ring
    omega
  have hpow : (2 : Int) ^ (k + 1) = 2 * 2 ^ k := by ring
  rw [hsplit, Int.add_mul_emod_self_left]
  rw [← hsplit]
  exact Int.emod_eq_of_lt (by omega) (by omega)

/-- **Masking is the Euclidean remainder**, for negative numbers too. -/
theorem land_mask (x : Int) (k : Nat) : Int.land x (2 ^ k - 1) = x % 2 ^ k := by
  induction k generalizing x with
  | zero =>
    have : Int.land x 0 = 0 := by cases x <;> simp [Int.land, Nat.ldiff]
    simpa using this
  | succ k ih =>
    have hx : x = Int.bit (Int.bodd x) (Int.div2 x) := (Int.bit_decomp x).symm
    calc Int.land x (2 ^ (k + 1) - 1)
        = Int.land (Int.bit (Int.bodd x) (Int.div2 x)) (Int.bit true (2 ^ k - 1)) := by
          rw [← two_pow_succ_sub_one, ← hx]
      _ = Int.bit (Int.bodd x) (Int.div2 x % 2 ^ k) := by
          rw [Int.land_bit, Bool.and_true, ih]
      _ = x % 2 ^ (k + 1) := by
          rw [Int.bit_val, Int.div2_val, emod_two_pow_succ]

/-- **Or-ing into the cleared low bits is addition.** -/
theorem lor_shiftLeft (a b : Int) (k : Nat) (h0 : 0 ≤ a) (h1 : a < 2 ^ k) :
    Int.lor (b * 2 ^ k) a = b * 2 ^ k + a := by
  induction k generalizing a with
  | zero =>
    have : a = 0 := by simp at h1; omega
    subst this
    cases b <;> simp [Int.lor, Nat.ldiff]
  | succ k ih =>
    have hpow : (2 : Int) ^ (k + 1) = 2 * 2 ^ k := by ring
    have hb : b * 2 ^ (k + 1) = Int.bit false (b * 2 ^ k) := by
      rw [Int.bit_val]; simp only [cond_false]; ring
    have ha : a = Int.bit (Int.bodd a) (a / 2) := by
      rw [← Int.div2_val]; exact (Int.bit_decomp a).symm
    calc Int.lor (b * 2 ^ (k + 1)) a
        = Int.lor (Int.bit false (b * 2 ^ k)) (Int.bit (Int.bodd a) (a / 2)) := by
          rw [← hb, ← ha]
      _ = Int.bit (Int.bodd a) (b * 2 ^ k + a / 2) := by
          rw [Int.lor_bit, Bool.false_or, ih (a / 2) (by omega) (by omega)]
      _ = b * 2 ^ (k + 1) + a := by
          rw [Int.bit_val]
          have := bodd_add_two_mul a
          have : b * 2 ^ (k + 1) = 2 * (b * 2 ^ k) := by ring
          omega

/-! ## Slices -/

/-- A remainder by a product, one factor at a time. -/
theorem emod_mul_eq (x a c : Int) (ha : 0 < a) (hc : 0 < c) :
    x % (a * c) = x % a + a * (x / a % c) := by
  have hx := Int.emod_add_mul_ediv x a
  have hq := Int.emod_add_mul_ediv (x / a) c
  have hr0 := Int.emod_nonneg x (ne_of_gt ha)
  have hr1 := Int.emod_lt_of_pos x ha
  have hs0 := Int.emod_nonneg (x / a) (ne_of_gt hc)
  have hs1 := Int.emod_lt_of_pos (x / a) hc
  have hsplit : x = (x % a + a * (x / a % c)) + a * c * (x / a / c) := by
    calc x = x % a + a * (x / a) := hx.symm
      _ = x % a + a * (x / a % c + c * (x / a / c)) := by rw [hq]
      _ = (x % a + a * (x / a % c)) + a * c * (x / a / c) := by ring
  have hlow : 0 ≤ x % a + a * (x / a % c) := by positivity
  have hhigh : x % a + a * (x / a % c) < a * c := by nlinarith
  calc x % (a * c)
      = ((x % a + a * (x / a % c)) + a * c * (x / a / c)) % (a * c) := by rw [← hsplit]
    _ = (x % a + a * (x / a % c)) % (a * c) := Int.add_mul_emod_self_left _ _ _
    _ = x % a + a * (x / a % c) := Int.emod_eq_of_lt hlow hhigh

/-- The bits `[lo, lo + w)` of `x`, as a number. -/
def slice (x : Int) (lo w : Nat) : Int := x / 2 ^ lo % 2 ^ w

theorem slice_nonneg (x : Int) (lo w : Nat) : 0 ≤ slice x lo w :=
  Int.emod_nonneg _ (by positivity)

theorem slice_lt (x : Int) (lo w : Nat) : slice x lo w < 2 ^ w :=
  Int.emod_lt_of_pos _ (by positivity)

@[simp] theorem slice_zero_lo (x : Int) (w : Nat) : slice x 0 w = x % 2 ^ w := by
  simp [slice]

/-- A number that fits in `w` bits is its own slice. -/
theorem slice_eq_self (x : Int) (w : Nat) (h0 : 0 ≤ x) (h1 : x < 2 ^ w) : slice x 0 w = x := by
  rw [slice_zero_lo]
  exact Int.emod_eq_of_lt h0 h1

/-- **Adjacent slices join**: the low slice plus the shifted high one. -/
theorem slice_add (x : Int) (lo v w : Nat) :
    slice x lo v + 2 ^ v * slice x (lo + v) w = slice x lo (v + w) := by
  unfold slice
  rw [pow_add 2 v w, emod_mul_eq _ _ _ (by positivity) (by positivity)]
  rw [pow_add 2 lo v, Int.ediv_ediv_of_nonneg (by positivity)]

/-- A slice of a number reduced modulo `2 ^ n` does not see the reduction. -/
theorem slice_emod (x : Int) (lo w n : Nat) (h : lo + w ≤ n) :
    slice (x % 2 ^ n) lo w = slice x lo w := by
  obtain ⟨m, rfl⟩ : ∃ m, n = lo + (w + m) := ⟨n - (lo + w), by omega⟩
  unfold slice
  rw [pow_add 2 lo (w + m), emod_mul_eq _ _ _ (by positivity) (by positivity)]
  rw [Int.add_mul_ediv_left _ _ (by positivity)]
  rw [Int.ediv_eq_zero_of_lt (Int.emod_nonneg _ (by positivity))
    (Int.emod_lt_of_pos _ (by positivity)), Int.zero_add, pow_add]
  exact Int.emod_emod_of_dvd _ (Dvd.intro _ rfl)

/-- Below the seam of `b * 2 ^ k + a`, only `a` is seen. -/
theorem slice_join_low (a b : Int) (k lo w : Nat) (h : lo + w ≤ k) :
    slice (b * 2 ^ k + a) lo w = slice a lo w := by
  rw [← slice_emod (b * 2 ^ k + a) lo w k h, ← slice_emod a lo w k h]
  rw [Int.add_comm, Int.mul_comm b, Int.add_mul_emod_self_left]

/-- Above the seam of `b * 2 ^ k + a` with `a` below it, only `b` is seen. -/
theorem slice_join_high (a b : Int) (k lo w : Nat) (h0 : 0 ≤ a) (h1 : a < 2 ^ k) :
    slice (b * 2 ^ k + a) (k + lo) w = slice b lo w := by
  unfold slice
  rw [pow_add 2 k lo, ← Int.ediv_ediv_of_nonneg (by positivity)]
  rw [Int.add_comm, Int.add_mul_ediv_right _ _ (by positivity)]
  rw [Int.ediv_eq_zero_of_lt h0 h1, Int.zero_add]

end CSemantics.IntBits
