/-
  Bitwise operations on unbounded integers.

  `Int.bitwise f` applies `f` to each pair of bits of two infinite two's-complement strings.  It
  commutes with CUTTING both strings at a place `k`:

      bitwise_ediv    the bits from `k` on of the result come from those of the operands
      bitwise_emod    the bits below `k` come from those below `k`

  What is above the cut of a number in a format of `w` bits is a constant string, all zeros or all
  ones, and so it is in the result: **a bitwise operation never leaves the format**.
-/
import CSemantics.Lib.IntBits
import Mathlib.Data.Int.ModEq

namespace CSemantics.IntBits

/-! ## Constant strings -/

/-- The string of equal bits: 0 or -1. -/
def fill (b : Bool) : Int := if b then -1 else 0

theorem bit_fill (b : Bool) : Int.bit b (fill b) = fill b := by
  cases b <;> rfl

theorem eq_fill_of_bit {n : Int} {b : Bool} (h : Int.bit b n = n) : n = fill b := by
  rw [Int.bit_val] at h
  cases b
  · show n = 0
    simp only [cond_false] at h
    omega
  · show n = -1
    simp only [cond_true] at h
    omega

/-- **Constant strings give a constant string.** -/
theorem bitwise_fill (f : Bool → Bool → Bool) (a b : Bool) : Int.bitwise f (fill a) (fill b) = fill (f a b) := by
  refine eq_fill_of_bit ?_
  conv_rhs => rw [← bit_fill a, ← bit_fill b, Int.bitwise_bit]

/-! ## Cutting -/

section Cuts

variable (f : Bool → Bool → Bool) (x y : Int) (k : ℕ)

private theorem bitwise_ediv_two : Int.bitwise f x y / 2 = Int.bitwise f (x / 2) (y / 2) := by
  conv_lhs => rw [← Int.bit_decomp x, ← Int.bit_decomp y, Int.bitwise_bit]
  rw [Int.bit_val, Int.div2_val, Int.div2_val]
  cases f (Int.bodd x) (Int.bodd y)
  · simp only [cond_false]
    omega
  · simp only [cond_true]
    omega

private theorem ediv_two_pow_succ (z : Int) : z / 2 ^ (k + 1) = z / 2 / 2 ^ k := by
  rw [Int.pow_succ', Int.ediv_ediv_of_nonneg (by decide)]

/-- **The bits from `k` on.** -/
theorem bitwise_ediv : Int.bitwise f x y / 2 ^ k = Int.bitwise f (x / 2 ^ k) (y / 2 ^ k) := by
  induction k generalizing x y with
  | zero => simp only [pow_zero, Int.ediv_one]
  | succ k ih =>
    rw [ediv_two_pow_succ, bitwise_ediv_two, ih, ediv_two_pow_succ, ediv_two_pow_succ]

variable {x y} {x' y' : Int} {k}

/-- Congruence modulo `2 ^ (k + 1)`, one bit at a time. -/
private theorem modEq_two_pow_succ_iff :
    x ≡ x' [ZMOD 2 ^ (k + 1)] ↔ x % 2 = x' % 2 ∧ x / 2 ≡ x' / 2 [ZMOD 2 ^ k] := by
  rw [Int.modEq_iff_dvd, Int.modEq_iff_dvd, Int.pow_succ']
  constructor
  · rintro ⟨c, hc⟩
    rw [Int.mul_assoc] at hc
    exact ⟨by omega, c, by omega⟩
  · rintro ⟨hlow, c, hc⟩
    refine ⟨c, ?_⟩
    rw [Int.mul_assoc]
    omega

private theorem emod_two_eq (z : Int) : z % 2 = cond (Int.bodd z) 1 0 := by
  have h := Int.bodd_add_div2 z
  cases hb : Int.bodd z with
  | false =>
    rw [hb, cond_false] at h
    rw [cond_false]
    omega
  | true =>
    rw [hb, cond_true] at h
    rw [cond_true]
    omega

private theorem bodd_eq (h : x % 2 = x' % 2) : Int.bodd x = Int.bodd x' := by
  rw [emod_two_eq, emod_two_eq] at h
  cases hb : Int.bodd x <;> cases hb' : Int.bodd x' <;> simp [hb, hb'] at h ⊢

private theorem bitwise_emod_two (hx : x % 2 = x' % 2) (hy : y % 2 = y' % 2) :
    Int.bitwise f x y % 2 = Int.bitwise f x' y' % 2 := by
  have hlow : ∀ u v : Int, Int.bodd (Int.bitwise f u v) = f (Int.bodd u) (Int.bodd v) := by
    intro u v
    conv_lhs => rw [← Int.bit_decomp u, ← Int.bit_decomp v, Int.bitwise_bit, Int.bodd_bit]
  rw [emod_two_eq, emod_two_eq, hlow, hlow, bodd_eq hx, bodd_eq hy]

/-- **The bits below `k`** depend on the bits below `k` alone. -/
theorem bitwise_congr (hx : x ≡ x' [ZMOD 2 ^ k]) (hy : y ≡ y' [ZMOD 2 ^ k]) :
    Int.bitwise f x y ≡ Int.bitwise f x' y' [ZMOD 2 ^ k] := by
  induction k generalizing x y x' y' with
  | zero => exact Int.modEq_one
  | succ k ih =>
    obtain ⟨hx2, hxk⟩ := modEq_two_pow_succ_iff.mp hx
    obtain ⟨hy2, hyk⟩ := modEq_two_pow_succ_iff.mp hy
    refine modEq_two_pow_succ_iff.mpr ⟨bitwise_emod_two f hx2 hy2, ?_⟩
    rw [bitwise_ediv_two, bitwise_ediv_two]
    exact ih hxk hyk

/-- A string that is constant from `k` on stays the same from `k` on, whatever is done below. -/
theorem bitwise_split (q e r s : Int) (hr0 : 0 ≤ r) (hr1 : r < 2 ^ k) (hs0 : 0 ≤ s) (hs1 : s < 2 ^ k) (hf : f false false = false) :
    Int.bitwise f (2 ^ k * q + r) (2 ^ k * e + s) = 2 ^ k * Int.bitwise f q e + Int.bitwise f r s := by
  have hpow : (0 : Int) < 2 ^ k := by positivity
  have hdiv : ∀ z t : Int, 0 ≤ t → t < 2 ^ k → (2 ^ k * z + t) / 2 ^ k = z := by
    intro z t ht0 ht1
    rw [Int.mul_add_ediv_left _ _ (ne_of_gt hpow), Int.ediv_eq_zero_of_lt ht0 ht1, add_zero]
  have hsmall : Int.bitwise f r s / 2 ^ k = 0 := by
    rw [bitwise_ediv, Int.ediv_eq_zero_of_lt hr0 hr1, Int.ediv_eq_zero_of_lt hs0 hs1]
    show Int.bitwise f (fill false) (fill false) = fill false
    rw [bitwise_fill, hf]
  have hlow : Int.bitwise f (2 ^ k * q + r) (2 ^ k * e + s) % 2 ^ k = Int.bitwise f r s % 2 ^ k := by
    refine bitwise_congr f (k := k) ?_ ?_
    · rw [Int.modEq_iff_dvd]
      exact ⟨-q, by ring⟩
    · rw [Int.modEq_iff_dvd]
      exact ⟨-e, by ring⟩
  have hhigh : Int.bitwise f (2 ^ k * q + r) (2 ^ k * e + s) / 2 ^ k = Int.bitwise f q e := by
    rw [bitwise_ediv, hdiv q r hr0 hr1, hdiv e s hs0 hs1]
  have hjoin := Int.mul_ediv_add_emod (Int.bitwise f (2 ^ k * q + r) (2 ^ k * e + s)) (2 ^ k)
  have hjoin' := Int.mul_ediv_add_emod (Int.bitwise f r s) (2 ^ k)
  rw [hhigh, hlow] at hjoin
  rw [hsmall] at hjoin'
  omega

end Cuts

/-! ## Formats -/

section Formats

variable (f : Bool → Bool → Bool) {x y : Int} {k : ℕ}

/-- A number of `k` bits and a sign is constant from `k` on. -/
theorem ediv_eq_fill_iff : (∃ b, x / 2 ^ k = fill b) ↔ -2 ^ k ≤ x ∧ x < 2 ^ k := by
  have hpow : (0 : Int) < 2 ^ k := by positivity
  have hx := Int.mul_ediv_add_emod x (2 ^ k)
  have hr0 := Int.emod_nonneg x (ne_of_gt hpow)
  have hr1 := Int.emod_lt_of_pos x hpow
  constructor
  · rintro ⟨b, hb⟩
    rw [hb] at hx
    cases b with
    | false =>
      have h0 : (2 : Int) ^ k * fill false = 0 := Int.mul_zero _
      omega
    | true =>
      have h1 : (2 : Int) ^ k * fill true = -2 ^ k := by
        show (2 : Int) ^ k * -1 = -2 ^ k
        ring
      omega
  · rintro ⟨hlo, hhi⟩
    by_cases hneg : x < 0
    · refine ⟨true, ?_⟩
      show x / 2 ^ k = -1
      have hup : x / 2 ^ k < 0 := Int.ediv_neg_of_neg_of_pos hneg hpow
      have hdown : -1 ≤ x / 2 ^ k := (Int.le_ediv_iff_mul_le hpow).mpr (by omega)
      omega
    · exact ⟨false, Int.ediv_eq_zero_of_lt (by omega) hhi⟩

/-- **No operation leaves a format with a sign.** -/
theorem bitwise_signed (hx : -2 ^ k ≤ x ∧ x < 2 ^ k) (hy : -2 ^ k ≤ y ∧ y < 2 ^ k) :
    -2 ^ k ≤ Int.bitwise f x y ∧ Int.bitwise f x y < 2 ^ k := by
  obtain ⟨a, ha⟩ := ediv_eq_fill_iff.mpr hx
  obtain ⟨b, hb⟩ := ediv_eq_fill_iff.mpr hy
  refine ediv_eq_fill_iff.mp ⟨f a b, ?_⟩
  rw [bitwise_ediv, ha, hb, bitwise_fill]

/-- **One that makes no ones of zeros does not leave a format without a sign.** -/
theorem bitwise_unsigned (hf : f false false = false) (hx : 0 ≤ x ∧ x < 2 ^ k) (hy : 0 ≤ y ∧ y < 2 ^ k) :
    0 ≤ Int.bitwise f x y ∧ Int.bitwise f x y < 2 ^ k := by
  have hpow : (0 : Int) < 2 ^ k := by positivity
  have hhigh : Int.bitwise f x y / 2 ^ k = 0 := by
    rw [bitwise_ediv, Int.ediv_eq_zero_of_lt hx.1 hx.2, Int.ediv_eq_zero_of_lt hy.1 hy.2]
    show Int.bitwise f (fill false) (fill false) = fill false
    rw [bitwise_fill, hf]
  have hsplit := Int.mul_ediv_add_emod (Int.bitwise f x y) (2 ^ k)
  have hr0 := Int.emod_nonneg (Int.bitwise f x y) (ne_of_gt hpow)
  have hr1 := Int.emod_lt_of_pos (Int.bitwise f x y) hpow
  rw [hhigh, Int.mul_zero] at hsplit
  omega

end Formats

/-! ## The complement -/

theorem lnot_eq (x : Int) : Int.lnot x = -x - 1 := by
  cases x with
  | ofNat n =>
    show Int.negSucc n = -(n : Int) - 1
    omega
  | negSucc n =>
    show (n : Int) = -Int.negSucc n - 1
    omega

/-! ## Masks over an aligned sum -/

section Aligned

variable {x o a b E : Int} {k w : ℕ}

theorem land_eq_bitwise (x y : Int) : Int.land x y = Int.bitwise and x y := by
  rw [Int.bitwise_and]

theorem lor_eq_bitwise (x y : Int) : Int.lor x y = Int.bitwise or x y := by
  rw [Int.bitwise_or]

theorem land_comm (x y : Int) : Int.land x y = Int.land y x := by
  cases x with
  | ofNat m =>
    cases y with
    | ofNat n => exact congrArg Int.ofNat (Nat.land_comm m n)
    | negSucc n => rfl
  | negSucc m =>
    cases y with
    | ofNat n => rfl
    | negSucc n => exact congrArg Int.negSucc (Nat.lor_comm m n)

theorem land_zero (x : Int) : Int.land x 0 = 0 := by
  cases x <;> simp [Int.land, Nat.ldiff]

/-- All ones in a mask keep what they are over. -/
theorem land_neg_one (x : Int) : Int.land x (-1) = x := by
  cases x with
  | ofNat n =>
    show ((n.ldiff 0 : ℕ) : Int) = n
    simp [Nat.ldiff, Nat.bitwise_zero_right]
  | negSucc n =>
    show Int.negSucc (n ||| 0) = Int.negSucc n
    rw [Nat.or_zero]

/-- A mask below `2 ^ k` sees the bits below `k` alone. -/
theorem land_of_lt (hE0 : 0 ≤ E) (hE1 : E < 2 ^ k) (hab : a ≡ b [ZMOD 2 ^ k]) : Int.land a E = Int.land b E := by
  have hsmall : ∀ z : Int, Int.land z E / 2 ^ k = 0 := by
    intro z
    rw [land_eq_bitwise, bitwise_ediv, Int.ediv_eq_zero_of_lt hE0 hE1, ← land_eq_bitwise, land_zero]
  have hlow : Int.land a E % 2 ^ k = Int.land b E % 2 ^ k := by
    rw [land_eq_bitwise, land_eq_bitwise]
    exact bitwise_congr and hab (Int.ModEq.refl E)
  rw [← Int.mul_ediv_add_emod (Int.land a E) (2 ^ k), ← Int.mul_ediv_add_emod (Int.land b E) (2 ^ k), hsmall, hsmall,
    hlow]

/-- **A mask whose bits from `k` to `w` are all ones** leaves the aligned part of a sum as it is. -/
theorem land_aligned_add (hx : (2 : Int) ^ k ∣ x) (hE : (2 : Int) ^ w ∣ 2 ^ k * Int.lnot (E / 2 ^ k)) :
    Int.land (x + o) E ≡ x + Int.land o E [ZMOD 2 ^ w] := by
  obtain ⟨y, rfl⟩ := hx
  have hpow : (0 : Int) < 2 ^ k := by positivity
  have ho := Int.mul_ediv_add_emod o (2 ^ k)
  have hEd := Int.mul_ediv_add_emod E (2 ^ k)
  have hr0 := Int.emod_nonneg o (ne_of_gt hpow)
  have hr1 := Int.emod_lt_of_pos o hpow
  have hs0 := Int.emod_nonneg E (ne_of_gt hpow)
  have hs1 := Int.emod_lt_of_pos E hpow
  -- both sides have the same bits below k, so the rest is about the quotients
  have hleft : Int.land (2 ^ k * y + o) E =
      2 ^ k * Int.land (y + o / 2 ^ k) (E / 2 ^ k) + Int.land (o % 2 ^ k) (E % 2 ^ k) := by
    have hsum : 2 ^ k * y + o = 2 ^ k * (y + o / 2 ^ k) + o % 2 ^ k := by
      rw [Int.mul_add]
      omega
    conv_lhs => rw [hsum, ← hEd]
    simp only [land_eq_bitwise]
    exact bitwise_split and _ _ _ _ hr0 hr1 hs0 hs1 rfl
  have hright : Int.land o E = 2 ^ k * Int.land (o / 2 ^ k) (E / 2 ^ k) + Int.land (o % 2 ^ k) (E % 2 ^ k) := by
    conv_lhs => rw [← ho, ← hEd]
    simp only [land_eq_bitwise]
    exact bitwise_split and _ _ _ _ hr0 hr1 hs0 hs1 rfl
  have hquot : ∀ z, (2 : Int) ^ w ∣ 2 ^ k * (z - Int.land z (E / 2 ^ k)) := by
    intro z
    by_cases hwk : w ≤ k
    · exact (pow_dvd_pow 2 hwk).mul_right _
    · obtain ⟨d, rfl⟩ : ∃ d, w = k + d := ⟨w - k, by omega⟩
      rw [pow_add] at hE ⊢
      have hones : E / 2 ^ k ≡ -1 [ZMOD 2 ^ d] := by
        have hdvd := Int.dvd_of_mul_dvd_mul_left (ne_of_gt hpow) hE
        rw [lnot_eq] at hdvd
        have hcomm : -1 - E / 2 ^ k = -(E / 2 ^ k) - 1 := by omega
        rwa [Int.modEq_iff_dvd, hcomm]
      have hland : Int.land z (E / 2 ^ k) ≡ z [ZMOD 2 ^ d] := by
        conv_rhs => rw [← land_neg_one z]
        rw [land_eq_bitwise, land_eq_bitwise]
        exact bitwise_congr and (Int.ModEq.refl z) hones
      exact mul_dvd_mul_left _ (Int.modEq_iff_dvd.mp hland)
  rw [hleft, hright, Int.modEq_iff_dvd]
  have hdiff := Int.dvd_sub (hquot (y + o / 2 ^ k)) (hquot (o / 2 ^ k))
  have heq : 2 ^ k * y + (2 ^ k * Int.land (o / 2 ^ k) (E / 2 ^ k) + Int.land (o % 2 ^ k) (E % 2 ^ k)) -
      (2 ^ k * Int.land (y + o / 2 ^ k) (E / 2 ^ k) + Int.land (o % 2 ^ k) (E % 2 ^ k)) =
      2 ^ k * (y + o / 2 ^ k - Int.land (y + o / 2 ^ k) (E / 2 ^ k)) -
        2 ^ k * (o / 2 ^ k - Int.land (o / 2 ^ k) (E / 2 ^ k)) := by
    ring
  rwa [heq]

/-- **Bits set below `k`** are set in the rest of an aligned sum. -/
theorem lor_aligned_add (hx : (2 : Int) ^ k ∣ x) (hE0 : 0 ≤ E) (hE1 : E < 2 ^ k) :
    Int.lor (x + o) E = x + Int.lor o E := by
  obtain ⟨y, rfl⟩ := hx
  have hpow : (0 : Int) < 2 ^ k := by positivity
  have hr0 := Int.emod_nonneg o (ne_of_gt hpow)
  have hr1 := Int.emod_lt_of_pos o hpow
  have hzero : ∀ z, Int.lor z 0 = z := by
    intro z
    cases z <;> simp [Int.lor, Nat.ldiff]
  have hsplit : ∀ z, Int.lor (2 ^ k * z + o % 2 ^ k) E = 2 ^ k * z + Int.lor (o % 2 ^ k) E := by
    intro z
    have hs := bitwise_split or z 0 (o % 2 ^ k) E hr0 hr1 hE0 hE1 rfl
    rwa [Int.mul_zero, zero_add, ← lor_eq_bitwise, ← lor_eq_bitwise, ← lor_eq_bitwise, hzero] at hs
  have hsum : 2 ^ k * y + o = 2 ^ k * (y + o / 2 ^ k) + o % 2 ^ k := by
    rw [Int.mul_add]
    have := Int.mul_ediv_add_emod o (2 ^ k)
    omega
  have ho : Int.lor o E = 2 ^ k * (o / 2 ^ k) + Int.lor (o % 2 ^ k) E := by
    conv_lhs => rw [← Int.mul_ediv_add_emod o (2 ^ k)]
    exact hsplit _
  rw [hsum, hsplit, ho]
  ring

/-- What the guard of a mask says: the bits from `k` to `w` are all ones. -/
theorem land_lnot_mask_eq_zero_iff :
    Int.land (Int.land (Int.lnot (2 ^ k - 1)) (Int.lnot E)) (2 ^ w - 1) = 0 ↔
      (2 : Int) ^ w ∣ 2 ^ k * Int.lnot (E / 2 ^ k) := by
  have hpow : (0 : Int) < 2 ^ k := by positivity
  have hEd := Int.mul_ediv_add_emod E (2 ^ k)
  have hs0 := Int.emod_nonneg E (ne_of_gt hpow)
  have hs1 := Int.emod_lt_of_pos E hpow
  have hhigh : Int.land (Int.lnot (2 ^ k - 1)) (Int.lnot E) = 2 ^ k * Int.lnot (E / 2 ^ k) := by
    have hA : Int.lnot (2 ^ k - 1) = 2 ^ k * -1 + 0 := by
      rw [lnot_eq]
      ring
    have hE' : Int.lnot E = 2 ^ k * Int.lnot (E / 2 ^ k) + (2 ^ k - 1 - E % 2 ^ k) := by
      rw [lnot_eq, lnot_eq]
      linarith
    rw [hA, hE', land_eq_bitwise, bitwise_split and _ _ _ _ (le_refl 0) hpow (by omega) (by omega) rfl,
      ← land_eq_bitwise, ← land_eq_bitwise, land_comm, land_neg_one, land_comm, land_zero, add_zero]
  rw [hhigh, land_mask]
  exact (Int.dvd_iff_emod_eq_zero).symm

end Aligned

end CSemantics.IntBits
