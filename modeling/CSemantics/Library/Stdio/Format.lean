/-
  Padding and precision of the integer conversions.

  `formatPrecisionWidth` is given the number as TEXT, sign and all, and pads that text: first to the
  precision, on the left with zeros, then to the width.  With the flag `0` the width is taken for a
  precision.  That is right as long as nothing belongs between the sign or prefix and the zeros, and
  as long as the precision is not negative.

  What is asked for (`conversionText`) is stated on its own: the sign, the prefix, zeros up to the
  precision or the width, the digits, and spaces up to the width.

      formatNumber_eq_iff   the two agree exactly when no zeros belong after a sign, a negative
                            precision pads nothing, and the flags `0` and `#` do not meet
-/
import CSemantics.Common

namespace CSemantics

/-! ## Padding -/

/-- `padString'`: `W` more characters, spaces on the right when `W` is negative. -/
def padString' (X : List Char) (W : Int) (P : Char) : List Char :=
  if W < 0 then padString' (X ++ [' ']) (W + 1) P
  else if 0 < W then padString' (P :: X) (W - 1) P
  else X
  termination_by W.natAbs

def padString (X : List Char) (W : Int) (P : Char) : List Char :=
  if (W.natAbs : Int) ≤ X.length then X else padString' X ((W.natAbs - X.length) * W.sign) P

/-- The prefix of the alternative form. -/
inductive AltPrefix
  | none | zero | hex | HEX
  deriving DecidableEq, Repr

def AltPrefix.text : AltPrefix → List Char
  | .none => []
  | .zero => ['0']
  | .hex => ['0', 'x']
  | .HEX => ['0', 'X']

def AltPrefix.isHex (a : AltPrefix) : Bool := a == .hex || a == .HEX

/-- Put a zero in front unless there is one. -/
def forceZero : List Char → List Char
  | '0' :: V => '0' :: V
  | V => '0' :: V

/-- `formatPrecisionWidth''` -/
def formatPrecisionWidth'' (V : List Char) (P : Int) (pre : AltPrefix) (W : Int) : List Char :=
  if pre = .zero then padString (forceZero (padString V P '0')) W ' '
  else if ((V = ['0'] ∨ V = []) ∧ pre.isHex) ∨ pre = .none then padString (padString V P '0') W ' '
  else padString (pre.text ++ padString V P '0') W ' '

/-- `formatPrecisionWidth'` -/
def formatPrecisionWidth' (V : List Char) (P : Int) (Z : Bool) (pre : AltPrefix) (W : Int) : List Char :=
  if Z then formatPrecisionWidth'' V (max P (W - pre.text.length)) pre 0
  else formatPrecisionWidth'' V P pre W

def formatPrecisionWidth (V : List Char) (P : Int) (Z : Bool) (pre : AltPrefix) (W : Int) : List Char :=
  let Z' := if W < 0 then false else Z
  if V ≠ ['0'] ∨ P ≠ 0 ∨ pre = .zero then formatPrecisionWidth' V P Z' pre W
  else formatPrecisionWidth' [] 0 Z' pre W

/-! ## Padding in closed form -/

/-- `X` in a field of `w` characters. -/
def inField (left : Bool) (w : Nat) (X : List Char) : List Char :=
  if left then X ++ List.replicate (w - X.length) ' ' else List.replicate (w - X.length) ' ' ++ X

theorem padString'_left (n : Nat) (X : List Char) (P : Char) :
    padString' X n P = List.replicate n P ++ X := by
  induction n generalizing X with
  | zero => simp [padString']
  | succ n ih =>
    rw [padString', if_neg (by omega), if_pos (by omega)]
    have hpred : ((n + 1 : Nat) : Int) - 1 = n := by omega
    rw [hpred, ih, List.replicate_succ']
    simp

theorem padString'_right (n : Nat) (X : List Char) (P : Char) :
    padString' X (-n) P = X ++ List.replicate n ' ' := by
  induction n generalizing X with
  | zero => simp [padString']
  | succ n ih =>
    rw [padString', if_pos (by omega)]
    have hpred : -((n + 1 : Nat) : Int) + 1 = -n := by omega
    rw [hpred, ih, List.replicate_succ]
    simp

theorem padString_of_nonneg {W : Int} (hW : 0 ≤ W) (X : List Char) (P : Char) :
    padString X W P = List.replicate (W.toNat - X.length) P ++ X := by
  unfold padString
  split
  · next h =>
    have hz : W.toNat - X.length = 0 := by omega
    rw [hz]
    rfl
  · next h =>
    have hsign : W.sign = 1 := Int.sign_eq_one_of_pos (by omega)
    have hn : ((W.natAbs : Int) - X.length) * W.sign = (W.toNat - X.length : Nat) := by
      rw [hsign]
      omega
    rw [hn, padString'_left]

theorem padString_of_neg {W : Int} (hW : W < 0) (X : List Char) (P : Char) :
    padString X W P = X ++ List.replicate (W.natAbs - X.length) ' ' := by
  unfold padString
  split
  · next h =>
    have hz : W.natAbs - X.length = 0 := by omega
    rw [hz]
    simp
  · next h =>
    have hsign : W.sign = -1 := Int.sign_eq_neg_one_of_neg hW
    have hn : ((W.natAbs : Int) - X.length) * W.sign = -(W.natAbs - X.length : Nat) := by
      rw [hsign]
      omega
    rw [hn, padString'_right]

/-- Padding with spaces is putting into a field. -/
theorem padString_space (X : List Char) (W : Int) :
    padString X W ' ' = inField (decide (W < 0)) W.natAbs X := by
  by_cases hW : W < 0
  · simp [padString_of_neg hW, inField, hW]
  · have habs : W.toNat = W.natAbs := by omega
    simp [padString_of_nonneg (not_lt.mp hW), inField, hW, habs]

/-! ## The text that is asked for -/

/-- The digits of a number: not empty, no zero in front of others, no space. -/
structure IsNumeral (D : List Char) : Prop where
  ne_nil : D ≠ []
  head : D = ['0'] ∨ D.head? ≠ some '0'
  noSpace : ' ' ∉ D

def signText (neg : Bool) : List Char := if neg then ['-'] else []

section Text

variable (pre : AltPrefix) (neg : Bool) (D : List Char) (q : Option Nat) (zero left : Bool) (w : Nat)

/-- Zero printed with precision zero has no digits. -/
def textDigits : List Char := if D = ['0'] ∧ q = some 0 then [] else D

/-- The sign, and the prefix of a hexadecimal number other than zero. -/
def textFront : List Char := signText neg ++ if pre.isHex && D != ['0'] then pre.text else []

/-- The zeros that the precision and the flag `#` ask for. -/
def textZeros : Nat :=
  max (q.getD 1 - (textDigits D q).length)
    (if pre = .zero ∧ (textDigits D q).head? ≠ some '0' then 1 else 0)

/-- The length without padding to the width. -/
def naturalLength : Nat := (textFront pre neg D).length + textZeros pre D q + (textDigits D q).length

/-- The flag `0` counts when there is neither a precision nor the flag `-`. -/
def zeroPads : Bool := zero && q.isNone && !left

/-- The zeros that the flag `0` asks for. -/
def textFill : Nat :=
  if zeroPads q zero left then w - ((textFront pre neg D).length + (textDigits D q).length) else 0

/-- The number as the standard has it printed. -/
def conversionText : List Char :=
  inField left w (textFront pre neg D ++ List.replicate (max (textZeros pre D q) (textFill pre neg D q zero left w)) '0' ++
    textDigits D q)

end Text

/-- A negative precision is as good as none. -/
def effectivePrecision : Option Int → Option Nat
  | some p => if p < 0 then none else some p.toNat
  | none => none

/-- What the rules make of the same number: a given precision switches the flag `0` off. -/
def formatNumber (pre : AltPrefix) (neg : Bool) (D : List Char) (prec : Option Int) (zero : Bool) (W : Int) :
    List Char :=
  formatPrecisionWidth (signText neg ++ D) (prec.getD 1) (zero && prec.isNone) pre W

/-! ## Where the rules agree with it -/

section Agree

variable {pre : AltPrefix} {D : List Char} {zero : Bool} {W : Int}

theorem forceZero_of_head {V : List Char} (h : V.head? ≠ some '0') : forceZero V = '0' :: V := by
  unfold forceZero
  split
  · simp at h
  · rfl

theorem forceZero_zeros (n : Nat) (V : List Char) :
    forceZero (List.replicate (n + 1) '0' ++ V) = List.replicate (n + 1) '0' ++ V := by
  rw [List.replicate_succ]
  rfl

theorem forceZero_zero (n : Nat) :
    forceZero (List.replicate n '0' ++ ['0']) = List.replicate n '0' ++ ['0'] := by
  cases n with
  | zero => rfl
  | succ n => exact forceZero_zeros n ['0']

/-- In the alternative octal form the zeros of the precision may already be there. -/
theorem forceZero_replicate {V : List Char} (hV : V.head? ≠ some '0') (n : Nat) :
    forceZero (List.replicate n '0' ++ V) = List.replicate (max n 1) '0' ++ V := by
  cases n with
  | zero => simpa using forceZero_of_head hV
  | succ n =>
    rw [forceZero_zeros]
    congr 2
    omega

/-- The text `V` with its zeros and its prefix, as the rules put them together. -/
def precisionBody (pre : AltPrefix) (V : List Char) (P : Nat) : List Char :=
  let padded := List.replicate (P - V.length) '0' ++ V
  if pre = .zero then forceZero padded
  else if pre.isHex ∧ V ≠ ['0'] ∧ V ≠ [] then pre.text ++ padded
  else padded

/-- The text that is left of the digits: nothing of a zero with precision zero, except in octal. -/
def shownDigits (pre : AltPrefix) (V : List Char) (P : Int) : List Char :=
  if V ≠ ['0'] ∨ P ≠ 0 ∨ pre = .zero then V else []

theorem formatPrecisionWidth''_eq (V : List Char) (P : Nat) (W : Int) :
    formatPrecisionWidth'' V P pre W =
      inField (decide (W < 0)) W.natAbs (precisionBody pre V P) := by
  have hpad : padString V P '0' = List.replicate (P - V.length) '0' ++ V := by
    rw [padString_of_nonneg (Int.natCast_nonneg P), Int.toNat_natCast]
  unfold formatPrecisionWidth'' precisionBody
  rw [hpad]
  simp only [padString_space]
  have hhex : pre.isHex = true → pre ≠ .none ∧ pre ≠ .zero := by
    cases pre <;> simp [AltPrefix.isHex]
  by_cases hzero : pre = .zero
  · rw [if_pos hzero, if_pos hzero]
  · rw [if_neg hzero, if_neg hzero]
    by_cases hx : pre.isHex = true ∧ V ≠ ['0'] ∧ V ≠ []
    · rw [if_pos hx, if_neg]
      rintro (⟨hV, -⟩ | hnone)
      · exact hV.elim hx.2.1 hx.2.2
      · exact (hhex hx.1).1 hnone
    · have hV : pre.isHex = true → V = ['0'] ∨ V = [] := by
        intro hh
        by_contra hne
        push Not at hne
        exact hx ⟨hh, hne⟩
      rw [if_neg hx, if_pos]
      cases pre with
      | none => exact .inr rfl
      | zero => exact absurd rfl hzero
      | hex => exact .inl ⟨hV rfl, rfl⟩
      | HEX => exact .inl ⟨hV rfl, rfl⟩

/-- Without zeros up to the width, the rules print the padded body in its field. -/
theorem formatPrecisionWidth_eq (V : List Char) (P : Nat) {Z : Bool} (hZ : 0 ≤ W → Z = false) :
    formatPrecisionWidth V P Z pre W =
      inField (decide (W < 0)) W.natAbs (precisionBody pre (shownDigits pre V P) P) := by
  have hZ' : (if W < 0 then false else Z) = false := by
    split
    · rfl
    · exact hZ (by omega)
  unfold formatPrecisionWidth shownDigits
  simp only [hZ', formatPrecisionWidth', Bool.false_eq_true, if_false]
  split
  · exact formatPrecisionWidth''_eq V P W
  · next h =>
    have hP : P = 0 := by
      by_contra hne
      exact h (.inr (.inl (by omega)))
    subst hP
    exact formatPrecisionWidth''_eq [] 0 W

/-- The body of an unsigned number is the one that is asked for. -/
theorem precisionBody_unsigned (hD : IsNumeral D) (q : Option Nat) :
    precisionBody pre (shownDigits pre D (q.getD 1 : Nat)) (q.getD 1) =
      textFront pre false D ++ List.replicate (textZeros pre D q) '0' ++ textDigits D q := by
  have hq : q.getD 1 = 0 ↔ q = some 0 := by cases q <;> simp
  by_cases hzero : pre = .zero
  · subst hzero
    have hfront : textFront .zero false D = [] := rfl
    have hshown : shownDigits .zero D (q.getD 1 : Nat) = D := by simp [shownDigits]
    rw [hfront, hshown, precisionBody, if_pos rfl, List.nil_append]
    by_cases h0 : D = ['0']
    · subst h0
      cases hP : q.getD 1 with
      | zero => simp [forceZero, textZeros, textDigits, hq.mp hP]
      | succ n =>
        have hne : q ≠ some 0 := fun h => by simp [h] at hP
        have hds : textDigits ['0'] q = ['0'] := by simp [textDigits, hne]
        have hz : textZeros .zero ['0'] q = n := by simp [textZeros, hds, hP]
        rw [hds, hz]
        exact forceZero_zero n
    · have hhead := hD.head.resolve_left h0
      have hds : textDigits D q = D := by simp [textDigits, h0]
      rw [forceZero_replicate hhead, hds, textZeros, hds, if_pos ⟨rfl, hhead⟩]
  · have hz : textZeros pre D q = q.getD 1 - (textDigits D q).length := by
      simp [textZeros, hzero]
    have hshown : shownDigits pre D (q.getD 1 : Nat) = textDigits D q := by
      unfold shownDigits textDigits
      by_cases h0 : D = ['0'] <;> by_cases hp : q = some 0 <;> simp [h0, hp, hzero, hq]
    rw [hshown, hz, precisionBody, if_neg hzero]
    by_cases hx : pre.isHex = true ∧ textDigits D q ≠ ['0'] ∧ textDigits D q ≠ []
    · have hD0 : D ≠ ['0'] := by
        intro h0
        unfold textDigits at hx
        split at hx
        · exact hx.2.2 rfl
        · exact hx.2.1 h0
      rw [if_pos hx]
      simp [textFront, signText, hx.1, hD0]
    · have hfront : textFront pre false D = [] := by
        by_cases h0 : D = ['0']
        · simp [textFront, signText, h0]
        · have hds : textDigits D q = D := by simp [textDigits, h0]
          have hnot : pre.isHex = false := by
            rw [hds] at hx
            by_contra hh
            exact hx ⟨by simpa using hh, h0, hD.ne_nil⟩
          simp [textFront, signText, hnot]
      rw [if_neg hx, hfront]
      simp

/-- Where the flag `0` does not count, the rules have it off or the field to the left. -/
theorem zero_off_of_zeroPads {q : Option Nat} (h : zeroPads q zero (decide (W < 0)) = false) :
    0 ≤ W → (zero && q.isNone) = false := by
  intro hW
  have hnot : decide (W < 0) = false := by simpa using hW
  simpa [zeroPads, hnot] using h

/-- **An unsigned number** without zeros up to the width is printed as it should be. -/
theorem formatPrecisionWidth_unsigned (hD : IsNumeral D) (q : Option Nat)
    (hZ : zeroPads q zero (decide (W < 0)) = false) :
    formatPrecisionWidth D (q.getD 1 : Nat) (zero && q.isNone) pre W =
      conversionText pre false D q zero (decide (W < 0)) W.natAbs := by
  rw [formatPrecisionWidth_eq D _ (zero_off_of_zeroPads hZ), precisionBody_unsigned hD, conversionText, textFill, hZ]
  simp

/-! ## Where they differ -/

theorem replicate_append_inj {a b : Nat} {D : List Char} :
    List.replicate a '0' ++ D = List.replicate b '0' ++ D ↔ a = b := by
  constructor
  · intro h
    simpa using congrArg List.length h
  · intro h
    rw [h]

/-- Nothing is padded in a field that is full. -/
theorem inField_of_le {left : Bool} {w : Nat} {X : List Char} (h : w ≤ X.length) : inField left w X = X := by
  unfold inField
  rw [Nat.sub_eq_zero_of_le h]
  cases left <;> simp

theorem count_inField (left : Bool) (w : Nat) (X : List Char) :
    (inField left w X).count '0' = X.count '0' := by
  unfold inField
  cases left <;> simp [List.count_replicate]

/-- **The flag `0` on an unsigned number**: the prefix is counted although `#` may not print it, and
    a zero that is there for the width also counts as the one of `#`. -/
theorem formatPrecisionWidth_zeros (hD : IsNumeral D) (w : Nat) :
    formatPrecisionWidth D 1 true pre w = conversionText pre false D none true false w ↔
      (pre = .zero ∨ pre.isHex = true ∧ D = ['0'] → w ≤ naturalLength pre false D none) := by
  have hlen : 1 ≤ D.length := List.length_pos_iff.mpr hD.ne_nil
  have hds : textDigits D none = D := by simp [textDigits]
  have hzeros : textZeros pre D none = if pre = .zero ∧ D.head? ≠ some '0' then 1 else 0 := by
    rw [textZeros, hds, Option.getD_none, Nat.sub_eq_zero_of_le hlen, Nat.zero_max]
  have hfill : textFill pre false D none true false w = w - ((textFront pre false D).length + D.length) := by
    simp [textFill, zeroPads, hds]
  have hcode : formatPrecisionWidth D 1 true pre w = precisionBody pre D (max 1 (w - pre.text.length)) := by
    have hP : max (1 : Int) (w - pre.text.length) = (max 1 (w - pre.text.length) : Nat) := by omega
    rw [formatPrecisionWidth, if_pos (.inr (.inl (by decide)))]
    simp only [formatPrecisionWidth', show ¬(w : Int) < 0 by omega, if_false, if_true]
    rw [hP, formatPrecisionWidth''_eq]
    exact inField_of_le (Nat.zero_le _)
  have htext : conversionText pre false D none true false w = textFront pre false D ++
      List.replicate (max (textZeros pre D none) (w - ((textFront pre false D).length + D.length))) '0' ++ D := by
    rw [conversionText, hfill, hds, inField_of_le]
    simp only [List.length_append, List.length_replicate]
    omega
  rw [hcode, htext, naturalLength, hds, hzeros]
  by_cases hzero : pre = .zero
  · subst hzero
    have hfront : textFront .zero false D = [] := rfl
    have hnat : (1 : Nat) = AltPrefix.zero.text.length := rfl
    rw [hfront, precisionBody, if_pos rfl, ← hnat, List.nil_append, List.length_nil]
    simp only [true_or, true_imp_iff, true_and]
    by_cases h0 : D = ['0']
    · subst h0
      rw [forceZero_zero, replicate_append_inj, if_neg (by simp), List.length_singleton]
      omega
    · have hhead := hD.head.resolve_left h0
      rw [forceZero_replicate hhead, replicate_append_inj, if_pos hhead]
      omega
  · have hnoalt : (if pre = .zero ∧ D.head? ≠ some '0' then 1 else 0) = 0 := if_neg fun h => hzero h.1
    rw [hnoalt, precisionBody, if_neg hzero]
    by_cases hhex : pre.isHex = true
    · have htwo : pre.text.length = 2 := by
        cases pre with
        | none => cases hhex
        | zero => cases hhex
        | hex => rfl
        | HEX => rfl
      by_cases h0 : D = ['0']
      · have hfront : textFront pre false D = [] := by simp [textFront, signText, h0]
        rw [if_neg (fun h => h.2.1 h0), hfront, List.nil_append, replicate_append_inj, htwo]
        simp only [hhex, h0, and_self, or_true, true_imp_iff, List.length_nil, List.length_singleton]
        omega
      · have hfront : textFront pre false D = pre.text := by simp [textFront, signText, hhex, h0]
        rw [if_pos ⟨hhex, h0, hD.ne_nil⟩, hfront, List.append_assoc, List.append_cancel_left_eq,
          replicate_append_inj, htwo]
        simp only [hzero, h0, and_false, or_false, false_imp_iff, iff_true]
        omega
    · have hfront : textFront pre false D = [] := by simp [textFront, signText, hhex]
      have hnone : pre.text.length = 0 := by
        cases pre with
        | none => rfl
        | zero => exact absurd rfl hzero
        | hex => exact absurd rfl hhex
        | HEX => exact absurd rfl hhex
      rw [if_neg (fun h => hhex h.1), hfront, List.nil_append, replicate_append_inj, hnone]
      simp only [hzero, hhex, false_and, or_false, false_imp_iff, iff_true, List.length_nil, Bool.false_eq_true]
      omega

/-- The zeros of a negative number come before its sign. -/
theorem formatPrecisionWidth_negative (hD : IsNumeral D) (h0 : D ≠ ['0']) (q : Option Nat) :
    formatPrecisionWidth ('-' :: D) (q.getD 1 : Nat) (zero && q.isNone) .none W =
        conversionText .none true D q zero (decide (W < 0)) W.natAbs ↔
      q.getD 1 ≤ D.length ∧
        (zeroPads q zero (decide (W < 0)) = true → W.natAbs ≤ naturalLength .none true D q) := by
  have hds : textDigits D q = D := by simp [textDigits, h0]
  have hfront : textFront .none true D = ['-'] := rfl
  have hzeros : textZeros .none D q = q.getD 1 - D.length := by simp [textZeros, hds]
  have hbody : ∀ P, precisionBody .none ('-' :: D) P =
      List.replicate (P - (D.length + 1)) '0' ++ '-' :: D := by
    intro P
    simp [precisionBody, AltPrefix.isHex]
  rw [naturalLength, conversionText, textFill, hds, hfront, hzeros]
  by_cases hpads : zeroPads q zero (decide (W < 0)) = true
  · obtain ⟨⟨hz, hq⟩, hleft⟩ : (zero = true ∧ q = none) ∧ ¬W < 0 := by simpa [zeroPads] using hpads
    have hlen : 1 ≤ D.length := List.length_pos_iff.mpr hD.ne_nil
    subst hz hq
    obtain ⟨w, rfl⟩ := Int.eq_ofNat_of_zero_le (not_lt.mp hleft)
    have hcode : formatPrecisionWidth ('-' :: D) ((none : Option Nat).getD 1 : Nat)
        (true && (none : Option Nat).isNone) .none w =
          List.replicate (max 1 w - (D.length + 1)) '0' ++ '-' :: D := by
      have hP : max ((1 : Nat) : Int) (w - AltPrefix.none.text.length) = (max 1 w : Nat) := by
        simp only [AltPrefix.text, List.length_nil]
        omega
      rw [formatPrecisionWidth, if_pos (.inr (.inl (by decide))), if_neg hleft, Option.getD_none]
      simp only [formatPrecisionWidth', Option.isNone_none, Bool.and_true, if_true]
      rw [hP, formatPrecisionWidth''_eq, hbody]
      exact inField_of_le (Nat.zero_le _)
    rw [hcode, if_pos hpads, Int.natAbs_natCast, inField_of_le]
    · simp only [Option.getD_none, hpads, true_imp_iff, List.length_singleton]
      constructor
      · intro h
        refine ⟨hlen, ?_⟩
        by_contra hlt
        -- the first character would be both a zero and the sign
        have hpos : max 1 w - (D.length + 1) = (max 1 w - (D.length + 1) - 1) + 1 := by omega
        rw [hpos, List.replicate_succ] at h
        simp at h
      · rintro ⟨-, hle⟩
        have hcz : max 1 w - (D.length + 1) = 0 := by omega
        have htz : max (1 - D.length) (w - (1 + D.length)) = 0 := by omega
        rw [hcz, htz]
        rfl
    · simp only [List.length_append, List.length_replicate, List.length_singleton, Option.getD_none]
      omega
  · have hZ := zero_off_of_zeroPads (Bool.not_eq_true _ ▸ hpads)
    have hshown : shownDigits .none ('-' :: D) (q.getD 1 : Nat) = '-' :: D := by simp [shownDigits]
    rw [formatPrecisionWidth_eq _ _ hZ, hshown, hbody, if_neg hpads, Nat.max_zero]
    simp only [hpads, Bool.false_eq_true, false_imp_iff, and_true]
    constructor
    · intro h
      -- the precision counts the sign as a digit, so there is a zero too few
      have hcount := congrArg (List.count '0') h
      simp only [count_inField, List.count_append, List.count_replicate_self, List.count_cons] at hcount
      simp only [List.count_nil] at hcount
      have hsign : ('-' == '0') = false := by decide
      simp only [hsign, Bool.false_eq_true, if_false] at hcount
      omega
    · intro hle
      have hcz : q.getD 1 - (D.length + 1) = 0 := by omega
      have htz : q.getD 1 - D.length = 0 := by omega
      rw [hcz, htz]
      rfl

/-- Spaces behind the text do no harm where the field has room for them. -/
theorem inField_left_spaces {w j : Nat} {F : List Char} :
    inField true w (F ++ List.replicate j ' ') = inField true w F ↔ j = 0 ∨ F.length + j ≤ w := by
  simp only [inField, if_true, List.length_append, List.length_replicate, List.append_assoc]
  rw [List.append_cancel_left_eq, List.replicate_append_replicate]
  constructor
  · intro h
    have hlen := congrArg List.length h
    simp only [List.length_replicate] at hlen
    omega
  · intro h
    congr 1
    omega

/-- Text that ends in a digit has no spaces behind it, and its zeros can be counted. -/
theorem inField_right_spaces {w j z z' : Nat} {front D : List Char} (hD : IsNumeral D) :
    inField false w (front ++ List.replicate z '0' ++ D ++ List.replicate j ' ') =
        inField false w (front ++ List.replicate z' '0' ++ D) ↔ j = 0 ∧ z = z' := by
  constructor
  · intro h
    have hj : j = 0 := by
      by_contra hne
      obtain ⟨n, rfl⟩ := Nat.exists_eq_succ_of_ne_zero hne
      have hlast := congrArg List.getLast? h
      obtain ⟨c, hc⟩ : ∃ c, D.getLast? = some c := ⟨_, List.getLast?_eq_some_getLast hD.ne_nil⟩
      simp [inField, List.replicate_succ', hc] at hlast
      exact hD.noSpace (hlast ▸ List.mem_of_getLast? hc)
    refine ⟨hj, ?_⟩
    have hcount := congrArg (List.count '0') h
    simp only [count_inField, List.count_append, List.count_replicate_self, hj, List.replicate_zero,
      List.count_nil] at hcount
    omega
  · rintro ⟨rfl, rfl⟩
    simp

/-- A negative precision pads the digits on the right, with spaces, and switches the flag `0` off. -/
theorem formatNumber_negative_precision (hD : IsNumeral D) {neg : Bool}
    (hneg : neg = true → pre = .none ∧ D ≠ ['0']) {p : Int} (hp : p < 0) :
    formatNumber pre neg D (some p) zero W = conversionText pre neg D none zero (decide (W < 0)) W.natAbs ↔
      (p.natAbs ≤ (signText neg ++ D).length ∨ W < 0 ∧
        naturalLength pre neg D none + (p.natAbs - (signText neg ++ D).length) ≤ W.natAbs) ∧
      (zeroPads none zero (decide (W < 0)) = true → W.natAbs ≤ naturalLength pre neg D none) := by
  let j := p.natAbs - (signText neg ++ D).length
  have hlen : 1 ≤ D.length := List.length_pos_iff.mpr hD.ne_nil
  have hds : textDigits D none = D := by simp [textDigits]
  have hzeros : textZeros pre D none = if pre = .zero ∧ D.head? ≠ some '0' then 1 else 0 := by
    rw [textZeros, hds, Option.getD_none, Nat.sub_eq_zero_of_le hlen, Nat.zero_max]
  -- the digits, with spaces behind them where the precision is large
  have hcode : formatNumber pre neg D (some p) zero W = inField (decide (W < 0)) W.natAbs
      (textFront pre neg D ++ List.replicate (textZeros pre D none) '0' ++ D ++ List.replicate j ' ') := by
    have hne : signText neg ++ D ≠ ['0'] ∨ p ≠ 0 ∨ pre = .zero := .inr (.inl (by omega))
    have hpad : padString (signText neg ++ D) p '0' = signText neg ++ D ++ List.replicate j ' ' :=
      padString_of_neg hp _ _
    simp only [formatNumber, formatPrecisionWidth, if_pos hne, formatPrecisionWidth',
      Option.isNone_some, Bool.and_false, ite_self, Bool.false_eq_true, if_false, Option.getD_some,
      formatPrecisionWidth'', hpad, padString_space]
    have hsp : ∀ X Y : List Char, X = Y → inField (decide (W < 0)) W.natAbs (X ++ List.replicate j ' ') =
        inField (decide (W < 0)) W.natAbs (Y ++ List.replicate j ' ') := fun X Y h => by rw [h]
    by_cases hzero : pre = .zero
    · have hpos : neg = false := by
        by_contra h
        cases hzero.symm.trans (hneg (by simpa using h)).1
      have hfront : textFront pre neg D = [] := by simp [textFront, hzero, hpos, signText, AltPrefix.isHex]
      rw [if_pos hzero, hfront, hzeros, hpos]
      simp only [signText, Bool.false_eq_true, if_false, List.nil_append, hzero, true_and]
      by_cases h0 : D = ['0']
      · subst h0
        rfl
      · have hhead := hD.head.resolve_left h0
        have hhead' : (D ++ List.replicate j ' ').head? ≠ some '0' := by
          rw [List.head?_append_of_ne_nil _ hD.ne_nil]
          exact hhead
        rw [forceZero_of_head hhead', if_pos hhead]
        rfl
    · have hnoalt : textZeros pre D none = 0 := by rw [hzeros, if_neg fun h => hzero h.1]
      rw [if_neg hzero, hnoalt, List.replicate_zero, List.append_nil]
      by_cases hhex : pre.isHex = true
      · have hpos : neg = false := by
          by_contra h
          rw [(hneg (by simpa using h)).1] at hhex
          cases hhex
        have hnone : pre ≠ .none := fun h => by rw [h] at hhex; cases hhex
        subst hpos
        by_cases h0 : D = ['0']
        · rw [if_pos (.inl ⟨.inl (by simp [signText, h0]), hhex⟩)]
          exact hsp _ _ (by simp [textFront, h0])
        · rw [if_neg (by simp [signText, h0, hD.ne_nil, hnone]), ← List.append_assoc]
          exact hsp _ _ (by simp [textFront, signText, hhex, h0])
      · have hnone : pre = .none := by cases pre <;> simp_all [AltPrefix.isHex]
        rw [if_pos (.inr hnone)]
        exact hsp _ _ (by simp [textFront, hhex])
  rw [hcode, conversionText, hds, textFill, hds, naturalLength, hds]
  by_cases hW : W < 0
  · have hleft : decide (W < 0) = true := by simpa using hW
    have hpads : zeroPads none zero true = false := by simp [zeroPads]
    rw [hleft]
    simp only [hpads, Bool.false_eq_true, if_false, Nat.max_zero, false_imp_iff, and_true, hW, true_and]
    rw [inField_left_spaces]
    simp only [List.length_append, List.length_replicate, j]
    omega
  · have hright : decide (W < 0) = false := by simpa using hW
    rw [hright, inField_right_spaces hD]
    simp only [hW, false_and, or_false]
    have hj : j = 0 ↔ p.natAbs ≤ (signText neg ++ D).length := Nat.sub_eq_zero_iff_le
    rw [hj]
    by_cases hpads : zeroPads none zero false = true
    · simp only [hpads, if_true, true_imp_iff]
      omega
    · simp only [hpads, Bool.false_eq_true, if_false, Nat.max_zero, false_imp_iff]

end Agree

/-! ## Every number, precision and width -/

/-- When the rules print what is asked for.  A negative precision pads nothing, or only where the
    field has the room, and does not take away zeros that the flag `0` should have put in.  Otherwise,
    nothing has to stand between a sign and the digits, and the flags `0` and `#` only meet in
    hexadecimal, for a number other than zero, or in a field that is full anyway. -/
def FormatsRight (pre : AltPrefix) (neg : Bool) (D : List Char) (prec : Option Int) (zero left : Bool) (w : Nat) :
    Prop :=
  let natural := naturalLength pre neg D (effectivePrecision prec)
  let pads := zeroPads (effectivePrecision prec) zero left
  if prec.getD 0 < 0 then
    let length := (signText neg ++ D).length
    ((prec.getD 0).natAbs ≤ length ∨ left = true ∧ natural + ((prec.getD 0).natAbs - length) ≤ w) ∧
      (pads = true → w ≤ natural)
  else
    (neg = true → (effectivePrecision prec).getD 1 ≤ D.length ∧ (pads = true → w ≤ natural)) ∧
      (pads = true → pre = .zero ∨ pre.isHex = true ∧ D = ['0'] → w ≤ natural)

/-- **The rules print the number as it should be exactly when `FormatsRight`**, for every number,
    precision, width and combination of flags. -/
theorem formatNumber_eq_iff {pre : AltPrefix} {neg : Bool} {D : List Char} (hD : IsNumeral D)
    (hneg : neg = true → pre = .none ∧ D ≠ ['0']) (prec : Option Int) (zero : Bool) (W : Int) :
    formatNumber pre neg D prec zero W =
        conversionText pre neg D (effectivePrecision prec) zero (decide (W < 0)) W.natAbs ↔
      FormatsRight pre neg D prec zero (decide (W < 0)) W.natAbs := by
  unfold FormatsRight
  by_cases hp : prec.getD 0 < 0
  · obtain ⟨p, rfl, hneg'⟩ : ∃ p, prec = some p ∧ p < 0 := by
      cases prec with
      | none => simp at hp
      | some p => exact ⟨p, rfl, hp⟩
    have heff : effectivePrecision (some p) = none := if_pos hneg'
    rw [heff, formatNumber_negative_precision hD hneg hneg']
    simp only [Option.getD_some, hneg', if_true, decide_eq_true_eq]
  · -- the precision that the rules use is the one that counts
    obtain ⟨q, heff, hP, hnone⟩ : ∃ q, effectivePrecision prec = q ∧ prec.getD 1 = (q.getD 1 : Nat) ∧
        prec.isNone = q.isNone := by
      cases prec with
      | none => exact ⟨none, rfl, rfl, rfl⟩
      | some p =>
        have hp' : ¬p < 0 := hp
        refine ⟨some p.toNat, if_neg hp', ?_, rfl⟩
        simp only [Option.getD_some]
        omega
    simp only [if_neg hp, heff, formatNumber, hP, hnone]
    cases neg with
    | true =>
      obtain ⟨rfl, h0⟩ := hneg rfl
      have hsign : signText true ++ D = '-' :: D := rfl
      rw [hsign, formatPrecisionWidth_negative hD h0]
      simp [AltPrefix.isHex]
    | false =>
      have hsign : signText false ++ D = D := rfl
      simp only [hsign, Bool.false_eq_true, false_imp_iff, true_and]
      by_cases hpads : zeroPads q zero (decide (W < 0)) = true
      · obtain ⟨⟨rfl, rfl⟩, hW⟩ : (zero = true ∧ q = none) ∧ ¬W < 0 := by simpa [zeroPads] using hpads
        obtain ⟨w, rfl⟩ := Int.eq_ofNat_of_zero_le (not_lt.mp hW)
        have hright : decide ((w : Int) < 0) = false := by simp
        simp only [hright, Int.natAbs_natCast]
        have := @formatPrecisionWidth_zeros pre _ hD w
        simpa [zeroPads] using this
      · rw [formatPrecisionWidth_unsigned hD q (by simpa using hpads)]
        simp [hpads]

/-! ## The characters of a number -/

section Characters

variable {c : Char} {pre : AltPrefix} {V D : List Char}

theorem mem_padString {X : List Char} {W : Int} {P : Char} (h : c ∈ padString X W P) :
    c ∈ X ∨ c = P ∨ c = ' ' := by
  by_cases hW : W < 0
  · rw [padString_of_neg hW] at h
    rcases List.mem_append.mp h with h | h
    · exact .inl h
    · exact .inr (.inr (List.eq_of_mem_replicate h))
  · rw [padString_of_nonneg (not_lt.mp hW)] at h
    rcases List.mem_append.mp h with h | h
    · exact .inr (.inl (List.eq_of_mem_replicate h))
    · exact .inl h

theorem mem_forceZero (h : c ∈ forceZero V) : c = '0' ∨ c ∈ V := by
  unfold forceZero at h
  split at h
  · exact .inr h
  · exact List.mem_cons.mp h

theorem mem_formatPrecisionWidth'' {P W : Int} (h : c ∈ formatPrecisionWidth'' V P pre W) :
    c ∈ V ∨ c = '0' ∨ c = ' ' ∨ c ∈ pre.text := by
  have hpad : c ∈ padString V P '0' → c ∈ V ∨ c = '0' ∨ c = ' ' ∨ c ∈ pre.text := by
    intro hc
    rcases mem_padString hc with h | h | h <;> simp [h]
  unfold formatPrecisionWidth'' at h
  split at h
  · rcases mem_padString h with h | h | h
    · rcases mem_forceZero h with h | h
      · exact .inr (.inl h)
      · exact hpad h
    · exact .inr (.inr (.inl h))
    · exact .inr (.inr (.inl h))
  · split at h
    · rcases mem_padString h with h | h | h
      · exact hpad h
      · exact .inr (.inr (.inl h))
      · exact .inr (.inr (.inl h))
    · rcases mem_padString h with h | h | h
      · rcases List.mem_append.mp h with h | h
        · exact .inr (.inr (.inr h))
        · exact hpad h
      · exact .inr (.inr (.inl h))
      · exact .inr (.inr (.inl h))

/-- The rules print digits, zeros, spaces and the prefix. -/
theorem mem_formatPrecisionWidth {P W : Int} {Z : Bool} (h : c ∈ formatPrecisionWidth V P Z pre W) :
    c ∈ V ∨ c = '0' ∨ c = ' ' ∨ c ∈ pre.text := by
  have hstep : ∀ V' Q Z', c ∈ formatPrecisionWidth' V' Q Z' pre W →
      c ∈ V' ∨ c = '0' ∨ c = ' ' ∨ c ∈ pre.text := by
    intro V' Q Z' hc
    unfold formatPrecisionWidth' at hc
    split at hc
    · exact mem_formatPrecisionWidth'' hc
    · exact mem_formatPrecisionWidth'' hc
  unfold formatPrecisionWidth at h
  dsimp only at h
  split at h
  · exact hstep _ _ _ h
  · rcases hstep _ _ _ h with h | h
    · cases h
    · exact .inr h

/-- So does the text that is asked for, if there is no sign. -/
theorem mem_conversionText {q : Option Nat} {zero left : Bool} {w : Nat}
    (h : c ∈ conversionText pre false D q zero left w) : c ∈ D ∨ c = '0' ∨ c = ' ' ∨ c ∈ pre.text := by
  have hfield : ∀ X, c ∈ inField left w X → c ∈ X ∨ c = ' ' := by
    intro X hc
    unfold inField at hc
    split at hc <;> rcases List.mem_append.mp hc with hc | hc
    · exact .inl hc
    · exact .inr (List.eq_of_mem_replicate hc)
    · exact .inr (List.eq_of_mem_replicate hc)
    · exact .inl hc
  rcases hfield _ h with h | h
  · rcases List.mem_append.mp h with h | h
    · rcases List.mem_append.mp h with h | h
      · unfold textFront signText at h
        split at h
        · cases ‹false = true›
        · rw [List.nil_append] at h
          split at h
          · exact .inr (.inr (.inr h))
          · cases h
      · exact .inr (.inl (List.eq_of_mem_replicate h))
    · unfold textDigits at h
      split at h
      · cases h
      · exact .inl h
  · exact .inr (.inr (.inl h))

end Characters

end CSemantics
