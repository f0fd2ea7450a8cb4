/-
  Integer arithmetic.

  The numbers of the semantics are unbounded, so an operator computes the mathematical result first and
  `intArithInterpret` makes a value of the type of it, or a report:

      in range                the result
      unsigned, out of range  the result modulo 2 ^ width
      signed, out of range    CCV1

  Results of bitwise operators are in range whatever the operands.  Those of a signed type go through
  `bitwiseInterpret`, which reports the two numbers whose bits could be a negative zero on another machine,
  -1 and the least one, unless an operand was one of them.

  Shifts are guarded: by a count that is negative or too large, and by a negative left operand, though some of
  these have a result that is in range.  `integer_arithmetic` has all operators of all types but enumerations,
  which are promoted and neither signed nor unsigned (`shift_not_exact`).
-/
import CSemantics.Expr.Bitwise

namespace CSemantics

open IntBits ConjSearch

/-! ## Operators -/

inductive ArithmeticOp
  | times | plus | minus
  deriving DecidableEq

def ArithmeticOp.compute : ArithmeticOp → Int → Int → Int
  | .times, a, b => a * b
  | .plus, a, b => a + b
  | .minus, a, b => a - b

inductive BitwiseOp
  | and | xor | or
  deriving DecidableEq

def BitwiseOp.compute : BitwiseOp → Int → Int → Int
  | .and, a, b => Int.land a b
  | .xor, a, b => Int.xor a b
  | .or, a, b => Int.lor a b

/-- What the operator does with one bit. -/
def BitwiseOp.bit : BitwiseOp → Bool → Bool → Bool
  | .and => Bool.and
  | .xor => Bool.xor
  | .or => Bool.or

def BitwiseOp.notIntegers : BitwiseOp → Stop
  | .and => CV "CEB9" "Both bitwise AND operands must have integer type."
  | .xor => CV "CEB10" "Both bitwise exclusive OR operands must have integer type."
  | .or => CV "CEB11" "Both bitwise inclusive OR operands must have integer type."

inductive ShiftOp
  | left | right
  deriving DecidableEq

def ShiftOp.compute : ShiftOp → Int → ℕ → Int
  | .left, a, n => a <<< n
  | .right, a, n => a >>> n

def ShiftOp.notIntegers : ShiftOp → Stop
  | .left => CV "CEB1" "Both bitwise shift operands must have integer type."
  | .right => CV "CEB5" "Both bitwise shift operands must have integer type."

def ShiftOp.negativeCount : ShiftOp → Stop
  | .left => UNDEF "CEB2" "The right operand in a bitwise shift is negative."
  | .right => UNDEF "CEB6" "The right operand in a bitwise shift is negative."

def ShiftOp.largeCount : ShiftOp → Stop
  | .left => UNDEF "CEB3"
      "The right operand in a bitwise shift is greater than or equal to the bit width of the left operand."
  | .right => UNDEF "CEB7"
      "The right operand in a bitwise shift is greater than or equal to the bit width of the left operand."

def ShiftOp.negativeLeft : ShiftOp → Stop
  | .left => UNDEF "CEB4" "The left operand in a bitwise left-shift is negative."
  | .right => IMPL "CEB8" "The left operand in a bitwise right-shift is negative."

/-! ## Interpreting a result -/

def CCV1 : Stop := UNDEF "CCV1" "Signed integer overflow."

def CEB12 : Stop := IMPLUB "CEB12"
  "Potential negative zero produced via bitwise operations, undefined under sign and magnitude or one's complement arithmetic, implementation-defined otherwise."

section Rules

variable (cfg : Settings) (tags : Tags)

/-- `intArithInterpret(T, N, OverflowLint)` -/
def intArithInterpret (T : UType) (N : Int) (OverflowLint : Bool) : Eval (Int × UType) := do
  let lo ← T.min cfg tags
  let hi ← T.max cfg tags
  if lo ≤ N ∧ hi ≥ N then
    if T.isInteger then .ok (N, T) else .error .stuck
  else if T.isUnsignedInteger && (!hasLint || !OverflowLint) then .ok (N.emod (hi + 1), T)
  else if T.isSignedInteger then .error CCV1
  else .error .stuck

/-- `isNegZero(N, T)` -/
def isNegZero (N : Int) (T : UType) : Eval Bool := do
  let lo ← T.min cfg tags
  return decide (N = lo) || decide (N = -1)

/-- `bitwiseInterpret(T, N, NegZero, OverflowLint)`, where `NegZero` says that an operand was one. -/
def bitwiseInterpret (T : UType) (N : Int) (NegZero OverflowLint : Bool) : Eval (Int × UType) :=
  if T.isUnsignedInteger then intArithInterpret cfg tags T N OverflowLint
  else if T.isSignedInteger then
    if NegZero then intArithInterpret cfg tags T N OverflowLint
    else do
      let (n, U) ← intArithInterpret cfg tags T N OverflowLint
      if ← isNegZero cfg tags n U then .error CEB12 else return (n, U)
  else .error .stuck

/-- `isNegZero(E1, T) orBool isNegZero(E2, T')` -/
def eitherNegZero (E1 : Int) (T : UType) (E2 : Int) (T' : UType) : Eval Bool := do
  return (← isNegZero cfg tags E1 T) || (← isNegZero cfg tags E2 T')

/-- `isPromoted(T) andBool T ==Type T'` -/
def SamePromoted (T T' : UType) : Prop := T.isPromoted = true ∧ EqType cfg tags T T' true

/-! ## The rules -/

/-- The rules for `tv(I1, T) * tv(I2, T')`, `+` and `-`. -/
inductive ArithmeticRule (op : ArithmeticOp) (I1 : Int) (T : UType) (I2 : Int) (T' : UType) :
    Eval (Int × UType) → Prop
  | interpret (htypes : SamePromoted cfg tags T T') :
    ArithmeticRule op I1 T I2 T' (intArithInterpret cfg tags T (op.compute I1 I2) true)

/-- The rules for `tv(I1, T) / tv(I2, T')`. -/
inductive DivideRule (I1 : Int) (T : UType) (I2 : Int) (T' : UType) : Eval (Int × UType) → Prop
  | interpret (htypes : SamePromoted cfg tags T T') (h0 : I2 ≠ 0) :
    DivideRule I1 T I2 T' (intArithInterpret cfg tags T (I1.tdiv I2) true)
  | zero (heq : EqType cfg tags T T' true) (h0 : I2 = 0) :
    DivideRule I1 T I2 T' (.error (UNDEF "CEMX1" "Division by 0."))

/-- The rules for `tv(I1, T) % tv(I2, T')`. -/
inductive ModulusRule (I1 : Int) (T : UType) (I2 : Int) (T' : UType) : Eval (Int × UType) → Prop
  | interpret {lo hi : Int} (htypes : SamePromoted cfg tags T T') (h0 : I2 ≠ 0) (hlo : T.min cfg tags = .ok lo)
    (hhi : T.max cfg tags = .ok hi) (hmin : lo ≤ I1.tdiv I2) (hmax : hi ≥ I1.tdiv I2) :
    ModulusRule I1 T I2 T' (intArithInterpret cfg tags T (I1.tmod I2) true)
  | zero (heq : EqType cfg tags T T' true) (h0 : I2 = 0) :
    ModulusRule I1 T I2 T' (.error (UNDEF "CEMX2" "Modulus by 0."))
  | overflow {lo hi : Int} (htypes : SamePromoted cfg tags T T') (hint : T.isInteger = true) (h0 : I2 ≠ 0)
    (hlo : T.min cfg tags = .ok lo) (hhi : T.max cfg tags = .ok hi) (hout : ¬(lo ≤ I1.tdiv I2 ∧ hi ≥ I1.tdiv I2)) :
    ModulusRule I1 T I2 T' (.error (UNDEF "CEMX3" "Signed integer overflow."))

/-- The rule for `~ tv(I, T)`. -/
inductive ComplementRule (I : Int) (T : UType) : Eval (Int × UType) → Prop
  | interpret {negZero : Bool} (hpromoted : T.isPromoted = true) (hneg : isNegZero cfg tags I T = .ok negZero) :
    ComplementRule I T (bitwiseInterpret cfg tags T (Int.lnot I) negZero false)

/-- The rules for `tv(E1, T) & tv(E2, T')`, `^` and `|`. -/
inductive BitwiseRule (op : BitwiseOp) (E1 : Int) (T : UType) (E2 : Int) (T' : UType) : Eval (Int × UType) → Prop
  | interpret {negZero : Bool} (htypes : SamePromoted cfg tags T T')
    (hneg : eitherNegZero cfg tags E1 T E2 T' = .ok negZero) :
    BitwiseRule op E1 T E2 T' (bitwiseInterpret cfg tags T (op.compute E1 E2) negZero false)
  | notIntegers (h : T.isInteger = false ∨ T'.isInteger = false) : BitwiseRule op E1 T E2 T' (.error op.notIntegers)

/-- The rules for `tv(E1, T1) << tv(E2, T2)` and `>>`. -/
inductive ShiftRule (op : ShiftOp) (E1 : Int) (T1 : UType) (E2 : Int) (T2 : UType) : Eval (Int × UType) → Prop
  | interpret {size : Int} {negZero : Bool} (h1 : T1.isPromoted = true) (h2 : T2.isPromoted = true) (hcount : E2 ≥ 0)
    (hsize : bitSizeofType cfg tags T1 = .ok size) (hwidth : E2 < size) (hleft : E1 ≥ 0)
    (hneg : eitherNegZero cfg tags E1 T1 E2 T2 = .ok negZero) :
    ShiftRule op E1 T1 E2 T2 (bitwiseInterpret cfg tags T1 (op.compute E1 E2.toNat) negZero true)
  | notIntegers (h : T1.isInteger = false ∨ T2.isInteger = false) : ShiftRule op E1 T1 E2 T2 (.error op.notIntegers)
  | negativeCount (h1 : T1.isPromoted = true) (h2 : T2.isPromoted = true) (hcount : E2 < 0) :
    ShiftRule op E1 T1 E2 T2 (.error op.negativeCount)
  | largeCount {size : Int} (h1 : T1.isPromoted = true) (h2 : T2.isPromoted = true)
    (hsize : bitSizeofType cfg tags T1 = .ok size) (hwidth : E2 ≥ size) :
    ShiftRule op E1 T1 E2 T2 (.error op.largeCount)
  | negativeLeft (hsigned : T1.isSignedInteger = true) (h1 : T1.isPromoted = true) (h2 : T2.isPromoted = true)
    (hleft : E1 < 0) : ShiftRule op E1 T1 E2 T2 (.error op.negativeLeft)

end Rules

/-! ## What interpreting gives -/

/-- **The value of a result** in a format of `w` bits: modulo `2 ^ w` without a sign, and itself or an overflow
    with one. -/
def arithmeticValue (w : ℕ) (s : Bool) (T : UType) (N : Int) : Eval (Int × UType) :=
  if s then if Represents w true N then .ok (N, T) else .error CCV1
  else .ok (N % 2 ^ w, T)

/-- The number `n` could be a negative zero. -/
def NegativeZero (w : ℕ) (n : Int) : Prop := n = shapeMin w true ∨ n = -1

instance (w : ℕ) (n : Int) : Decidable (NegativeZero w n) := inferInstanceAs (Decidable (_ ∨ _))

section Interpret

variable {cfg : Settings} {tags : Tags} {T T' : UType} {w : ℕ} {s : Bool} {N a b : Int}

theorem emod_of_represents (h : Represents w false N) : N % 2 ^ w = N := by
  have hhi : N ≤ 2 ^ w - 1 := h.2
  exact Int.emod_eq_of_lt h.1 (by omega)

theorem arithmeticValue_of_represents (h : Represents w s N) : arithmeticValue w s T N = .ok (N, T) := by
  cases s with
  | true => rw [arithmeticValue, if_pos rfl, if_pos h]
  | false =>
    rw [arithmeticValue, if_neg (by decide), emod_of_represents h]

theorem intArithInterpret_eq (hT : IntShape cfg tags T w s) (henum : T.isEnum = false) (lint : Bool) :
    intArithInterpret cfg tags T N lint = arithmeticValue w s T N := by
  obtain ⟨hsigned, hunsigned⟩ := hT.sign henum
  rw [intArithInterpret, hT.min, hT.max]
  simp only [Eval.ok_bind]
  by_cases hin : shapeMin w s ≤ N ∧ shapeMax w s ≥ N
  · rw [if_pos hin, if_pos hT.integer, arithmeticValue_of_represents hin]
  · rw [if_neg hin]
    cases s with
    | true =>
      have hout : ¬Represents w true N := hin
      rw [← hsigned, show T.isUnsignedInteger = false by simpa using hunsigned.symm, arithmeticValue,
        if_pos rfl, if_neg hout]
      rfl
    | false =>
      have hspan : shapeMax w false + 1 = 2 ^ w := by
        show (2 : Int) ^ w - 1 + 1 = 2 ^ w
        omega
      rw [show T.isUnsignedInteger = true by simpa using hunsigned.symm, hspan]
      rfl

theorem isNegZero_eq (hmin : T.min cfg tags = .ok (shapeMin w s)) (N : Int) :
    isNegZero cfg tags N T = .ok (decide (N = shapeMin w s) || decide (N = -1)) := by
  rw [isNegZero, hmin]
  rfl

theorem NegativeZero.represents (hw : 0 < w) (h : NegativeZero w N) : Represents w true N := by
  have hspan := shapeMax_sub_shapeMin hw true
  have hmin := shapeMin_true_lt w
  have hmax := shapeMax_nonneg w true
  rcases h with rfl | rfl
  · exact ⟨le_refl _, by omega⟩
  · exact ⟨by omega, by omega⟩

/-- A result of a signed type is a report if it could be a negative zero and no operand could. -/
theorem bitwiseInterpret_eq (hT : IntShape cfg tags T w s) (henum : T.isEnum = false) (negZero lint : Bool) :
    bitwiseInterpret cfg tags T N negZero lint =
      if s = true ∧ negZero = false ∧ NegativeZero w N then .error CEB12 else arithmeticValue w s T N := by
  obtain ⟨hsigned, hunsigned⟩ := hT.sign henum
  rw [bitwiseInterpret, intArithInterpret_eq hT henum, ← hsigned, show T.isUnsignedInteger = !s by simp [hunsigned]]
  cases s with
  | false => simp
  | true =>
    cases negZero with
    | true => simp
    | false =>
      by_cases hneg : NegativeZero w N
      · have hneg' : (decide (N = shapeMin w true) || decide (N = -1)) = true := by
          rw [Bool.or_eq_true, decide_eq_true_iff, decide_eq_true_iff]
          exact hneg
        rw [arithmeticValue_of_represents (hneg.represents hT.pos)]
        simp [hneg, hneg', isNegZero_eq hT.min]
      · have hneg' : (decide (N = shapeMin w true) || decide (N = -1)) = false := by
          rw [Bool.or_eq_false_iff, decide_eq_false_iff_not, decide_eq_false_iff_not]
          exact not_or.mp hneg
        by_cases hN : Represents w true N
        · rw [arithmeticValue_of_represents hN]
          simp [hneg, hneg', isNegZero_eq hT.min]
          rfl
        · simp [arithmeticValue, hN, hneg]
          rfl

end Interpret

/-! ## Operands and results -/

section Operands

variable {cfg : Settings} {tags : Tags} {T T' : UType} {w : ℕ} {s : Bool} {n a b : Int}

/-- What has the type of an integer is an integer, with the bounds of that type. -/
theorem bounds_of_samePromoted (hT : IntShape cfg tags T w s) (henum : T.isEnum = false)
    (h : SamePromoted cfg tags T T') :
    T'.isInteger = true ∧ T'.min cfg tags = .ok (shapeMin w s) ∧ T'.max cfg tags = .ok (shapeMax w s) := by
  have hint : T'.isInteger = true := by
    obtain ⟨m, st⟩ := T
    obtain ⟨m', st'⟩ := T'
    obtain ⟨qs, hqs, -⟩ := decides_true_iff.mp h.2
    have hpromoted := h.1
    rcases UType.isInteger_cases hT.integer with ⟨m, i, heq⟩ | ⟨m, i, n, heq⟩ | ⟨m, s, heq⟩
    · injection heq with _ heq
      subst heq
      cases st' with
      | array k e => simp [compatQueries, type, qualSimple] at hqs
      | nonArray n' =>
        simp only [type, qualSimple, compatQueries, if_pos] at hqs
        cases n' with
        | basic b =>
          cases b with
          | integer i' => exact (@intShape_integer cfg tags m' i').integer
          | _ => simp [nonArrayQueries, areBasicCompat, onlyIf] at hqs
        | enumType s => simp [UType.isInteger, UType.isEnum]
        | _ => simp [nonArrayQueries] at hqs
    · injection heq with _ heq
      subst heq
      cases hpromoted
    · injection heq with _ heq
      subst heq
      cases henum
  obtain ⟨hmin, hmax⟩ := bounds_of_eqType h.2 hint henum
  exact ⟨hint, by rw [← hmin, hT.min], by rw [← hmax, hT.max]⟩

/-- Whatever lies between 0 and a number of a format is one. -/
theorem Represents.of_between (ha : Represents w s a) (h : (0 ≤ n ∧ n ≤ a) ∨ (a ≤ n ∧ n ≤ 0)) : Represents w s n := by
  have hmin := shapeMin_le_zero w s
  have hmax := shapeMax_nonneg w s
  obtain ⟨hlo, hhi⟩ := ha
  constructor
  · omega
  · omega

theorem Represents.tmod (ha : Represents w s a) (b : Int) : Represents w s (a.tmod b) := by
  refine ha.of_between ?_
  have hle : (a.tmod b).natAbs ≤ a.natAbs := by
    rw [Int.natAbs_tmod]
    exact Nat.mod_le _ _
  rcases le_total 0 a with h | h
  · have := Int.tmod_nonneg b h
    omega
  · have hneg := Int.tmod_nonneg (a := -a) b (by omega)
    rw [Int.neg_tmod] at hneg
    omega

theorem Represents.shiftRight (ha : Represents w s a) (h0 : 0 ≤ a) (k : ℕ) : Represents w s (a >>> k) := by
  rw [Int.shiftRight_eq_div_pow]
  refine ha.of_between (.inl ⟨Int.ediv_nonneg h0 (by positivity), ?_⟩)
  exact Int.ediv_le_self _ h0

theorem Represents.lnot (ha : Represents w true a) : Represents w true (Int.lnot a) := by
  obtain ⟨hlo, hhi⟩ := ha
  have hlo' : -2 ^ (w - 1) ≤ a := hlo
  have hhi' : a ≤ 2 ^ (w - 1) - 1 := hhi
  rw [lnot_eq]
  constructor
  · show -(2 : Int) ^ (w - 1) ≤ _
    omega
  · show _ ≤ (2 : Int) ^ (w - 1) - 1
    omega

theorem compute_eq_bitwise (op : BitwiseOp) (a b : Int) : op.compute a b = Int.bitwise op.bit a b := by
  cases op with
  | and => exact land_eq_bitwise a b
  | xor => exact congrFun (congrFun Int.bitwise_xor.symm a) b
  | or => exact lor_eq_bitwise a b

theorem testBit_compute (op : BitwiseOp) (a b : Int) (k : ℕ) :
    Int.testBit (op.compute a b) k = op.bit (Int.testBit a k) (Int.testBit b k) := by
  rw [compute_eq_bitwise, Int.testBit_bitwise]

theorem Represents.compute (op : BitwiseOp) (ha : Represents w s a) (hb : Represents w s b) :
    Represents w s (op.compute a b) := by
  rw [compute_eq_bitwise]
  exact Represents.bitwise op.bit (fun _ => by cases op <;> rfl) ha hb

end Operands

/-! ## Arithmetic -/

/-- **The value of a bitwise operator**, where `operand` says that an operand could be a negative zero. -/
def bitwiseValue (w : ℕ) (s : Bool) (T : UType) (N : Int) (operand : Prop) [Decidable operand] : Eval (Int × UType) :=
  if s = true ∧ ¬operand ∧ NegativeZero w N then .error CEB12 else arithmeticValue w s T N

/-- **The operators compute as in C** on the numbers `a` and `b` of one type. -/
structure IntegerArithmetic (cfg : Settings) (tags : Tags) (w : ℕ) (s : Bool) (T : UType) (a : Int) (T' : UType)
    (b : Int) : Prop where
  arithmetic : ∀ op r, ArithmeticRule cfg tags op a T b T' r ↔ r = arithmeticValue w s T (op.compute a b)
  divide : b ≠ 0 → ∀ r, DivideRule cfg tags a T b T' r ↔ r = arithmeticValue w s T (a.tdiv b)
  divideZero : b = 0 → ∀ r, DivideRule cfg tags a T b T' r ↔ r = .error (UNDEF "CEMX1" "Division by 0.")
  modulus : b ≠ 0 → Represents w s (a.tdiv b) → ∀ r, ModulusRule cfg tags a T b T' r ↔ r = .ok (a.tmod b, T)
  modulusZero : b = 0 → ∀ r, ModulusRule cfg tags a T b T' r ↔ r = .error (UNDEF "CEMX2" "Modulus by 0.")
  modulusOverflow : b ≠ 0 → ¬Represents w s (a.tdiv b) →
    ∀ r, ModulusRule cfg tags a T b T' r ↔ r = .error (UNDEF "CEMX3" "Signed integer overflow.")
  quotient : ∀ q m U U', DivideRule cfg tags a T b T' (.ok (q, U)) → ModulusRule cfg tags a T b T' (.ok (m, U')) →
    q * b + m = a
  complement : ∀ r, ComplementRule cfg tags a T r ↔ r = bitwiseValue w s T (Int.lnot a) (NegativeZero w a)
  complementBits : ∀ k, Int.testBit (Int.lnot a) k = !Int.testBit a k
  complementRange : s = true → Represents w s (Int.lnot a)
  bitwise : ∀ op r, BitwiseRule cfg tags op a T b T' r ↔
    r = bitwiseValue w s T (op.compute a b) (NegativeZero w a ∨ NegativeZero w b)
  bitwiseBits : ∀ op k, Int.testBit (BitwiseOp.compute op a b) k = op.bit (Int.testBit a k) (Int.testBit b k)
  bitwiseRange : ∀ op, Represents w s (BitwiseOp.compute op a b)

/-- **Shifts** of the number `a` by the number `b` of another type: the arithmetic of C, or a report. -/
structure ShiftArithmetic (cfg : Settings) (tags : Tags) (w : ℕ) (s : Bool) (T : UType) (a : Int) (T2 : UType)
    (b : Int) : Prop where
  left : 0 ≤ b → b < w → 0 ≤ a → ∀ r, ShiftRule cfg tags .left a T b T2 r ↔ r = arithmeticValue w s T (a * 2 ^ b.toNat)
  right : 0 ≤ b → b < w → 0 ≤ a → ∀ r, ShiftRule cfg tags .right a T b T2 r ↔ r = .ok (a / 2 ^ b.toNat, T)
  reported : b < 0 ∨ w ≤ b ∨ a < 0 → ∀ op, (∃ r, ShiftRule cfg tags op a T b T2 r) ∧
    ∀ r, ShiftRule cfg tags op a T b T2 r → ∃ msg, r = .error (.report msg)

section Claim

variable {cfg : Settings} {tags : Tags} {T T' T2 : UType} {w w2 : ℕ} {s s2 : Bool} {a b : Int}

theorem eitherNegZero_eq (E1 E2 : Int) {lo lo' : Int} (hmin : T.min cfg tags = .ok lo) (hmin' : T'.min cfg tags = .ok lo') :
    eitherNegZero cfg tags E1 T E2 T' =
      .ok ((decide (E1 = lo) || decide (E1 = -1)) || (decide (E2 = lo') || decide (E2 = -1))) := by
  rw [eitherNegZero, isNegZero, isNegZero, hmin, hmin']
  rfl

theorem divideRule_iff (hT : IntShape cfg tags T w s) (henum : T.isEnum = false) (htypes : SamePromoted cfg tags T T')
    (hb : b ≠ 0) {r : Eval (Int × UType)} :
    DivideRule cfg tags a T b T' r ↔ r = arithmeticValue w s T (a.tdiv b) := by
  rw [← intArithInterpret_eq hT henum true]
  constructor
  · intro h
    cases h with
    | interpret _ _ => rfl
    | zero _ h0 => exact absurd h0 hb
  · rintro rfl
    exact .interpret htypes hb

theorem divideRule_zero_iff (htypes : SamePromoted cfg tags T T') (hb : b = 0) {r : Eval (Int × UType)} :
    DivideRule cfg tags a T b T' r ↔ r = .error (UNDEF "CEMX1" "Division by 0.") := by
  constructor
  · intro h
    cases h with
    | interpret _ h0 => exact absurd hb h0
    | zero _ _ => rfl
  · rintro rfl
    exact .zero htypes.2 hb

theorem modulusRule_iff (hT : IntShape cfg tags T w s) (henum : T.isEnum = false) (htypes : SamePromoted cfg tags T T')
    (ha : Represents w s a) (hb : b ≠ 0) {r : Eval (Int × UType)} :
    ModulusRule cfg tags a T b T' r ↔
      r = if Represents w s (a.tdiv b) then .ok (a.tmod b, T) else .error (UNDEF "CEMX3" "Signed integer overflow.") := by
  have hvalue : intArithInterpret cfg tags T (a.tmod b) true = .ok (a.tmod b, T) := by
    rw [intArithInterpret_eq hT henum, arithmeticValue_of_represents (ha.tmod b)]
  constructor
  · intro h
    cases h with
    | interpret _ _ hlo hhi hmin hmax =>
      rw [hT.min] at hlo
      rw [hT.max] at hhi
      cases hlo
      cases hhi
      rw [if_pos ⟨hmin, hmax⟩, hvalue]
    | zero _ h0 => exact absurd h0 hb
    | overflow _ _ _ hlo hhi hout =>
      rw [hT.min] at hlo
      rw [hT.max] at hhi
      cases hlo
      cases hhi
      have hout' : ¬Represents w s (a.tdiv b) := hout
      rw [if_neg hout']
  · rintro rfl
    split
    · next hin =>
      rw [← hvalue]
      exact .interpret htypes hb hT.min hT.max hin.1 hin.2
    · next hout => exact .overflow htypes hT.integer hb hT.min hT.max hout

theorem bitwiseInterpret_value (hT : IntShape cfg tags T w s) (henum : T.isEnum = false) (N : Int) {negZero : Bool}
    {operand : Prop} [Decidable operand] (h : s = true → negZero = decide operand) (lint : Bool) :
    bitwiseInterpret cfg tags T N negZero lint = bitwiseValue w s T N operand := by
  rw [bitwiseInterpret_eq hT henum, bitwiseValue]
  cases s with
  | false => simp
  | true =>
    rw [h rfl]
    simp only [decide_eq_false_iff_not]

theorem complementRule_iff (hT : IntShape cfg tags T w s) (henum : T.isEnum = false) (hpromoted : T.isPromoted = true)
    {r : Eval (Int × UType)} :
    ComplementRule cfg tags a T r ↔ r = bitwiseValue w s T (Int.lnot a) (NegativeZero w a) := by
  have hnegZero : s = true → (decide (a = shapeMin w s) || decide (a = -1)) = decide (NegativeZero w a) := by
    rintro rfl
    rw [← Bool.decide_or]
    rfl
  rw [← bitwiseInterpret_value hT henum (Int.lnot a) hnegZero false]
  constructor
  · intro h
    cases h with
    | interpret _ hneg =>
      rw [isNegZero_eq hT.min] at hneg
      cases hneg
      rfl
  · rintro rfl
    exact .interpret hpromoted (isNegZero_eq hT.min a)

theorem bitwiseRule_iff (hT : IntShape cfg tags T w s) (henum : T.isEnum = false) (htypes : SamePromoted cfg tags T T')
    {op : BitwiseOp} {r : Eval (Int × UType)} :
    BitwiseRule cfg tags op a T b T' r ↔
      r = bitwiseValue w s T (op.compute a b) (NegativeZero w a ∨ NegativeZero w b) := by
  obtain ⟨hint, hmin, -⟩ := bounds_of_samePromoted hT henum htypes
  have heither := eitherNegZero_eq a b hT.min hmin
  have hnegZero : s = true →
      ((decide (a = shapeMin w s) || decide (a = -1)) || (decide (b = shapeMin w s) || decide (b = -1))) =
        decide (NegativeZero w a ∨ NegativeZero w b) := by
    rintro rfl
    rw [← Bool.decide_or, ← Bool.decide_or, ← Bool.decide_or]
    rfl
  rw [← bitwiseInterpret_value hT henum (op.compute a b) hnegZero false]
  constructor
  · intro h
    cases h with
    | interpret _ hneg =>
      rw [heither] at hneg
      cases hneg
      rfl
    | notIntegers h =>
      rcases h with h | h
      · rw [hT.integer] at h
        cases h
      · rw [hint] at h
        cases h
  · rintro rfl
    exact .interpret htypes heither

/-- With a count below the width and a left operand that is not negative, a shift computes. -/
theorem shiftRule_iff (hT : IntShape cfg tags T w s) (henum : T.isEnum = false) (hpromoted : T.isPromoted = true)
    (hT2 : IntShape cfg tags T2 w2 s2) (hpromoted2 : T2.isPromoted = true) (hcount : 0 ≤ b) (hwidth : b < w)
    (hleft : 0 ≤ a) {op : ShiftOp} {r : Eval (Int × UType)} :
    ShiftRule cfg tags op a T b T2 r ↔ r = arithmeticValue w s T (op.compute a b.toNat) := by
  have hpos : 0 ≤ op.compute a b.toNat := by
    cases op with
    | left =>
      show 0 ≤ a <<< b.toNat
      rw [Int.shiftLeft_eq]
      positivity
    | right =>
      show 0 ≤ a >>> b.toNat
      rw [Int.shiftRight_eq_div_pow]
      positivity
  have hvalue : ∀ negZero, bitwiseInterpret cfg tags T (op.compute a b.toNat) negZero true =
      arithmeticValue w s T (op.compute a b.toNat) := by
    intro negZero
    have hneg : ¬NegativeZero w (op.compute a b.toNat) := by
      have hmin := shapeMin_true_lt w
      rintro (h | h) <;> omega
    rw [bitwiseInterpret_eq hT henum, if_neg fun h => hneg h.2.2]
  constructor
  · intro h
    cases h with
    | interpret _ _ _ _ _ _ _ => exact hvalue _
    | notIntegers h =>
      rcases h with h | h
      · rw [hT.integer] at h
        cases h
      · rw [hT2.integer] at h
        cases h
    | negativeCount _ _ h => omega
    | largeCount _ _ hsize h =>
      rw [hT.size] at hsize
      cases hsize
      omega
    | negativeLeft _ _ _ h => omega
  · rintro rfl
    rw [← hvalue]
    exact .interpret hpromoted hpromoted2 hcount hT.size hwidth hleft (eitherNegZero_eq a b hT.min hT2.min)

/-- Any other shift is reported. -/
theorem shiftRule_reported (hT : IntShape cfg tags T w s) (henum : T.isEnum = false) (hpromoted : T.isPromoted = true)
    (hpromoted2 : T2.isPromoted = true) (ha : Represents w s a) (hout : b < 0 ∨ w ≤ b ∨ a < 0) (op : ShiftOp) :
    (∃ r, ShiftRule cfg tags op a T b T2 r) ∧
      ∀ r, ShiftRule cfg tags op a T b T2 r → ∃ msg, r = .error (.report msg) := by
  constructor
  · rcases hout with h | h | h
    · exact ⟨_, .negativeCount hpromoted hpromoted2 h⟩
    · exact ⟨_, .largeCount hpromoted hpromoted2 hT.size h⟩
    · have hsigned : T.isSignedInteger = true := by
        rw [← (hT.sign henum).1]
        cases s with
        | true => rfl
        | false =>
          have hlo : 0 ≤ a := ha.1
          omega
      exact ⟨_, .negativeLeft hsigned hpromoted hpromoted2 h⟩
  · intro r h
    cases h with
    | interpret _ _ hcount hsize hwidth hleft _ =>
      rw [hT.size] at hsize
      cases hsize
      omega
    | notIntegers _ => cases op <;> exact ⟨_, rfl⟩
    | negativeCount _ _ _ => cases op <;> exact ⟨_, rfl⟩
    | largeCount _ _ _ _ => cases op <;> exact ⟨_, rfl⟩
    | negativeLeft _ _ _ _ => cases op <;> exact ⟨_, rfl⟩

theorem integerArithmetic (hT : IntShape cfg tags T w s) (henum : T.isEnum = false)
    (htypes : SamePromoted cfg tags T T') (ha : Represents w s a) (hb : Represents w s b) :
    IntegerArithmetic cfg tags w s T a T' b where
  arithmetic op r := by
    rw [← intArithInterpret_eq hT henum true]
    constructor
    · rintro ⟨⟩
      rfl
    · rintro rfl
      exact .interpret htypes
  divide hb0 _ := divideRule_iff hT henum htypes hb0
  divideZero hb0 _ := divideRule_zero_iff htypes hb0
  modulus hb0 hin r := by rw [modulusRule_iff hT henum htypes ha hb0, if_pos hin]
  modulusZero hb0 r := by
    constructor
    · intro h
      cases h with
      | interpret _ h0 => exact absurd hb0 h0
      | zero _ _ => rfl
      | overflow _ _ h0 => exact absurd hb0 h0
    · rintro rfl
      exact .zero htypes.2 hb0
  modulusOverflow hb0 hout r := by rw [modulusRule_iff hT henum htypes ha hb0, if_neg hout]
  quotient q m U U' hq hm := by
    by_cases hb0 : b = 0
    · rw [divideRule_zero_iff htypes hb0] at hq
      cases hq
    · rw [modulusRule_iff hT henum htypes ha hb0] at hm
      rw [divideRule_iff hT henum htypes hb0] at hq
      split at hm
      · next hin =>
        rw [arithmeticValue_of_represents hin] at hq
        cases hq
        cases hm
        exact Int.tdiv_mul_add_tmod a b
      · cases hm
  complement _ := complementRule_iff hT henum htypes.1
  complementBits k := Int.testBit_lnot a k
  complementRange hs := by
    subst hs
    exact ha.lnot
  bitwise _ _ := bitwiseRule_iff hT henum htypes
  bitwiseBits op k := testBit_compute op a b k
  bitwiseRange op := ha.compute op hb

/-- **Integer arithmetic** is that of C: for two numbers of one promoted type, signed or unsigned, and for shifts of
    such a number by one of any promoted type. -/
theorem integer_arithmetic (hT : IntShape cfg tags T w s) (henum : T.isEnum = false) (hpromoted : T.isPromoted = true)
    (ha : Represents w s a) :
    (∀ T' b, EqType cfg tags T T' true → Represents w s b → IntegerArithmetic cfg tags w s T a T' b) ∧
    ∀ T2 w2 s2 b, IntShape cfg tags T2 w2 s2 → T2.isPromoted = true → Represents w2 s2 b →
      ShiftArithmetic cfg tags w s T a T2 b := by
  refine ⟨fun T' b heq hb => integerArithmetic hT henum ⟨hpromoted, heq⟩ ha hb, ?_⟩
  intro T2 w2 s2 b hT2 hpromoted2 _
  constructor
  · intro hcount hwidth hleft r
    rw [shiftRule_iff hT henum hpromoted hT2 hpromoted2 hcount hwidth hleft, ← Int.shiftLeft_eq]
    rfl
  · intro hcount hwidth hleft r
    rw [shiftRule_iff hT henum hpromoted hT2 hpromoted2 hcount hwidth hleft]
    have hin : Represents w s (ShiftOp.right.compute a b.toNat) := ha.shiftRight hleft _
    have hshift : ShiftOp.right.compute a b.toNat = a / 2 ^ b.toNat := by
      show a >>> b.toNat = _
      rw [Int.shiftRight_eq_div_pow]
      push_cast
      rfl
    rw [arithmeticValue_of_represents hin, hshift]
  · exact fun hout op => shiftRule_reported hT henum hpromoted hpromoted2 ha hout op

end Claim

/-- -7 and 2, of type `int`. -/
theorem integer_arithmetic_int :
    IntegerArithmetic x86GccLimitedLibc [] 32 true IntType.int.toSimple.toUType (-7) IntType.int.toSimple.toUType 2 ∧
      ShiftArithmetic x86GccLimitedLibc [] 32 true IntType.int.toSimple.toUType (-7) IntType.int.toSimple.toUType 2 := by
  have hint : IntShape x86GccLimitedLibc [] IntType.int.toSimple.toUType 32 true := intShape_integer noMods .int
  have h := integer_arithmetic (a := -7) hint rfl rfl (by decide)
  exact ⟨h.1 _ 2 (decides_self [] _) (by decide), h.2 _ 32 true 2 hint rfl (by decide)⟩

/-- **What is not computed**: -1 shifted by one is -2, and reported; 1 shifted by the width of `unsigned int` is 0
    modulo `2 ^ 32`, and reported; and there is no rule for `&` on an enumeration, though it is promoted. -/
theorem shift_not_exact :
    let cfg := x86GccLimitedLibc
    let int := IntType.int.toSimple.toUType
    let unsigned := IntType.unsignedInt.toSimple.toUType
    let e : TagId := ⟨.Identifier "e", "u", .global⟩
    let enum := (SimpleNonArrayType.enumType e).toUType
    (Represents 32 true (-1 * 2 ^ 1) ∧ (∃ r, ShiftRule cfg [] .left (-1) int 1 int r) ∧
      ∀ r, ShiftRule cfg [] .left (-1) int 1 int r → r = .error ShiftOp.left.negativeLeft) ∧
    ((∃ r, ShiftRule cfg [] .left 1 unsigned 32 int r) ∧
      ∀ r, ShiftRule cfg [] .left 1 unsigned 32 int r → r = .error ShiftOp.left.largeCount) ∧
    enum.isPromoted = true ∧ ∀ r, BitwiseRule cfg [(e, .enumInfo .longInt)] .and 1 enum 1 enum r → r = .error .stuck := by
  intro cfg int unsigned e enum
  refine ⟨⟨by decide, ⟨_, .negativeLeft rfl rfl rfl (by decide)⟩, fun r h => ?_⟩,
    ⟨⟨_, .largeCount rfl rfl rfl (le_refl _)⟩, fun r h => ?_⟩, rfl, fun r h => ?_⟩
  · cases h with
    | interpret _ _ _ _ _ hleft _ => exact absurd hleft (by decide)
    | notIntegers h => rcases h with h | h <;> cases h
    | negativeCount _ _ h => exact absurd h (by decide)
    | largeCount _ _ hsize h =>
      cases hsize
      exact absurd h (by decide)
    | negativeLeft _ _ _ _ => rfl
  · cases h with
    | interpret _ _ _ hsize hwidth _ _ =>
      cases hsize
      exact absurd hwidth (by decide)
    | notIntegers h => rcases h with h | h <;> cases h
    | negativeCount _ _ h => exact absurd h (by decide)
    | largeCount _ _ _ _ => rfl
    | negativeLeft h _ _ _ => cases h
  · cases h with
    | interpret _ _ => rfl
    | notIntegers h => rcases h with h | h <;> cases h

end CSemantics
