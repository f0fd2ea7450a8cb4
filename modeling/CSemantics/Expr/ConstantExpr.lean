/-
  Expressions of integers, their types and their values.

  An operator applies to operands that are promoted and of one type.  Before that, `promotion.k` rewrites the
  operands: a promotion of the left one, of the right one, the usual arithmetic conversions; and when one operand is
  a constant expression and the other is not, the first loses that mark.  `typeof` finds the type without the values,
  and for `c ? e : e'` the machine needs both: the branch that is taken is evaluated, and the other is asked for
  its type.

      typeOf              the type by the standard
      typeOf_sound        `typeof` has it
      evaluates_good      and so has the value, which is in the range of the type; or there is a report
      exists_evaluates    no expression is without a value or a report

  `&&` and `||` evaluate both operands when they are constants, so that `0 && 1 / 0` is reported
  (`logical_needs_both`).
-/
import CSemantics.CommonType
import CSemantics.Expr.Relational
import CSemantics.Expr.Arithmetic

namespace CSemantics.ConstantExpr

open ConjSearch

/-! ## Expressions -/

inductive BinaryOp
  | arithmetic (op : ArithmeticOp)
  | divide | modulus
  | bitwise (op : BitwiseOp)
  | shift (op : ShiftOp)
  | order (op : OrderOp)
  | equality (op : EqualityOp)

inductive UnaryOp
  | plus | minus | complement | not
  deriving DecidableEq

inductive LogicalOp
  | and | or

inductive Expr
  /-- `tv(V, T)` -/
  | value (V : Int) (m : Mods) (i : IntType)
  | unary (op : UnaryOp) (e : Expr)
  | binary (op : BinaryOp) (l r : Expr)
  | logical (op : LogicalOp) (l r : Expr)
  | conditional (c e e' : Expr)
  /-- `#Cast`, with whether it was written -/
  | cast (i : IntType) (explicit : Bool) (e : Expr)

/-- `arithBinConversionOp` -/
def BinaryOp.converts : BinaryOp → Bool
  | .shift _ => false
  | _ => true

/-- `arithBinNonEqualityOp` -/
def BinaryOp.isNonEquality : BinaryOp → Bool
  | .equality _ => false
  | _ => true

/-- The result is the truth of something. -/
def BinaryOp.isTest : BinaryOp → Bool
  | .order _ | .equality _ => true
  | _ => false

/-- `tv(0, ut(SetItem(IntegerConstant), int))` -/
def constantZero : Int × UType := (0, integerUType (.mods {.IntegerConstant} none) .int)

def zeroExpr : Expr := .value 0 (.mods {.IntegerConstant} none) .int

/-- `simplifyTruth(V)` -/
def simplifyTruth (e : Expr) : Expr := .binary (.equality .ne) e zeroExpr

section Rules

variable (cfg : Settings) (tags : Tags)

/-! ## The rules for types -/

/-- **`typeof(E)`** -/
inductive TypeOf : Expr → UType → Prop
  | value {V m i} : TypeOf (.value V m i) (integerUType m i)
  /-- `tryPromote` -/
  | promoted {op e T P} (hop : op ≠ .not) (h : TypeOf e T) (hP : PromoteRule cfg tags T P) : TypeOf (.unary op e) P
  | not {e} : TypeOf (.unary .not e) intUType
  | usual {op l r T T' C} (hconverts : op.converts = true) (htest : op.isTest = false) (hl : TypeOf l T)
    (hr : TypeOf r T') (hC : UsualArithmeticConversion cfg tags T T' C) : TypeOf (.binary op l r) C
  | shift {op l r T P} (hl : TypeOf l T) (hP : PromoteRule cfg tags T P) : TypeOf (.binary (.shift op) l r) P
  | test {op l r} (htest : op.isTest = true) : TypeOf (.binary op l r) intUType
  | logical {op l r} : TypeOf (.logical op l r) intUType
  | conditional {c e e' T T' C} (h : TypeOf e T) (h' : TypeOf e' T') (hC : UsualArithmeticConversion cfg tags T T' C) :
    TypeOf (.conditional c e e') C
  | cast {i explicit e} : TypeOf (.cast i explicit e) (integerUType noMods i)

/-! ## The rules for values -/

/-- The rules for `tv(I1, T) < tv(I2, T')` and the other comparisons. -/
inductive CompareRule (test : Bool) (T T' : UType) : Eval (Int × UType) → Prop
  | compare (htypes : SamePromoted cfg tags T T') : CompareRule test T T' (.ok (makeTruth test T T'))

/-- The rules for an operator on two numbers. -/
def OpRule : BinaryOp → Int × UType → Int × UType → Eval (Int × UType) → Prop
  | .arithmetic op, (V, T), (V', T'), r => ArithmeticRule cfg tags op V T V' T' r
  | .divide, (V, T), (V', T'), r => DivideRule cfg tags V T V' T' r
  | .modulus, (V, T), (V', T'), r => ModulusRule cfg tags V T V' T' r
  | .bitwise op, (V, T), (V', T'), r => BitwiseRule cfg tags op V T V' T' r
  | .shift op, (V, T), (V', T'), r => ShiftRule cfg tags op V T V' T' r
  | .order op, (V, T), (V', T'), r => CompareRule cfg tags (op.compare V V') T T' r
  | .equality op, (V, T), (V', T'), r => CompareRule cfg tags (op.truth (decide (V = V'))) T T' r

/-- `notBool isIntegerUType(T) orBool isPromoted(T)` -/
def Ready (T : UType) : Prop := T.isInteger = false ∨ T.isPromoted = true

/-- **The rules of `promotion.k`** for the operands of a binary operator, before an operand is cast. -/
inductive OperandRule (op : BinaryOp) (x y : Int × UType) : Eval (Int × UType) → Eval (Int × UType) → Prop
  | promoteLeft {P r} (hint : x.2.isInteger = true) (hno : x.2.isPromoted = false) (hP : PromoteRule cfg tags x.2 P)
    (hcast : CastRule cfg tags P x.1 x.2 false r) : OperandRule op x y r (.ok y)
  | promoteRight {P r} (hint : y.2.isInteger = true) (hno : y.2.isPromoted = false) (hleft : Ready x.2)
    (hP : PromoteRule cfg tags y.2 P) (hcast : CastRule cfg tags P y.1 y.2 false r) : OperandRule op x y (.ok x) r
  | stripLeft (hop : op.isNonEquality = true) (hc : fromConstantExpr x.2 = true) (hnot : fromConstantExpr y.2 = false)
    (hx : Ready x.2) (hy : Ready y.2) : OperandRule op x y (.ok (x.1, stripConstants x.2)) (.ok y)
  | stripRight (hop : op.isNonEquality = true) (hc : fromConstantExpr y.2 = true) (hnot : fromConstantExpr x.2 = false)
    (hx : Ready x.2) (hy : Ready y.2) : OperandRule op x y (.ok x) (.ok (y.1, stripConstants y.2))
  | convert {C r r'} (hop : op.converts = true) (hx : Ready x.2) (hy : Ready y.2)
    (harith : x.2.isArithmetic = true) (harith' : y.2.isArithmetic = true)
    (hconst : (op.isNonEquality && (fromConstantExpr x.2 ^^ fromConstantExpr y.2)) = false)
    (hne : EqType cfg tags x.2 y.2 false) (hC : UsualArithmeticConversion cfg tags x.2 y.2 C)
    (hcast : CastRule cfg tags C x.1 x.2 false r) (hcast' : CastRule cfg tags C y.1 y.2 false r') :
    OperandRule op x y r r'

/-- **An operator on two values**: operands are rewritten as long as it takes. -/
inductive BinaryEval (op : BinaryOp) : Int × UType → Int × UType → Eval (Int × UType) → Prop
  | apply {x y r} (h : OpRule cfg tags op x y r) : BinaryEval op x y r
  | rewrite {x y x' y' r} (h : OperandRule cfg tags op x y (.ok x') (.ok y')) (hr : BinaryEval op x' y' r) :
    BinaryEval op x y r
  | stopLeft {x y s r'} (h : OperandRule cfg tags op x y (.error s) r') : BinaryEval op x y (.error s)
  | stopRight {x y s r} (h : OperandRule cfg tags op x y r (.error s)) : BinaryEval op x y (.error s)

/-- **An operator on one value.** -/
inductive UnaryEval : UnaryOp → Int × UType → Eval (Int × UType) → Prop
  | promote {op x P x' r} (hop : op ≠ .not) (hint : x.2.isInteger = true) (hno : x.2.isPromoted = false)
    (hP : PromoteRule cfg tags x.2 P) (hcast : CastRule cfg tags P x.1 x.2 false (.ok x')) (h : UnaryEval op x' r) :
    UnaryEval op x r
  | stop {op x P s} (hop : op ≠ .not) (hint : x.2.isInteger = true) (hno : x.2.isPromoted = false)
    (hP : PromoteRule cfg tags x.2 P) (hcast : CastRule cfg tags P x.1 x.2 false (.error s)) :
    UnaryEval op x (.error s)
  | plus {x} (hp : x.2.isPromoted = true) : UnaryEval .plus x (intArithInterpret cfg tags x.2 x.1 true)
  | minus {x} (hp : x.2.isPromoted = true) : UnaryEval .minus x (intArithInterpret cfg tags x.2 (0 - x.1) true)
  | complement {x r} (h : ComplementRule cfg tags x.1 x.2 r) : UnaryEval .complement x r
  | not {x r} (h : BinaryEval cfg tags (.equality .eq) constantZero x r) : UnaryEval .not x r

/-- `#and` and `#or`, when both operands are truths -/
def logicalValue : LogicalOp → Int × UType → Int × UType → Int × UType
  | .and, x, y => if x.1 = 0 then x else y
  | .or, x, y => if x.1 = 0 then y else x

/-- **The evaluation of an expression.**  The operands come in any order, and who stops first stops. -/
inductive Evaluates : Expr → Eval (Int × UType) → Prop
  | value {V m i} : Evaluates (.value V m i) (.ok (V, integerUType m i))
  | unary {op e x r} (he : Evaluates e (.ok x)) (h : UnaryEval cfg tags op x r) : Evaluates (.unary op e) r
  | unaryStop {op e s} (he : Evaluates e (.error s)) : Evaluates (.unary op e) (.error s)
  | binary {op l r x y z} (hl : Evaluates l (.ok x)) (hr : Evaluates r (.ok y)) (h : BinaryEval cfg tags op x y z) :
    Evaluates (.binary op l r) z
  | leftStop {op l r s} (hl : Evaluates l (.error s)) : Evaluates (.binary op l r) (.error s)
  | rightStop {op l r s} (hr : Evaluates r (.error s)) : Evaluates (.binary op l r) (.error s)
  | logical {op l r x y} (hl : Evaluates (simplifyTruth l) (.ok x)) (hr : Evaluates (simplifyTruth r) (.ok y)) :
    Evaluates (.logical op l r) (.ok (logicalValue op x y))
  | logicalLeftStop {op l r s} (hl : Evaluates (simplifyTruth l) (.error s)) : Evaluates (.logical op l r) (.error s)
  | logicalRightStop {op l r s} (hr : Evaluates (simplifyTruth r) (.error s)) : Evaluates (.logical op l r) (.error s)
  | conditionalStop {c e e' s} (hc : Evaluates (simplifyTruth c) (.error s)) :
    Evaluates (.conditional c e e') (.error s)
  | first {c e e' x y T' C r} (hc : Evaluates (simplifyTruth c) (.ok x)) (htrue : x.1 = 1)
    (he : Evaluates e (.ok y)) (hT' : TypeOf cfg tags e' T') (hC : UsualArithmeticConversion cfg tags y.2 T' C)
    (hcast : CastRule cfg tags C y.1 y.2 false r) : Evaluates (.conditional c e e') r
  | firstStop {c e e' x s} (hc : Evaluates (simplifyTruth c) (.ok x)) (htrue : x.1 = 1)
    (he : Evaluates e (.error s)) : Evaluates (.conditional c e e') (.error s)
  | second {c e e' x y T C r} (hc : Evaluates (simplifyTruth c) (.ok x)) (hfalse : x.1 = 0)
    (he : Evaluates e' (.ok y)) (hT : TypeOf cfg tags e T) (hC : UsualArithmeticConversion cfg tags T y.2 C)
    (hcast : CastRule cfg tags C y.1 y.2 false r) : Evaluates (.conditional c e e') r
  | secondStop {c e e' x s} (hc : Evaluates (simplifyTruth c) (.ok x)) (hfalse : x.1 = 0)
    (he : Evaluates e' (.error s)) : Evaluates (.conditional c e e') (.error s)
  | cast {i explicit e x r} (he : Evaluates e (.ok x))
    (hcast : CastRule cfg tags (integerUType noMods i) x.1 x.2 explicit r) : Evaluates (.cast i explicit e) r
  | castStop {i explicit e s} (he : Evaluates e (.error s)) : Evaluates (.cast i explicit e) (.error s)

end Rules

/-! ## The types of the standard -/

/-- `signed int` is `int`. -/
def canon : IntType → IntType
  | .signedInt => .int
  | i => i

/-- The promoted type -/
def promoted (cfg : Settings) (i : IntType) : IntType :=
  if i.rank > IntType.int.rank then i else if IntType.int.Holds cfg i then .int else .unsignedInt

/-- The common type -/
def usual (cfg : Settings) (i i' : IntType) : IntType := commonIntType cfg (promoted cfg i) (promoted cfg i')

def BinaryOp.result (cfg : Settings) (i i' : IntType) : BinaryOp → IntType
  | .shift _ => promoted cfg i
  | .order _ | .equality _ => .int
  | _ => usual cfg i i'

/-- **The type of an expression** -/
def typeOf (cfg : Settings) : Expr → IntType
  | .value _ _ i => i
  | .unary .not _ => .int
  | .unary _ e => promoted cfg (typeOf cfg e)
  | .binary op l r => op.result cfg (typeOf cfg l) (typeOf cfg r)
  | .logical _ _ _ => .int
  | .conditional _ e e' => usual cfg (typeOf cfg e) (typeOf cfg e')
  | .cast i _ _ => i

/-- The values that the expression starts from are in the range of their types. -/
def WellFormed (cfg : Settings) : Expr → Prop
  | .value V _ i => Represents (numBits cfg i) i.isSigned V
  | .unary _ e => WellFormed cfg e
  | .binary _ l r => WellFormed cfg l ∧ WellFormed cfg r
  | .logical _ l r => WellFormed cfg l ∧ WellFormed cfg r
  | .conditional c e e' => WellFormed cfg c ∧ WellFormed cfg e ∧ WellFormed cfg e'
  | .cast _ _ e => WellFormed cfg e

section Types

variable {cfg : Settings} {tags : Tags} {i j i' j' : IntType} {m m' : Mods} {P R : UType}

theorem areIntsCompat_iff : areIntsCompat i j = true ↔ canon i = canon j := by
  cases i <;> cases j <;> decide

@[simp] theorem canon_rank (i : IntType) : (canon i).rank = i.rank := by cases i <;> rfl

@[simp] theorem canon_isSigned (i : IntType) : (canon i).isSigned = i.isSigned := by cases i <;> rfl

@[simp] theorem canon_numBits (i : IntType) : numBits cfg (canon i) = numBits cfg i := by cases i <;> rfl

theorem isSigned_congr (h : canon i = canon j) : i.isSigned = j.isSigned := by
  rw [← canon_isSigned i, h, canon_isSigned]

theorem numBits_congr (h : canon i = canon j) : numBits cfg i = numBits cfg j := by
  rw [← canon_numBits i, h, canon_numBits]

theorem rank_congr (h : canon i = canon j) : i.rank = j.rank := by
  rw [← canon_rank i, h, canon_rank]

/-- Promotion makes one of three. -/
theorem promoted_cases (cfg : Settings) (i : IntType) :
    (i.rank > IntType.int.rank ∧ promoted cfg i = i) ∨
      (¬i.rank > IntType.int.rank ∧ IntType.int.Holds cfg i ∧ promoted cfg i = .int) ∨
      (¬i.rank > IntType.int.rank ∧ ¬IntType.int.Holds cfg i ∧ promoted cfg i = .unsignedInt) := by
  rw [promoted]
  by_cases hr : i.rank > IntType.int.rank
  · exact .inl ⟨hr, if_pos hr⟩
  · rw [if_neg hr]
    by_cases hh : IntType.int.Holds cfg i
    · exact .inr (.inl ⟨hr, hh, if_pos hh⟩)
    · exact .inr (.inr ⟨hr, hh, if_neg hh⟩)

theorem canon_of_wide : ∀ i : IntType, i.rank > IntType.int.rank → canon i = i := by
  intro i
  cases i <;> decide

@[simp] theorem canon_promoted (i : IntType) : canon (promoted cfg i) = promoted cfg i := by
  rcases promoted_cases cfg i with ⟨hr, h⟩ | ⟨-, -, h⟩ | ⟨-, -, h⟩
  · rw [h, canon_of_wide i hr]
  · rw [h]
    rfl
  · rw [h]
    rfl

theorem isPromoted_promoted (i : IntType) : (promoted cfg i).isPromoted = true := by
  rcases promoted_cases cfg i with ⟨hr, h⟩ | ⟨-, -, h⟩ | ⟨-, -, h⟩
  · rw [h, isPromoted_of_rank i hr]
  · rw [h]
    rfl
  · rw [h]
    rfl

theorem promoted_congr (h : canon i = canon j) : promoted cfg i = promoted cfg j := by
  have hholds : IntType.int.Holds cfg i ↔ IntType.int.Holds cfg j := by
    rw [IntType.Holds, IntType.Holds, numBits_congr h, isSigned_congr h]
  rcases promoted_cases cfg i with ⟨hr, hi⟩ | ⟨hr, hh, hi⟩ | ⟨hr, hh, hi⟩
  · have hj : promoted cfg j = j := if_pos (rank_congr h ▸ hr)
    rw [hi, hj, ← canon_of_wide i hr, h, canon_of_wide j (rank_congr h ▸ hr)]
  · rw [hi, promoted, if_neg (rank_congr h ▸ hr), if_pos (hholds.1 hh)]
  · rw [hi, promoted, if_neg (rank_congr h ▸ hr), if_neg (mt hholds.2 hh)]

theorem not_int_holds_unsigned : ¬IntType.int.Holds cfg .unsignedInt := by
  rintro ⟨-, hmax⟩
  have hspan := shapeMax_sub_shapeMin (numBits_pos cfg .unsignedInt) true
  have hmin := shapeMin_true_lt (numBits cfg .unsignedInt)
  have hunsigned : shapeMax (numBits cfg .unsignedInt) false = 2 ^ numBits cfg .unsignedInt - 1 := rfl
  have hmax' : shapeMax (numBits cfg .unsignedInt) false ≤ shapeMax (numBits cfg .unsignedInt) true := hmax
  omega

/-- A promoted type stays. -/
theorem promoted_of_isPromoted (h : i.isPromoted = true) : promoted cfg i = canon i := by
  have hint : promoted cfg .int = .int := by
    rw [promoted, if_neg (by decide), if_pos ⟨le_refl _, le_refl _⟩]
  cases i with
  | int => exact hint
  | signedInt => exact (promoted_congr rfl).trans hint
  | unsignedInt => rw [promoted, if_neg (by decide), if_neg not_int_holds_unsigned]; rfl
  | bool | char | signedChar | unsignedChar | shortInt | unsignedShortInt => cases h
  | longInt | unsignedLongInt | longLongInt | unsignedLongLongInt | oversizedInt | unsignedOversizedInt =>
    exact if_pos (by decide)

theorem promoted_promoted (i : IntType) : promoted cfg (promoted cfg i) = promoted cfg i := by
  rw [promoted_of_isPromoted (isPromoted_promoted i), canon_promoted]

theorem integerShape (m : Mods) (i : IntType) : IntShape cfg tags (integerUType m i) (numBits cfg i) i.isSigned :=
  intShape_integer m i

/-- **Promotion** of an integer type -/
theorem promoteRule_integer (m : Mods) (i : IntType) :
    ∃ m', ∀ P, PromoteRule cfg tags (integerUType m i) P ↔ P = integerUType m' (promoted cfg i) := by
  have hshape := @integerShape cfg tags m i
  have hwide : IsWide tags (integerUType m i) ↔ i.rank > IntType.int.rank := by
    constructor
    · rintro ⟨r, hr, hgt⟩
      cases hr
      exact hgt
    · exact fun h => ⟨i.rank, rfl, h⟩
  have hholds : HoldsValues cfg tags intUType (integerUType m i) ↔ IntType.int.Holds cfg i :=
    holdsValues_iff intShape_intUType hshape
  rcases promoted_cases cfg i with ⟨hr, h⟩ | ⟨hr, hh, h⟩ | ⟨hr, hh, h⟩
  · refine ⟨m, fun P => ?_⟩
    rw [promoteRule_iff hshape rfl, hwide, h]
    simp only [hr, not_true_eq_false, false_and, false_or, true_and]
    exact Iff.rfl
  · refine ⟨noMods, fun P => ?_⟩
    rw [promoteRule_iff hshape rfl, hwide, hholds, h]
    simp only [hr, hh, not_false_eq_true, not_true_eq_false, false_and, true_and, or_false]
    exact Iff.rfl
  · refine ⟨noMods, fun P => ?_⟩
    rw [promoteRule_iff hshape rfl, hwide, hholds, h]
    simp only [hr, hh, not_false_eq_true, false_and, true_and, or_false, false_or]
    exact Iff.rfl

/-- **The usual arithmetic conversions** of integer types -/
theorem usual_integer (m m' : Mods) (i i' : IntType) :
    ∃ n, ∀ R, UsualArithmeticConversion cfg tags (integerUType m i) (integerUType m' i') R ↔
      R = integerUType n (usual cfg i i') := by
  obtain ⟨p, hp⟩ := @promoteRule_integer cfg tags m i
  obtain ⟨p', hp'⟩ := @promoteRule_integer cfg tags m' i'
  obtain ⟨n, hn⟩ := @auxRule_integers cfg tags p p' _ _ (isPromoted_promoted i) (isPromoted_promoted i')
  exact ⟨n, fun R => (usual_promoted_iff rfl rfl hp hp').trans (hn R)⟩

theorem flipSignedness_canon : ∀ i : IntType, canon (flipSignedness i) = flipSignedness i := by
  intro i
  cases i <;> rfl

theorem flipSignedness_promoted : ∀ i : IntType, i.isPromoted = true → (flipSignedness i).isPromoted = true := by
  intro i
  cases i <;> decide

/-- A common type of two types is one of them, or one of them without a sign. -/
theorem commonIntType_cases (cfg : Settings) (i i' : IntType) :
    commonIntType cfg i i' = i ∨ commonIntType cfg i i' = i' ∨ commonIntType cfg i i' = flipSignedness i ∨
      commonIntType cfg i i' = flipSignedness i' := by
  have hmixed : ∀ g u, commonWithUnsigned cfg g u = u ∨ commonWithUnsigned cfg g u = g ∨
      commonWithUnsigned cfg g u = flipSignedness g := by
    intro g u
    rcases @commonWithUnsigned_cases cfg g u with ⟨-, h⟩ | ⟨-, -, h⟩ | ⟨-, -, h⟩
    · exact .inl h
    · exact .inr (.inl h)
    · exact .inr (.inr h)
  rw [commonIntType]
  by_cases hc : areIntsCompat i i' = true
  · exact .inl (if_pos hc)
  · rw [if_neg hc]
    by_cases hs : i.isSigned = i'.isSigned
    · rw [if_pos hs]
      by_cases hr : i.rank ≥ i'.rank
      · exact .inl (if_pos hr)
      · exact .inr (.inl (if_neg hr))
    · rw [if_neg hs]
      by_cases hi : i.isSigned = true
      · rw [if_pos hi]
        rcases hmixed i i' with h | h | h
        · exact .inr (.inl h)
        · exact .inl h
        · exact .inr (.inr (.inl h))
      · rw [if_neg hi]
        rcases hmixed i' i with h | h | h
        · exact .inl h
        · exact .inr (.inl h)
        · exact .inr (.inr (.inr h))

theorem usual_canon (i i' : IntType) : canon (usual cfg i i') = usual cfg i i' := by
  rcases commonIntType_cases cfg (promoted cfg i) (promoted cfg i') with h | h | h | h
  · rw [usual, h, canon_promoted]
  · rw [usual, h, canon_promoted]
  · rw [usual, h, flipSignedness_canon]
  · rw [usual, h, flipSignedness_canon]

theorem isPromoted_usual (i i' : IntType) : (usual cfg i i').isPromoted = true := by
  rcases commonIntType_cases cfg (promoted cfg i) (promoted cfg i') with h | h | h | h
  · rw [usual, h, isPromoted_promoted]
  · rw [usual, h, isPromoted_promoted]
  · rw [usual, h, flipSignedness_promoted _ (isPromoted_promoted i)]
  · rw [usual, h, flipSignedness_promoted _ (isPromoted_promoted i')]

theorem usual_congr (h : canon i = canon j) (h' : canon i' = canon j') : usual cfg i i' = usual cfg j j' := by
  rw [usual, usual, promoted_congr h, promoted_congr h']

/-- The common type of a promoted type and itself -/
theorem usual_self (hi : i.isPromoted = true) (h : canon i = canon i') : usual cfg i i' = canon i := by
  have hself : commonIntType cfg (canon i) (canon i) = canon i := if_pos (areIntsCompat_self _)
  rw [usual, ← promoted_congr h, promoted_of_isPromoted hi, hself]

end Types

/-! ## Values of a type -/

section Values

variable {cfg : Settings} {tags : Tags} {i i' j j' : IntType} {m m' : Mods} {x y x' y' z : Int × UType}
  {r r' : Eval (Int × UType)}

/-- **`x` is a number of the type `i`.** -/
def HasType (cfg : Settings) (x : Int × UType) (i : IntType) : Prop :=
  ∃ m j, x.2 = integerUType m j ∧ canon j = canon i ∧ Represents (numBits cfg i) i.isSigned x.1

theorem HasType.congr (h : HasType cfg x i) (hi : canon i = canon i') : HasType cfg x i' := by
  obtain ⟨m, j, hx, hj, hV⟩ := h
  exact ⟨m, j, hx, hj.trans hi, by rwa [← numBits_congr hi, ← isSigned_congr hi]⟩

theorem hasType_of (hx : x.2 = integerUType m i) (hV : Represents (numBits cfg i) i.isSigned x.1) : HasType cfg x i :=
  ⟨m, i, hx, rfl, hV⟩

/-- A value of the type, or a report. -/
def Good (cfg : Settings) (r : Eval (Int × UType)) (i : IntType) : Prop :=
  (∃ z, r = .ok z ∧ HasType cfg z i) ∨ ∃ msg, r = .error (.report msg)

theorem Good.of_ok (h : Good cfg (.ok z) i) : HasType cfg z i := by
  rcases h with ⟨z', hz, h⟩ | ⟨msg, h⟩
  · cases hz
    exact h
  · cases h

theorem good_ok (h : HasType cfg z i) : Good cfg (.ok z) i := .inl ⟨z, rfl, h⟩

theorem good_report (msg : ErrorMsg) : Good cfg (.error (.report msg)) i := .inr ⟨msg, rfl⟩

theorem Good.congr (h : Good cfg r i) (hi : canon i = canon i') : Good cfg r i' := by
  rcases h with ⟨z, rfl, hz⟩ | ⟨msg, rfl⟩
  · exact good_ok (hz.congr hi)
  · exact good_report msg

theorem good_error {s : Stop} (h : Good cfg (.error s) i) (k : IntType) : Good cfg (.error s) k := by
  rcases h with ⟨z, hz, -⟩ | ⟨msg, hmsg⟩
  · cases hz
  · rw [hmsg]
    exact good_report msg

/-- 0 and 1 are numbers of every format but a signed one of one bit. -/
theorem represents_truth {w : Nat} {s : Bool} (hw : 0 < w) (hs : s = true → 1 < w) (b : Bool) :
    Represents w s (if b then 1 else 0) := by
  have hmin := shapeMin_le_zero w s
  have hmax : 1 ≤ shapeMax w s := by
    cases s with
    | false =>
      have : (2 : Int) ^ 1 ≤ 2 ^ w := pow_le_pow_right₀ (by decide) hw
      show (1 : Int) ≤ 2 ^ w - 1
      omega
    | true =>
      have hw' := hs rfl
      have : (2 : Int) ^ 1 ≤ 2 ^ (w - 1) := pow_le_pow_right₀ (by decide) (by omega)
      show (1 : Int) ≤ 2 ^ (w - 1) - 1
      omega
  cases b with
  | true => exact ⟨by simp only [if_true]; omega, by simpa using hmax⟩
  | false => exact ⟨by simpa using hmin, by simp only [Bool.false_eq_true, if_false]; omega⟩

theorem represents_emod {w : Nat} (N : Int) : Represents w false (N % 2 ^ w) := by
  have hpos : (0 : Int) < 2 ^ w := by positivity
  have hlt := Int.emod_lt_of_pos N hpos
  refine ⟨Int.emod_nonneg N hpos.ne', ?_⟩
  show N % 2 ^ w ≤ 2 ^ w - 1
  omega

/-- **A conversion** has the type it is to, or is reported. -/
theorem cast_good (hx : HasType cfg x i) {e : Bool} (h : CastRule cfg tags (integerUType m' j) x.1 x.2 e r) :
    Good cfg r j := by
  obtain ⟨m, k, hT, hk, hV⟩ := hx
  obtain ⟨V, T⟩ := x
  subst hT
  have hshape := @integerShape cfg tags m' j
  have hresult : castTypes (integerUType m' j) (integerUType m k) = integerUType m j := rfl
  cases h with
  | sameType heq _ =>
    have hjk : canon j = canon i := (areIntsCompat_iff.1 (eqType_integer_iff.1 heq).symm).trans hk
    refine good_ok (hasType_of hresult ?_)
    rw [numBits_congr hjk, isSigned_congr hjk]
    exact hV
  | bool hbool _ =>
    have hj : j = .bool := by
      cases j with
      | bool => rfl
      | _ => cases hbool
    subst hj
    refine good_ok (hasType_of hresult ?_)
    have htruth := represents_truth (s := false) (numBits_pos cfg .bool) (fun h => absurd h Bool.false_ne_true)
      (decide (V ≠ 0))
    show Represents (numBits cfg .bool) false (if V = 0 then 0 else 1)
    by_cases hV0 : V = 0
    · simpa [hV0] using htruth
    · simpa [hV0] using htruth
  | inRange _ _ _ _ hin => exact good_ok (hasType_of hresult ((intInRange_iff hshape V).1 hin))
  | unsignedBelow hu _ _ hhi _ _ =>
    have hs : j.isSigned = false := by simpa [integerUType, UType.isUnsignedInteger] using hu
    rw [hshape.max] at hhi
    cases hhi
    refine good_ok (hasType_of hresult ?_)
    have hmod : shapeMax (numBits cfg j) false + 1 = 2 ^ numBits cfg j := by
      show (2 : Int) ^ _ - 1 + 1 = 2 ^ _
      omega
    rw [hs, hmod]
    exact represents_emod V
  | unsignedAbove hu _ hhi hgt _ =>
    have hs : j.isSigned = false := by simpa [integerUType, UType.isUnsignedInteger] using hu
    rw [hshape.max] at hhi
    cases hhi
    have hpos : 0 ≤ V := le_trans (shapeMax_nonneg _ _) (le_of_lt hgt)
    refine good_ok (hasType_of hresult ?_)
    have hmod : shapeMax (numBits cfg j) false + 1 = 2 ^ numBits cfg j := by
      show (2 : Int) ^ _ - 1 + 1 = 2 ^ _
      omega
    rw [hs, hmod, Int.tmod_eq_emod_of_nonneg hpos]
    exact represents_emod V
  | implicitSigned _ _ _ _ => exact good_report _
  | explicitSigned _ _ _ _ => exact good_report _

/-- Some rule converts. -/
theorem exists_cast (hx : HasType cfg x i) (m' : Mods) (j : IntType) (e : Bool) :
    ∃ r, CastRule cfg tags (integerUType m' j) x.1 x.2 e r := by
  obtain ⟨m, k, hT, hk, hV⟩ := hx
  obtain ⟨V, T⟩ := x
  subst hT
  have hint := (@integerShape cfg tags m k).integer
  cases hbool : (integerUType m' j).isBool with
  | true => exact ⟨_, .bool hbool hint⟩
  | false =>
    have hshape := @integerShape cfg tags m' j
    have hold : IntShape cfg tags (integerUType m k) (numBits cfg k) k.isSigned := integerShape m k
    have hV' : Represents (numBits cfg k) k.isSigned V := by
      rw [numBits_congr hk, isSigned_congr hk]
      exact hV
    by_cases hin : Represents (numBits cfg j) j.isSigned V
    · exact ⟨_, (castRule_represents hshape hint hbool hin).2 rfl⟩
    · cases hs : j.isSigned with
      | false =>
        rw [hs] at hshape hin
        exact ⟨_, (castRule_unsigned hshape hold rfl hbool hV' hin).2 rfl⟩
      | true =>
        rw [hs] at hshape hin
        exact ⟨_, (castRule_signed hshape hold rfl hbool hV' hin).2 rfl⟩

/-! ## Operators -/

theorem arithmeticValue_good (m : Mods) (j : IntType) (N : Int) :
    Good cfg (arithmeticValue (numBits cfg j) j.isSigned (integerUType m j) N) j := by
  rw [arithmeticValue]
  cases hs : j.isSigned with
  | true =>
    rw [if_pos rfl]
    by_cases hN : Represents (numBits cfg j) true N
    · rw [if_pos hN]
      exact good_ok (hasType_of rfl (hs ▸ hN))
    · rw [if_neg hN]
      exact good_report _
  | false =>
    rw [if_neg Bool.false_ne_true]
    exact good_ok (hasType_of rfl (hs ▸ represents_emod N))

theorem bitwiseValue_good (m : Mods) (j : IntType) (N : Int) (operand : Prop) [Decidable operand] :
    Good cfg (bitwiseValue (numBits cfg j) j.isSigned (integerUType m j) N operand) j := by
  rw [bitwiseValue]
  by_cases h : j.isSigned = true ∧ ¬operand ∧ NegativeZero (numBits cfg j) N
  · rw [if_pos h]
    exact good_report _
  · rw [if_neg h]
    exact arithmeticValue_good m j N

theorem makeTruth_good (hcfg : 1 < numBits cfg .int) (b : Bool) (T T' : UType) :
    Good cfg (.ok (makeTruth b T T')) .int := by
  have hV := represents_truth (w := numBits cfg .int) (s := true) (by omega) (fun _ => hcfg) b
  have htype : ∃ m, makeTruthType T T' = integerUType m .int := by
    rw [makeTruthType]
    cases fromConstantExpr T && fromConstantExpr T' with
    | true => exact ⟨_, if_pos rfl⟩
    | false => exact ⟨_, if_neg Bool.false_ne_true⟩
  obtain ⟨m, hm⟩ := htype
  exact good_ok ⟨m, .int, hm, rfl, hV⟩

/-- Two promoted types that are the same are the common type. -/
theorem canon_usual_of_same (h : SamePromoted cfg tags (integerUType m j) (integerUType m' j')) (hj : canon j = canon i)
    (hj' : canon j' = canon i') : canon j = canon (usual cfg i i') := by
  have hsame : canon j = canon j' := areIntsCompat_iff.1 (eqType_integer_iff.1 h.2).symm
  rw [← usual_congr hj hj', usual_self h.1 hsame]
  cases j <;> rfl

/-- Shifts ask for promoted operands. -/
theorem promoted_of_shiftRule {op : ShiftOp} {V V' : Int}
    (h : ShiftRule cfg tags op V (integerUType m j) V' (integerUType m' j') r) :
    j.isPromoted = true ∧ j'.isPromoted = true := by
  cases h with
  | interpret h1 h2 _ _ _ _ _ => exact ⟨h1, h2⟩
  | notIntegers h =>
    rcases h with h | h
    · exact absurd ((@integerShape cfg tags m j).integer.symm.trans h) (by decide)
    · exact absurd ((@integerShape cfg tags m' j').integer.symm.trans h) (by decide)
  | negativeCount h1 h2 _ => exact ⟨h1, h2⟩
  | largeCount h1 h2 _ _ => exact ⟨h1, h2⟩
  | negativeLeft _ h1 h2 _ => exact ⟨h1, h2⟩

/-- **What an operator gives** has the type of the operator. -/
theorem op_good (hcfg : 1 < numBits cfg .int) {op : BinaryOp} (hx : HasType cfg x i) (hy : HasType cfg y i')
    (h : OpRule cfg tags op x y r) : Good cfg r (op.result cfg i i') := by
  obtain ⟨V, T⟩ := x
  obtain ⟨V', T'⟩ := y
  obtain ⟨m, j, hx, hj, hV⟩ := hx
  obtain ⟨m', j', hy, hj', hV'⟩ := hy
  subst hx
  subst hy
  rw [← numBits_congr hj, ← isSigned_congr hj] at hV
  rw [← numBits_congr hj', ← isSigned_congr hj'] at hV'
  have hshape := @integerShape cfg tags m j
  have hshape' := @integerShape cfg tags m' j'
  cases op with
  | arithmetic op =>
    cases h with
    | interpret htypes =>
      rw [intArithInterpret_eq hshape rfl]
      exact (arithmeticValue_good m j _).congr (canon_usual_of_same htypes hj hj')
  | divide =>
    cases h with
    | interpret htypes h0 =>
      rw [intArithInterpret_eq hshape rfl]
      exact (arithmeticValue_good m j _).congr (canon_usual_of_same htypes hj hj')
    | zero _ _ => exact good_report _
  | modulus =>
    cases h with
    | interpret htypes _ _ _ _ _ =>
      rw [intArithInterpret_eq hshape rfl]
      exact (arithmeticValue_good m j _).congr (canon_usual_of_same htypes hj hj')
    | zero _ _ => exact good_report _
    | overflow _ _ _ _ _ _ => exact good_report _
  | bitwise op =>
    cases h with
    | interpret htypes hneg =>
      rw [(bitwiseRule_iff hshape rfl htypes).1 (.interpret htypes hneg)]
      exact (bitwiseValue_good m j _ _).congr (canon_usual_of_same htypes hj hj')
    | notIntegers _ =>
      cases op <;> exact good_report _
  | shift op =>
    obtain ⟨hT, hT'⟩ := promoted_of_shiftRule h
    have hright : (integerUType m' j').isPromoted = true := hT'
    have hresult : canon j = canon (promoted cfg i) := by
      rw [← promoted_congr hj, promoted_of_isPromoted hT]
      cases j <;> rfl
    by_cases hcount : 0 ≤ V' ∧ V' < numBits cfg j ∧ 0 ≤ V
    · rw [(shiftRule_iff hshape rfl hT hshape' hright hcount.1 hcount.2.1 hcount.2.2).1 h]
      exact (arithmeticValue_good m j _).congr hresult
    · obtain ⟨msg, rfl⟩ := (shiftRule_reported hshape rfl hT hright hV (by omega) op).2 r h
      exact good_report msg
  | order op =>
    cases h with
    | compare _ => exact makeTruth_good hcfg _ _ _
  | equality op =>
    cases h with
    | compare _ => exact makeTruth_good hcfg _ _ _

/-- With operands that are promoted and, but for a shift, of one type, some rule applies. -/
theorem exists_op {op : BinaryOp} (hx : HasType cfg x i) (hy : HasType cfg y i')
    (hT : x.2.isPromoted = true) (hT' : y.2.isPromoted = true)
    (hsame : op.converts = true → EqType cfg tags x.2 y.2 true) : ∃ r, OpRule cfg tags op x y r := by
  obtain ⟨V, T⟩ := x
  obtain ⟨V', T'⟩ := y
  obtain ⟨m, j, hx, hj, hV⟩ := hx
  obtain ⟨m', j', hy, hj', hV'⟩ := hy
  subst hx
  subst hy
  rw [← numBits_congr hj, ← isSigned_congr hj] at hV
  have hshape := @integerShape cfg tags m j
  have hshape' := @integerShape cfg tags m' j'
  cases op with
  | arithmetic op => exact ⟨_, .interpret ⟨hT, hsame rfl⟩⟩
  | divide =>
    by_cases h0 : V' = 0
    · exact ⟨_, .zero (hsame rfl) h0⟩
    · exact ⟨_, .interpret ⟨hT, hsame rfl⟩ h0⟩
  | modulus =>
    by_cases h0 : V' = 0
    · exact ⟨_, .zero (hsame rfl) h0⟩
    · exact ⟨_, (modulusRule_iff hshape rfl ⟨hT, hsame rfl⟩ hV h0).2 rfl⟩
  | bitwise op => exact ⟨_, (bitwiseRule_iff hshape rfl ⟨hT, hsame rfl⟩).2 rfl⟩
  | shift op =>
    by_cases hcount : 0 ≤ V' ∧ V' < numBits cfg j ∧ 0 ≤ V
    · exact ⟨_, (shiftRule_iff hshape rfl hT hshape' hT' hcount.1 hcount.2.1 hcount.2.2).2 rfl⟩
    · exact (shiftRule_reported hshape rfl hT hT' hV (by omega) op).1
  | order op => exact ⟨_, .compare ⟨hT, hsame rfl⟩⟩
  | equality op => exact ⟨_, .compare ⟨hT, hsame rfl⟩⟩

/-! ## Operands -/

theorem HasType.isPromoted (h : HasType cfg x i) (hi : i.isPromoted = true) : x.2.isPromoted = true := by
  have hcanon : ∀ k : IntType, (canon k).isPromoted = k.isPromoted := by
    intro k
    cases k <;> rfl
  obtain ⟨m, j, hx, hj, -⟩ := h
  rw [hx]
  show j.isPromoted = true
  rw [← hcanon, hj, hcanon, hi]

theorem HasType.isInteger (h : HasType cfg x i) : x.2.isInteger = true := by
  obtain ⟨m, j, hx, -, -⟩ := h
  rw [hx]
  exact (@integerShape cfg [] m j).integer

/-- Without the mark of a constant expression -/
theorem HasType.stripConstants (h : HasType cfg x i) :
    HasType cfg (x.1, CSemantics.stripConstants x.2) i ∧ fromConstantExpr (CSemantics.stripConstants x.2) = false := by
  obtain ⟨m, j, hx, hj, hV⟩ := h
  cases m with
  | mods f fs =>
    refine ⟨⟨.mods (f.erase .IntegerConstant) fs, j, by rw [hx]; rfl, hj, hV⟩, ?_⟩
    rw [hx]
    show (_ && decide (Modifier.IntegerConstant ∈ f.erase .IntegerConstant)) = false
    rw [decide_eq_false (Finset.notMem_erase _ _), Bool.and_false]

theorem HasType.promote (hx : HasType cfg x i) {P : UType} (hP : PromoteRule cfg tags x.2 P) :
    ∃ m', P = integerUType m' (promoted cfg i) := by
  obtain ⟨m, j, hT, hj, -⟩ := hx
  obtain ⟨m', hm'⟩ := @promoteRule_integer cfg tags m j
  rw [hT] at hP
  exact ⟨m', by rw [(hm' P).1 hP, promoted_congr hj]⟩

theorem HasType.usual (hx : HasType cfg x i) {T C : UType} {j : IntType} (hT : T = integerUType m j)
    (hj : canon j = canon i') :
    (UsualArithmeticConversion cfg tags x.2 T C → ∃ n, C = integerUType n (ConstantExpr.usual cfg i i')) ∧
      (UsualArithmeticConversion cfg tags T x.2 C → ∃ n, C = integerUType n (ConstantExpr.usual cfg i' i)) := by
  obtain ⟨m', k, hx, hk, -⟩ := hx
  obtain ⟨n, hn⟩ := @usual_integer cfg tags m' m k j
  obtain ⟨n', hn'⟩ := @usual_integer cfg tags m m' j k
  rw [hx, hT]
  exact ⟨fun h => ⟨n, by rw [(hn C).1 h, usual_congr hk hj]⟩, fun h => ⟨n', by rw [(hn' C).1 h, usual_congr hj hk]⟩⟩

/-- An operator on a common type gives that type. -/
theorem result_usual {op : BinaryOp} (hop : op.converts = true) (i i' : IntType) :
    op.result cfg (usual cfg i i') (usual cfg i i') = op.result cfg i i' := by
  have husual : usual cfg (usual cfg i i') (usual cfg i i') = usual cfg i i' :=
    (usual_self (isPromoted_usual i i') rfl).trans (usual_canon i i')
  cases op with
  | shift op => cases hop
  | order op | equality op => rfl
  | _ => exact husual

/-- **Rewriting the operands** leaves the type of the result. -/
theorem operand_good {op : BinaryOp} (hx : HasType cfg x i) (hy : HasType cfg y i')
    (h : OperandRule cfg tags op x y r r') :
    ∃ k k', Good cfg r k ∧ Good cfg r' k' ∧ op.result cfg k k' = op.result cfg i i' := by
  cases h with
  | promoteLeft _ _ hP hcast =>
    obtain ⟨m', rfl⟩ := hx.promote hP
    refine ⟨promoted cfg i, i', cast_good hx hcast, good_ok hy, ?_⟩
    cases op <;> simp only [BinaryOp.result, usual, promoted_promoted]
  | promoteRight _ _ _ hP hcast =>
    obtain ⟨m', rfl⟩ := hy.promote hP
    refine ⟨i, promoted cfg i', good_ok hx, cast_good hy hcast, ?_⟩
    cases op <;> simp only [BinaryOp.result, usual, promoted_promoted]
  | stripLeft _ _ _ _ _ => exact ⟨i, i', good_ok hx.stripConstants.1, good_ok hy, rfl⟩
  | stripRight _ _ _ _ _ => exact ⟨i, i', good_ok hx, good_ok hy.stripConstants.1, rfl⟩
  | convert hop _ _ _ _ _ _ hC hcast hcast' =>
    obtain ⟨m, j, hT, hj, -⟩ := id hy
    obtain ⟨n, rfl⟩ := (hx.usual hT hj).1 hC
    exact ⟨_, _, cast_good hx hcast, cast_good hy hcast', result_usual hop i i'⟩

/-- **What a binary operator gives** on any two numbers has the type of the standard. -/
theorem binary_good (hcfg : 1 < numBits cfg .int) {op : BinaryOp} (h : BinaryEval cfg tags op x y r) :
    ∀ {i i' : IntType}, HasType cfg x i → HasType cfg y i' → Good cfg r (op.result cfg i i') := by
  induction h with
  | apply h =>
    intro i i' hx hy
    exact op_good hcfg hx hy h
  | rewrite h _ ih =>
    intro i i' hx hy
    obtain ⟨k, k', hk, hk', hresult⟩ := operand_good hx hy h
    rw [← hresult]
    exact ih hk.of_ok hk'.of_ok
  | stopLeft h =>
    intro i i' hx hy
    obtain ⟨k, k', hk, -, -⟩ := operand_good hx hy h
    exact good_error hk _
  | stopRight h =>
    intro i i' hx hy
    obtain ⟨k, k', -, hk', -⟩ := operand_good hx hy h
    exact good_error hk' _

/-- A test is true or false. -/
theorem truth_cases {op : EqualityOp} (h : BinaryEval cfg tags (.equality op) x y r) (hr : r = .ok z) :
    z.1 = 0 ∨ z.1 = 1 := by
  induction h with
  | apply h =>
    subst hr
    cases h with
    | compare _ =>
      cases op.truth _ with
      | true => exact .inr rfl
      | false => exact .inl rfl
  | rewrite _ _ ih => exact ih hr
  | stopLeft _ => cases hr
  | stopRight _ => cases hr

/-! ## Some rule applies -/

/-- Go on with what the operands become. -/
theorem exists_rewrite {op : BinaryOp} (h : OperandRule cfg tags op x y r r') {k k' : IntType} (hr : Good cfg r k)
    (hr' : Good cfg r' k') (hnext : ∀ x' y', HasType cfg x' k → HasType cfg y' k' → r = .ok x' → r' = .ok y' →
      ∃ z, BinaryEval cfg tags op x' y' z) : ∃ z, BinaryEval cfg tags op x y z := by
  rcases hr with ⟨x', rfl, hx'⟩ | ⟨msg, rfl⟩
  · rcases hr' with ⟨y', rfl, hy'⟩ | ⟨msg, rfl⟩
    · obtain ⟨z, hz⟩ := hnext x' y' hx' hy' rfl rfl
      exact ⟨z, .rewrite h hz⟩
    · exact ⟨_, .stopRight h⟩
  · exact ⟨_, .stopLeft h⟩

/-- Operands of a common type. -/
theorem exists_converted {op : BinaryOp} (hx : HasType cfg x i) (hy : HasType cfg y i') (hT : x.2.isPromoted = true)
    (hT' : y.2.isPromoted = true)
    (hconst : (op.isNonEquality && (fromConstantExpr x.2 ^^ fromConstantExpr y.2)) = false) :
    ∃ z, BinaryEval cfg tags op x y z := by
  obtain ⟨m, j, hxT, hj, -⟩ := id hx
  obtain ⟨m', j', hyT, hj', -⟩ := id hy
  by_cases hsame : op.converts = true → EqType cfg tags x.2 y.2 true
  · obtain ⟨z, hz⟩ := exists_op hx hy hT hT' hsame
    exact ⟨z, .apply hz⟩
  · obtain ⟨hop, hne⟩ := Classical.not_imp.1 hsame
    have hne' : EqType cfg tags x.2 y.2 false := by
      rw [hxT, hyT, eqType_integer_iff] at hne ⊢
      cases hc : areIntsCompat j j' with
      | true => exact absurd hc.symm hne
      | false => rfl
    obtain ⟨n, hn⟩ := @usual_integer cfg tags m m' j j'
    obtain ⟨r, hr⟩ := @exists_cast cfg tags i x hx n (usual cfg j j') false
    obtain ⟨r', hr'⟩ := @exists_cast cfg tags i' y hy n (usual cfg j j') false
    have harith : x.2.isArithmetic = true := by rw [UType.isArithmetic, hx.isInteger, Bool.true_or]
    have harith' : y.2.isArithmetic = true := by rw [UType.isArithmetic, hy.isInteger, Bool.true_or]
    have hC : UsualArithmeticConversion cfg tags x.2 y.2 (integerUType n (usual cfg j j')) := by
      rw [hxT, hyT]
      exact (hn _).2 rfl
    refine exists_rewrite (.convert hop (.inr hT) (.inr hT') harith harith' hconst hne' hC hr hr') (cast_good hx hr)
      (cast_good hy hr') fun x' y' hx' hy' _ _ => ?_
    have hp := @isPromoted_usual cfg j j'
    obtain ⟨z, hz⟩ := @exists_op cfg tags _ _ _ _ op hx' hy' (hx'.isPromoted hp) (hy'.isPromoted hp) fun _ => by
      obtain ⟨_, k, hk, hkj, -⟩ := hx'
      obtain ⟨_, k', hk', hkj', -⟩ := hy'
      rw [hk, hk']
      exact eqType_integer_iff.2 (areIntsCompat_iff.2 (hkj.trans hkj'.symm)).symm
    exact ⟨z, .apply hz⟩

/-- Operands that are promoted. -/
theorem exists_promoted {op : BinaryOp} (hx : HasType cfg x i) (hy : HasType cfg y i') (hT : x.2.isPromoted = true)
    (hT' : y.2.isPromoted = true) : ∃ z, BinaryEval cfg tags op x y z := by
  have hstrip : ∀ {x : Int × UType} {i : IntType}, HasType cfg x i → x.2.isPromoted = true →
      (CSemantics.stripConstants x.2).isPromoted = true := by
    intro x i hx hT
    obtain ⟨m, j, hxT, -, -⟩ := hx
    cases m with
    | mods f fs =>
      rw [hxT] at hT ⊢
      exact hT
  cases hop : op.isNonEquality with
  | false => exact exists_converted hx hy hT hT' (by rw [hop, Bool.false_and])
  | true =>
    cases hc : fromConstantExpr x.2 with
    | true =>
      cases hc' : fromConstantExpr y.2 with
      | true => exact exists_converted hx hy hT hT' (by rw [hc, hc', Bool.xor_self, Bool.and_false])
      | false =>
        obtain ⟨hx', hnot⟩ := hx.stripConstants
        obtain ⟨z, hz⟩ := @exists_converted cfg tags _ _ _ _ op hx' hy (hstrip hx hT) hT'
          (by rw [hnot, hc', Bool.xor_self, Bool.and_false])
        exact ⟨z, .rewrite (.stripLeft hop hc hc' (.inr hT) (.inr hT')) hz⟩
    | false =>
      cases hc' : fromConstantExpr y.2 with
      | false => exact exists_converted hx hy hT hT' (by rw [hc, hc', Bool.xor_self, Bool.and_false])
      | true =>
        obtain ⟨hy', hnot⟩ := hy.stripConstants
        obtain ⟨z, hz⟩ := @exists_converted cfg tags _ _ _ _ op hx hy' hT (hstrip hy hT')
          (by rw [hnot, hc, Bool.xor_self, Bool.and_false])
        exact ⟨z, .rewrite (.stripRight hop hc' hc (.inr hT) (.inr hT')) hz⟩

theorem exists_promoteRule (hx : HasType cfg x i) (tags : Tags) : ∃ P, PromoteRule cfg tags x.2 P := by
  obtain ⟨m, j, hT, -, -⟩ := hx
  obtain ⟨m', hm'⟩ := @promoteRule_integer cfg tags m j
  rw [hT]
  exact ⟨_, (hm' _).2 rfl⟩

/-- **An operator on any two numbers** has a value or a report. -/
theorem exists_binary (tags : Tags) (op : BinaryOp) (hx : HasType cfg x i) (hy : HasType cfg y i') :
    ∃ z, BinaryEval cfg tags op x y z := by
  have hright : ∀ {x : Int × UType} {i : IntType}, HasType cfg x i → x.2.isPromoted = true →
      ∃ z, BinaryEval cfg tags op x y z := by
    intro x i hx hT
    cases hT' : y.2.isPromoted with
    | true => exact exists_promoted hx hy hT hT'
    | false =>
      obtain ⟨P, hP⟩ := exists_promoteRule hy tags
      obtain ⟨m', rfl⟩ := hy.promote hP
      obtain ⟨r, hr⟩ := @exists_cast cfg tags _ _ hy m' (promoted cfg i') false
      refine exists_rewrite (.promoteRight hy.isInteger hT' (.inr hT) hP hr) (good_ok hx) (cast_good hy hr)
        fun x' y' _ hy' hx' _ => ?_
      cases hx'
      exact exists_promoted hx hy' hT (hy'.isPromoted (isPromoted_promoted i'))
  cases hT : x.2.isPromoted with
  | true => exact hright hx hT
  | false =>
    obtain ⟨P, hP⟩ := exists_promoteRule hx tags
    obtain ⟨m', rfl⟩ := hx.promote hP
    obtain ⟨r, hr⟩ := @exists_cast cfg tags _ _ hx m' (promoted cfg i) false
    refine exists_rewrite (.promoteLeft hx.isInteger hT hP hr) (cast_good hx hr) (good_ok hy)
      fun x' y' hx' _ _ hy' => ?_
    cases hy'
    exact hright hx' (hx'.isPromoted (isPromoted_promoted i))

/-! ## Operators on one number -/

def UnaryOp.result (cfg : Settings) (i : IntType) : UnaryOp → IntType
  | .not => .int
  | _ => promoted cfg i

theorem constantZero_int : HasType cfg constantZero .int :=
  hasType_of rfl ⟨shapeMin_le_zero _ _, shapeMax_nonneg _ _⟩

theorem canon_promoted_of_isPromoted (hT : j.isPromoted = true) (hj : canon j = canon i) :
    canon j = canon (promoted cfg i) := by
  rw [← promoted_congr hj, promoted_of_isPromoted hT]
  cases j <;> rfl

theorem unary_good (hcfg : 1 < numBits cfg .int) {op : UnaryOp} (h : UnaryEval cfg tags op x r) :
    ∀ {i : IntType}, HasType cfg x i → Good cfg r (op.result cfg i) := by
  have hpromoted : ∀ {op : UnaryOp} {i : IntType}, op ≠ .not → op.result cfg i = promoted cfg i := by
    intro op i hop
    cases op with
    | not => exact absurd rfl hop
    | _ => rfl
  induction h with
  | promote hop _ _ hP hcast _ ih =>
    intro i hx
    obtain ⟨m', rfl⟩ := hx.promote hP
    have hgood := ih (cast_good hx hcast).of_ok
    rwa [hpromoted hop, promoted_promoted, ← hpromoted hop] at hgood
  | stop hop _ _ hP hcast =>
    intro i hx
    obtain ⟨m', rfl⟩ := hx.promote hP
    exact good_error (cast_good hx hcast) _
  | plus hp | minus hp =>
    intro i hx
    obtain ⟨m, j, hT, hj, -⟩ := hx
    rw [hT] at hp ⊢
    rw [intArithInterpret_eq (integerShape m j) rfl]
    exact (arithmeticValue_good m j _).congr (canon_promoted_of_isPromoted hp hj)
  | complement h =>
    intro i hx
    obtain ⟨m, j, hT, hj, -⟩ := hx
    rw [hT] at h
    have hp : j.isPromoted = true := by
      cases h with
      | interpret hp _ => exact hp
    rw [(complementRule_iff (integerShape m j) rfl hp).1 h]
    exact (bitwiseValue_good m j _ _).congr (canon_promoted_of_isPromoted hp hj)
  | not h =>
    intro i hx
    exact binary_good hcfg h constantZero_int hx

theorem exists_unary (tags : Tags) (op : UnaryOp) (hx : HasType cfg x i) : ∃ z, UnaryEval cfg tags op x z := by
  have hready : ∀ {x : Int × UType} {i : IntType}, HasType cfg x i → x.2.isPromoted = true → op ≠ .not →
      ∃ z, UnaryEval cfg tags op x z := by
    intro x i hx hT hop
    cases op with
    | plus => exact ⟨_, .plus hT⟩
    | minus => exact ⟨_, .minus hT⟩
    | complement =>
      obtain ⟨m, j, hxT, -, -⟩ := hx
      have hrule : ∃ r, ComplementRule cfg tags x.1 x.2 r := by
        rw [hxT] at hT ⊢
        exact ⟨_, (complementRule_iff (integerShape m j) rfl hT).2 rfl⟩
      obtain ⟨r, hr⟩ := hrule
      exact ⟨r, .complement hr⟩
    | not => exact absurd rfl hop
  by_cases hop : op = .not
  · subst hop
    obtain ⟨z, hz⟩ := exists_binary tags (.equality .eq) constantZero_int hx
    exact ⟨z, .not hz⟩
  · cases hT : x.2.isPromoted with
    | true => exact hready hx hT hop
    | false =>
      obtain ⟨P, hP⟩ := exists_promoteRule hx tags
      obtain ⟨m', rfl⟩ := hx.promote hP
      obtain ⟨r, hr⟩ := @exists_cast cfg tags _ _ hx m' (promoted cfg i) false
      rcases cast_good hx hr with ⟨x', rfl, hx'⟩ | ⟨msg, rfl⟩
      · obtain ⟨z, hz⟩ := hready hx' (hx'.isPromoted (isPromoted_promoted i)) hop
        exact ⟨z, .promote hop hx.isInteger hT hP hr hz⟩
      · exact ⟨_, .stop hop hx.isInteger hT hP hr⟩

end Values

/-! ## Types and values of expressions -/

section Sound

variable {cfg : Settings} {tags : Tags} {e : Expr} {T : UType} {r : Eval (Int × UType)}

/-- **`typeof` gives the type of the standard.** -/
theorem typeOf_sound (h : TypeOf cfg tags e T) : ∃ m j, T = integerUType m j ∧ canon j = canon (typeOf cfg e) := by
  have husual : ∀ {T T' C : UType} {i i' : IntType}, (∃ m j, T = integerUType m j ∧ canon j = canon i) →
      (∃ m j, T' = integerUType m j ∧ canon j = canon i') → UsualArithmeticConversion cfg tags T T' C →
      ∃ m j, C = integerUType m j ∧ canon j = canon (usual cfg i i') := by
    rintro T T' C i i' ⟨m, j, rfl, hj⟩ ⟨m', j', rfl, hj'⟩ hC
    obtain ⟨n, hn⟩ := @usual_integer cfg tags m m' j j'
    exact ⟨n, _, (hn C).1 hC, by rw [usual_congr hj hj']⟩
  have hpromote : ∀ {T P : UType} {i : IntType}, (∃ m j, T = integerUType m j ∧ canon j = canon i) →
      PromoteRule cfg tags T P → ∃ m j, P = integerUType m j ∧ canon j = canon (promoted cfg i) := by
    rintro T P i ⟨m, j, rfl, hj⟩ hP
    obtain ⟨m', hm'⟩ := @promoteRule_integer cfg tags m j
    exact ⟨m', _, (hm' P).1 hP, by rw [promoted_congr hj]⟩
  induction h with
  | value => exact ⟨_, _, rfl, rfl⟩
  | @promoted op _ _ _ hop _ hP ih =>
    cases op with
    | not => exact absurd rfl hop
    | _ => exact hpromote ih hP
  | not => exact ⟨noMods, _, rfl, rfl⟩
  | @usual op _ _ _ _ _ hconverts htest _ _ hC ihl ihr =>
    cases op with
    | shift op => cases hconverts
    | order op | equality op => cases htest
    | _ => exact husual ihl ihr hC
  | shift _ hP ih => exact hpromote ih hP
  | @test op _ _ htest =>
    cases op with
    | order op | equality op => exact ⟨noMods, _, rfl, rfl⟩
    | _ => cases htest
  | logical => exact ⟨noMods, _, rfl, rfl⟩
  | conditional _ _ hC ih ih' => exact husual ih ih' hC
  | cast => exact ⟨noMods, _, rfl, rfl⟩

theorem exists_typeOf (cfg : Settings) (tags : Tags) (e : Expr) : ∃ T, TypeOf cfg tags e T := by
  have husual : ∀ {e e' : Expr} {T T' : UType}, TypeOf cfg tags e T → TypeOf cfg tags e' T' →
      ∃ C, UsualArithmeticConversion cfg tags T T' C := by
    intro e e' T T' h h'
    obtain ⟨m, j, rfl, -⟩ := typeOf_sound h
    obtain ⟨m', j', rfl, -⟩ := typeOf_sound h'
    obtain ⟨n, hn⟩ := @usual_integer cfg tags m m' j j'
    exact ⟨_, (hn _).2 rfl⟩
  have hpromote : ∀ {e : Expr} {T : UType}, TypeOf cfg tags e T → ∃ P, PromoteRule cfg tags T P := by
    intro e T h
    obtain ⟨m, j, rfl, -⟩ := typeOf_sound h
    obtain ⟨m', hm'⟩ := @promoteRule_integer cfg tags m j
    exact ⟨_, (hm' _).2 rfl⟩
  induction e with
  | value V m i => exact ⟨_, .value⟩
  | unary op e ih =>
    by_cases hop : op = .not
    · subst hop
      exact ⟨_, .not⟩
    · obtain ⟨T, hT⟩ := ih
      obtain ⟨P, hP⟩ := hpromote hT
      exact ⟨P, .promoted hop hT hP⟩
  | binary op l r ihl ihr =>
    obtain ⟨T, hT⟩ := ihl
    obtain ⟨T', hT'⟩ := ihr
    cases htest : op.isTest with
    | true => exact ⟨_, .test htest⟩
    | false =>
      cases hop : op.converts with
      | true =>
        obtain ⟨C, hC⟩ := husual hT hT'
        exact ⟨C, .usual hop htest hT hT' hC⟩
      | false =>
        cases op with
        | shift op =>
          obtain ⟨P, hP⟩ := hpromote hT
          exact ⟨P, .shift hT hP⟩
        | _ => cases hop
  | logical op l r _ _ => exact ⟨_, .logical⟩
  | conditional c e e' _ ih ih' =>
    obtain ⟨T, hT⟩ := ih
    obtain ⟨T', hT'⟩ := ih'
    obtain ⟨C, hC⟩ := husual hT hT'
    exact ⟨C, .conditional hT hT' hC⟩
  | cast i explicit e _ => exact ⟨_, .cast⟩

theorem wellFormed_simplifyTruth (h : WellFormed cfg e) : WellFormed cfg (simplifyTruth e) :=
  ⟨h, shapeMin_le_zero _ _, shapeMax_nonneg _ _⟩

/-- **Types are sound**: what an expression evaluates to is a value of its type, in the range of the type, or a
    report; the machine is never stuck. -/
theorem evaluates_good (hcfg : 1 < numBits cfg .int) (h : Evaluates cfg tags e r) (he : WellFormed cfg e) :
    Good cfg r (typeOf cfg e) := by
  have hunary : ∀ (op : UnaryOp) (e : Expr), typeOf cfg (.unary op e) = op.result cfg (typeOf cfg e) := by
    intro op e
    cases op <;> rfl
  induction h with
  | value => exact good_ok (hasType_of rfl he)
  | unary _ h ih =>
    rw [hunary]
    exact unary_good hcfg h (ih he).of_ok
  | unaryStop _ ih => exact good_error (ih he) _
  | binary _ _ h ihl ihr => exact binary_good hcfg h (ihl he.1).of_ok (ihr he.2).of_ok
  | leftStop _ ih => exact good_error (ih he.1) _
  | rightStop _ ih => exact good_error (ih he.2) _
  | @logical op _ _ x y _ _ ihl ihr =>
    have hx := (ihl (wellFormed_simplifyTruth he.1)).of_ok
    have hy := (ihr (wellFormed_simplifyTruth he.2)).of_ok
    have hcases : logicalValue op x y = x ∨ logicalValue op x y = y := by
      cases op with
      | and => exact ite_eq_or_eq _ _ _
      | or => exact (ite_eq_or_eq _ _ _).symm
    rcases hcases with h | h
    · rw [h]
      exact good_ok hx
    · rw [h]
      exact good_ok hy
  | logicalLeftStop _ ih => exact good_error (ih (wellFormed_simplifyTruth he.1)) _
  | logicalRightStop _ ih => exact good_error (ih (wellFormed_simplifyTruth he.2)) _
  | conditionalStop _ ih => exact good_error (ih (wellFormed_simplifyTruth he.1)) _
  | first _ _ _ hT' hC hcast _ ih =>
    obtain ⟨m', j', hT', hj'⟩ := typeOf_sound hT'
    have hy := (ih he.2.1).of_ok
    obtain ⟨n, rfl⟩ := (hy.usual hT' hj').1 hC
    exact cast_good hy hcast
  | firstStop _ _ _ _ ih => exact good_error (ih he.2.1) _
  | second _ _ _ hT hC hcast _ ih =>
    obtain ⟨m, j, hT, hj⟩ := typeOf_sound hT
    have hy := (ih he.2.2).of_ok
    obtain ⟨n, rfl⟩ := (hy.usual hT hj).2 hC
    exact cast_good hy hcast
  | secondStop _ _ _ _ ih => exact good_error (ih he.2.2) _
  | cast _ hcast ih => exact cast_good (ih he).of_ok hcast
  | castStop _ ih => exact good_error (ih he) _

/-- **Every expression** has a value or a report. -/
theorem exists_evaluates (hcfg : 1 < numBits cfg .int) (tags : Tags) (e : Expr) (he : WellFormed cfg e) :
    ∃ r, Evaluates cfg tags e r := by
  have htruth : ∀ {e : Expr}, WellFormed cfg e → (∃ r, Evaluates cfg tags e r) →
      ∃ r, Evaluates cfg tags (simplifyTruth e) r := by
    rintro e he ⟨r, hr⟩
    rcases evaluates_good hcfg hr he with ⟨x, rfl, hx⟩ | ⟨msg, rfl⟩
    · obtain ⟨z, hz⟩ := exists_binary tags (.equality .ne) hx constantZero_int
      exact ⟨z, .binary hr .value hz⟩
    · exact ⟨_, .leftStop hr⟩
  have hgood : ∀ {e : Expr} {r : Eval (Int × UType)}, WellFormed cfg e → Evaluates cfg tags (simplifyTruth e) r →
      (∃ x, r = .ok x ∧ (x.1 = 0 ∨ x.1 = 1)) ∨ ∃ msg, r = .error (.report msg) := by
    intro e r he hr
    rcases evaluates_good hcfg hr (wellFormed_simplifyTruth he) with ⟨x, rfl, -⟩ | ⟨msg, rfl⟩
    · cases hr with
      | binary _ _ h => exact .inl ⟨x, rfl, truth_cases h rfl⟩
    · exact .inr ⟨msg, rfl⟩
  induction e with
  | value V m i => exact ⟨_, .value⟩
  | unary op e ih =>
    obtain ⟨r, hr⟩ := ih he
    rcases evaluates_good hcfg hr he with ⟨x, rfl, hx⟩ | ⟨msg, rfl⟩
    · obtain ⟨z, hz⟩ := exists_unary tags op hx
      exact ⟨z, .unary hr hz⟩
    · exact ⟨_, .unaryStop hr⟩
  | binary op l r ihl ihr =>
    obtain ⟨u, hu⟩ := ihl he.1
    obtain ⟨v, hv⟩ := ihr he.2
    rcases evaluates_good hcfg hu he.1 with ⟨x, rfl, hx⟩ | ⟨msg, rfl⟩
    · rcases evaluates_good hcfg hv he.2 with ⟨y, rfl, hy⟩ | ⟨msg, rfl⟩
      · obtain ⟨z, hz⟩ := exists_binary tags op hx hy
        exact ⟨z, .binary hu hv hz⟩
      · exact ⟨_, .rightStop hv⟩
    · exact ⟨_, .leftStop hu⟩
  | logical op l r ihl ihr =>
    obtain ⟨u, hu⟩ := htruth he.1 (ihl he.1)
    obtain ⟨v, hv⟩ := htruth he.2 (ihr he.2)
    rcases hgood he.1 hu with ⟨x, rfl, -⟩ | ⟨msg, rfl⟩
    · rcases hgood he.2 hv with ⟨y, rfl, -⟩ | ⟨msg, rfl⟩
      · exact ⟨_, .logical hu hv⟩
      · exact ⟨_, .logicalRightStop hv⟩
    · exact ⟨_, .logicalLeftStop hu⟩
  | conditional c e e' ihc ih ih' =>
    obtain ⟨u, hu⟩ := htruth he.1 (ihc he.1)
    rcases hgood he.1 hu with ⟨x, rfl, hx⟩ | ⟨msg, rfl⟩
    · rcases hx with h0 | h1
      · obtain ⟨v, hv⟩ := ih' he.2.2
        rcases evaluates_good hcfg hv he.2.2 with ⟨y, rfl, hy⟩ | ⟨msg, rfl⟩
        · obtain ⟨T, hT⟩ := exists_typeOf cfg tags e
          obtain ⟨m, j, rfl, -⟩ := typeOf_sound hT
          obtain ⟨m', k, hyT, -, -⟩ := id hy
          obtain ⟨n, hn⟩ := @usual_integer cfg tags m m' j k
          obtain ⟨r, hr⟩ := @exists_cast cfg tags _ _ hy n (usual cfg j k) false
          exact ⟨r, .second hu h0 hv hT (hyT ▸ (hn _).2 rfl) hr⟩
        · exact ⟨_, .secondStop hu h0 hv⟩
      · obtain ⟨v, hv⟩ := ih he.2.1
        rcases evaluates_good hcfg hv he.2.1 with ⟨y, rfl, hy⟩ | ⟨msg, rfl⟩
        · obtain ⟨T', hT'⟩ := exists_typeOf cfg tags e'
          obtain ⟨m', j', rfl, -⟩ := typeOf_sound hT'
          obtain ⟨m, k, hyT, -, -⟩ := id hy
          obtain ⟨n, hn⟩ := @usual_integer cfg tags m m' k j'
          obtain ⟨r, hr⟩ := @exists_cast cfg tags _ _ hy n (usual cfg k j') false
          exact ⟨r, .first hu h1 hv hT' (hyT ▸ (hn _).2 rfl) hr⟩
        · exact ⟨_, .firstStop hu h1 hv⟩
    · exact ⟨_, .conditionalStop hu⟩
  | cast i explicit e ih =>
    obtain ⟨r, hr⟩ := ih he
    rcases evaluates_good hcfg hr he with ⟨x, rfl, hx⟩ | ⟨msg, rfl⟩
    · obtain ⟨z, hz⟩ := @exists_cast cfg tags _ _ hx noMods i explicit
      exact ⟨z, .cast hr hz⟩
    · exact ⟨_, .castStop hr⟩

/-- **Type soundness** for the expressions of integers: every expression has a type, and a value or a report; it has
    no other outcome, and its value has the type that `typeof` says and is in the range of it. -/
theorem type_soundness (cfg : Settings) (tags : Tags) (hcfg : 1 < numBits cfg .int) (e : Expr) (he : WellFormed cfg e) :
    (∃ T, TypeOf cfg tags e T) ∧ (∃ r, Evaluates cfg tags e r) ∧
      ∀ T r, TypeOf cfg tags e T → Evaluates cfg tags e r →
        (∃ V T', r = .ok (V, T') ∧ EqType cfg tags T' T true ∧ intInRange cfg tags V T = .ok true) ∨
          ∃ msg, r = .error (.report msg) := by
  refine ⟨exists_typeOf cfg tags e, exists_evaluates hcfg tags e he, fun T r hT hr => ?_⟩
  obtain ⟨m, j, rfl, hj⟩ := typeOf_sound hT
  rcases evaluates_good hcfg hr he with ⟨⟨V, T'⟩, rfl, m', k, rfl, hk, hV⟩ | h
  · refine .inl ⟨V, _, rfl, eqType_integer_iff.2 (areIntsCompat_iff.2 (hk.trans hj.symm)).symm, ?_⟩
    rw [intInRange_iff (integerShape m j), numBits_congr hj, isSigned_congr hj]
    exact hV
  · exact .inr h

/-- `(signed char) 200 + (1U < -1L ? 3 : 4UL)` -/
def sample : Expr :=
  .binary (.arithmetic .plus) (.cast .signedChar true (.value 200 noMods .int))
    (.conditional (.binary (.order .lt) (.value 1 noMods .unsignedInt) (.value (-1) noMods .longInt))
      (.value 3 noMods .int) (.value 4 noMods .unsignedLongInt))

theorem sample_sound : (∃ T, TypeOf x86GccLimitedLibc [] sample T) ∧ (∃ r, Evaluates x86GccLimitedLibc [] sample r) ∧
    ∀ T r, TypeOf x86GccLimitedLibc [] sample T → Evaluates x86GccLimitedLibc [] sample r →
      (∃ V T', r = .ok (V, T') ∧ EqType x86GccLimitedLibc [] T' T true ∧
        intInRange x86GccLimitedLibc [] V T = .ok true) ∨ ∃ msg, r = .error (.report msg) :=
  type_soundness x86GccLimitedLibc [] (by decide) sample (by simp only [sample, WellFormed]; decide)

/-- `&&` and `||` need a value of both operands. -/
theorem logical_needs_both {op : LogicalOp} {l r : Expr} {z : Int × UType}
    (h : Evaluates cfg tags (.logical op l r) (.ok z)) :
    (∃ x, Evaluates cfg tags (simplifyTruth l) (.ok x)) ∧ ∃ y, Evaluates cfg tags (simplifyTruth r) (.ok y) := by
  cases h with
  | logical hl hr => exact ⟨⟨_, hl⟩, _, hr⟩

end Sound

end CSemantics.ConstantExpr
