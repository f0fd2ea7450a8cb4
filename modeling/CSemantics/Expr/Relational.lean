/-
  Comparison of pointers.

  A pointer is a base and an offset, or null; what else a location records of where it came from is not looked
  at.  So `==` compares PLACES, whatever they are in, and `<` compares offsets, in one object only:

                        ==  and  !=               <  <=  >  >=
      a null pointer    null ==K the other        CERL6
      one object        offset ==K offset         offset <Int offset
      two objects       false                     CERL1 .. CERL4

  The rules for one object ask for pointers to compatible types, and those of the last line, at the right, for
  types that are the same: a `const char *` and a `char *` into two objects have no rule
  (`pointersCompare_iff`).
-/
import CSemantics.Expr.Additive
import CSemantics.Memory.Encoding

namespace CSemantics

/-! ## Operators -/

inductive OrderOp
  | lt | le | gt | ge
  deriving DecidableEq

def OrderOp.compare : OrderOp → Int → Int → Bool
  | .lt, o, o' => decide (o < o')
  | .le, o, o' => decide (o ≤ o')
  | .gt, o, o' => decide (o > o')
  | .ge, o, o' => decide (o ≥ o')

/-- The report for two objects. -/
def OrderOp.differentBase : OrderOp → Stop
  | .lt => UNDEF "CERL1" "Cannot compare pointers with different base objects using '<'."
  | .le => UNDEF "CERL2" "Cannot compare pointers with different base objects using '<='."
  | .gt => UNDEF "CERL3" "Cannot compare pointers with different base objects using '>'."
  | .ge => UNDEF "CERL4" "Cannot compare pointers with different base objects using '>='."

inductive EqualityOp
  | eq | ne
  deriving DecidableEq

/-- What the operator makes of operands that are equal, or are not. -/
def EqualityOp.truth : EqualityOp → Bool → Bool
  | .eq, b => b
  | .ne, b => !b

def EqualityOp.invalidOperands : EqualityOp → Stop
  | .eq => CV "CERL8" "Invalid operand types to ==."
  | .ne => CV "CERL9" "Invalid operand types to !=."

/-! ## Operands -/

/-- `fromConstantExpr(T)` -/
def fromConstantExpr (T : UType) : Bool :=
  match T with
  | .ut m _ => (T.isInteger || T.isPointer) && decide (Modifier.IntegerConstant ∈ m.flags)

/-- `isNullPointerConstant(tv(V, T))` -/
def isNullPointerConstant : CValue → UType → Bool
  | .int n, T => decide (n = 0) && fromConstantExpr T && T.isInteger
  | .loc .NullPointer, T =>
    match T with
    | .ut _ (.nonArray (.pointerType (.t _ _ (.nonArray (.basic .void))))) => fromConstantExpr T
    | _ => false
  | _, _ => false

def isVoidType : CType → Bool
  | .t _ _ (.nonArray (.basic .void)) => true
  | _ => false

def isFunctionPointerType : UType → Bool
  | .ut _ (.nonArray (.pointerType E)) => isFunctionType E
  | _ => false

def UType.isArithmetic (T : UType) : Bool := T.isInteger || T.isFloat

def makeTruthType (T T' : UType) : UType :=
  if fromConstantExpr T && fromConstantExpr T' then .ut (.mods {.IntegerConstant} none) (.nonArray (.basic (.integer .int)))
  else IntType.int.toSimple.toUType

/-- `makeTruth(B, T, T')` -/
def makeTruth (B : Bool) (T T' : UType) : Int × UType := (if B then 1 else 0, makeTruthType T T')

section Rules

variable (cfg : Settings) (tags : Tags)

/-- The rules for `isCompatibleRelationalTypes(T1, T2)` -/
inductive CompatibleRelationalTypes : UType → UType → Prop
  | arithmetic {T1 T2} (h : T1.isPromoted = true ∨ T1.isFloat = true) (heq : EqType cfg tags T1 T2 true) :
    CompatibleRelationalTypes T1 T2
  | pointers {m1 m2 E1 E2} (heq : EqType cfg tags (utype E1) (utype E2) true) (hfun : isFunctionType E1 = false) :
    CompatibleRelationalTypes (pointerUType m1 E1) (pointerUType m2 E2)

/-- The rules for `isCompatibleEqualityTypes(T1, T2, V1, V2)` -/
inductive CompatibleEqualityTypes : UType → UType → CValue → CValue → Prop
  | arithmetic {T1 T2 V1 V2} (h : T1.isPromoted = true ∨ T1.isFloat = true) (heq : EqType cfg tags T1 T2 true) :
    CompatibleEqualityTypes T1 T2 V1 V2
  | pointers {m1 m2 E1 E2 V1 V2} (heq : EqType cfg tags (utype E1) (utype E2) true) :
    CompatibleEqualityTypes (pointerUType m1 E1) (pointerUType m2 E2) V1 V2
  | void {m1 m2 E1 E2 V1 V2}
    (h : (isFunctionType E1 = false ∧ isVoidType E2 = true) ∨ (isFunctionType E2 = false ∧ isVoidType E1 = true)) :
    CompatibleEqualityTypes (pointerUType m1 E1) (pointerUType m2 E2) V1 V2
  | nullLeft {T1 m2 E2 V1 V2} (h : isNullPointerConstant V1 T1 = true ∨ V1 = .loc .NullPointer) :
    CompatibleEqualityTypes T1 (pointerUType m2 E2) V1 V2
  | nullRight {m1 E1 T2 V1 V2} (h : isNullPointerConstant V2 T2 = true ∨ V2 = .loc .NullPointer) :
    CompatibleEqualityTypes (pointerUType m1 E1) T2 V1 V2

/-- **The rules for `tv(V, T) < tv(V', T')`** and the other three, where pointers are compared. -/
inductive OrderedRule (op : OrderOp) : CValue → UType → CValue → UType → Eval (Int × UType) → Prop
  | null {L R T T'} (h : L = .NullPointer ∨ R = .NullPointer) :
    OrderedRule op (.loc L) T (.loc R) T' (.error (UNDEF "CERL6" "Ordered comparison of a null pointer."))
  | sameBase {L R T T' o o'} (hL : L ≠ .NullPointer) (hR : R ≠ .NullPointer) (hbase : sameBase L R = true)
    (htypes : CompatibleRelationalTypes cfg tags T T') (ho : L.offset = .ok o) (ho' : R.offset = .ok o') :
    OrderedRule op (.loc L) T (.loc R) T' (.ok (makeTruth (op.compare o o') T T'))
  | differentBase {L R T T'} (hL : L ≠ .NullPointer) (hR : R ≠ .NullPointer) (hbase : sameBase L R = false)
    (heq : EqType cfg tags T T' true) : OrderedRule op (.loc L) T (.loc R) T' (.error op.differentBase)
  | incompatible {V V' T T'} (htypes : ¬CompatibleRelationalTypes cfg tags T T')
    (harith : (T.isArithmetic && T'.isArithmetic) = false) :
    OrderedRule op V T V' T' (.error (CV "CERL5" "Incompatible types in relational expression."))
  | encodedPtr {L R T T' lo hi r} (h : OrderedRule op (.loc L) T (.loc R) T' r) :
    OrderedRule op (.bits (.atom (.encodedPtr L lo hi))) T (.bits (.atom (.encodedPtr R lo hi))) T' r

/-- **The rules for `tv(V, T) == tv(V', T')`** and `!=`, where pointers and null pointer constants are
    compared. -/
inductive EqualityRule (op : EqualityOp) : CValue → UType → CValue → UType → Eval (Int × UType) → Prop
  | nullLeft {V N T T'} (hfun : (isFunctionPointerType T' && isNullPointerConstant V T) = false)
    (h : isNullPointerConstant V T = true ∨ V = .loc .NullPointer) :
    EqualityRule op V T (.loc N) T' (.ok (makeTruth (op.truth (decide (.NullPointer = N))) T T'))
  | nullRight {V N T T'} (hfun : (isFunctionPointerType T && isNullPointerConstant V T') = false)
    (h : isNullPointerConstant V T' = true ∨ V = .loc .NullPointer) :
    EqualityRule op (.loc N) T V T' (.ok (makeTruth (op.truth (decide (.NullPointer = N))) T T'))
  /-- `lintNullFunPtrCompare` goes first, and is nothing without lint. -/
  | nullFunctionLeft {V N T T'} (hfun : isFunctionPointerType T' = true) (h : isNullPointerConstant V T = true)
    (hlint : hasLint = false) :
    EqualityRule op V T (.loc N) T' (.ok (makeTruth (op.truth (decide (.NullPointer = N))) T T'))
  | nullFunctionRight {V N T T'} (hfun : isFunctionPointerType T = true) (h : isNullPointerConstant V T' = true)
    (hlint : hasLint = false) :
    EqualityRule op (.loc N) T V T' (.ok (makeTruth (op.truth (decide (.NullPointer = N))) T T'))
  | sameBase {L R T T' o o'} (hL : L ≠ .NullPointer) (hR : R ≠ .NullPointer) (hbase : sameBase L R = true)
    (htypes : CompatibleEqualityTypes cfg tags T T' (.loc L) (.loc R)) (ho : L.offset = .ok o)
    (ho' : R.offset = .ok o') :
    EqualityRule op (.loc L) T (.loc R) T' (.ok (makeTruth (op.truth (decide (o = o'))) T T'))
  | differentBase {L R T T'} (hL : L ≠ .NullPointer) (hR : R ≠ .NullPointer) (hbase : sameBase L R = false)
    (htypes : CompatibleEqualityTypes cfg tags T T' (.loc L) (.loc R)) :
    EqualityRule op (.loc L) T (.loc R) T' (.ok (makeTruth (op.truth false) T T'))
  | incompatible {V V' T T'} (htypes : ¬CompatibleEqualityTypes cfg tags T T' V V')
    (harith : (T.isArithmetic && T'.isArithmetic) = false)
    (hnull : (T.isPointer && isNullPointerConstant V' T') = false)
    (hnull' : (T'.isPointer && isNullPointerConstant V T) = false) :
    EqualityRule op V T V' T' (.error op.invalidOperands)
  | encodedPtr {L R T T' lo hi r} (h : EqualityRule op (.loc L) T (.loc R) T' r) :
    EqualityRule op (.bits (.atom (.encodedPtr L lo hi))) T (.bits (.atom (.encodedPtr R lo hi))) T' r

end Rules

/-! ## Places -/

/-- **Where a location points**: a base and an offset, or nowhere. -/
def SymLoc.place : SymLoc → Option (SymBase × Int)
  | .loc b o => some (b, o)
  | .loc3 b o _ => some (b, o)
  | .NullPointer => none

section Places

variable {L R : SymLoc} {o o' : Int}

theorem place_eq_none_iff : L.place = none ↔ L = .NullPointer := by
  cases L <;> simp [SymLoc.place]

theorem place_eq_of_sameBase (hL : L ≠ .NullPointer) (hR : R ≠ .NullPointer) (hbase : sameBase L R = true)
    (ho : L.offset = .ok o) (ho' : R.offset = .ok o') : L.place = R.place ↔ o = o' := by
  cases L <;> cases R <;>
    simp_all [SymLoc.place, sameBase, SymLoc.base, SymLoc.offset]

theorem place_ne_of_sameBase (hL : L ≠ .NullPointer) (hR : R ≠ .NullPointer) (hbase : sameBase L R = false) :
    L.place ≠ R.place := by
  cases L <;> cases R <;> simp_all [SymLoc.place, sameBase, SymLoc.base]

theorem exists_offset (hL : L ≠ .NullPointer) : ∃ o, L.offset = .ok o := by
  cases L with
  | loc b o => exact ⟨o, rfl⟩
  | loc3 b o prov => exact ⟨o, rfl⟩
  | NullPointer => exact absurd rfl hL

end Places

/-! ## Equality -/

theorem eq_null_of_isNullPointerConstant {L : SymLoc} {T : UType}
    (h : isNullPointerConstant (.loc L) T = true ∨ CValue.loc L = .loc .NullPointer) : L = .NullPointer := by
  rcases h with h | h
  · cases L with
    | NullPointer => rfl
    | loc b o => cases h
    | loc3 b o prov => cases h
  · exact CValue.loc.inj h

section Equality

variable {cfg : Settings} {tags : Tags} {L R L' R' : SymLoc} {T T' : UType} {m m' : Mods} {E E' : CType}
  {op : EqualityOp} {r : Int × UType} {b : Bool}

/-- The operands can be compared: one is null, or the types allow it. -/
def Comparable (cfg : Settings) (tags : Tags) (L : SymLoc) (T : UType) (R : SymLoc) (T' : UType) : Prop :=
  L = .NullPointer ∨ R = .NullPointer ∨ CompatibleEqualityTypes cfg tags T T' (.loc L) (.loc R)

theorem Comparable.symm (h : Comparable cfg tags L (pointerUType m E) R (pointerUType m' E')) :
    Comparable cfg tags R (pointerUType m' E') L (pointerUType m E) := by
  rcases h with h | h | h
  · exact .inr (.inl h)
  · exact .inl h
  · refine .inr (.inr ?_)
    generalize hT : pointerUType m E = T at h
    generalize hT' : pointerUType m' E' = T' at h
    cases h with
    | arithmetic h heq =>
      subst hT
      rcases h with h | h <;> cases h
    | pointers heq => exact .pointers (eqType_symm heq)
    | void h => exact .void h.symm
    | nullLeft h =>
      subst hT
      exact .nullRight h
    | nullRight h =>
      subst hT'
      exact .nullLeft h

/-- Whether locations can be compared does not depend on where they point, unless that is nowhere. -/
theorem Comparable.of_place (h : Comparable cfg tags L T R T') (hL : L.place = L'.place) (hR : R.place = R'.place) :
    Comparable cfg tags L' T R' T' := by
  have hnull : ∀ {S S' : SymLoc}, S.place = S'.place → S = .NullPointer → S' = .NullPointer := by
    intro S S' hplace hS
    rw [← place_eq_none_iff, ← hplace, place_eq_none_iff]
    exact hS
  rcases h with h | h | h
  · exact .inl (hnull hL h)
  · exact .inr (.inl (hnull hR h))
  · generalize hV : CValue.loc L = V at h
    generalize hV' : CValue.loc R = V' at h
    cases h with
    | arithmetic h heq => exact .inr (.inr (.arithmetic h heq))
    | pointers heq => exact .inr (.inr (.pointers heq))
    | void h => exact .inr (.inr (.void h))
    | nullLeft h =>
      subst hV
      exact .inl (hnull hL (eq_null_of_isNullPointerConstant h))
    | nullRight h =>
      subst hV'
      exact .inr (.inl (hnull hR (eq_null_of_isNullPointerConstant h)))

/-- **What `==` and `!=` give**: whether the places are the same, or are not. -/
theorem equalityRule_ok_iff :
    EqualityRule cfg tags op (.loc L) T (.loc R) T' (.ok r) ↔
      Comparable cfg tags L T R T' ∧ r = makeTruth (op.truth (decide (L.place = R.place))) T T' := by
  have hnullPlace : ∀ S : SymLoc, decide (SymLoc.NullPointer = S) = decide (SymLoc.NullPointer.place = S.place) := by
    intro S
    cases S <;> rfl
  have hplaceNull : ∀ S : SymLoc, decide (SymLoc.NullPointer = S) = decide (S.place = SymLoc.NullPointer.place) := by
    intro S
    cases S <;> rfl
  constructor
  · intro h
    cases h with
    | nullLeft hfun h =>
      obtain rfl := eq_null_of_isNullPointerConstant h
      exact ⟨.inl rfl, by rw [hnullPlace]⟩
    | nullRight hfun h =>
      obtain rfl := eq_null_of_isNullPointerConstant h
      exact ⟨.inr (.inl rfl), by rw [hplaceNull]⟩
    | nullFunctionLeft hfun h hlint =>
      obtain rfl := eq_null_of_isNullPointerConstant (.inl h)
      exact ⟨.inl rfl, by rw [hnullPlace]⟩
    | nullFunctionRight hfun h hlint =>
      obtain rfl := eq_null_of_isNullPointerConstant (.inl h)
      exact ⟨.inr (.inl rfl), by rw [hplaceNull]⟩
    | sameBase hL hR hbase htypes ho ho' =>
      exact ⟨.inr (.inr htypes), by simp only [place_eq_of_sameBase hL hR hbase ho ho']⟩
    | differentBase hL hR hbase htypes =>
      exact ⟨.inr (.inr htypes), by rw [decide_eq_false (place_ne_of_sameBase hL hR hbase)]⟩
  · rintro ⟨hcomp, rfl⟩
    by_cases hL : L = .NullPointer
    · subst hL
      rw [← hnullPlace]
      cases hfun : isFunctionPointerType T' && isNullPointerConstant (.loc .NullPointer) T with
      | false => exact .nullLeft hfun (.inr rfl)
      | true =>
        rw [Bool.and_eq_true] at hfun
        exact .nullFunctionLeft hfun.1 hfun.2 rfl
    · by_cases hR : R = .NullPointer
      · subst hR
        rw [← hplaceNull]
        cases hfun : isFunctionPointerType T && isNullPointerConstant (.loc .NullPointer) T' with
        | false => exact .nullRight hfun (.inr rfl)
        | true =>
          rw [Bool.and_eq_true] at hfun
          exact .nullFunctionRight hfun.1 hfun.2 rfl
      · have htypes : CompatibleEqualityTypes cfg tags T T' (.loc L) (.loc R) := by
          rcases hcomp with h | h | h
          · exact absurd h hL
          · exact absurd h hR
          · exact h
        cases hbase : sameBase L R with
        | true =>
          obtain ⟨o, ho⟩ := exists_offset hL
          obtain ⟨o', ho'⟩ := exists_offset hR
          simp only [place_eq_of_sameBase hL hR hbase ho ho']
          exact .sameBase hL hR hbase htypes ho ho'
        | false =>
          rw [decide_eq_false (place_ne_of_sameBase hL hR hbase)]
          exact .differentBase hL hR hbase htypes

/-- A null pointer constant is equal to null pointers only. -/
theorem equalityRule_nullPointerConstant {V : CValue} (hV : isNullPointerConstant V T = true) :
    EqualityRule cfg tags op V T (.loc R) T' (.ok (makeTruth (op.truth (decide (SymLoc.NullPointer = R))) T T')) := by
  cases hfun : isFunctionPointerType T' && isNullPointerConstant V T with
  | false => exact .nullLeft hfun (.inl hV)
  | true =>
    rw [Bool.and_eq_true] at hfun
    exact .nullFunctionLeft hfun.1 hfun.2 rfl

/-- `L == R` gives `b`, or `L != R` does. -/
def Equates (cfg : Settings) (tags : Tags) (op : EqualityOp) (L : SymLoc) (T : UType) (R : SymLoc) (T' : UType)
    (b : Bool) : Prop :=
  EqualityRule cfg tags op (.loc L) T (.loc R) T' (.ok (makeTruth b T T'))

theorem makeTruth_inj {b b' : Bool} : makeTruth b T T' = makeTruth b' T T' ↔ b = b' := by
  cases b <;> cases b' <;> simp [makeTruth]

theorem equates_iff :
    Equates cfg tags op L T R T' b ↔ Comparable cfg tags L T R T' ∧ b = op.truth (decide (L.place = R.place)) := by
  rw [Equates, equalityRule_ok_iff, makeTruth_inj]

end Equality

/-! ## Order -/

section Order

variable {cfg : Settings} {tags : Tags} {L R : SymLoc} {T T' : UType} {op : OrderOp} {r : Eval (Int × UType)}
  {o o' : Int}

/-- `L < R` gives `b`, or another of the four does. -/
def Orders (cfg : Settings) (tags : Tags) (op : OrderOp) (L : SymLoc) (T : UType) (R : SymLoc) (T' : UType)
    (b : Bool) : Prop :=
  OrderedRule cfg tags op (.loc L) T (.loc R) T' (.ok (makeTruth b T T'))

/-- **In one object** the offsets are compared. -/
theorem orders_iff (hL : L ≠ .NullPointer) (hR : R ≠ .NullPointer) (hbase : sameBase L R = true)
    (htypes : CompatibleRelationalTypes cfg tags T T') (ho : L.offset = .ok o) (ho' : R.offset = .ok o') {b : Bool} :
    Orders cfg tags op L T R T' b ↔ b = op.compare o o' := by
  constructor
  · intro h
    unfold Orders at h
    generalize hr : makeTruth b T T' = r at h
    cases h with
    | sameBase _ _ _ _ h h' =>
      rw [ho] at h
      rw [ho'] at h'
      injection h with h
      injection h' with h'
      subst h
      subst h'
      exact makeTruth_inj.mp hr
  · rintro rfl
    exact .sameBase hL hR hbase htypes ho ho'

/-- **Elsewhere** nothing is evaluated. -/
theorem orderedRule_error (hout : L = .NullPointer ∨ R = .NullPointer ∨ sameBase L R = false)
    (h : OrderedRule cfg tags op (.loc L) T (.loc R) T' r) : ∃ e, r = .error e := by
  cases h with
  | null _ => exact ⟨_, rfl⟩
  | sameBase hL hR hbase _ _ _ =>
    rcases hout with h | h | h
    · exact absurd h hL
    · exact absurd h hR
    · rw [hbase] at h
      cases h
  | differentBase _ _ _ _ => exact ⟨_, rfl⟩
  | incompatible _ _ => exact ⟨_, rfl⟩

/-- Two objects are reported when the types are the same, or cannot be compared. -/
theorem exists_orderedRule_iff (hL : L ≠ .NullPointer) (hR : R ≠ .NullPointer) (hbase : sameBase L R = false)
    (harith : (T.isArithmetic && T'.isArithmetic) = false) :
    (∃ r, OrderedRule cfg tags op (.loc L) T (.loc R) T' r) ↔
      (CompatibleRelationalTypes cfg tags T T' → EqType cfg tags T T' true) := by
  constructor
  · rintro ⟨r, h⟩ htypes
    cases h with
    | null h =>
      rcases h with h | h
      · exact absurd h hL
      · exact absurd h hR
    | sameBase _ _ h => rw [hbase] at h; cases h
    | differentBase _ _ _ heq => exact heq
    | incompatible h => exact absurd htypes h
  · intro h
    by_cases htypes : CompatibleRelationalTypes cfg tags T T'
    · exact ⟨_, .differentBase hL hR hbase (h htypes)⟩
    · exact ⟨_, .incompatible htypes harith⟩

end Order

theorem beq_lt_compare (o o' : Int) : (compare o o' == .lt) = decide (o < o') := by
  rw [Bool.eq_iff_iff, beq_iff_eq, compare_lt_iff_lt, decide_eq_true_iff]

theorem beq_eq_compare (o o' : Int) : (compare o o' == .eq) = decide (o = o') := by
  rw [Bool.eq_iff_iff, beq_iff_eq, compare_eq_iff_eq, decide_eq_true_iff]

theorem beq_gt_compare (o o' : Int) : (compare o o' == .gt) = decide (o > o') := by
  rw [Bool.eq_iff_iff, beq_iff_eq, compare_gt_iff_gt, decide_eq_true_iff]

/-! ## Consistency -/

/-- **Comparison is consistent** for these two pointers: `==` is the opposite of `!=` and compares places;
    in one object there is exactly one order; and elsewhere an ordered comparison is reported. -/
structure PointersCompare (cfg : Settings) (tags : Tags) (L : SymLoc) (T : UType) (R : SymLoc) (T' : UType) : Prop where
  opposite : ∀ b, Equates cfg tags .eq L T R T' b ↔ Equates cfg tags .ne L T R T' (!b)
  places : ∀ b, Equates cfg tags .eq L T R T' b → (b = true ↔ L.place = R.place)
  /-- and so not what is known of where they came from -/
  provenance : ∀ L' R' b, L.place = L'.place → R.place = R'.place →
    (Equates cfg tags .eq L T R T' b ↔ Equates cfg tags .eq L' T R' T' b)
  refl : Equates cfg tags .eq L T L T true
  symm : ∀ b, Equates cfg tags .eq L T R T' b ↔ Equates cfg tags .eq R T' L T b
  trans : ∀ S U b, Equates cfg tags .eq L T R T' true → Equates cfg tags .eq R T' S U true →
    Equates cfg tags .eq L T S U b → b = true
  ordered : L ≠ .NullPointer → R ≠ .NullPointer → sameBase L R = true → CompatibleRelationalTypes cfg tags T T' →
    ∃ o : Ordering, (∀ b, Orders cfg tags .lt L T R T' b ↔ b = (o == .lt)) ∧
      (∀ b, Equates cfg tags .eq L T R T' b ↔ b = (o == .eq)) ∧
      (∀ b, Orders cfg tags .gt L T R T' b ↔ b = (o == .gt)) ∧
      (∀ b, Orders cfg tags .le L T R T' b ↔ Orders cfg tags .gt L T R T' (!b)) ∧
      ∀ b, Orders cfg tags .ge L T R T' b ↔ Orders cfg tags .lt L T R T' (!b)
  reported : L = .NullPointer ∨ R = .NullPointer ∨ sameBase L R = false → ∀ op,
    (∃ r, OrderedRule cfg tags op (.loc L) T (.loc R) T' r) ∧
      ∀ r, OrderedRule cfg tags op (.loc L) T (.loc R) T' r → ∃ e, r = .error e

section Claim

variable (cfg : Settings) (tags : Tags) (L R : SymLoc) (m m' : Mods) (E E' : CType)

/-- **Pointer comparison** is consistent, but for two objects behind pointers to one type with different
    qualifiers: an ordered comparison of these is not reported. -/
theorem pointersCompare_iff :
    PointersCompare cfg tags L (pointerUType m E) R (pointerUType m' E') ↔
      (L ≠ .NullPointer → R ≠ .NullPointer → sameBase L R = false →
        CompatibleRelationalTypes cfg tags (pointerUType m E) (pointerUType m' E') →
        EqType cfg tags (pointerUType m E) (pointerUType m' E') true) := by
  constructor
  · intro h hL hR hbase
    exact (exists_orderedRule_iff hL hR hbase rfl).mp (h.reported (.inr (.inr hbase)) .lt).1
  · intro hcond
    constructor
    · intro b
      rw [equates_iff, equates_iff]
      cases b <;> simp [EqualityOp.truth]
    · intro b h
      obtain ⟨-, rfl⟩ := equates_iff.mp h
      exact decide_eq_true_iff
    · intro L' R' b hL hR
      rw [equates_iff, equates_iff, hL, hR]
      exact and_congr_left' ⟨fun h => h.of_place hL hR, fun h => h.of_place hL.symm hR.symm⟩
    · rw [equates_iff]
      exact ⟨.inr (.inr (.pointers (decides_self [] _))), by simp [EqualityOp.truth]⟩
    · intro b
      rw [equates_iff, equates_iff, decide_eq_decide.mpr (eq_comm (a := L.place) (b := R.place))]
      exact and_congr_left' ⟨.symm, .symm⟩
    · intro S U b h h' h''
      rw [equates_iff] at h h' h''
      have hLR := of_decide_eq_true h.2.symm
      have hRS := of_decide_eq_true h'.2.symm
      exact h''.2.trans (decide_eq_true (hLR.trans hRS))
    · intro hL hR hbase htypes
      obtain ⟨o, ho⟩ := exists_offset hL
      obtain ⟨o', ho'⟩ := exists_offset hR
      have horders : ∀ op b, Orders cfg tags op L (pointerUType m E) R (pointerUType m' E') b ↔ b = op.compare o o' :=
        fun _ _ => orders_iff hL hR hbase htypes ho ho'
      have hcomp : Comparable cfg tags L (pointerUType m E) R (pointerUType m' E') := by
        refine .inr (.inr ?_)
        generalize hT : pointerUType m E = T at htypes
        cases htypes with
        | arithmetic h _ =>
          subst hT
          rcases h with h | h <;> cases h
        | pointers heq _ =>
          injection hT with _ hT
          injection hT with hT
          injection hT with hT
          subst hT
          exact .pointers heq
      refine ⟨compare o o', ?_, ?_, ?_, ?_, ?_⟩
      · intro b
        rw [horders, beq_lt_compare]
        rfl
      · intro b
        rw [equates_iff, beq_eq_compare, and_iff_right hcomp]
        simp only [place_eq_of_sameBase hL hR hbase ho ho']
        rfl
      · intro b
        rw [horders, beq_gt_compare]
        rfl
      · intro b
        rw [horders, horders]
        cases b <;> simp [OrderOp.compare]
      · intro b
        rw [horders, horders]
        cases b <;> simp [OrderOp.compare]
    · intro hout op
      refine ⟨?_, fun r h => orderedRule_error hout h⟩
      by_cases hL : L = .NullPointer
      · exact ⟨_, .null (.inl hL)⟩
      · by_cases hR : R = .NullPointer
        · exact ⟨_, .null (.inr hR)⟩
        · have hbase : sameBase L R = false := by
            rcases hout with h | h | h
            · exact absurd h hL
            · exact absurd h hR
            · exact h
          exact (exists_orderedRule_iff hL hR hbase rfl).mpr (hcond hL hR hbase)

end Claim

/-- `const char` -/
private def constChar : CType := .t ⟨true, false, false, false⟩ noMods (.nonArray (.basic (.integer .char)))

/-- **Not reported**: a `const char *` and a `char *` into two objects. -/
theorem constChar_not_pointersCompare :
    ¬PointersCompare x86GccLimitedLibc [] (.loc (obj 0 1 (.auto 0)) 0) (pointerUType noMods constChar)
      (.loc (obj 1 1 (.auto 0)) 0) (pointerUType noMods (type charUType)) := by
  intro h
  have hbase : sameBase (.loc (obj 0 1 (.auto 0)) 0) (.loc (obj 1 1 (.auto 0)) 0) = false := by decide
  have hreported := (h.reported (.inr (.inr hbase)) .lt).1
  rw [exists_orderedRule_iff (fun h => by cases h) (fun h => by cases h) hbase rfl] at hreported
  have heq := hreported (.pointers (decides_self [] _) rfl)
  have hne : EqType x86GccLimitedLibc [] (pointerUType noMods constChar) (pointerUType noMods (type charUType)) false :=
    ⟨2, by decide +kernel⟩
  exact absurd (heq.unique hne) (by decide)

end CSemantics
