/-
  The common type of two operands.

  6.3.1.8 of the standard names a common type for any two arithmetic types.  `CommonType` is that text: the
  floating types in their order, and for integers what the promoted types are, an enumeration being the
  integer type it is compatible with.  The rules of `usualArithmeticConversion` are measured against it.

      promotionSound              promotions: one type, that holds the values, once and for all
      auxRule_integers_iff        two integer types: one rule, whatever the order
      usualConversionSound_iff    which two arithmetic types have a common type by the rules
-/
import CSemantics.UsualConversion

namespace CSemantics

open ConjSearch

/-! ## Arithmetic types -/

/-- **An arithmetic type**: an integer type, a bit-field no wider than its type, a complete enumeration, or a
    floating type. -/
inductive IsArithmetic (cfg : Settings) (tags : Tags) : UType → Prop
  | integer (m : Mods) (i : IntType) : IsArithmetic cfg tags (integerUType m i)
  | bitfield (m : Mods) (i : IntType) (n : ℕ) (hpos : 0 < n) (hle : n ≤ numBits cfg i) :
    IsArithmetic cfg tags (bitfieldUType m i n)
  | enumeration (m : Mods) (s : TagId) (i : IntType) (h : getTagInfo tags s = .enumInfo i) :
    IsArithmetic cfg tags (enumUType m s)
  | floating (m : Mods) (f : FloatType) : IsArithmetic cfg tags (floatUType m f)

/-- `T` is an integer type of greater rank than `int`. -/
def IsWide (tags : Tags) (T : UType) : Prop := ∃ r, rank tags T = .ok r ∧ r > IntType.int.rank

/-- Every value of `T'` is a value of `T`. -/
def HoldsValues (cfg : Settings) (tags : Tags) (T T' : UType) : Prop :=
  ∃ lo hi lo' hi', T.min cfg tags = .ok lo ∧ T.max cfg tags = .ok hi ∧ T'.min cfg tags = .ok lo' ∧
    T'.max cfg tags = .ok hi' ∧ lo ≤ lo' ∧ hi' ≤ hi

/-! ## The standard's common type -/

/-- The values of `i'` are values of `i`. -/
def IntType.Holds (cfg : Settings) (i i' : IntType) : Prop :=
  shapeMin (numBits cfg i) i.isSigned ≤ shapeMin (numBits cfg i') i'.isSigned ∧
    shapeMax (numBits cfg i') i'.isSigned ≤ shapeMax (numBits cfg i) i.isSigned

instance (cfg : Settings) (i i' : IntType) : Decidable (i.Holds cfg i') := inferInstanceAs (Decidable (_ ∧ _))

/-- **The common type** of a signed and an unsigned integer type. -/
def commonWithUnsigned (cfg : Settings) (g u : IntType) : IntType :=
  if u.rank ≥ g.rank then u else if g.Holds cfg u then g else flipSignedness g

/-- **The common type** of two promoted integer types. -/
def commonIntType (cfg : Settings) (i i' : IntType) : IntType :=
  if areIntsCompat i i' then i
  else if i.isSigned = i'.isSigned then if i.rank ≥ i'.rank then i else i'
  else if i.isSigned then commonWithUnsigned cfg i i' else commonWithUnsigned cfg i' i

/-- The integer type that `T` is compatible with. -/
def IsCompatibleInteger (tags : Tags) (T : UType) (i : IntType) : Prop :=
  (∃ m, T = integerUType m i) ∨ ∃ m s, T = enumUType m s ∧ getTagInfo tags s = .enumInfo i

/-- **6.3.1.8**: `R` is the common type of `T` and `T'`. -/
inductive CommonType (cfg : Settings) (tags : Tags) (T T' R : UType) : Prop
  | longDouble (h : T.isFloatType .longDouble = true ∨ T'.isFloatType .longDouble = true)
    (hR : R.isFloatType .longDouble = true)
  | double (h : T.isFloatType .double = true ∨ T'.isFloatType .double = true)
    (h1 : ¬(T.isFloatType .longDouble = true ∨ T'.isFloatType .longDouble = true)) (hR : R.isFloatType .double = true)
  | float (h : T.isFloatType .float = true ∨ T'.isFloatType .float = true)
    (h1 : ¬(T.isFloatType .longDouble = true ∨ T'.isFloatType .longDouble = true))
    (h2 : ¬(T.isFloatType .double = true ∨ T'.isFloatType .double = true)) (hR : R.isFloatType .float = true)
  | sameType {P P'} (hP : PromoteRule cfg tags T P) (hP' : PromoteRule cfg tags T' P') (heq : EqType cfg tags P P' true)
    (hR : EqType cfg tags R P true)
  | integers {P P' i i'} (hP : PromoteRule cfg tags T P) (hP' : PromoteRule cfg tags T' P')
    (hi : IsCompatibleInteger tags P i) (hi' : IsCompatibleInteger tags P' i') (heq : EqType cfg tags P P' false)
    (hR : EqType cfg tags R (integerUType noMods (commonIntType cfg i i')) true)

/-! ## What the claims about them are -/

/-- **Promotion** of `T` gives one type, which holds the values of `T` or is `unsigned int` when `int` does not, and
    which is promoted and stays. -/
structure PromotionSound (cfg : Settings) (tags : Tags) (T : UType) : Prop where
  single : ∃ P, ∀ P', PromoteRule cfg tags T P' ↔ P' = P
  holds : ∀ P, PromoteRule cfg tags T P → HoldsValues cfg tags P T ∨ (P = unsignedUType ∧ ¬HoldsValues cfg tags intUType T)
  unsigned : ∀ P, PromoteRule cfg tags T P → ¬IsWide tags T → (P = unsignedUType ↔ ¬HoldsValues cfg tags intUType T)
  stays : ∀ P, PromoteRule cfg tags T P → ∀ P', PromoteRule cfg tags P P' ↔ P' = P
  isPromoted : ∀ P, PromoteRule cfg tags T P → P.isPromoted = true

/-- **The usual arithmetic conversions** of `T` and `T'` give one type, whatever the order, that is no bit-field and is
    the common type. -/
structure UsualConversionSound (cfg : Settings) (tags : Tags) (T T' : UType) : Prop where
  defined : ∃ R, UsualArithmeticConversion cfg tags T T' R
  single : ∀ R R', UsualArithmeticConversion cfg tags T T' R → UsualArithmeticConversion cfg tags T T' R' → R = R'
  comm : ∀ R R', UsualArithmeticConversion cfg tags T T' R → UsualArithmeticConversion cfg tags T' T R' →
    EqType cfg tags R R' true
  notBitfield : ∀ R, UsualArithmeticConversion cfg tags T T' R → ∀ m i n, R ≠ bitfieldUType m i n
  common : ∀ R, UsualArithmeticConversion cfg tags T T' R → CommonType cfg tags T T' R

/-! ## Promotion -/

/-- More bits hold more. -/
theorem shape_mono {w w' : ℕ} (h : w' ≤ w) (s : Bool) :
    shapeMin w s ≤ shapeMin w' s ∧ shapeMax w' s ≤ shapeMax w s := by
  cases s with
  | false =>
    have hpow : (2 : Int) ^ w' ≤ 2 ^ w := pow_le_pow_right₀ (by decide) h
    refine ⟨le_refl _, ?_⟩
    show (2 : Int) ^ w' - 1 ≤ 2 ^ w - 1
    omega
  | true =>
    have hpow : (2 : Int) ^ (w' - 1) ≤ 2 ^ (w - 1) := pow_le_pow_right₀ (by decide) (by omega)
    constructor
    · show -(2 : Int) ^ (w - 1) ≤ -2 ^ (w' - 1)
      omega
    · show (2 : Int) ^ (w' - 1) - 1 ≤ 2 ^ (w - 1) - 1
      omega

section Promotion

variable {cfg : Settings} {tags : Tags} {T P : UType} {w : ℕ} {s : Bool}

theorem intShape_intUType : IntShape cfg tags intUType (numBits cfg .int) true := intShape_integer noMods .int

theorem holdsValues_iff {T' : UType} {w' : ℕ} {s' : Bool} (hT : IntShape cfg tags T w s) (hT' : IntShape cfg tags T' w' s') :
    HoldsValues cfg tags T T' ↔ shapeMin w s ≤ shapeMin w' s' ∧ shapeMax w' s' ≤ shapeMax w s := by
  constructor
  · rintro ⟨lo, hi, lo', hi', hlo, hhi, hlo', hhi', hmin, hmax⟩
    rw [hT.min] at hlo
    rw [hT.max] at hhi
    rw [hT'.min] at hlo'
    rw [hT'.max] at hhi'
    cases hlo
    cases hhi
    cases hlo'
    cases hhi'
    exact ⟨hmin, hmax⟩
  · rintro ⟨hmin, hmax⟩
    exact ⟨_, _, _, _, hT.min, hT.max, hT'.min, hT'.max, hmin, hmax⟩

theorem fitsInt_iff (hT : IntShape cfg tags T w s) {b : Bool} :
    fitsInt cfg tags T = .ok b ↔ (b = true ↔ HoldsValues cfg tags intUType T) := by
  have hint := @intShape_intUType cfg tags
  have hfits : fitsInt cfg tags T = .ok (decide (shapeMin (numBits cfg .int) true ≤ shapeMin w s) &&
      decide (shapeMax (numBits cfg .int) true ≥ shapeMax w s)) := by
    rw [fitsInt, hint.min, hint.max, hT.min, hT.max]
    rfl
  rw [holdsValues_iff hint hT, hfits, Except.ok.injEq, eq_comm, Bool.eq_iff_iff, Bool.and_eq_true, decide_eq_true_iff,
    decide_eq_true_iff]

/-! ### Which rule applies -/

theorem rank_unique {r r' : ℕ} (h : rank tags T = .ok r) (h' : rank tags T = .ok r') : r = r' := by
  rw [h] at h'
  exact Except.ok.inj h'

theorem rank_le_of_isBitfieldBase : ∀ i : IntType, i.isBitfieldBase = true → i.rank ≤ IntType.int.rank := by
  intro i
  cases i <;> decide

/-- A rule for bit-fields is a rule for types of small rank. -/
theorem promoteRule_cases (h : PromoteRule cfg tags T P) :
    (∃ r, rank tags T = .ok r ∧ r ≤ IntType.int.rank ∧ fitsInt cfg tags T = .ok true ∧ P = intUType) ∨
    (∃ r, rank tags T = .ok r ∧ r ≤ IntType.int.rank ∧ fitsInt cfg tags T = .ok false ∧ P = unsignedUType) ∨
    (∃ r, rank tags T = .ok r ∧ r > IntType.int.rank ∧ P = stripBitfield T) := by
  cases h with
  | int hr hle hfits => exact .inl ⟨_, hr, hle, hfits, rfl⟩
  | greater hr hgt => exact .inr (.inr ⟨_, hr, hgt, rfl⟩)
  | bitfieldInt hi hfits => exact .inl ⟨_, rfl, rank_le_of_isBitfieldBase _ hi, hfits, rfl⟩
  | unsigned hr hle hfits => exact .inr (.inl ⟨_, hr, hle, hfits, rfl⟩)
  | bitfieldUnsigned hi hfits => exact .inr (.inl ⟨_, rfl, rank_le_of_isBitfieldBase _ hi, hfits, rfl⟩)

/-- **One rule decides.** -/
theorem promoteRule_iff (hT : IntShape cfg tags T w s) {r : ℕ} (hr : rank tags T = .ok r) :
    PromoteRule cfg tags T P ↔
      (¬IsWide tags T ∧ HoldsValues cfg tags intUType T ∧ P = intUType) ∨
      (¬IsWide tags T ∧ ¬HoldsValues cfg tags intUType T ∧ P = unsignedUType) ∨
      (IsWide tags T ∧ P = stripBitfield T) := by
  have hwide : IsWide tags T ↔ r > IntType.int.rank := by
    constructor
    · rintro ⟨r', hr', hgt⟩
      rwa [rank_unique hr hr']
    · exact fun hgt => ⟨r, hr, hgt⟩
  have hfits := fun b => fitsInt_iff (b := b) hT
  rw [hwide]
  constructor
  · intro h
    rcases promoteRule_cases h with ⟨r', hr', hle, hf, rfl⟩ | ⟨r', hr', hle, hf, rfl⟩ | ⟨r', hr', hgt, rfl⟩
    · obtain rfl := rank_unique hr hr'
      exact .inl ⟨not_lt.mpr hle, ((hfits true).mp hf).mp rfl, rfl⟩
    · obtain rfl := rank_unique hr hr'
      refine .inr (.inl ⟨not_lt.mpr hle, fun hholds => ?_, rfl⟩)
      exact absurd (((hfits false).mp hf).mpr hholds) (by decide)
    · obtain rfl := rank_unique hr hr'
      exact .inr (.inr ⟨hgt, rfl⟩)
  · rintro (⟨hle, hholds, rfl⟩ | ⟨hle, hholds, rfl⟩ | ⟨hgt, rfl⟩)
    · exact .int hr (not_lt.mp hle) ((hfits true).mpr ⟨fun _ => hholds, fun _ => rfl⟩)
    · refine .unsigned hr (not_lt.mp hle) ((hfits false).mpr ⟨fun h => ?_, fun h => absurd h hholds⟩)
      cases h
    · exact .greater hr hgt

end Promotion

/-! ### Arithmetic types, one by one -/

section Arithmetic

variable {cfg : Settings} {tags : Tags} {T P : UType}

/-- An integer type has a shape and a rank. -/
theorem IsArithmetic.shape (h : IsArithmetic cfg tags T) (hfloat : T.isFloat = false) :
    (∃ w s, IntShape cfg tags T w s) ∧ ∃ r, rank tags T = .ok r := by
  cases h with
  | integer m i => exact ⟨⟨_, _, intShape_integer m i⟩, _, rfl⟩
  | bitfield m i n hpos _ => exact ⟨⟨_, _, intShape_bitfield m i n hpos⟩, _, rfl⟩
  | enumeration m s i h =>
    refine ⟨⟨_, _, intShape_enum m s i h⟩, i.rank, ?_⟩
    show (do return (← getEnumAlias tags s).rank : Eval ℕ) = .ok i.rank
    rw [getEnumAlias, h]
    rfl
  | floating m f => cases hfloat

theorem isPromoted_of_rank : ∀ i : IntType, i.rank > IntType.int.rank → i.isPromoted = true := by
  intro i
  cases i <;> decide

/-- A wide type without its width as a bit-field is promoted, wide, and holds the values of the type. -/
theorem IsWide.stripBitfield (h : IsArithmetic cfg tags T) (hwide : IsWide tags T) :
    IsArithmetic cfg tags (stripBitfield T) ∧ (stripBitfield T).isFloat = false ∧ IsWide tags (stripBitfield T) ∧
      (stripBitfield T).isPromoted = true ∧ CSemantics.stripBitfield (stripBitfield T) = stripBitfield T ∧
      HoldsValues cfg tags (stripBitfield T) T := by
  obtain ⟨r, hr, hgt⟩ := hwide
  cases h with
  | integer m i =>
    cases hr
    have hshape := @intShape_integer cfg tags m i
    exact ⟨.integer m i, rfl, ⟨_, rfl, hgt⟩, isPromoted_of_rank i hgt, rfl,
      (holdsValues_iff hshape hshape).mpr ⟨le_refl _, le_refl _⟩⟩
  | bitfield m i n hpos hle =>
    cases hr
    refine ⟨.integer noMods i, rfl, ⟨_, rfl, hgt⟩, isPromoted_of_rank i hgt, rfl, ?_⟩
    refine (holdsValues_iff (@intShape_integer cfg tags noMods i) (@intShape_bitfield cfg tags m i n hpos)).mpr ?_
    exact shape_mono hle i.isSigned
  | enumeration m s i h =>
    have hshape := @intShape_enum cfg tags m s i h
    exact ⟨.enumeration m s i h, rfl, ⟨r, hr, hgt⟩, rfl, rfl,
      (holdsValues_iff hshape hshape).mpr ⟨le_refl _, le_refl _⟩⟩
  | floating m f => cases hr

theorem int_ne_unsigned : intUType ≠ unsignedUType := by
  simp [intUType, unsignedUType, integerUType]

/-- `int` promotes to itself. -/
theorem promoteRule_int : PromoteRule cfg tags intUType P ↔ P = intUType := by
  have hshape := @intShape_intUType cfg tags
  have hholds : HoldsValues cfg tags intUType intUType := (holdsValues_iff hshape hshape).mpr ⟨le_refl _, le_refl _⟩
  have hwide : ¬IsWide tags intUType := by
    rintro ⟨r, hr, hgt⟩
    cases hr
    exact lt_irrefl _ hgt
  rw [promoteRule_iff hshape rfl]
  simp only [hholds, hwide, not_true_eq_false, not_false_eq_true, true_and, false_and, or_false]

/-- `unsigned int` promotes to itself: `int` is as wide, and has a sign. -/
theorem promoteRule_unsigned : PromoteRule cfg tags unsignedUType P ↔ P = unsignedUType := by
  have hshape : IntShape cfg tags unsignedUType (numBits cfg .unsignedInt) false := intShape_integer noMods .unsignedInt
  have hholds : ¬HoldsValues cfg tags intUType unsignedUType := by
    rw [holdsValues_iff intShape_intUType hshape]
    rintro ⟨-, hmax⟩
    have hspan := shapeMax_sub_shapeMin hshape.pos true
    have hmin := shapeMin_true_lt (numBits cfg .unsignedInt)
    have hunsigned : shapeMax (numBits cfg .unsignedInt) false = 2 ^ numBits cfg .unsignedInt - 1 := rfl
    have hsame : numBits cfg .int = numBits cfg .unsignedInt := rfl
    rw [hsame] at hmax
    omega
  have hwide : ¬IsWide tags unsignedUType := by
    rintro ⟨r, hr, hgt⟩
    cases hr
    exact lt_irrefl _ hgt
  rw [promoteRule_iff hshape rfl]
  simp only [hholds, hwide, not_false_eq_true, true_and, false_and, or_false, false_or]

/-- **What promotion makes** of an arithmetic type that is not floating. -/
theorem IsArithmetic.promoted (h : IsArithmetic cfg tags T) (hfloat : T.isFloat = false) :
    (¬IsWide tags T ∧ HoldsValues cfg tags intUType T ∧ ∀ P, PromoteRule cfg tags T P ↔ P = intUType) ∨
      (¬IsWide tags T ∧ ¬HoldsValues cfg tags intUType T ∧ ∀ P, PromoteRule cfg tags T P ↔ P = unsignedUType) ∨
      (IsWide tags T ∧ ∀ P, PromoteRule cfg tags T P ↔ P = stripBitfield T) := by
  obtain ⟨⟨w, s, hshape⟩, r, hr⟩ := h.shape hfloat
  by_cases hwide : IsWide tags T
  · refine .inr (.inr ⟨hwide, fun P => ?_⟩)
    rw [promoteRule_iff hshape hr]
    simp only [hwide, not_true_eq_false, true_and, false_and, false_or]
  · by_cases hholds : HoldsValues cfg tags intUType T
    · refine .inl ⟨hwide, hholds, fun P => ?_⟩
      rw [promoteRule_iff hshape hr]
      simp only [hwide, hholds, not_true_eq_false, not_false_eq_true, true_and, false_and, or_false]
    · refine .inr (.inl ⟨hwide, hholds, fun P => ?_⟩)
      rw [promoteRule_iff hshape hr]
      simp only [hwide, hholds, not_false_eq_true, true_and, false_and, or_false, false_or]

/-- **Promotion is sound** for all arithmetic types that are promoted. -/
theorem promotionSound (h : IsArithmetic cfg tags T) (hfloat : T.isFloat = false) : PromotionSound cfg tags T := by
  rcases h.promoted hfloat with ⟨hwide, hholds, hP⟩ | ⟨hwide, hholds, hP⟩ | ⟨hwide, hP⟩
  · constructor
    · exact ⟨_, hP⟩
    · intro P h
      obtain rfl := (hP P).mp h
      exact .inl hholds
    · intro P h _
      obtain rfl := (hP P).mp h
      exact ⟨fun heq => absurd heq int_ne_unsigned, fun hnot => absurd hholds hnot⟩
    · intro P h P'
      obtain rfl := (hP P).mp h
      exact promoteRule_int
    · intro P h
      obtain rfl := (hP P).mp h
      rfl
  · constructor
    · exact ⟨_, hP⟩
    · intro P h
      exact .inr ⟨(hP P).mp h, hholds⟩
    · intro P h _
      exact ⟨fun _ => hholds, fun _ => (hP P).mp h⟩
    · intro P h P'
      obtain rfl := (hP P).mp h
      exact promoteRule_unsigned
    · intro P h
      obtain rfl := (hP P).mp h
      rfl
  · obtain ⟨harith, hfloat', hwide', hpromoted, hsame, hholds⟩ := hwide.stripBitfield h
    constructor
    · exact ⟨_, hP⟩
    · intro P h
      obtain rfl := (hP P).mp h
      exact .inl hholds
    · intro P _ hnot
      exact absurd hwide hnot
    · intro P h P'
      obtain rfl := (hP P).mp h
      rcases harith.promoted hfloat' with ⟨hnot, -, -⟩ | ⟨hnot, -, -⟩ | ⟨-, hP'⟩
      · exact absurd hwide' hnot
      · exact absurd hwide' hnot
      · rw [hP', hsame]
    · intro P h
      obtain rfl := (hP P).mp h
      exact hpromoted

end Arithmetic

/-! ## Two integer types -/

section Integers

variable {cfg : Settings} {tags : Tags} {m m' : Mods} {i i' : IntType} {b : Bool} {R : UType}

/-- Types that are neither arrays nor made of others are compared at once. -/
theorem eqType_iff_of_onlyIf {n n' : SimpleNonArrayType} {c : Bool} (hq : nonArrayQueries cfg tags [] m m' n n' = onlyIf c) :
    EqType cfg tags (.ut m (.nonArray n)) (.ut m' (.nonArray n')) b ↔ b = c := by
  have hexpand : compatQueries cfg tags ⟨[], type (.ut m (.nonArray n)), type (.ut m' (.nonArray n'))⟩ = onlyIf c := by
    rw [← hq]
    rfl
  have hdecides : EqType cfg tags (.ut m (.nonArray n)) (.ut m' (.nonArray n')) c := by
    refine ⟨1, ?_⟩
    rw [run, hexpand]
    cases c <;> rfl
  exact ⟨fun h => Decides.unique h hdecides, fun h => h ▸ hdecides⟩

theorem eqType_integer_iff : EqType cfg tags (integerUType m i) (integerUType m' i') b ↔ b = areIntsCompat i i' :=
  eqType_iff_of_onlyIf rfl

theorem eqType_enum_integer_iff {s : TagId} :
    EqType cfg tags (enumUType m s) (integerUType m' i) b ↔ b = isEnumAlias tags s i :=
  eqType_iff_of_onlyIf rfl

theorem eqType_enum_iff {s s' : TagId} :
    EqType cfg tags (enumUType m s) (enumUType m' s') b ↔ b = areTagsCompat s.name s'.name :=
  eqType_iff_of_onlyIf rfl

/-- Promoted types of one sign and one rank are the same. -/
theorem rank_ne_of_not_areIntsCompat : ∀ i i' : IntType, i.isPromoted = true → i'.isPromoted = true →
    i.isSigned = i'.isSigned → areIntsCompat i i' = false → i.rank ≠ i'.rank := by
  intro i i'
  cases i <;> cases i' <;> decide

theorem isSigned_eq_of_areIntsCompat : ∀ i i' : IntType, areIntsCompat i i' = true → i.isSigned = i'.isSigned := by
  intro i i'
  cases i <;> cases i' <;> decide

/-- **The common type does not depend on the order.** -/
theorem commonIntType_comm (hi : i.isPromoted = true) (hi' : i'.isPromoted = true) :
    areIntsCompat (commonIntType cfg i i') (commonIntType cfg i' i) = true := by
  unfold commonIntType
  rw [areIntsCompat_comm i' i]
  cases hc : areIntsCompat i i' with
  | true => simpa using hc
  | false =>
    by_cases hs : i.isSigned = i'.isSigned
    · have hne := rank_ne_of_not_areIntsCompat i i' hi hi' hs hc
      have hlt : i.rank ≥ i'.rank ↔ ¬i'.rank ≥ i.rank := by omega
      by_cases hge : i'.rank ≥ i.rank
      · simp [hs, hlt, hge, areIntsCompat_self]
      · simp [hs, hlt.mpr hge, hge, areIntsCompat_self]
    · have hs' : ¬i'.isSigned = i.isSigned := fun h => hs h.symm
      cases h : i.isSigned <;> cases h' : i'.isSigned <;> simp_all [areIntsCompat_self]

/-- A signed and an unsigned type: what applies to `g` and `u`, with `u` on either side. -/
theorem commonWithUnsigned_cases (g u : IntType) :
    (u.rank ≥ g.rank ∧ commonWithUnsigned cfg g u = u) ∨
      (u.rank < g.rank ∧ g.Holds cfg u ∧ commonWithUnsigned cfg g u = g) ∨
      (u.rank < g.rank ∧ ¬g.Holds cfg u ∧ commonWithUnsigned cfg g u = flipSignedness g) := by
  rw [commonWithUnsigned]
  by_cases hge : u.rank ≥ g.rank
  · exact .inl ⟨hge, if_pos hge⟩
  · rw [if_neg hge]
    by_cases hholds : g.Holds cfg u
    · exact .inr (.inl ⟨not_le.mp hge, hholds, if_pos hholds⟩)
    · exact .inr (.inr ⟨not_le.mp hge, hholds, if_neg hholds⟩)

theorem holds_iff_bounds {lo hi lo' hi' : Int} (hlo : (integerUType m i).min cfg tags = .ok lo)
    (hhi : (integerUType m i).max cfg tags = .ok hi) (hlo' : (integerUType m' i').min cfg tags = .ok lo')
    (hhi' : (integerUType m' i').max cfg tags = .ok hi') : i.Holds cfg i' ↔ lo ≤ lo' ∧ hi' ≤ hi := by
  have hshape := @intShape_integer cfg tags m i
  have hshape' := @intShape_integer cfg tags m' i'
  cases hshape.min.symm.trans hlo
  cases hshape.max.symm.trans hhi
  cases hshape'.min.symm.trans hlo'
  cases hshape'.max.symm.trans hhi'
  exact Iff.rfl

theorem correspondingUnsignedType_integer (h : i.isSigned = true) :
    correspondingUnsignedType tags (integerUType m i) = .ok (integerUType m (flipSignedness i)) := by
  rw [integerUType, correspondingUnsignedType, if_pos h]
  rfl

/-- **What the rules say** of two integer types. -/
theorem auxRule_integers_iff :
    AuxRule cfg tags (integerUType m i) (integerUType m' i') R ↔
      (areIntsCompat i i' = true ∧ R = stripConstants (integerUType m i)) ∨
      (areIntsCompat i i' = false ∧ i.isSigned = i'.isSigned ∧
        ((i.rank ≥ i'.rank ∧ R = integerUType m i) ∨ (i'.rank ≥ i.rank ∧ R = integerUType m' i'))) ∨
      (i.isSigned = true ∧ i'.isSigned = false ∧
        ((i'.rank ≥ i.rank ∧ R = integerUType m' i') ∨ (i'.rank < i.rank ∧ i.Holds cfg i' ∧ R = integerUType m i) ∨
          (i'.rank < i.rank ∧ ¬i.Holds cfg i' ∧ R = integerUType m (flipSignedness i)))) ∨
      (i.isSigned = false ∧ i'.isSigned = true ∧
        ((i.rank ≥ i'.rank ∧ R = integerUType m i) ∨ (i.rank < i'.rank ∧ i'.Holds cfg i ∧ R = integerUType m' i') ∨
          (i.rank < i'.rank ∧ ¬i'.Holds cfg i ∧ R = integerUType m' (flipSignedness i')))) := by
  have hsigned : ∀ m i, (integerUType m i).isSignedInteger = i.isSigned := fun _ _ => rfl
  have hunsigned : ∀ m i, (integerUType m i).isUnsignedInteger = !i.isSigned := fun _ _ => rfl
  have hrank : ∀ m i, rank tags (integerUType m i) = .ok i.rank := fun _ _ => rfl
  have hsame : hasSameSignedness (integerUType m i) (integerUType m' i') = true ↔ i.isSigned = i'.isSigned := by
    rw [hasSameSignedness, hsigned, hsigned, hunsigned, hunsigned]
    cases i.isSigned <;> cases i'.isSigned <;> decide
  constructor
  · intro h
    cases h with
    | same heq => exact .inl ⟨(eqType_integer_iff.mp heq).symm, rfl⟩
    | maxLeft hne hs hr hr' hge =>
      cases hr
      cases hr'
      exact .inr (.inl ⟨(eqType_integer_iff.mp hne).symm, hsame.mp hs, .inl ⟨hge, rfl⟩⟩)
    | maxRight hne hs hr hr' hge =>
      cases hr
      cases hr'
      exact .inr (.inl ⟨(eqType_integer_iff.mp hne).symm, hsame.mp hs, .inr ⟨hge, rfl⟩⟩)
    | unsignedRight hs hu hr hr' hge =>
      cases hr
      cases hr'
      exact .inr (.inr (.inl ⟨hs, by simpa [hunsigned] using hu, .inl ⟨hge, rfl⟩⟩))
    | unsignedLeft hu hs hr hr' hge =>
      cases hr
      cases hr'
      exact .inr (.inr (.inr ⟨by simpa [hunsigned] using hu, hs, .inl ⟨hge, rfl⟩⟩))
    | signedLeft hs hu hr hr' hlt hlo hlo' hhi hhi' hle hge =>
      cases hr
      cases hr'
      have hholds := (holds_iff_bounds hlo hhi hlo' hhi').mpr ⟨hle, hge⟩
      exact .inr (.inr (.inl ⟨hs, by simpa [hunsigned] using hu, .inr (.inl ⟨hlt, hholds, rfl⟩)⟩))
    | signedRight hu hs hr hr' hlt hlo hlo' hhi hhi' hle hge =>
      cases hr
      cases hr'
      have hholds := (holds_iff_bounds hlo' hhi' hlo hhi).mpr ⟨hle, hge⟩
      exact .inr (.inr (.inr ⟨by simpa [hunsigned] using hu, hs, .inr (.inl ⟨hlt, hholds, rfl⟩)⟩))
    | correspondingLeft hs hu hr hr' hlt hlo hlo' hhi hhi' hout hU =>
      cases hr
      cases hr'
      have hnot : ¬i.Holds cfg i' := by
        rw [holds_iff_bounds hlo hhi hlo' hhi']
        omega
      rw [correspondingUnsignedType_integer hs] at hU
      cases hU
      exact .inr (.inr (.inl ⟨hs, by simpa [hunsigned] using hu, .inr (.inr ⟨hlt, hnot, rfl⟩)⟩))
    | correspondingRight hu hs hr hr' hlt hlo hlo' hhi hhi' hout hU =>
      cases hr
      cases hr'
      have hnot : ¬i'.Holds cfg i := by
        rw [holds_iff_bounds hlo' hhi' hlo hhi]
        omega
      rw [correspondingUnsignedType_integer hs] at hU
      cases hU
      exact .inr (.inr (.inr ⟨by simpa [hunsigned] using hu, hs, .inr (.inr ⟨hlt, hnot, rfl⟩)⟩))
  · have hshape := @intShape_integer cfg tags m i
    have hshape' := @intShape_integer cfg tags m' i'
    have hnotHolds : ∀ {g u : IntType}, ¬g.Holds cfg u →
        shapeMin (numBits cfg g) g.isSigned > shapeMin (numBits cfg u) u.isSigned ∨
          shapeMax (numBits cfg g) g.isSigned < shapeMax (numBits cfg u) u.isSigned := by
      intro g u hnot
      rw [IntType.Holds] at hnot
      omega
    rintro (⟨hc, rfl⟩ | ⟨hc, hs, ⟨hge, rfl⟩ | ⟨hge, rfl⟩⟩ | ⟨hs, hu, hcases⟩ | ⟨hu, hs, hcases⟩)
    · exact .same (eqType_integer_iff.mpr hc.symm)
    · exact .maxLeft (eqType_integer_iff.mpr hc.symm) (hsame.mpr hs) rfl rfl hge
    · exact .maxRight (eqType_integer_iff.mpr hc.symm) (hsame.mpr hs) rfl rfl hge
    · have hu' : (integerUType m' i').isUnsignedInteger = true := by rw [hunsigned, hu]; rfl
      rcases hcases with ⟨hge, rfl⟩ | ⟨hlt, hholds, rfl⟩ | ⟨hlt, hnot, rfl⟩
      · exact .unsignedRight hs hu' rfl rfl hge
      · exact .signedLeft hs hu' rfl rfl hlt hshape.min hshape'.min hshape.max hshape'.max hholds.1 hholds.2
      · exact .correspondingLeft hs hu' rfl rfl hlt hshape.min hshape'.min hshape.max hshape'.max (hnotHolds hnot)
          (correspondingUnsignedType_integer hs)
    · have hu' : (integerUType m i).isUnsignedInteger = true := by rw [hunsigned, hu]; rfl
      rcases hcases with ⟨hge, rfl⟩ | ⟨hlt, hholds, rfl⟩ | ⟨hlt, hnot, rfl⟩
      · exact .unsignedLeft hu' hs rfl rfl hge
      · exact .signedRight hu' hs rfl rfl hlt hshape.min hshape'.min hshape.max hshape'.max hholds.1 hholds.2
      · exact .correspondingRight hu' hs rfl rfl hlt hshape.min hshape'.min hshape.max hshape'.max (hnotHolds hnot)
          (correspondingUnsignedType_integer hs)

/-- **One rule decides** of two promoted integer types, and its result is the common type. -/
theorem auxRule_integers (hi : i.isPromoted = true) (hi' : i'.isPromoted = true) :
    ∃ m'', ∀ R, AuxRule cfg tags (integerUType m i) (integerUType m' i') R ↔
      R = integerUType m'' (commonIntType cfg i i') := by
  have hstrip : ∃ m'', stripConstants (integerUType m i) = integerUType m'' i := by
    cases m with
    | mods f fs => exact ⟨_, rfl⟩
  cases hc : areIntsCompat i i' with
  | true =>
    -- Compatible types have one sign, so that the first rule is alone.
    obtain ⟨m'', hm''⟩ := hstrip
    have hs := isSigned_eq_of_areIntsCompat i i' hc
    refine ⟨m'', fun R => ?_⟩
    rw [auxRule_integers_iff, commonIntType, if_pos hc, hm'', hc, hs]
    cases i'.isSigned <;> simp
  | false =>
    have hcommon : commonIntType cfg i i' = if i.isSigned = i'.isSigned then if i.rank ≥ i'.rank then i else i'
        else if i.isSigned then commonWithUnsigned cfg i i' else commonWithUnsigned cfg i' i := by
      rw [commonIntType, if_neg (by rw [hc]; exact Bool.false_ne_true)]
    by_cases hs : i.isSigned = i'.isSigned
    · rw [if_pos hs] at hcommon
      have hne := rank_ne_of_not_areIntsCompat i i' hi hi' hs hc
      by_cases hge : i.rank ≥ i'.rank
      · have hnot : ¬i'.rank ≥ i.rank := by omega
        refine ⟨m, fun R => ?_⟩
        rw [auxRule_integers_iff, hcommon, if_pos hge, hc, hs]
        cases i'.isSigned <;> simp [hge, hnot]
      · have hge' : i'.rank ≥ i.rank := by omega
        refine ⟨m', fun R => ?_⟩
        rw [auxRule_integers_iff, hcommon, if_neg hge, hc, hs]
        cases i'.isSigned <;> simp [hge, hge']
    · rw [if_neg hs] at hcommon
      cases hi : i.isSigned with
      | true =>
        have hi' : i'.isSigned = false := by simpa [hi] using hs
        rw [hi, if_pos rfl] at hcommon
        rcases @commonWithUnsigned_cases cfg i i' with ⟨hge, heq⟩ | ⟨hlt, hholds, heq⟩ | ⟨hlt, hholds, heq⟩
        · refine ⟨m', fun R => ?_⟩
          rw [auxRule_integers_iff, hcommon, heq, hc, hi, hi']
          simp [hge, not_lt.mpr hge]
        · refine ⟨m, fun R => ?_⟩
          rw [auxRule_integers_iff, hcommon, heq, hc, hi, hi']
          simp [hlt, hholds, not_le.mpr hlt]
        · refine ⟨m, fun R => ?_⟩
          rw [auxRule_integers_iff, hcommon, heq, hc, hi, hi']
          simp [hlt, hholds, not_le.mpr hlt]
      | false =>
        have hi' : i'.isSigned = true := by simpa [hi] using hs
        rw [hi, if_neg Bool.false_ne_true] at hcommon
        rcases @commonWithUnsigned_cases cfg i' i with ⟨hge, heq⟩ | ⟨hlt, hholds, heq⟩ | ⟨hlt, hholds, heq⟩
        · refine ⟨m, fun R => ?_⟩
          rw [auxRule_integers_iff, hcommon, heq, hc, hi, hi']
          simp [hge, not_lt.mpr hge]
        · refine ⟨m', fun R => ?_⟩
          rw [auxRule_integers_iff, hcommon, heq, hc, hi, hi']
          simp [hlt, hholds, not_le.mpr hlt]
        · refine ⟨m', fun R => ?_⟩
          rw [auxRule_integers_iff, hcommon, heq, hc, hi, hi']
          simp [hlt, hholds, not_le.mpr hlt]

end Integers



/-! ## Two promoted types -/

section Promoted

variable {cfg : Settings} {tags : Tags} {T T' P P' R : UType}

/-- An enumeration that promotion leaves. -/
def IsWideEnum (tags : Tags) (T : UType) : Prop := T.isEnum = true ∧ IsWide tags T

/-- What promotion makes. -/
inductive PromotedForm (tags : Tags) (T : UType) : UType → Prop
  | integer (m : Mods) (i : IntType) (hi : i.isPromoted = true) (hT : ¬IsWideEnum tags T)
    (hwide : IsWide tags T → integerUType m i = stripBitfield T) (hnarrow : ¬IsWide tags T → i.rank = IntType.int.rank) :
    PromotedForm tags T (integerUType m i)
  | enumeration (m : Mods) (s : TagId) (i : IntType) (hs : getTagInfo tags s = .enumInfo i) (hi : i.rank > IntType.int.rank)
    (hT : T = enumUType m s) : PromotedForm tags T (enumUType m s)

theorem IsArithmetic.promotedForm (h : IsArithmetic cfg tags T) (hfloat : T.isFloat = false) :
    ∃ P, PromotedForm tags T P ∧ ∀ P', PromoteRule cfg tags T P' ↔ P' = P := by
  rcases h.promoted hfloat with ⟨hwide, -, hP⟩ | ⟨hwide, -, hP⟩ | ⟨hwide, hP⟩
  · exact ⟨intUType, .integer noMods .int rfl (fun h => hwide h.2) (absurd · hwide) fun _ => rfl, hP⟩
  · exact ⟨unsignedUType, .integer noMods .unsignedInt rfl (fun h => hwide h.2) (absurd · hwide) fun _ => rfl, hP⟩
  · refine ⟨stripBitfield T, ?_, hP⟩
    obtain ⟨-, -, -, hpromoted, -, -⟩ := hwide.stripBitfield h
    cases h with
    | integer m i => exact .integer m i hpromoted (fun h => by cases h.1) (fun _ => rfl) (absurd hwide ·)
    | bitfield m i n _ _ => exact .integer noMods i hpromoted (fun h => by cases h.1) (fun _ => rfl) (absurd hwide ·)
    | enumeration m s i hs =>
      refine .enumeration m s i hs ?_ rfl
      obtain ⟨r, hr, hgt⟩ := hwide
      rw [enumUType, rank, getEnumAlias, hs] at hr
      cases hr
      exact hgt
    | floating m f => cases hfloat

/-- With an enumeration there is the rule for the same type only. -/
theorem auxRule_enum_iff (hT : T.isEnum = true ∨ T'.isEnum = true) :
    AuxRule cfg tags T T' R ↔ EqType cfg tags T T' true ∧ R = stripConstants T := by
  have hsign : ∀ T : UType, T.isEnum = true → T.isSignedInteger = false ∧ T.isUnsignedInteger = false := by
    intro T h
    unfold UType.isEnum at h
    split at h
    · exact ⟨rfl, rfl⟩
    · cases h
  have hnone : (T.isSignedInteger = false ∧ T.isUnsignedInteger = false) ∨
      (T'.isSignedInteger = false ∧ T'.isUnsignedInteger = false) := hT.imp (hsign T) (hsign T')
  constructor
  · intro h
    cases h with
    | same heq => exact ⟨heq, rfl⟩
    | maxLeft _ hs | maxRight _ hs =>
      rw [hasSameSignedness] at hs
      rcases hnone with ⟨h1, h2⟩ | ⟨h1, h2⟩ <;> simp [h1, h2] at hs
    | unsignedRight hs hu | signedLeft hs hu | correspondingLeft hs hu =>
      rcases hnone with ⟨h1, h2⟩ | ⟨h1, h2⟩ <;> simp_all
    | unsignedLeft hu hs | signedRight hu hs | correspondingRight hu hs =>
      rcases hnone with ⟨h1, h2⟩ | ⟨h1, h2⟩ <;> simp_all
  · rintro ⟨heq, rfl⟩
    exact .same heq

/-- Constants do not matter to the type. -/
theorem eqType_stripConstants (hP : PromotedForm tags T P) : EqType cfg tags (stripConstants P) P true := by
  cases hP with
  | integer m i =>
    cases m with
    | mods f fs => exact eqType_integer_iff.mpr (areIntsCompat_self i).symm
  | enumeration m s i =>
    cases m with
    | mods f fs => exact eqType_enum_iff.mpr (areTagsCompat_self s.name).symm

theorem eqType_stripConstants_both (hP : PromotedForm tags T P) (hP' : PromotedForm tags T' P')
    (heq : EqType cfg tags P P' true) : EqType cfg tags (stripConstants P) (stripConstants P') true := by
  cases hP with
  | integer m i =>
    cases m with
    | mods f fs =>
      cases hP' with
      | integer m' i' =>
        cases m' with
        | mods f' fs' => exact eqType_integer_iff.mpr (eqType_integer_iff.mp heq)
      | enumeration m' s' j =>
        cases m' with
        | mods f' fs' =>
          exact eqType_symm (eqType_enum_integer_iff.mpr (eqType_enum_integer_iff.mp (eqType_symm heq)))
  | enumeration m s i =>
    cases m with
    | mods f fs =>
      cases hP' with
      | integer m' i' =>
        cases m' with
        | mods f' fs' => exact eqType_enum_integer_iff.mpr (eqType_enum_integer_iff.mp heq)
      | enumeration m' s' j =>
        cases m' with
        | mods f' fs' => exact eqType_enum_iff.mpr (eqType_enum_iff.mp heq)

/-- An enumeration of great rank is no type of the rank of `int`. -/
theorem rank_of_eqType_enum {m m' : Mods} {s : TagId} {i j : IntType} (hs : getTagInfo tags s = .enumInfo j)
    (heq : EqType cfg tags (enumUType m s) (integerUType m' i) true) : i.rank = j.rank := by
  have halias : isEnumAlias tags s i = true := (eqType_enum_integer_iff.mp heq).symm
  rw [isEnumAlias, decide_eq_true_iff, getEnumAlias, hs] at halias
  cases halias
  rfl

/-- Two enumerations that promotion leaves, or one and an integer type. -/
theorem PromotedForm.meets {m : Mods} {s : TagId} {j : IntType} (hs : getTagInfo tags s = .enumInfo j)
    (hj : j.rank > IntType.int.rank) (hP' : PromotedForm tags T' P') :
    EqType cfg tags (enumUType m s) P' true ↔ IsWide tags T' ∧ EqType cfg tags (enumUType m s) (stripBitfield T') true := by
  cases hP' with
  | integer m' i hi hT hwide hnarrow =>
    constructor
    · intro heq
      have hW : IsWide tags T' := by
        by_contra hnot
        have hrank := rank_of_eqType_enum hs heq
        rw [hnarrow hnot] at hrank
        omega
      exact ⟨hW, hwide hW ▸ heq⟩
    · rintro ⟨hW, heq⟩
      rw [hwide hW]
      exact heq
  | enumeration m' s' j' hs' hj' hT =>
    subst hT
    have hW : IsWide tags (enumUType m' s') := by
      refine ⟨j'.rank, ?_, hj'⟩
      rw [enumUType, rank, getEnumAlias, hs']
      rfl
    exact ⟨fun heq => ⟨hW, heq⟩, fun h => h.2⟩

end Promoted

/-! ## All pairs -/

section Pairs

variable {cfg : Settings} {tags : Tags} {T T' P P' R R' : UType}

/-- `T` and `T'` have a common type by the rules: a floating type that no rule names meets one that a rule names,
    and an enumeration that promotion leaves meets its own type. -/
structure Convertible (cfg : Settings) (tags : Tags) (T T' : UType) : Prop where
  oversizedLeft : T.isFloatType .oversizedFloat = true →
    T'.isFloatType .longDouble = true ∨ T'.isFloatType .double = true ∨ T'.isFloatType .float = true
  oversizedRight : T'.isFloatType .oversizedFloat = true →
    T.isFloatType .longDouble = true ∨ T.isFloatType .double = true ∨ T.isFloatType .float = true
  enumLeft : T'.isFloat = false → IsWideEnum tags T → IsWide tags T' ∧ EqType cfg tags T (stripBitfield T') true
  enumRight : T.isFloat = false → IsWideEnum tags T' → IsWide tags T ∧ EqType cfg tags T' (stripBitfield T) true

/-- One result in each order, of one type. -/
theorem UsualConversionSound.of_iff (h : ∀ R', UsualArithmeticConversion cfg tags T T' R' ↔ R' = R)
    (h' : ∀ R'', UsualArithmeticConversion cfg tags T' T R'' ↔ R'' = R') (heq : EqType cfg tags R R' true)
    (hbit : ∀ m i n, R ≠ bitfieldUType m i n) (hcommon : CommonType cfg tags T T' R) :
    UsualConversionSound cfg tags T T' := by
  constructor
  · exact ⟨R, (h R).mpr rfl⟩
  · intro R1 R2 h1 h2
    rw [(h R1).mp h1, (h R2).mp h2]
  · intro R1 R2 h1 h2
    rw [(h R1).mp h1, (h' R2).mp h2]
    exact heq
  · intro R1 h1
    rw [(h R1).mp h1]
    exact hbit
  · intro R1 h1
    rw [(h R1).mp h1]
    exact hcommon

/-! ### Without floating types -/

theorem isFloatType_eq_false {f : FloatType} (h : T.isFloat = false) : T.isFloatType f = false := by
  unfold UType.isFloatType
  split
  · cases h
  · rfl

/-- The rule for promoted types is alone. -/
theorem usual_promoted_iff (h : T.isFloat = false) (h' : T'.isFloat = false) (hP : ∀ Q, PromoteRule cfg tags T Q ↔ Q = P)
    (hP' : ∀ Q, PromoteRule cfg tags T' Q ↔ Q = P') :
    UsualArithmeticConversion cfg tags T T' R ↔ AuxRule cfg tags P P' R := by
  have hno : ∀ f, ¬T.isFloatType f = true := fun f hf => by simp [isFloatType_eq_false h] at hf
  have hno' : ∀ f, ¬T'.isFloatType f = true := fun f hf => by simp [isFloatType_eq_false h'] at hf
  constructor
  · intro hR
    cases hR with
    | longDoubleLeft h | doubleLeft h | floatLeft h => exact absurd h (hno _)
    | longDoubleRight h | doubleRight h | floatRight h => exact absurd h (hno' _)
    | promoted _ _ hQ hQ' haux =>
      rwa [(hP _).mp hQ, (hP' _).mp hQ'] at haux
  · exact .promoted h h' ((hP P).mpr rfl) ((hP' P').mpr rfl)

theorem stripConstants_ne_bitfield (hP : PromotedForm tags T P) (m : Mods) (i : IntType) (n : Int) :
    stripConstants P ≠ bitfieldUType m i n := by
  cases hP with
  | integer m' i' =>
    cases m' with
    | mods f fs => simp [stripConstants, integerUType, bitfieldUType]
  | enumeration m' s' =>
    cases m' with
    | mods f fs => simp [stripConstants, enumUType, bitfieldUType]

section NoFloat

variable (hfloat : T.isFloat = false) (hfloat' : T'.isFloat = false) (hP : ∀ Q, PromoteRule cfg tags T Q ↔ Q = P)
  (hP' : ∀ Q, PromoteRule cfg tags T' Q ↔ Q = P')

include hfloat hfloat' hP hP'

/-- Two integer types have a common type. -/
theorem usualConversionSound_integers {m m' : Mods} {i i' : IntType} (hi : i.isPromoted = true) (hi' : i'.isPromoted = true)
    (hform : P = integerUType m i) (hform' : P' = integerUType m' i') : UsualConversionSound cfg tags T T' := by
  subst hform
  subst hform'
  obtain ⟨n, hn⟩ := @auxRule_integers cfg tags m m' i i' hi hi'
  obtain ⟨n', hn'⟩ := @auxRule_integers cfg tags m' m i' i hi' hi
  refine .of_iff (fun R => (usual_promoted_iff hfloat hfloat' hP hP').trans (hn R))
    (fun R => (usual_promoted_iff hfloat' hfloat hP' hP).trans (hn' R)) ?_ ?_ ?_
  · exact eqType_integer_iff.mpr (commonIntType_comm hi hi').symm
  · intro m'' i'' n''
    simp [integerUType, bitfieldUType]
  · cases hc : areIntsCompat i i' with
    | true =>
      refine .sameType ((hP _).mpr rfl) ((hP' _).mpr rfl) (eqType_integer_iff.mpr hc.symm) ?_
      rw [commonIntType, if_pos hc]
      exact eqType_integer_iff.mpr (areIntsCompat_self i).symm
    | false =>
      refine .integers ((hP _).mpr rfl) ((hP' _).mpr rfl) (.inl ⟨_, rfl⟩) (.inl ⟨_, rfl⟩)
        (eqType_integer_iff.mpr hc.symm) ?_
      exact eqType_integer_iff.mpr (areIntsCompat_self _).symm

/-- An enumeration that promotion leaves meets its own type. -/
theorem usualConversionSound_enum_iff (hform : PromotedForm tags T P) (hform' : PromotedForm tags T' P')
    (henum : P.isEnum = true ∨ P'.isEnum = true) : UsualConversionSound cfg tags T T' ↔ EqType cfg tags P P' true := by
  constructor
  · rintro ⟨⟨R, hR⟩, -, -, -, -⟩
    exact ((auxRule_enum_iff henum).mp ((usual_promoted_iff hfloat hfloat' hP hP').mp hR)).1
  · intro heq
    have haux : ∀ R, AuxRule cfg tags P P' R ↔ R = stripConstants P :=
      fun R => (auxRule_enum_iff henum).trans (and_iff_right heq)
    have haux' : ∀ R, AuxRule cfg tags P' P R ↔ R = stripConstants P' :=
      fun R => (auxRule_enum_iff henum.symm).trans (and_iff_right (eqType_symm heq))
    refine .of_iff (fun R => (usual_promoted_iff hfloat hfloat' hP hP').trans (haux R))
      (fun R => (usual_promoted_iff hfloat' hfloat hP' hP).trans (haux' R)) ?_ ?_ ?_
    · exact eqType_stripConstants_both hform hform' heq
    · exact stripConstants_ne_bitfield hform
    · exact .sameType ((hP _).mpr rfl) ((hP' _).mpr rfl) heq (eqType_stripConstants hform)

end NoFloat

/-- **Pairs without a floating type.** -/
theorem usualConversionSound_iff_of_not_float (h : IsArithmetic cfg tags T) (h' : IsArithmetic cfg tags T')
    (hfloat : T.isFloat = false) (hfloat' : T'.isFloat = false) :
    UsualConversionSound cfg tags T T' ↔ Convertible cfg tags T T' := by
  obtain ⟨P, hform, hP⟩ := h.promotedForm hfloat
  obtain ⟨P', hform', hP'⟩ := h'.promotedForm hfloat'
  have hconvertible : Convertible cfg tags T T' ↔
      (IsWideEnum tags T → IsWide tags T' ∧ EqType cfg tags T (stripBitfield T') true) ∧
        (IsWideEnum tags T' → IsWide tags T ∧ EqType cfg tags T' (stripBitfield T) true) := by
    constructor
    · intro hC
      exact ⟨hC.enumLeft hfloat', hC.enumRight hfloat⟩
    · rintro ⟨hL, hR⟩
      exact ⟨fun hf => by simp [isFloatType_eq_false hfloat] at hf,
        fun hf => by simp [isFloatType_eq_false hfloat'] at hf, fun _ => hL, fun _ => hR⟩
  have hwideEnum : ∀ {m s j}, getTagInfo tags s = .enumInfo j → j.rank > IntType.int.rank →
      IsWideEnum tags (enumUType m s) := by
    intro m s j hs hj
    refine ⟨rfl, j.rank, ?_, hj⟩
    rw [enumUType, rank, getEnumAlias, hs]
    rfl
  rw [hconvertible]
  cases hform with
  | integer m i hi hT hwide hnarrow =>
    cases hform' with
    | integer m' i' hi' hT' hwide' hnarrow' =>
      have hsound := usualConversionSound_integers hfloat hfloat' hP hP' hi hi' rfl rfl
      exact ⟨fun _ => ⟨(absurd · hT), (absurd · hT')⟩, fun _ => hsound⟩
    | enumeration m' s' j' hs' hj' hT' =>
      have hform : PromotedForm tags T (integerUType m i) := .integer m i hi hT hwide hnarrow
      rw [usualConversionSound_enum_iff hfloat hfloat' hP hP' hform (.enumeration m' s' j' hs' hj' hT') (.inr rfl)]
      subst hT'
      have hmeets := @PromotedForm.meets cfg tags T _ m' s' j' hs' hj' hform
      constructor
      · intro heq
        exact ⟨(absurd · hT), fun _ => hmeets.mp (eqType_symm heq)⟩
      · rintro ⟨-, hR⟩
        exact eqType_symm (hmeets.mpr (hR (hwideEnum hs' hj')))
  | enumeration m s j hs hj hT =>
    rw [usualConversionSound_enum_iff hfloat hfloat' hP hP' (.enumeration m s j hs hj hT) hform' (.inl rfl)]
    subst hT
    have hmeets := @PromotedForm.meets cfg tags T' _ m s j hs hj hform'
    constructor
    · intro heq
      refine ⟨fun _ => hmeets.mp heq, fun hW => ?_⟩
      cases hform' with
      | integer m' i' hi' hT' => exact absurd hW hT'
      | enumeration m' s' j' hs' hj' hT' =>
        subst hT'
        have hW' := @hwideEnum m s j hs hj
        exact ⟨hW'.2, eqType_symm heq⟩
    · rintro ⟨hL, -⟩
      exact hmeets.mpr (hL (hwideEnum hs hj))

/-! ### With a floating type -/

theorem isFloatType_unique {f g : FloatType} (hf : T.isFloatType f = true) (hg : T.isFloatType g = true) : f = g := by
  unfold UType.isFloatType at hf hg
  split at hf
  · rw [beq_iff_eq] at hf hg
    rw [hf, hg]
  · cases hf

theorem isFloatType_of_isFloat (h : T.isFloat = true) : ∃ f, T.isFloatType f = true := by
  unfold UType.isFloat at h
  split at h
  · next m f => exact ⟨f, beq_self_eq_true f⟩
  · cases h

theorem isFloatType_false {f g : FloatType} (hf : T.isFloatType f = true) (hne : f ≠ g) : T.isFloatType g = false := by
  by_contra h
  exact hne (isFloatType_unique hf (Bool.not_eq_false _ ▸ h))

/-- No rule for floating types is for a type that no rule names. -/
theorem usual_cases (h : UsualArithmeticConversion cfg tags T T' R) :
    ((T.isFloatType .longDouble = true ∨ T'.isFloatType .longDouble = true) ∧ R = floatUType noMods .longDouble) ∨
    ((T.isFloatType .double = true ∨ T'.isFloatType .double = true) ∧ T.isFloatType .longDouble = false ∧
      T'.isFloatType .longDouble = false ∧ R = floatUType noMods .double) ∨
    ((T.isFloatType .float = true ∨ T'.isFloatType .float = true) ∧ (T.isFloatType .longDouble = false ∧
      T'.isFloatType .longDouble = false) ∧ (T.isFloatType .double = false ∧ T'.isFloatType .double = false) ∧
      R = floatUType noMods .float) ∨
    (T.isFloat = false ∧ T'.isFloat = false) := by
  cases h with
  | longDoubleLeft h => exact .inl ⟨.inl h, rfl⟩
  | longDoubleRight h => exact .inl ⟨.inr h, rfl⟩
  | doubleLeft h h1 => exact .inr (.inl ⟨.inl h, isFloatType_false h (by decide), h1, rfl⟩)
  | doubleRight h h1 => exact .inr (.inl ⟨.inr h, h1, isFloatType_false h (by decide), rfl⟩)
  | floatLeft h h1 h2 =>
    exact .inr (.inr (.inl ⟨.inl h, ⟨isFloatType_false h (by decide), h1⟩, ⟨isFloatType_false h (by decide), h2⟩, rfl⟩))
  | floatRight h h1 h2 =>
    exact .inr (.inr (.inl ⟨.inr h, ⟨h1, isFloatType_false h (by decide)⟩, ⟨h2, isFloatType_false h (by decide)⟩, rfl⟩))
  | promoted h h' => exact .inr (.inr (.inr ⟨h, h'⟩))

/-- The first floating type of the standard's order that an operand has. -/
inductive Leading (T T' : UType) : FloatType → Prop
  | longDouble (h : T.isFloatType .longDouble = true ∨ T'.isFloatType .longDouble = true) : Leading T T' .longDouble
  | double (h : T.isFloatType .double = true ∨ T'.isFloatType .double = true)
    (h1 : T.isFloatType .longDouble = false ∧ T'.isFloatType .longDouble = false) : Leading T T' .double
  | float (h : T.isFloatType .float = true ∨ T'.isFloatType .float = true)
    (h1 : T.isFloatType .longDouble = false ∧ T'.isFloatType .longDouble = false)
    (h2 : T.isFloatType .double = false ∧ T'.isFloatType .double = false) : Leading T T' .float

theorem Leading.symm {f : FloatType} (h : Leading T T' f) : Leading T' T f := by
  cases h with
  | longDouble h => exact .longDouble h.symm
  | double h h1 => exact .double h.symm h1.symm
  | float h h1 h2 => exact .float h.symm h1.symm h2.symm

theorem isFloat_of_isFloatType {f : FloatType} (h : T.isFloatType f = true) : T.isFloat = true := by
  by_contra hnot
  rw [isFloatType_eq_false (Bool.not_eq_true _ ▸ hnot)] at h
  cases h

theorem Leading.isFloat {f : FloatType} (h : Leading T T' f) : T.isFloat = true ∨ T'.isFloat = true := by
  cases h with
  | longDouble h => exact h.imp isFloat_of_isFloatType isFloat_of_isFloatType
  | double h => exact h.imp isFloat_of_isFloatType isFloat_of_isFloatType
  | float h => exact h.imp isFloat_of_isFloatType isFloat_of_isFloatType

/-- The leading type is what the rules give. -/
theorem usual_leading_iff {f : FloatType} (h : Leading T T' f) :
    UsualArithmeticConversion cfg tags T T' R ↔ R = floatUType noMods f := by
  constructor
  · intro hR
    rcases usual_cases hR with ⟨hx, rfl⟩ | ⟨hx, hy, hy', rfl⟩ | ⟨hx, ⟨hy, hy'⟩, ⟨hz, hz'⟩, rfl⟩ | ⟨hx, hx'⟩
    · cases h with
      | longDouble h => rfl
      | double _ h1 | float _ h1 => simp [h1] at hx
    · cases h with
      | longDouble h => simp [hy, hy'] at h
      | double h h1 => rfl
      | float h h1 h2 => simp [h2] at hx
    · cases h with
      | longDouble h => simp [hy, hy'] at h
      | double h h1 => simp [hz, hz'] at h
      | float h h1 h2 => rfl
    · have hfloat := h.isFloat
      simp [hx, hx'] at hfloat
  · rintro rfl
    cases h with
    | longDouble h => exact h.elim .longDoubleLeft .longDoubleRight
    | double h h1 => exact h.elim (.doubleLeft · h1.2) (.doubleRight · h1.1)
    | float h h1 h2 => exact h.elim (.floatLeft · h1.2 h2.2) (.floatRight · h1.1 h2.1)

theorem usualConversionSound_of_leading {f : FloatType} (h : Leading T T' f) : UsualConversionSound cfg tags T T' := by
  refine .of_iff (fun R => usual_leading_iff h) (fun R => usual_leading_iff h.symm) (decides_self [] _) ?_ ?_
  · intro m i n
    simp [floatUType, bitfieldUType]
  · have hnot : ∀ {b b' : Bool}, b = false ∧ b' = false → ¬(b = true ∨ b' = true) := by decide
    cases h with
    | longDouble h => exact .longDouble h rfl
    | double h h1 => exact .double h (hnot h1) rfl
    | float h h1 h2 => exact .float h (hnot h1) (hnot h2) rfl

/-- A type that a rule names leads, or a greater one does. -/
theorem exists_leading {f : FloatType} (hf : f ≠ .oversizedFloat) (h : T.isFloatType f = true ∨ T'.isFloatType f = true) :
    ∃ g, Leading T T' g := by
  have hnot : ∀ {b b' : Bool}, ¬(b = true ∨ b' = true) → b = false ∧ b' = false := by decide
  by_cases h1 : T.isFloatType .longDouble = true ∨ T'.isFloatType .longDouble = true
  · exact ⟨_, .longDouble h1⟩
  by_cases h2 : T.isFloatType .double = true ∨ T'.isFloatType .double = true
  · exact ⟨_, .double h2 (hnot h1)⟩
  cases f with
  | longDouble => exact absurd h h1
  | double => exact absurd h h2
  | float => exact ⟨_, .float h (hnot h1) (hnot h2)⟩
  | oversizedFloat => exact absurd rfl hf

theorem exists_leading_of_named (h : T'.isFloatType .longDouble = true ∨ T'.isFloatType .double = true ∨
    T'.isFloatType .float = true) : ∃ g, Leading T T' g := by
  rcases h with h | h | h
  · exact exists_leading (f := .longDouble) (by decide) (.inr h)
  · exact exists_leading (f := .double) (by decide) (.inr h)
  · exact exists_leading (f := .float) (by decide) (.inr h)

/-- With a type that no rule names the other one leads. -/
theorem Leading.named {f : FloatType} (h : Leading T T' f) (hT : T.isFloatType .oversizedFloat = true) :
    T'.isFloatType .longDouble = true ∨ T'.isFloatType .double = true ∨ T'.isFloatType .float = true := by
  have hno : ∀ g, g ≠ .oversizedFloat → ¬T.isFloatType g = true := by
    intro g hg hTg
    exact hg (isFloatType_unique hTg hT)
  cases h with
  | longDouble h => exact .inl (h.resolve_left (hno _ (by decide)))
  | double h => exact .inr (.inl (h.resolve_left (hno _ (by decide))))
  | float h => exact .inr (.inr (h.resolve_left (hno _ (by decide))))

theorem isEnum_of_isFloat (h : T.isFloat = true) : ¬IsWideEnum tags T := by
  rintro ⟨henum, -⟩
  unfold UType.isFloat at h
  split at h
  · cases henum
  · cases h

/-- **Pairs with a floating type.** -/
theorem usualConversionSound_iff_of_float (h : T.isFloat = true ∨ T'.isFloat = true) :
    UsualConversionSound cfg tags T T' ↔ Convertible cfg tags T T' := by
  have hsound : UsualConversionSound cfg tags T T' ↔ ∃ f, Leading T T' f := by
    constructor
    · rintro ⟨⟨R, hR⟩, -, -, -, -⟩
      rcases usual_cases hR with ⟨hx, -⟩ | ⟨hx, -, -, -⟩ | ⟨hx, -, -, -⟩ | ⟨hx, hx'⟩
      · exact exists_leading (by decide) hx
      · exact exists_leading (by decide) hx
      · exact exists_leading (by decide) hx
      · simp [hx, hx'] at h
    · rintro ⟨f, hf⟩
      exact usualConversionSound_of_leading hf
  rw [hsound]
  constructor
  · rintro ⟨f, hf⟩
    refine ⟨hf.named, hf.symm.named, fun hnot hW => ?_, fun hnot hW => ?_⟩
    · rcases h with h | h
      · exact absurd hW (isEnum_of_isFloat h)
      · simp [h] at hnot
    · rcases h with h | h
      · simp [h] at hnot
      · exact absurd hW (isEnum_of_isFloat h)
  · intro hC
    rcases h with h | h
    · obtain ⟨f, hf⟩ := isFloatType_of_isFloat h
      by_cases hover : f = .oversizedFloat
      · exact exists_leading_of_named (hC.oversizedLeft (hover ▸ hf))
      · exact exists_leading hover (.inl hf)
    · obtain ⟨f, hf⟩ := isFloatType_of_isFloat h
      by_cases hover : f = .oversizedFloat
      · obtain ⟨g, hg⟩ := @exists_leading_of_named T' T (hC.oversizedRight (hover ▸ hf))
        exact ⟨g, hg.symm⟩
      · exact exists_leading hover (.inr hf)

/-- **Which arithmetic types have a common type.**  Promotion of every arithmetic type is sound; the rules for two are, for
    exactly the types that are `Convertible`. -/
theorem usualConversionSound_iff (h : IsArithmetic cfg tags T) (h' : IsArithmetic cfg tags T') :
    UsualConversionSound cfg tags T T' ↔ Convertible cfg tags T T' := by
  by_cases hfloat : T.isFloat = true ∨ T'.isFloat = true
  · exact usualConversionSound_iff_of_float hfloat
  · rw [not_or, Bool.not_eq_true, Bool.not_eq_true] at hfloat
    exact usualConversionSound_iff_of_not_float h h' hfloat.1 hfloat.2

end Pairs

/-- `enum big { A = 1L << 40 };` -/
private def wideTag : TagId := ⟨.Identifier "big", "u", .global⟩

private def wideTags : Tags := [(wideTag, .enumInfo .unsignedLongInt)]

end CSemantics
