/-
  Conversion of integers.

  `cast(T', tv(V, T))` has one rule for each paragraph of the standard, and nothing but the side
  conditions keeps the rules apart.  So the model is the set of the rules that apply, a RELATION
  between a conversion and what a rule makes of it: a value, or a message in front of the
  conversion.  That the conversion is single-valued is then a theorem, and it is one only where the
  side conditions do exclude each other:

      type that can hold V       V, by the rule for compatible types or by the one for the range
      other unsigned type        V modulo 2 ^ width
      other signed type          no value: CCV2, or CCV2-E when the conversion is explicit

  `_Bool` is in the set of unsigned types too, and two of the three rules for that set do not
  exclude it: 256 converts to 1 by the rule for `_Bool` and to 0 by that for unsigned types.  An
  enumeration is in neither of the sets the last two lines are about.
-/
import CSemantics.Typing.Compatibility

namespace CSemantics

open ConjSearch

/-! ## The rules -/

/-- `castTypes(T', T)`: the new type, with the modifiers of the old. -/
def castTypes : UType → UType → UType
  | .ut _ T', .ut m _ => .ut m T'

section Rules

variable (cfg : Settings) (tags : Tags)

/-- `T' ==Type T` -/
def EqType (T' T : UType) (b : Bool) : Prop := AreCompatible cfg tags (type T') (type T) b

/-- **What the rules make of `cast(T', tv(V, T), explicit)`** for an integer `V`, one constructor for
    each rule with its side condition. -/
inductive CastRule (T' : UType) (V : Int) (T : UType) (explicit : Bool) : Eval (Int × UType) → Prop
  | sameType (heq : EqType cfg tags T' T true) (hptr : T'.isPointer = false) :
    CastRule T' V T explicit (.ok (V, castTypes T' T))
  | bool (hT' : T'.isBool = true) (hT : T.isInteger = true) :
    CastRule T' V T explicit (.ok (if V = 0 then 0 else 1, castTypes T' T))
  | inRange (hT' : T'.isInteger = true) (hT : T.isInteger = true) (hne : EqType cfg tags T' T false)
    (hbool : T'.isBool = false) (hV : intInRange cfg tags V T' = .ok true) :
    CastRule T' V T explicit (.ok (V, castTypes T' T))
  /-- `modInt` is the remainder that is never negative. -/
  | unsignedBelow {lo hi : Int} (hT' : T'.isUnsignedInteger = true) (hT : T.isInteger = true)
    (hlo : T'.min cfg tags = .ok lo) (hhi : T'.max cfg tags = .ok hi) (hV : V < lo)
    (hlint : hasLint = false) : CastRule T' V T explicit (.ok (V.emod (hi + 1), castTypes T' T))
  /-- `%Int` has the sign of the dividend. -/
  | unsignedAbove {hi : Int} (hT' : T'.isUnsignedInteger = true) (hT : T.isInteger = true)
    (hhi : T'.max cfg tags = .ok hi) (hV : V > hi) (hlint : hasLint = false) :
    CastRule T' V T explicit (.ok (V.tmod (hi + 1), castTypes T' T))
  | implicitSigned (hT' : T'.isSignedInteger = true) (hT : T.isInteger = true)
    (hV : intInRange cfg tags V T' = .ok false) (hexp : explicit = false) :
    CastRule T' V T explicit
      (.error (IMPL "CCV2" "Conversion to signed integer outside the range that can be represented."))
  | explicitSigned (hT' : T'.isSignedInteger = true) (hT : T.isInteger = true)
    (hV : intInRange cfg tags V T' = .ok false) (hexp : explicit = true) :
    CastRule T' V T explicit
      (.error (IMPL "CCV2-E"
        "Explicit conversion to signed integer outside the range that can be represented."))

end Rules

/-! ## Integer types that can be converted to -/

section Shapes

variable {cfg : Settings} {tags : Tags} {T' T : UType} {w' w : Nat} {s' s : Bool} {V : Int}

/-- A format of `w` bits has the number `V`. -/
def Represents (w : Nat) (s : Bool) (V : Int) : Prop := shapeMin w s ≤ V ∧ V ≤ shapeMax w s

instance (w : Nat) (s : Bool) (V : Int) : Decidable (Represents w s V) := inferInstanceAs (Decidable (_ ∧ _))

theorem shapeMin_true_lt (w : Nat) : shapeMin w true < 0 := by
  have h : (0 : Int) < 2 ^ (w - 1) := by positivity
  show -(2 : Int) ^ (w - 1) < 0
  omega

/-- Formats with the same bounds have the same numbers. -/
theorem IntShape.represents_of_bounds (h : IntShape cfg tags T w s) (h' : IntShape cfg tags T' w' s')
    (hmin : T'.min cfg tags = T.min cfg tags) (hmax : T'.max cfg tags = T.max cfg tags)
    (hV : Represents w s V) : Represents w' s' V := by
  rw [h.min, h'.min] at hmin
  rw [h.max, h'.max] at hmax
  injection hmin with hmin
  injection hmax with hmax
  unfold Represents at hV ⊢
  rw [hmin, hmax]
  exact hV

/-- The sets of signed and unsigned types say how the bounds are. -/
theorem IntShape.sign (h : IntShape cfg tags T w s) (henum : T.isEnum = false) :
    s = T.isSignedInteger ∧ s = !T.isUnsignedInteger := by
  have hneg : ∀ n : Nat, 0 - (1 : Int) <<< n < 0 := by
    intro n
    have : (0 : Int) < 2 ^ n := by positivity
    rw [Int.shiftLeft_eq]
    omega
  -- a signed type has a negative least value, an unsigned type has none
  have hmin : ∀ i : IntType, (T.isSignedInteger = i.isSigned ∧ T.isUnsignedInteger = !i.isSigned) →
      (∃ n : Nat, T.min cfg tags = .ok (if i.isSigned then 0 - (1 : Int) <<< n else 0)) →
      s = T.isSignedInteger ∧ s = !T.isUnsignedInteger := by
    rintro i ⟨hs, hu⟩ ⟨n, hn⟩
    rw [h.min] at hn
    injection hn with hn
    rw [hs, hu, Bool.not_not, and_self]
    have h1 := hneg n
    have h2 := shapeMin_true_lt w
    cases s <;> cases hi : i.isSigned
    · rfl
    · rw [hi] at hn
      have h0 : (0 : Int) = 0 - (1 : Int) <<< n := hn
      omega
    · rw [hi] at hn
      have h0 : shapeMin w true = 0 := hn
      omega
    · rfl
  obtain ⟨m, st⟩ := T
  have hint := h.integer
  cases st with
  | array k e => cases hint
  | nonArray n =>
    cases n with
    | basic b =>
      cases b with
      | integer i => exact hmin i ⟨rfl, rfl⟩ ⟨_, rfl⟩
      | bitfieldType i n => exact hmin i ⟨rfl, rfl⟩ ⟨_, rfl⟩
      | _ => cases hint
    | enumType s => cases henum
    | _ => cases hint

theorem areBasicCompat_bounds {b b' : SimpleBasicType} (h : areBasicCompat b b' = true) :
    imin cfg b = imin cfg b' ∧ imax cfg b = imax cfg b' := by
  have hint : ∀ {i i' : IntType}, areIntsCompat i i' = true →
      i.isSigned = i'.isSigned ∧ numBits cfg i = numBits cfg i' := by
    intro i i' hii
    unfold areIntsCompat at hii
    split at hii
    · exact ⟨rfl, rfl⟩
    · exact ⟨rfl, rfl⟩
    · rw [beq_iff_eq] at hii
      subst hii
      exact ⟨rfl, rfl⟩
  unfold areBasicCompat at h
  split at h
  · obtain ⟨hs, hn⟩ := hint h
    simp [imin, imax, hs, hn]
  · rw [Bool.and_eq_true, beq_iff_eq] at h
    obtain ⟨hii, rfl⟩ := h
    obtain ⟨hs, -⟩ := hint hii
    simp [imin, imax, hs]
  · rw [beq_iff_eq] at h
    subst h
    exact ⟨rfl, rfl⟩

theorem eqType_symm (h : EqType cfg tags T' T true) : EqType cfg tags T T' true :=
  (decides_swap ⟨[], type T', type T⟩ true).mp h

/-- **Compatible types have the same bounds**, unless both are enumerations. -/
theorem bounds_of_eqType (h : EqType cfg tags T' T true) (hint : T.isInteger = true)
    (henum : T'.isEnum = false) :
    T'.min cfg tags = T.min cfg tags ∧ T'.max cfg tags = T.max cfg tags := by
  obtain ⟨m', st'⟩ := T'
  obtain ⟨m, st⟩ := T
  obtain ⟨qs, hqs, -⟩ := decides_true_iff.mp h
  cases st with
  | array k e => cases hint
  | nonArray n =>
    cases st' with
    | array k e => simp [compatQueries, type, qualSimple] at hqs
    | nonArray n' =>
      simp only [type, qualSimple, compatQueries, if_pos] at hqs
      unfold nonArrayQueries at hqs
      split at hqs
      · unfold onlyIf at hqs
        split at hqs
        · rename_i hb
          exact areBasicCompat_bounds hb
        · cases hqs
      · cases henum
      · rename_i i s
        unfold onlyIf isEnumAlias at hqs
        split at hqs
        · rename_i ha
          rw [decide_eq_true_eq] at ha
          simp [UType.min, UType.max, ha, bind, Except.bind]
        · cases hqs
      · cases henum
      · cases hint
      · cases hint
      · cases hint
      · cases hint
      · cases hqs

end Shapes

/-! ## Single values -/

section Cast

variable {cfg : Settings} {tags : Tags} {T' T : UType} {w' w : Nat} {s' s : Bool} {V : Int}
  {explicit : Bool} {o : Eval (Int × UType)}

theorem isPointer_of_isInteger (h : T.isInteger = true) : T.isPointer = false := by
  rcases UType.isInteger_cases h with ⟨m, i, rfl⟩ | ⟨m, i, n, rfl⟩ | ⟨m, s, rfl⟩ <;> rfl

/-- An integer type is unsigned, signed or an enumeration, and only one of them. -/
theorem not_isUnsigned_of_isSigned (h : T.isSignedInteger = true) : T.isUnsignedInteger = false := by
  obtain ⟨m, st⟩ := T
  rcases st with ⟨k, e⟩ | n
  · rfl
  · rcases n with b | s | s | s | p | ⟨r, ps⟩
    · cases b <;> simp_all [UType.isSignedInteger, UType.isUnsignedInteger]
    all_goals rfl

/-- **A type that can hold the value**: whatever rules apply keep it. -/
theorem castRule_represents (hT' : IntShape cfg tags T' w' s') (hT : T.isInteger = true)
    (hbool : T'.isBool = false) (hV : Represents w' s' V) :
    CastRule cfg tags T' V T explicit o ↔ o = .ok (V, castTypes T' T) := by
  have hin : intInRange cfg tags V T' = .ok true := (intInRange_iff hT' V).mpr hV
  constructor
  · intro h
    cases h with
    | sameType _ _ => rfl
    | inRange _ _ _ _ _ => rfl
    | bool hb _ => rw [hbool] at hb; cases hb
    | unsignedBelow _ _ hlo _ hlt _ =>
      rw [hT'.min] at hlo
      cases hlo
      exact absurd hV.1 (not_le.mpr hlt)
    | unsignedAbove _ _ hhi hgt _ =>
      rw [hT'.max] at hhi
      cases hhi
      exact absurd hV.2 (not_le.mpr hgt)
    | implicitSigned _ _ hout _ => rw [hin] at hout; cases hout
    | explicitSigned _ _ hout _ => rw [hin] at hout; cases hout
  · rintro rfl
    obtain ⟨b, hb⟩ := compatQueries_decides cfg tags ⟨[], type T', type T⟩
    cases b with
    | true => exact .sameType hb (isPointer_of_isInteger hT'.integer)
    | false => exact .inRange hT'.integer hT hb hbool hin

/-- A value of the old type that the new type cannot hold: the types are not compatible. -/
theorem not_eqType_of_not_represents (hT' : IntShape cfg tags T' w' s') (hT : IntShape cfg tags T w s)
    (henum : T'.isEnum = false) (hV : Represents w s V) (hV' : ¬Represents w' s' V) :
    ¬EqType cfg tags T' T true := by
  intro heq
  obtain ⟨hmin, hmax⟩ := bounds_of_eqType heq hT.integer henum
  exact hV' (hT.represents_of_bounds hT' hmin hmax hV)

/-- **An unsigned type that cannot hold the value** gets it modulo `2 ^ width`. -/
theorem castRule_unsigned (hT' : IntShape cfg tags T' w' false) (hT : IntShape cfg tags T w s)
    (henum : T'.isEnum = false) (hbool : T'.isBool = false) (hV : Represents w s V)
    (hV' : ¬Represents w' false V) :
    CastRule cfg tags T' V T explicit o ↔ o = .ok (V % 2 ^ w', castTypes T' T) := by
  have hu : T'.isUnsignedInteger = true := by simpa using (hT'.sign henum).2
  have hs : T'.isSignedInteger = false := (hT'.sign henum).1.symm
  have hmod : shapeMax w' false + 1 = 2 ^ w' := by
    show (2 : Int) ^ w' - 1 + 1 = 2 ^ w'
    omega
  constructor
  · intro h
    cases h with
    | sameType heq _ => exact absurd heq (not_eqType_of_not_represents hT' hT henum hV hV')
    | bool hb _ => rw [hbool] at hb; cases hb
    | inRange _ _ _ _ hin => exact absurd ((intInRange_iff hT' V).mp hin) hV'
    | unsignedBelow _ _ _ hhi _ _ =>
      rw [hT'.max] at hhi
      cases hhi
      rw [hmod]
      rfl
    | unsignedAbove _ _ hhi hgt _ =>
      rw [hT'.max] at hhi
      cases hhi
      have hpos : 0 ≤ V := le_trans (shapeMax_nonneg w' false) (le_of_lt hgt)
      rw [hmod, Int.tmod_eq_emod_of_nonneg hpos]
    | implicitSigned hsigned _ _ _ => rw [hs] at hsigned; cases hsigned
    | explicitSigned hsigned _ _ _ => rw [hs] at hsigned; cases hsigned
  · rintro rfl
    rw [← hmod]
    by_cases hneg : V < shapeMin w' false
    · exact .unsignedBelow hu hT.integer hT'.min hT'.max hneg rfl
    · have hgt : V > shapeMax w' false := by
        by_contra hle
        exact hV' ⟨not_lt.mp hneg, not_lt.mp hle⟩
      have hpos : 0 ≤ V := le_trans (shapeMax_nonneg w' false) (le_of_lt hgt)
      rw [← Int.tmod_eq_emod_of_nonneg hpos]
      exact .unsignedAbove hu hT.integer hT'.max hgt rfl

/-- The message for a value outside the range of a signed type. -/
def signedRangeMsg (explicit : Bool) : Stop :=
  if explicit then
    IMPL "CCV2-E" "Explicit conversion to signed integer outside the range that can be represented."
  else IMPL "CCV2" "Conversion to signed integer outside the range that can be represented."

/-- **A signed type that cannot hold the value** gets none: the conversion is reported. -/
theorem castRule_signed (hT' : IntShape cfg tags T' w' true) (hT : IntShape cfg tags T w s)
    (henum : T'.isEnum = false) (hbool : T'.isBool = false) (hV : Represents w s V)
    (hV' : ¬Represents w' true V) :
    CastRule cfg tags T' V T explicit o ↔ o = .error (signedRangeMsg explicit) := by
  have hs : T'.isSignedInteger = true := (hT'.sign henum).1.symm
  have hu := not_isUnsigned_of_isSigned hs
  have hout : intInRange cfg tags V T' = .ok false := by
    rw [intInRange_eq hT' V]
    exact congrArg _ (decide_eq_false hV')
  constructor
  · intro h
    cases h with
    | sameType heq _ => exact absurd heq (not_eqType_of_not_represents hT' hT henum hV hV')
    | bool hb _ => rw [hbool] at hb; cases hb
    | inRange _ _ _ _ hin => exact absurd ((intInRange_iff hT' V).mp hin) hV'
    | unsignedBelow hunsigned _ _ _ _ _ => rw [hu] at hunsigned; cases hunsigned
    | unsignedAbove hunsigned _ _ _ _ => rw [hu] at hunsigned; cases hunsigned
    | implicitSigned _ _ _ hexp => subst hexp; rfl
    | explicitSigned _ _ _ hexp => subst hexp; rfl
  · rintro rfl
    cases explicit with
    | false => exact .implicitSigned hs hT.integer hout rfl
    | true => exact .explicitSigned hs hT.integer hout rfl

/-- **`_Bool`**, for a value in the range the semantics gives to `_Bool`. -/
theorem castRule_bool (hT' : IntShape cfg tags T' w' s') (hT : T.isInteger = true)
    (hbool : T'.isBool = true) (hV : Represents w' s' V)
    (hsame : EqType cfg tags T' T true → V = 0 ∨ V = 1) :
    CastRule cfg tags T' V T explicit o ↔ o = .ok (if V = 0 then 0 else 1, castTypes T' T) := by
  have hs : T'.isSignedInteger = false := by
    unfold UType.isBool at hbool
    split at hbool
    · rfl
    · cases hbool
  constructor
  · intro h
    cases h with
    | sameType heq _ => rcases hsame heq with rfl | rfl <;> rfl
    | bool _ _ => rfl
    | inRange _ _ _ hb _ => rw [hbool] at hb; cases hb
    | unsignedBelow _ _ hlo _ hlt _ =>
      rw [hT'.min] at hlo
      cases hlo
      exact absurd hV.1 (not_le.mpr hlt)
    | unsignedAbove _ _ hhi hgt _ =>
      rw [hT'.max] at hhi
      cases hhi
      exact absurd hV.2 (not_le.mpr hgt)
    | implicitSigned hsigned _ _ _ => rw [hs] at hsigned; cases hsigned
    | explicitSigned hsigned _ _ _ => rw [hs] at hsigned; cases hsigned
  · rintro rfl
    exact .bool hbool hT

end Cast

/-- A bit-field declared with type `_Bool`. -/
def UType.isBoolBitfield : UType → Bool
  | ut _ (.nonArray (.basic (.bitfieldType .bool _))) => true
  | _ => false

/-- What the conversion of `V` to a type other than `_Bool` gives. -/
def convertedValue (w' : Nat) (s' : Bool) (T' : UType) (V : Int) (T : UType) (explicit : Bool) :
    Eval (Int × UType) :=
  if Represents w' s' V then .ok (V, castTypes T' T)
  else if s' then .error (signedRangeMsg explicit)
  else .ok (V % 2 ^ w', castTypes T' T)

/-- **Conversion of integers is single-valued.**  For every value of an integer type and every
    integer type to convert it to, all rules that apply agree, and some rule does:

    * to a type other than `_Bool` they keep a value the type can hold, reduce it modulo
      `2 ^ width` when the type is unsigned, and report it when the type is signed; to an
      enumeration, for a value it can hold, and to a `_Bool` bit-field, for 0 and 1;
    * to `_Bool` they give 0 for 0 and 1 for any other value up to the greatest of `_Bool`; a value
      that has that type already is 0 or 1. -/
theorem cast_integer (cfg : Settings) (tags : Tags) (T' T : UType) (w' w : Nat) (s' s : Bool)
    (hT' : IntShape cfg tags T' w' s') (hT : IntShape cfg tags T w s) (V : Int)
    (hV : Represents w s V) (explicit : Bool) (o : Eval (Int × UType)) :
    (T'.isBool = false → (T'.isEnum = true → Represents w' s' V) →
      (T'.isBoolBitfield = true → V = 0 ∨ V = 1) →
      (CastRule cfg tags T' V T explicit o ↔ o = convertedValue w' s' T' V T explicit)) ∧
    (T'.isBool = true → Represents w' s' V → (EqType cfg tags T' T true → V = 0 ∨ V = 1) →
      (CastRule cfg tags T' V T explicit o ↔ o = .ok (if V = 0 then 0 else 1, castTypes T' T))) := by
  refine ⟨?_, fun hbool hV' hsame => castRule_bool hT' hT.integer hbool hV' hsame⟩
  intro hbool henum _
  unfold convertedValue
  by_cases hV' : Represents w' s' V
  · rw [if_pos hV']
    exact castRule_represents hT' hT.integer hbool hV'
  · have hnot : T'.isEnum = false := by
      cases he : T'.isEnum with
      | false => rfl
      | true => exact absurd (henum he) hV'
    rw [if_neg hV']
    cases s' with
    | false => exact castRule_unsigned hT' hT hnot hbool hV hV'
    | true => exact castRule_signed hT' hT hnot hbool hV hV'

/-- -1 converts from `int` to `unsigned char` as 255. -/
theorem cast_integer_minus_one :
    Represents 32 true (-1) ∧ ∀ o, CastRule x86GccLimitedLibc [] IntType.unsignedChar.toSimple.toUType (-1)
      IntType.int.toSimple.toUType false o ↔ o = .ok (255, IntType.unsignedChar.toSimple.toUType) := by
  refine ⟨by decide, fun o => ?_⟩
  exact (cast_integer x86GccLimitedLibc [] IntType.unsignedChar.toSimple.toUType
    IntType.int.toSimple.toUType 8 32 false true (intShape_integer noMods .unsignedChar)
    (intShape_integer noMods .int) (-1) (by decide) false o).1 rfl (by decide) (by decide)

/-- **What the rules do not promise.**  256 converts to `_Bool` as 1 and as 0; a `_Bool` with the
    value 2 converts to `_Bool` as 2 and as 1; 2 converts to a `_Bool` bit-field of one bit as 0; -1
    does not convert to an enumeration without negative constants, nor 128 to `signed char`. -/
theorem cast_not_single_valued :
    let cfg := x86GccLimitedLibc
    let int := IntType.int.toSimple.toUType
    let bool := IntType.bool.toSimple.toUType
    let bit := (SimpleNonArrayType.basic (.bitfieldType .bool 1)).toUType
    let e : TagId := ⟨.Identifier "e", "u", .global⟩
    (CastRule cfg [] bool 256 int false (.ok (1, bool)) ∧
      CastRule cfg [] bool 256 int false (.ok (0, bool))) ∧
    (CastRule cfg [] bool 2 bool false (.ok (2, bool)) ∧
      CastRule cfg [] bool 2 bool false (.ok (1, bool))) ∧
    CastRule cfg [] bit 2 int false (.ok (0, bit)) ∧
    (∀ o, ¬CastRule cfg [(e, .enumInfo .unsignedInt)] (SimpleNonArrayType.enumType e).toUType (-1) int
      false o) ∧
    ∀ r, ¬CastRule cfg [] IntType.signedChar.toSimple.toUType 128 int false (.ok r) := by
  intro cfg int bool bit e
  refine ⟨⟨?_, ?_⟩, ⟨?_, ?_⟩, ?_, ?_, ?_⟩
  · exact .bool rfl rfl
  · exact .unsignedAbove rfl rfl rfl (show (256 : Int) > 255 by decide) rfl
  · exact .sameType ⟨1, by decide +kernel⟩ rfl
  · exact .bool rfl rfl
  · exact .unsignedAbove rfl rfl rfl (show (2 : Int) > 1 by decide) rfl
  · intro o h
    cases h with
    | sameType heq _ =>
      have hne : EqType cfg [(e, .enumInfo .unsignedInt)] (SimpleNonArrayType.enumType e).toUType int
        false := ⟨1, by decide +kernel⟩
      exact absurd (heq.unique hne) (by decide)
    | bool hb _ => cases hb
    | inRange _ _ _ _ hin => exact absurd hin (by decide +kernel)
    | unsignedBelow hu _ _ _ _ _ => cases hu
    | unsignedAbove hu _ _ _ _ => cases hu
    | implicitSigned hs _ _ _ => cases hs
    | explicitSigned hs _ _ _ => cases hs
  · intro r h
    cases h with
    | sameType heq _ =>
      have hne : EqType cfg [] IntType.signedChar.toSimple.toUType int false := ⟨1, by decide +kernel⟩
      exact absurd (heq.unique hne) (by decide)
    | bool hb _ => cases hb
    | inRange _ _ _ _ hin => exact absurd hin (by decide +kernel)
    | unsignedBelow hu _ _ _ _ _ => cases hu
    | unsignedAbove hu _ _ _ _ => cases hu

end CSemantics
