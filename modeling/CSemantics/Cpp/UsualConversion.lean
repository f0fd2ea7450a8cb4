/-
  The usual arithmetic conversions of C++.

  Two helpers follow the standard, case by case.  The last case, "otherwise", has no side condition in the
  rules: it applies to every unsigned and every signed type, beside the case that is meant.  So the rules
  agree only where the two cases give the same, or where the last one is the one that is meant.

      helperSound_iff     the helpers, of two promoted types
      usualSound_iff      which types are converted to one type, whatever the rule and the order
-/
import CSemantics.Cpp.Promotion

namespace CSemantics.Cpp

/-! ## The rules -/

namespace CPPSimpleIntegerType

/-- `CPPSimpleSignedType` -/
def isSigned : CPPSimpleIntegerType → Bool
  | .signedChar | .short | .int | .long | .longLong | .oversized => true
  | _ => false

/-- `CPPSimpleUnsignedType` -/
def isUnsigned : CPPSimpleIntegerType → Bool
  | .unsignedChar | .unsignedShort | .unsigned | .unsignedLong | .unsignedLongLong | .unsignedOversized => true
  | _ => false

/-- The unsigned type of the same size. -/
def toUnsigned : CPPSimpleIntegerType → CPPSimpleIntegerType
  | .signedChar => .unsignedChar
  | .short => .unsignedShort
  | .int => .unsigned
  | .long => .unsignedLong
  | .longLong => .unsignedLongLong
  | .oversized => .unsignedOversized
  | i => i

end CPPSimpleIntegerType

namespace CPPType

def isSigned : CPPType → Bool
  | .t _ _ (.integer i) => i.isSigned
  | .t _ _ (.bitfieldType i _) => i.isSigned
  | _ => false

def isUnsigned : CPPType → Bool
  | .t _ _ (.integer i) => i.isUnsigned
  | .t _ _ (.bitfieldType i _) => i.isUnsigned
  | _ => false

def isBitfield : CPPType → Bool
  | .t _ _ (.bitfieldType _ _) => true
  | _ => false

/-- `CPPSimpleScopedEnumType` -/
def isScopedEnum : CPPType → Bool
  | .t _ _ (.scopedEnum _ _) => true
  | .t _ _ (.scopedEnumBitfield _ _ _) => true
  | _ => false

def isFloatingType (f : CPPSimpleFloatingType) : CPPType → Bool
  | .t _ _ (.floating f') => f == f'
  | _ => false

end CPPType

/-- `correspondingUnsignedType(T)`: of signed types, no bit-fields. -/
def correspondingUnsignedType : CPPType → Eval CPPType
  | .t q m (.integer i) => if i.isSigned then .ok (.t q m (.integer i.toUnsigned)) else .error .stuck
  | _ => .error .stuck

def floatingType (f : CPPSimpleFloatingType) : CPPType := (CPPSimpleType.floating f).type

section Rules

variable (env : Env)

/-- The rules for `#usualArithmeticConversions2(Unsigned, Signed)`. -/
inductive MixedRule (U S : CPPType) : Eval CPPType → Prop
  | unsigned {r r'} (hr : U.rank = some r) (hr' : S.rank = some r') (hge : r ≥ r') : MixedRule U S (.ok U)
  | signed {r r'} (hr : U.rank = some r) (hr' : S.rank = some r') (hlt : r < r')
    (hbroader : broaderTypeThan env S.simpleType U.simpleType = true) : MixedRule U S (.ok S)
  | corresponding : MixedRule U S (correspondingUnsignedType S)

/-- The rules for `#usualArithmeticConversions(T1, T2)`. -/
inductive HelperRule (T1 T2 : CPPType) : Eval CPPType → Prop
  | same (h : T1 = T2) : HelperRule T1 T2 (.ok T1)
  | signed {r r'} (hs : T1.isSigned = true) (hs' : T2.isSigned = true) (hr : T1.rank = some r) (hr' : T2.rank = some r') :
    HelperRule T1 T2 (.ok (if r > r' then T1 else T2))
  | unsigned {r r'} (hu : T1.isUnsigned = true) (hu' : T2.isUnsigned = true) (hr : T1.rank = some r)
    (hr' : T2.rank = some r') : HelperRule T1 T2 (.ok (if r > r' then T1 else T2))
  | unsignedSigned {R} (hu : T1.isUnsigned = true) (hs : T2.isSigned = true) (h : MixedRule env T1 T2 R) :
    HelperRule T1 T2 R
  | signedUnsigned {R} (hs : T1.isSigned = true) (hu : T2.isUnsigned = true) (h : MixedRule env T2 T1 R) :
    HelperRule T1 T2 R

/-- **The rules for `usualArithmeticConversions(T1, T2)`.** -/
inductive UsualRule (T1 T2 : CPPType) : Eval CPPType → Prop
  | scopedEnum (h : T1 = T2) (hs : T1.isScopedEnum = true) : UsualRule T1 T2 (.ok T1)
  | longDoubleLeft (h : T1.isFloatingType .longDouble = true) : UsualRule T1 T2 (.ok (floatingType .longDouble))
  | longDoubleRight (h : T2.isFloatingType .longDouble = true) : UsualRule T1 T2 (.ok (floatingType .longDouble))
  | doubleLeft (h : T1.isFloatingType .double = true) (h1 : T2.simpleType ≠ .floating .longDouble) :
    UsualRule T1 T2 (.ok (floatingType .double))
  | doubleRight (h : T2.isFloatingType .double = true) (h1 : T1.simpleType ≠ .floating .longDouble) :
    UsualRule T1 T2 (.ok (floatingType .double))
  | floatLeft (h : T1.isFloatingType .float = true) (h1 : T2.simpleType ≠ .floating .longDouble)
    (h2 : T2.simpleType ≠ .floating .double) : UsualRule T1 T2 (.ok (floatingType .float))
  | floatRight (h : T2.isFloatingType .float = true) (h1 : T1.simpleType ≠ .floating .longDouble)
    (h2 : T1.simpleType ≠ .floating .double) : UsualRule T1 T2 (.ok (floatingType .float))
  | otherwise {P1 P2 R} (hscoped : ¬(T1 = T2 ∧ T1.isScopedEnum = true)) (hfloat : isCPPFloatingType T1 = false)
    (hfloat' : isCPPFloatingType T2 = false) (hP : PromoteTwice env T1 P1) (hP' : PromoteTwice env T2 P2)
    (h : HelperRule env P1 P2 R) : UsualRule T1 T2 R

end Rules

/-! ## What the claims about them are -/

/-- Both are types, and the same. -/
def SameType (R R' : Eval CPPType) : Prop := ∃ T T', R = .ok T ∧ R' = .ok T' ∧ eqType T T' = true

/-- **One type, whatever the rule and the order**, and no bit-field; `Rule'` are the rules for the operands in the other
    order. -/
structure OneType (Rule Rule' : Eval CPPType → Prop) : Prop where
  defined : ∃ R, Rule (.ok R)
  defined' : ∃ R, Rule' (.ok R)
  same : ∀ R R', Rule R ∨ Rule' R → Rule R' ∨ Rule' R' → SameType R R'
  notBitfield : ∀ R, Rule (.ok R) ∨ Rule' (.ok R) → R.isBitfield = false

section Claims

variable (env : Env)

/-- The usual arithmetic conversions of `T1` and `T2` give one type. -/
def UsualSound (T1 T2 : CPPType) : Prop := OneType (UsualRule env T1 T2) (UsualRule env T2 T1)

/-- An unsigned and a signed type: the last rule gives what the first does, or is the one that is meant. -/
def MixedAgree (U S : CPPType) : Prop :=
  ∃ C r r', correspondingUnsignedType S = .ok C ∧ U.rank = some r ∧ S.rank = some r' ∧
    ((r ≥ r' ∧ eqType U C = true ∧ U.isBitfield = false) ∨
      (r < r' ∧ broaderTypeThan env S.simpleType U.simpleType = false))

/-- Two types of one sign: the one of greater rank is no bit-field, and two of one rank are the same. -/
def RankAgree (P P' : CPPType) : Prop :=
  ∃ r r', P.rank = some r ∧ P'.rank = some r' ∧
    ((r > r' ∧ P.isBitfield = false) ∨ (r' > r ∧ P'.isBitfield = false) ∨
      (r = r' ∧ eqType P P' = true ∧ P.isBitfield = false ∧ P'.isBitfield = false))

/-- The rules agree about two promoted types. -/
def Agree (P P' : CPPType) : Prop :=
  (P.isSigned = true ∧ P'.isSigned = true ∧ RankAgree P P') ∨
  (P.isUnsigned = true ∧ P'.isUnsigned = true ∧ RankAgree P P') ∨
  (P.isUnsigned = true ∧ P'.isSigned = true ∧ MixedAgree env P P') ∨
  (P.isSigned = true ∧ P'.isUnsigned = true ∧ MixedAgree env P' P)

/-- What the integral promotions of the standard make of `T1` and `T2` is what the rules agree about. -/
def Convertible (T1 T2 : CPPType) : Prop :=
  ∃ P P', IsPromotion env T1 P ∧ IsPromotion env T2 P' ∧ Agree env P P'

end Claims

/-! ## The helpers -/

theorem SameType.of_eqType {T T' : CPPType} (h : eqType T T' = true) : SameType (.ok T) (.ok T') := ⟨T, T', rfl, rfl, h⟩

theorem sameType_ok_iff {T T' : CPPType} : SameType (.ok T) (.ok T') ↔ eqType T T' = true := by
  constructor
  · rintro ⟨T1, T2, h1, h2, h⟩
    cases h1
    cases h2
    exact h
  · exact .of_eqType

section Helpers

variable {env : Env} {T T' P P' : CPPType} {Rule Rule' : Eval CPPType → Prop}

theorem OneType.symm (h : OneType Rule Rule') : OneType Rule' Rule :=
  ⟨h.defined', h.defined, fun R R' hR hR' => h.same R R' hR.symm hR'.symm, fun R hR => h.notBitfield R hR.symm⟩

/-- One result in each order. -/
theorem oneType_iff_of_single (h : ∀ R, Rule R ↔ R = .ok T) (h' : ∀ R, Rule' R ↔ R = .ok T') :
    OneType Rule Rule' ↔ eqType T T' = true ∧ T.isBitfield = false ∧ T'.isBitfield = false := by
  constructor
  · intro hone
    refine ⟨sameType_ok_iff.mp (hone.same _ _ (.inl ((h _).mpr rfl)) (.inr ((h' _).mpr rfl))), ?_, ?_⟩
    · exact hone.notBitfield T (.inl ((h _).mpr rfl))
    · exact hone.notBitfield T' (.inr ((h' _).mpr rfl))
  · rintro ⟨heq, hbit, hbit'⟩
    have hresult : ∀ R, Rule R ∨ Rule' R → R = .ok T ∨ R = .ok T' := fun R hR => hR.imp (h R).mp (h' R).mp
    refine ⟨⟨T, (h _).mpr rfl⟩, ⟨T', (h' _).mpr rfl⟩, fun R R' hR hR' => ?_, fun R hR => ?_⟩
    · rcases hresult R hR with rfl | rfl <;> rcases hresult R' hR' with rfl | rfl
      · exact .of_eqType (eqType_refl T)
      · exact .of_eqType heq
      · exact .of_eqType (eqType_symm heq)
      · exact .of_eqType (eqType_refl T')
    · rcases hresult _ hR with hR | hR
      · cases hR
        exact hbit
      · cases hR
        exact hbit'

/-! ### Two types of one sign -/

/-- The two rules for types of one sign give the type of the greater rank. -/
theorem oneType_rank_iff {r r' : Int} (hr : P.rank = some r) (hr' : P'.rank = some r')
    (h : ∀ R, Rule R ↔ R = .ok (if r > r' then P else P')) (h' : ∀ R, Rule' R ↔ R = .ok (if r' > r then P' else P)) :
    OneType Rule Rule' ↔ RankAgree P P' := by
  rw [oneType_iff_of_single h h']
  have hagree : RankAgree P P' ↔ (r > r' ∧ P.isBitfield = false) ∨ (r' > r ∧ P'.isBitfield = false) ∨
      (r = r' ∧ eqType P P' = true ∧ P.isBitfield = false ∧ P'.isBitfield = false) := by
    constructor
    · rintro ⟨s, s', hs, hs', hcases⟩
      cases hr.symm.trans hs
      cases hr'.symm.trans hs'
      exact hcases
    · exact fun hcases => ⟨r, r', hr, hr', hcases⟩
  rw [hagree]
  rcases lt_trichotomy r r' with hlt | rfl | hgt
  · have hnot : ¬r > r' := by omega
    have hne : ¬r = r' := by omega
    rw [if_neg hnot, if_pos hlt]
    simp [hnot, hne, hlt, eqType_refl]
  · rw [if_neg (lt_irrefl r), if_neg (lt_irrefl r)]
    simp only [lt_irrefl, false_and, true_and, false_or]
    constructor
    · rintro ⟨heq, hbit', hbit⟩
      exact ⟨eqType_symm heq, hbit, hbit'⟩
    · rintro ⟨heq, hbit, hbit'⟩
      exact ⟨eqType_symm heq, hbit', hbit⟩
  · have hnot : ¬r' > r := by omega
    have hne : ¬r = r' := by omega
    rw [if_pos hgt, if_neg hnot]
    simp [hnot, hne, hgt, eqType_refl]

/-! ### An unsigned and a signed type -/

/-- Only an integer type has a corresponding unsigned type, and that is unsigned and no bit-field. -/
theorem correspondingUnsignedType_eq_ok {S C : CPPType} (h : correspondingUnsignedType S = .ok C) :
    (∃ q m i, S = .t q m (.integer i) ∧ i.isSigned = true ∧ C = .t q m (.integer i.toUnsigned)) ∧ C.isBitfield = false ∧
      eqType S C = false := by
  obtain ⟨q, m, st⟩ := S
  cases st with
  | integer i =>
    rw [correspondingUnsignedType] at h
    split at h
    · next hs =>
      cases h
      refine ⟨⟨q, m, i, rfl, hs, rfl⟩, rfl, ?_⟩
      have hne : i.toUnsigned ≠ i := by
        revert hs
        cases i <;> decide
      rw [Bool.eq_false_iff]
      intro heq
      rw [eqType_iff] at heq
      simp only [stripType, stripSimpleType, CPPType.t.injEq, CPPSimpleType.integer.injEq, true_and] at heq
      exact hne heq.symm
    · cases h
  | _ => cases h

/-- **The last rule applies beside the others.** -/
theorem oneType_mixed_iff {r r' : Int} (hr : P.rank = some r) (hr' : P'.rank = some r') :
    OneType (MixedRule env P P') (MixedRule env P P') ↔ MixedAgree env P P' := by
  constructor
  · intro hone
    obtain ⟨C, C', hC, -, -⟩ := hone.same _ _ (.inl .corresponding) (.inl .corresponding)
    refine ⟨C, r, r', hC, hr, hr', ?_⟩
    by_cases hge : r ≥ r'
    · have hU : MixedRule env P P' (.ok P) := .unsigned hr hr' hge
      have hsame := hone.same _ _ (.inl hU) (.inl .corresponding)
      rw [hC, sameType_ok_iff] at hsame
      exact .inl ⟨hge, hsame, hone.notBitfield P (.inl hU)⟩
    · refine .inr ⟨not_le.mp hge, ?_⟩
      rw [Bool.eq_false_iff]
      intro hbroader
      have hS : MixedRule env P P' (.ok P') := .signed hr hr' (not_le.mp hge) hbroader
      have hsame := hone.same _ _ (.inl hS) (.inl .corresponding)
      rw [hC, sameType_ok_iff, (correspondingUnsignedType_eq_ok hC).2.2] at hsame
      cases hsame
  · rintro ⟨C, s, s', hC, hs, hs', hcases⟩
    have hbitC := (correspondingUnsignedType_eq_ok hC).2.1
    have hdefined : MixedRule env P P' (.ok C) := hC ▸ .corresponding
    -- Whatever the rule, the result is `C` or the unsigned type, and they are the same.
    have hresult : ∀ R, MixedRule env P P' R → R = .ok C ∨ (R = .ok P ∧ eqType P C = true ∧ P.isBitfield = false) := by
      intro R hR
      cases hR with
      | unsigned hr hr' hge =>
        cases hr.symm.trans hs
        cases hr'.symm.trans hs'
        rcases hcases with ⟨-, heq, hbit⟩ | ⟨hlt, -⟩
        · exact .inr ⟨rfl, heq, hbit⟩
        · exact absurd hge (not_le.mpr hlt)
      | signed hr hr' hlt hbroader =>
        cases hr.symm.trans hs
        cases hr'.symm.trans hs'
        rcases hcases with ⟨hge, -, -⟩ | ⟨-, hnot⟩
        · exact absurd hge (not_le.mpr hlt)
        · simp [hnot] at hbroader
      | corresponding => exact .inl hC
    refine ⟨⟨C, hdefined⟩, ⟨C, hdefined⟩, fun R R' hR hR' => ?_, fun R hR => ?_⟩
    · rw [or_self] at hR hR'
      rcases hresult R hR with rfl | ⟨rfl, heq, -⟩ <;> rcases hresult R' hR' with rfl | ⟨rfl, heq', -⟩
      · exact .of_eqType (eqType_refl C)
      · exact .of_eqType (eqType_symm heq')
      · exact .of_eqType heq
      · exact .of_eqType (eqType_refl P)
    · rw [or_self] at hR
      rcases hresult _ hR with h | ⟨h, -, hbit⟩
      · cases h
        exact hbitC
      · cases h
        exact hbit

/-! ### All promoted types -/

/-- What promotion leaves: an integer type with a sign, or a bit-field. -/
inductive PromotedForm : CPPType → Prop
  | integer (q : Quals) (m : Finset String) (i : CPPSimpleIntegerType) (hi : i.isPromoted = true) :
    PromotedForm (.t q m (.integer i))
  | bitfield (q : Quals) (m : Finset String) (i : CPPSimpleIntegerType) (n : Int) : PromotedForm (.t q m (.bitfieldType i n))

theorem isSigned_or_isUnsigned_of_isPromoted : ∀ i : CPPSimpleIntegerType, i.isPromoted = true →
    i.isSigned = true ∨ i.isUnsigned = true := by
  intro i
  cases i <;> decide

theorem isUnsigned_eq_false_of_isSigned : ∀ i : CPPSimpleIntegerType, i.isSigned = true → i.isUnsigned = false := by
  intro i
  cases i <;> decide

namespace PromotedForm

theorem rank (h : PromotedForm P) : ∃ r, P.rank = some r := by
  cases h with
  | integer q m i hi => exact ⟨_, rfl⟩
  | bitfield q m i n => exact ⟨_, rfl⟩

theorem not_both (h : PromotedForm P) (hs : P.isSigned = true) : P.isUnsigned = false := by
  cases h with
  | integer q m i hi => exact isUnsigned_eq_false_of_isSigned i hs
  | bitfield q m i n => exact isUnsigned_eq_false_of_isSigned i hs

/-- Without a sign it is a bit-field. -/
theorem isBitfield (h : PromotedForm P) (hs : P.isSigned = false) (hu : P.isUnsigned = false) : P.isBitfield = true := by
  cases h with
  | integer q m i hi =>
    rcases isSigned_or_isUnsigned_of_isPromoted i hi with h | h
    · exact absurd (hs.symm.trans h) Bool.false_ne_true
    · exact absurd (hu.symm.trans h) Bool.false_ne_true
  | bitfield q m i n => rfl

end PromotedForm

/-- Types of one sign: the two rules for them, and the one for equal types, which they include. -/
theorem helperRule_sameSign_iff {R : Eval CPPType} {r r' : Int} (h : PromotedForm P) (h' : PromotedForm P')
    (hsign : (P.isSigned = true ∧ P'.isSigned = true) ∨ (P.isUnsigned = true ∧ P'.isUnsigned = true))
    (hr : P.rank = some r) (hr' : P'.rank = some r') :
    HelperRule env P P' R ↔ R = .ok (if r > r' then P else P') := by
  have hno : ∀ {T}, PromotedForm T → T.isSigned = true → T.isUnsigned = true → False := by
    intro T hT hs hu
    rw [hT.not_both hs] at hu
    cases hu
  constructor
  · intro hR
    cases hR with
    | same heq =>
      subst heq
      cases hr.symm.trans hr'
      rw [if_neg (lt_irrefl r)]
    | signed hs hs' hs1 hs2 | unsigned hu hu' hs1 hs2 =>
      cases hr.symm.trans hs1
      cases hr'.symm.trans hs2
      rfl
    | unsignedSigned hu hs _ =>
      rcases hsign with ⟨hs1, hs2⟩ | ⟨hu1, hu2⟩
      · exact (hno h hs1 hu).elim
      · exact (hno h' hs hu2).elim
    | signedUnsigned hs hu _ =>
      rcases hsign with ⟨hs1, hs2⟩ | ⟨hu1, hu2⟩
      · exact (hno h' hs2 hu).elim
      · exact (hno h hs hu1).elim
  · rintro rfl
    rcases hsign with ⟨hs, hs'⟩ | ⟨hu, hu'⟩
    · exact .signed hs hs' hr hr'
    · exact .unsigned hu hu' hr hr'

/-- An unsigned and a signed type: the second helper, in either order. -/
theorem oneType_unsigned_signed_iff (h : PromotedForm P) (h' : PromotedForm P') (hu : P.isUnsigned = true)
    (hs : P'.isSigned = true) : OneType (HelperRule env P P') (HelperRule env P' P) ↔ MixedAgree env P P' := by
  obtain ⟨r, hr⟩ := h.rank
  obtain ⟨r', hr'⟩ := h'.rank
  have hu' := h'.not_both hs
  have hs' : P.isSigned = false := by
    rw [Bool.eq_false_iff]
    intro hs'
    rw [h.not_both hs'] at hu
    cases hu
  have hleft : HelperRule env P P' = MixedRule env P P' := by
    funext R
    refine propext ⟨fun hR => ?_, .unsignedSigned hu hs⟩
    cases hR with
    | same heq => simp [heq, hs] at hs'
    | signed hs1 => simp [hs1] at hs'
    | unsigned _ hu2 => simp [hu2] at hu'
    | unsignedSigned _ _ h => exact h
    | signedUnsigned hs1 => simp [hs1] at hs'
  have hright : HelperRule env P' P = MixedRule env P P' := by
    funext R
    refine propext ⟨fun hR => ?_, .signedUnsigned hs hu⟩
    cases hR with
    | same heq => simp [← heq, hs] at hs'
    | signed _ hs2 => simp [hs2] at hs'
    | unsigned hu1 => simp [hu1] at hu'
    | unsignedSigned hu1 => simp [hu1] at hu'
    | signedUnsigned _ _ h => exact h
  rw [hleft, hright, oneType_mixed_iff hr hr']

/-- **The helpers, of two promoted types.** -/
theorem helperSound_iff (h : PromotedForm P) (h' : PromotedForm P') :
    OneType (HelperRule env P P') (HelperRule env P' P) ↔ Agree env P P' := by
  obtain ⟨r, hr⟩ := h.rank
  obtain ⟨r', hr'⟩ := h'.rank
  have hrank : (P.isSigned = true ∧ P'.isSigned = true) ∨ (P.isUnsigned = true ∧ P'.isUnsigned = true) →
      (OneType (HelperRule env P P') (HelperRule env P' P) ↔ RankAgree P P') := by
    intro hsign
    have hsign' := hsign.imp And.symm And.symm
    exact oneType_rank_iff hr hr' (fun _ => helperRule_sameSign_iff h h' hsign hr hr')
      fun _ => helperRule_sameSign_iff h' h hsign' hr' hr
  have hsymm : OneType (HelperRule env P P') (HelperRule env P' P) ↔ OneType (HelperRule env P' P) (HelperRule env P P') :=
    ⟨OneType.symm, OneType.symm⟩
  cases hs : P.isSigned with
  | true =>
    have hu := h.not_both hs
    cases hs' : P'.isSigned with
    | true =>
      have hu' := h'.not_both hs'
      rw [hrank (.inl ⟨hs, hs'⟩)]
      simp [Agree, hs, hs', hu, hu']
    | false =>
      cases hu' : P'.isUnsigned with
      | true =>
        rw [hsymm, oneType_unsigned_signed_iff h' h hu' hs]
        simp [Agree, hs, hs', hu, hu']
      | false => exact iff_of_no_sign h h' (.inr ⟨hs', hu'⟩)
  | false =>
    cases hu : P.isUnsigned with
    | true =>
      cases hs' : P'.isSigned with
      | true =>
        have hu' := h'.not_both hs'
        rw [oneType_unsigned_signed_iff h h' hu hs']
        simp [Agree, hs, hs', hu, hu']
      | false =>
        cases hu' : P'.isUnsigned with
        | true =>
          rw [hrank (.inr ⟨hu, hu'⟩)]
          simp [Agree, hs, hs', hu, hu']
        | false => exact iff_of_no_sign h h' (.inr ⟨hs', hu'⟩)
    | false => exact iff_of_no_sign h h' (.inl ⟨hs, hu⟩)
where
  iff_of_no_sign (h : PromotedForm P) (h' : PromotedForm P')
      (hsign : (P.isSigned = false ∧ P.isUnsigned = false) ∨ (P'.isSigned = false ∧ P'.isUnsigned = false)) :
      OneType (HelperRule env P P') (HelperRule env P' P) ↔ Agree env P P' := by
    constructor
    · intro hone
      -- Only the rule for equal types is left, and a type without a sign is a bit-field.
      obtain ⟨R, hR⟩ := hone.defined
      have hbit := hone.notBitfield R (.inl hR)
      have heq : P = P' ∧ R = P := by
        cases hR with
        | same heq => exact ⟨heq, rfl⟩
        | signed hs hs' | unsigned hu hu' | unsignedSigned hu hs | signedUnsigned hs hu =>
          rcases hsign with ⟨h1, h2⟩ | ⟨h1, h2⟩ <;> simp_all
      obtain ⟨rfl, rfl⟩ := heq
      rw [or_self] at hsign
      rw [h.isBitfield hsign.1 hsign.2] at hbit
      cases hbit
    · intro hagree
      rcases hsign with ⟨h1, h2⟩ | ⟨h1, h2⟩ <;> simp [Agree, h1, h2] at hagree

end Helpers

/-! ## All pairs -/

section Pairs

variable {env : Env} {T T' P P' Q : CPPType}

/-- What the standard's promotions make is an integer type or a bit-field. -/
theorem IsPromotion.form (hT : IsIntegral env T) (h : IsPromotion env T Q) : PromotedForm Q := by
  induction h with
  | promoted hi => exact .integer _ _ _ hi
  | first hj => exact .integer _ _ _ (firstCandidate_isPromoted hT hj)
  | bitfield => exact .bitfield _ _ _ _
  | enumFixed h ih =>
    cases hT with
    | enum q m he =>
      cases he with
      | declared q' m' i => exact ih (.integer q' m' i)
  | enumBitfield h ih =>
    cases hT with
    | enumBitfield q m n hn he => exact ih (.enum _ _ he)

theorem isFloatingType_iff {f : CPPSimpleFloatingType} : T.isFloatingType f = true ↔ T.simpleType = .floating f := by
  obtain ⟨q, m, st⟩ := T
  cases st with
  | floating f' =>
    show (f == f') = true ↔ CPPSimpleType.floating f' = .floating f
    rw [beq_iff_eq, CPPSimpleType.floating.injEq, eq_comm]
  | _ => exact ⟨fun h => (by cases h), fun h => (by cases h)⟩

theorem exists_floating_iff : isCPPFloatingType T = true ↔ ∃ f, T.simpleType = .floating f := by
  obtain ⟨q, m, st⟩ := T
  cases st with
  | floating f => exact ⟨fun _ => ⟨f, rfl⟩, fun _ => rfl⟩
  | _ => exact ⟨fun h => (by cases h), fun ⟨_, h⟩ => (by cases h)⟩

theorem isScopedEnum_of_floating {f : CPPSimpleFloatingType} (h : T.simpleType = .floating f) : T.isScopedEnum = false := by
  obtain ⟨q, m, st⟩ := T
  cases h
  rfl

/-! ### With a floating type -/

/-- The first floating type of the standard's order that an operand has. -/
inductive Leading (T T' : CPPType) : CPPSimpleFloatingType → Prop
  | longDouble (h : T.simpleType = .floating .longDouble ∨ T'.simpleType = .floating .longDouble) : Leading T T' .longDouble
  | double (h : T.simpleType = .floating .double ∨ T'.simpleType = .floating .double)
    (h1 : T.simpleType ≠ .floating .longDouble ∧ T'.simpleType ≠ .floating .longDouble) : Leading T T' .double
  | float (h : T.simpleType = .floating .float ∨ T'.simpleType = .floating .float)
    (h1 : T.simpleType ≠ .floating .longDouble ∧ T'.simpleType ≠ .floating .longDouble)
    (h2 : T.simpleType ≠ .floating .double ∧ T'.simpleType ≠ .floating .double) : Leading T T' .float

namespace Leading

variable {f f' : CPPSimpleFloatingType}

theorem symm (h : Leading T T' f) : Leading T' T f := by
  cases h with
  | longDouble h => exact .longDouble h.symm
  | double h h1 => exact .double h.symm h1.symm
  | float h h1 h2 => exact .float h.symm h1.symm h2.symm

theorem unique (h : Leading T T' f) (h' : Leading T T' f') : f = f' := by
  cases h with
  | longDouble h =>
    cases h' with
    | longDouble h' => rfl
    | double _ h1 | float _ h1 => exact absurd h (not_or.mpr h1)
  | double h h1 =>
    cases h' with
    | longDouble h' => exact absurd h' (not_or.mpr h1)
    | double h' _ => rfl
    | float _ _ h2 => exact absurd h (not_or.mpr h2)
  | float h h1 h2 =>
    cases h' with
    | longDouble h' => exact absurd h' (not_or.mpr h1)
    | double h' _ => exact absurd h' (not_or.mpr h2)
    | float h' _ _ => rfl

theorem floating (h : Leading T T' f) : T.simpleType = .floating f ∨ T'.simpleType = .floating f := by
  cases h with
  | longDouble h => exact h
  | double h => exact h
  | float h => exact h

end Leading

theorem exists_leading (h : isCPPFloatingType T = true ∨ isCPPFloatingType T' = true) : ∃ f, Leading T T' f := by
  by_cases h1 : T.simpleType = .floating .longDouble ∨ T'.simpleType = .floating .longDouble
  · exact ⟨_, .longDouble h1⟩
  by_cases h2 : T.simpleType = .floating .double ∨ T'.simpleType = .floating .double
  · exact ⟨_, .double h2 (not_or.mp h1)⟩
  refine ⟨_, .float ?_ (not_or.mp h1) (not_or.mp h2)⟩
  rcases h with h | h <;> obtain ⟨f, hf⟩ := exists_floating_iff.mp h <;> cases f
  · exact .inl hf
  · exact absurd (.inl hf) h2
  · exact absurd (.inl hf) h1
  · exact .inr hf
  · exact absurd (.inr hf) h2
  · exact absurd (.inr hf) h1

/-- A rule for floating types gives the one that leads. -/
theorem usualRule_cases {R : Eval CPPType} (h : UsualRule env T T' R) :
    (∃ f, Leading T T' f ∧ R = .ok (floatingType f)) ∨ (T = T' ∧ T.isScopedEnum = true) ∨
      (isCPPFloatingType T = false ∧ isCPPFloatingType T' = false) := by
  have hne : ∀ {S : CPPType} {f g}, S.isFloatingType f = true → f ≠ g → S.simpleType ≠ .floating g := by
    intro S f g hf hfg hg
    rw [isFloatingType_iff, hg] at hf
    exact hfg (CPPSimpleType.floating.inj hf).symm
  cases h with
  | scopedEnum heq hs => exact .inr (.inl ⟨heq, hs⟩)
  | longDoubleLeft h => exact .inl ⟨_, .longDouble (.inl (isFloatingType_iff.mp h)), rfl⟩
  | longDoubleRight h => exact .inl ⟨_, .longDouble (.inr (isFloatingType_iff.mp h)), rfl⟩
  | doubleLeft h h1 => exact .inl ⟨_, .double (.inl (isFloatingType_iff.mp h)) ⟨hne h (by decide), h1⟩, rfl⟩
  | doubleRight h h1 => exact .inl ⟨_, .double (.inr (isFloatingType_iff.mp h)) ⟨h1, hne h (by decide)⟩, rfl⟩
  | floatLeft h h1 h2 =>
    exact .inl ⟨_, .float (.inl (isFloatingType_iff.mp h)) ⟨hne h (by decide), h1⟩ ⟨hne h (by decide), h2⟩, rfl⟩
  | floatRight h h1 h2 =>
    exact .inl ⟨_, .float (.inr (isFloatingType_iff.mp h)) ⟨h1, hne h (by decide)⟩ ⟨h2, hne h (by decide)⟩, rfl⟩
  | otherwise _ hfloat hfloat' => exact .inr (.inr ⟨hfloat, hfloat'⟩)

theorem usualRule_leading_iff {R : Eval CPPType} {f : CPPSimpleFloatingType} (h : Leading T T' f) :
    UsualRule env T T' R ↔ R = .ok (floatingType f) := by
  constructor
  · intro hR
    rcases usualRule_cases hR with ⟨g, hg, rfl⟩ | ⟨heq, hs⟩ | ⟨hfloat, hfloat'⟩
    · rw [h.unique hg]
    · subst heq
      rw [isScopedEnum_of_floating (h.floating.elim id id)] at hs
      cases hs
    · have hnot : ∀ {S : CPPType}, isCPPFloatingType S = false → S.simpleType ≠ .floating f := by
        intro S hS hSf
        rw [exists_floating_iff.mpr ⟨f, hSf⟩] at hS
        cases hS
      exact absurd h.floating (not_or.mpr ⟨hnot hfloat, hnot hfloat'⟩)
  · rintro rfl
    cases h with
    | longDouble h =>
      exact h.elim (fun h => .longDoubleLeft (isFloatingType_iff.mpr h)) fun h => .longDoubleRight (isFloatingType_iff.mpr h)
    | double h h1 =>
      exact h.elim (fun h => .doubleLeft (isFloatingType_iff.mpr h) h1.2) fun h =>
        .doubleRight (isFloatingType_iff.mpr h) h1.1
    | float h h1 h2 =>
      exact h.elim (fun h => .floatLeft (isFloatingType_iff.mpr h) h1.2 h2.2) fun h =>
        .floatRight (isFloatingType_iff.mpr h) h1.1 h2.1

/-- **With a floating type the rules agree.** -/
theorem usualSound_of_floating (h : isCPPFloatingType T = true ∨ isCPPFloatingType T' = true) : UsualSound env T T' := by
  obtain ⟨f, hf⟩ := exists_leading h
  refine (oneType_iff_of_single (fun _ => usualRule_leading_iff hf) fun _ => usualRule_leading_iff hf.symm).mpr ?_
  exact ⟨eqType_refl _, rfl, rfl⟩

/-! ### Without -/

theorem not_isFloating_of_isIntegral (h : IsIntegral env T) : isCPPFloatingType T = false ∧ T.isScopedEnum = false := by
  cases h <;> exact ⟨rfl, rfl⟩

theorem usualRule_integral_iff {R : Eval CPPType} (hT : IsIntegral env T) (hT' : IsIntegral env T')
    (hP : ReachesOnly env T P) (hP' : ReachesOnly env T' P') : UsualRule env T T' R ↔ HelperRule env P P' R := by
  obtain ⟨hfloat, hscoped⟩ := not_isFloating_of_isIntegral hT
  obtain ⟨hfloat', -⟩ := not_isFloating_of_isIntegral hT'
  have hno : ¬(T = T' ∧ T.isScopedEnum = true) := fun h => by simp [hscoped] at h
  have hnot : ∀ {S : CPPType} {f}, isCPPFloatingType S = false → ¬S.isFloatingType f = true := by
    intro S f hS hSf
    rw [exists_floating_iff.mpr ⟨f, isFloatingType_iff.mp hSf⟩] at hS
    cases hS
  constructor
  · intro hR
    cases hR with
    | scopedEnum heq hs => exact absurd ⟨heq, hs⟩ hno
    | longDoubleLeft h | doubleLeft h | floatLeft h => exact absurd h (hnot hfloat)
    | longDoubleRight h | doubleRight h | floatRight h => exact absurd h (hnot hfloat')
    | otherwise _ _ _ h1 h2 h =>
      rwa [(hP.twice _).mp h1, (hP'.twice _).mp h2] at h
  · exact .otherwise hno hfloat hfloat' ((hP.twice P).mpr rfl) ((hP'.twice P').mpr rfl)

/-- **Which integral types are converted to one type**, whatever the rule and the order. -/
theorem usualSound_iff (hT : IsIntegral env T) (hT' : IsIntegral env T') :
    (PromotionSound env T ∧ PromotionSound env T' ∧ UsualSound env T T') ↔ Convertible env T T' := by
  have hhelper : ∀ {P P'}, IsPromotion env T P → IsPromotion env T' P' → (UsualSound env T T' ↔ Agree env P P') := by
    intro P P' hP hP'
    have hreach := hP.spec hT
    have hreach' := hP'.spec hT'
    have hleft : UsualRule env T T' = HelperRule env P P' := by
      funext R
      exact propext (usualRule_integral_iff hT hT' hreach hreach')
    have hright : UsualRule env T' T = HelperRule env P' P := by
      funext R
      exact propext (usualRule_integral_iff hT' hT hreach' hreach)
    rw [UsualSound, hleft, hright]
    exact helperSound_iff (hP.form hT) (hP'.form hT')
  rw [promotionSound_iff hT, promotionSound_iff hT']
  constructor
  · rintro ⟨⟨P, hP⟩, ⟨P', hP'⟩, hsound⟩
    exact ⟨P, P', hP, hP', (hhelper hP hP').mp hsound⟩
  · rintro ⟨P, P', hP, hP', hagree⟩
    exact ⟨⟨P, hP⟩, ⟨P', hP'⟩, (hhelper hP hP').mpr hagree⟩

/-- **The usual arithmetic conversions of C++**, for every arithmetic type and unscoped enumeration: when a promotion
    is sound, when two types are converted to one, and that floating types always are. -/
theorem usualArithmeticConversions_iff (env : Env) :
    (∀ T, IsIntegral env T → (PromotionSound env T ↔ ∃ Q, IsPromotion env T Q)) ∧
      (∀ T T', IsIntegral env T → IsIntegral env T' →
        ((PromotionSound env T ∧ PromotionSound env T' ∧ UsualSound env T T') ↔ Convertible env T T')) ∧
      ∀ T T', isCPPFloatingType T = true ∨ isCPPFloatingType T' = true → UsualSound env T T' :=
  ⟨fun _ h => promotionSound_iff h, fun _ _ h h' => usualSound_iff h h', fun _ _ h => usualSound_of_floating h⟩

end Pairs

/-! ## Two programs -/

private def noEnumerations : Env where
  cfg := x86GccLimitedLibc
  enumRange _ := (0, 0)
  baseClasses _ := []
  acyclic := Env.acyclic_of_no_bases

private theorem agree_long_int : Agree noEnumerations CPPSimpleIntegerType.long.type CPPSimpleIntegerType.int.type :=
  .inl ⟨rfl, rfl, 4, 3, rfl, rfl, .inl ⟨by decide, rfl⟩⟩

/-- `long` and `int` are converted to one type. -/
theorem usualArithmeticConversions_long :
    UsualSound noEnumerations CPPSimpleIntegerType.long.type CPPSimpleIntegerType.int.type := by
  have h := (usualArithmeticConversions_iff noEnumerations).2.1 CPPSimpleIntegerType.long.type
    CPPSimpleIntegerType.int.type (.integer _ _ .long) (.integer _ _ .int)
  exact (h.mpr ⟨_, _, .promoted rfl, .promoted rfl, agree_long_int⟩).2.2

/-- **What the last rule gets wrong**: `unsigned long` and `int` are converted to `unsigned long` by one rule, and to
    `unsigned` by the other. -/
theorem unsignedLong_int_two_types :
    UsualRule noEnumerations CPPSimpleIntegerType.unsignedLong.type CPPSimpleIntegerType.int.type
      (.ok CPPSimpleIntegerType.unsignedLong.type) ∧
    UsualRule noEnumerations CPPSimpleIntegerType.unsignedLong.type CPPSimpleIntegerType.int.type
      (.ok CPPSimpleIntegerType.unsigned.type) ∧
    eqType CPPSimpleIntegerType.unsignedLong.type CPPSimpleIntegerType.unsigned.type = false ∧
    ¬UsualSound noEnumerations CPPSimpleIntegerType.unsignedLong.type CPPSimpleIntegerType.int.type := by
  have hlong : IsIntegral noEnumerations CPPSimpleIntegerType.unsignedLong.type := .integer _ _ .unsignedLong
  have hint : IsIntegral noEnumerations CPPSimpleIntegerType.int.type := .integer _ _ .int
  have hiff := fun R => usualRule_integral_iff (R := R) hlong hint (IsPromotion.spec hlong (.promoted rfl))
    (IsPromotion.spec hint (.promoted rfl))
  have hfirst := (hiff (.ok CPPSimpleIntegerType.unsignedLong.type)).mpr
    (.unsignedSigned rfl rfl (.unsigned rfl rfl (by decide)))
  have hlast := (hiff (.ok CPPSimpleIntegerType.unsigned.type)).mpr (.unsignedSigned rfl rfl .corresponding)
  have hne : eqType CPPSimpleIntegerType.unsignedLong.type CPPSimpleIntegerType.unsigned.type = false := by decide
  refine ⟨hfirst, hlast, hne, fun hsound => ?_⟩
  have hsame := sameType_ok_iff.mp (hsound.same _ _ (.inl hfirst) (.inl hlast))
  exact absurd (hne.symm.trans hsame) Bool.false_ne_true

/-- **What the rule for bit-fields leaves**: a bit-field of 40 bits and `int` are converted to that bit-field. -/
theorem bitfield_int_bitfield :
    UsualRule noEnumerations (CPPSimpleType.bitfieldType .unsignedLong 40).type CPPSimpleIntegerType.int.type
      (.ok (CPPSimpleType.bitfieldType .unsignedLong 40).type) := by
  have hbitfield : IsIntegral noEnumerations (CPPSimpleType.bitfieldType .unsignedLong 40).type :=
    .bitfield _ _ .unsignedLong 40 (by decide)
  have hint : IsIntegral noEnumerations CPPSimpleIntegerType.int.type := .integer _ _ .int
  have hpromotion : IsPromotion noEnumerations (CPPSimpleType.bitfieldType .unsignedLong 40).type
      (CPPSimpleType.bitfieldType .unsignedLong 40).type := .bitfield (by decide +kernel) (by decide)
  refine (usualRule_integral_iff hbitfield hint (hpromotion.spec hbitfield) (IsPromotion.spec hint (.promoted rfl))).mpr ?_
  exact .unsignedSigned rfl rfl (.unsigned rfl rfl (by decide))

end CSemantics.Cpp
