/-
  Standard conversion sequences.

  A standard conversion sequence has three conversions.  The first comes from the category of the argument
  (`computeSCS`), the third from qualifiers (`computeSCS3`), and the second is chosen by two dozen rules that
  look at the parameter and at what the first conversion made of the argument (`computeSCS2`).  Any rule that
  applies may be taken, so `computeSCS2` is a RELATION here, one constructor a rule.

  `secondConversion` is the one conversion that is meant.  Every rule but an overlapping one agrees with it
  (`SCS2Rule.secondConversion_eq`), and the rules overlap in four places only (`Overlap`):

      double from float, T from T      the guard of the floating conversion never fails
      bool from an enumeration         a promotion, where `bool` is the underlying type
      base * from derived *            `B` and `D` differ also when they are `const X` and `X`
      T derived::* from T base::*      the same
-/
import CSemantics.Cpp.Typing

namespace CSemantics.Cpp

/-! ## Conversions -/

inductive Conversion
  | identity | lvalueConversion | arrayConversion | functionConversion | qualificationConversion
  | integralPromotion (P A : CPPType)
  | floatingPromotion | integralConversion | floatingConversion | floatingIntegralConversion
  | pointerConversion (P A : CPPType)
  | memberPointerConversion (P A : CPPType)
  | booleanConversion (A : CPPType)
  | derivedToBaseConversion (P A : CPPType)
  deriving DecidableEq

/-- The functions that convert: `P :: ConstructorId(X)` and `A :: ConversionId(Ret)`. -/
inductive QualId
  | constructorId (P : Class) (X : CId)
  | conversionId (A : Class) (Ret : CPPType)
  deriving DecidableEq

/-- `bottomConversionSequence`, for the object of a static member, is not the conversion of an argument. -/
inductive ConversionSequence
  | cannotConvert | ellipsisConversionSequence
  | standardConversionSequence (C1 typeConv C3 : Conversion) (isNonStaticRefNone : Bool) (param : CPPType)
  | userDefinedConversionSequence (CS1 : ConversionSequence) (X : QualId) (T : CPPType) (CS2 : ConversionSequence)
  | ambiguousConversionSequence
  | listInitSequence (T : CPPType) (CS : ConversionSequence)
  deriving DecidableEq

/-- `computeSCS3` -/
def computeSCS3 (C1 C2 : Conversion) (P A : CPPType) : ConversionSequence :=
  if cvQualificationSignature P = cvQualificationSignature A then
    .standardConversionSequence C1 C2 .identity false P
  else if leQualSig (cvQualificationSignature A) (cvQualificationSignature P) then
    .standardConversionSequence C1 C2 .qualificationConversion false P
  else .cannotConvert

/-- `isBaseClassOf`, of types. -/
def Env.IsBaseClassType (env : Env) (B D : CPPType) : Prop :=
  ∃ B' D', B.simpleType = .classType B' ∧ D.simpleType = .classType D' ∧ env.IsBaseClassOf B' D'

/-- The argument is promoted to the parameter, in one step or in two. -/
def promotesTo (env : Env) (P A : CPPType) : Bool := eqType (promote env A) P || eqType (promote env (promote env A)) P

/-- The rules of `computeSCS2(C, P, A, B)`, but for the last.  A rule rewrites to `computeSCS3(C, C2, P, A')`. -/
inductive SCS2Rule (env : Env) : CPPType → CPPType → Bool → Conversion → CPPType → Prop
  | integralPromotion {P A B} (hP : isCPPIntegerType P) (hA : isCPPIntegerType A)
      (hne : eqType (utype P) (utype A) = false) (hpromote : promotesTo env P A) :
      SCS2Rule env P A B (.integralPromotion P A) A
  | enumPromotion {P A B} (hP : isCPPIntegerType P) (hA : isCPPUnscopedEnumType A)
      (hne : eqType (utype P) (utype A) = false) (hpromote : promotesTo env P A) :
      SCS2Rule env P A B (.integralPromotion P A) A
  | floatingPromotion {P A B} (hP : P.simpleType = .floating .double) (hA : A.simpleType = .floating .float) :
      SCS2Rule env P A B .floatingPromotion P
  | integralConversion {P A B} (hP : isCPPIntegerType P) (hA : isCPPIntegerType A)
      (hne : eqType (utype P) (utype A) = false) (hpromote : promotesTo env P A = false)
      (hbool : isCPPBoolType P = false) :
      SCS2Rule env P A B .integralConversion P
  | enumConversion {P A B} (hP : isCPPIntegerType P) (hA : isCPPUnscopedEnumType A)
      (hne : eqType (utype P) (utype A) = false) (hpromote : promotesTo env P A = false)
      (hbool : isCPPBoolType P = false) :
      SCS2Rule env P A B .integralConversion P
  | floatingConversion {P A B} (hP : isCPPFloatingType P) (hA : isCPPFloatingType A)
      -- both sides of the guard are the parameter
      (hguard : ¬ (P.simpleType = .floating .double ∧ P.simpleType = .floating .float)) :
      SCS2Rule env P A B .floatingConversion P
  | integralFloating {P A B} (hP : isCPPIntegerType P) (hA : isCPPFloatingType A) :
      SCS2Rule env P A B .floatingIntegralConversion P
  | floatingIntegral {P A B} (hP : isCPPFloatingType P) (hA : isCPPIntegerType A) :
      SCS2Rule env P A B .floatingIntegralConversion P
  | floatingEnum {P A B} (hP : isCPPFloatingType P) (hA : isCPPUnscopedEnumType A) :
      SCS2Rule env P A B .floatingIntegralConversion P
  | pointerInteger {P A B} (hP : isCPPPointerType P) (hA : isCPPIntegerType A) :
      SCS2Rule env P A B (.pointerConversion P A) P
  | pointerNullptr {P A B} (hP : isCPPPointerType P) (hA : isCPPNullPtrTType A) :
      SCS2Rule env P A B (.pointerConversion P A) P
  | nullptrInteger {P A B} (hP : isCPPNullPtrTType P) (hA : isCPPIntegerType A) :
      SCS2Rule env P A B (.pointerConversion P A) P
  | pointerVoid {qP mP q m Q Mods Q' Mods' st B}
      (hne : isSimilar (utype (.t qP mP (.pointerType (.t q m .void))))
        (utype (.t Q Mods (.pointerType (.t Q' Mods' st)))) = false) :
      SCS2Rule env (.t qP mP (.pointerType (.t q m .void))) (.t Q Mods (.pointerType (.t Q' Mods' st))) B
        (.pointerConversion (.t qP mP (.pointerType (.t q m .void))) (.t Q Mods (.pointerType (.t Q' Mods' st))))
        (.t Q Mods (.pointerType (.t Q' Mods' .void)))
  | pointerClass {qP mP q m T Q Mods Q' Mods' D B} (hne : CPPType.t q m (.classType T) ≠ .t Q' Mods' (.classType D))
      (hbase : env.IsBaseClassType (.t q m (.classType T)) (.t Q' Mods' (.classType D))) :
      SCS2Rule env (.t qP mP (.pointerType (.t q m (.classType T))))
        (.t Q Mods (.pointerType (.t Q' Mods' (.classType D)))) B
        (.pointerConversion (.t qP mP (.pointerType (.t q m (.classType T))))
          (.t Q Mods (.pointerType (.t Q' Mods' (.classType D)))))
        (.t Q Mods (.pointerType (.t Q' Mods' (.classType T))))
  | memberPointerInteger {P A B} (hP : isCPPMemberPointerType P) (hA : isCPPIntegerType A) :
      SCS2Rule env P A B (.memberPointerConversion P A) P
  | memberPointerNullptr {P A B} (hP : isCPPMemberPointerType P) (hA : isCPPNullPtrTType A) :
      SCS2Rule env P A B (.memberPointerConversion P A) P
  | memberPointerClass {qP mP D q m T Q Mods C Q' Mods' B} (hD : isCPPClassType D) (hC : isCPPClassType C)
      (hne : C ≠ D) (hbase : env.IsBaseClassType C D) :
      SCS2Rule env (.t qP mP (.memberPointerType D (.t q m T))) (.t Q Mods (.memberPointerType C (.t Q' Mods' T))) B
        (.memberPointerConversion (.t qP mP (.memberPointerType D (.t q m T)))
          (.t Q Mods (.memberPointerType C (.t Q' Mods' T))))
        (.t Q Mods (.memberPointerType D (.t Q' Mods' T)))
  | booleanInteger {P A B} (hP : isCPPBoolType P) (hA : isCPPIntegerType A)
      (hne : eqType (utype P) (utype A) = false) :
      SCS2Rule env P A B (.booleanConversion A) P
  | booleanEnum {P A B} (hP : isCPPBoolType P) (hA : isCPPUnscopedEnumType A) :
      SCS2Rule env P A B (.booleanConversion A) P
  | booleanPointer {P A B} (hP : isCPPBoolType P) (hA : isCPPPointerType A) :
      SCS2Rule env P A B (.booleanConversion A) P
  | booleanMemberPointer {P A B} (hP : isCPPBoolType P) (hA : isCPPMemberPointerType A) :
      SCS2Rule env P A B (.booleanConversion A) P
  | identity {P A B} (h : isSimilar (utype P) (utype A)) : SCS2Rule env P A B .identity A
  | derivedToBase {P A} (hP : isCPPClassType P) (hA : isCPPClassType A) (hne : eqType (utype P) (utype A) = false)
      (hbase : env.IsBaseClassType P A) :
      SCS2Rule env P A true (.derivedToBaseConversion P A) A

/-- `computeSCS2(C, P, A, B)` rewrites to the sequence. -/
inductive ComputeSCS2 (env : Env) (C : Conversion) (P A : CPPType) (B : Bool) : ConversionSequence → Prop
  | rule {C2 A'} (h : SCS2Rule env P A B C2 A') : ComputeSCS2 env C P A B (computeSCS3 C C2 P A')
  | owise (h : ∀ C2 A', ¬ SCS2Rule env P A B C2 A') : ComputeSCS2 env C P A B .cannotConvert

/-! ## The conversion that is meant -/

/-- The argument, with what the parameter points to: a rule for two pointers has brought the types pointed to
    together, and left qualifiers to the third conversion. -/
def repoint : CPPType → CPPType → CPPType
  | .t _ _ (.pointerType (.t _ _ st)), .t Q Mods (.pointerType (.t Q' Mods' _)) =>
    .t Q Mods (.pointerType (.t Q' Mods' st))
  | .t _ _ (.memberPointerType D _), .t Q Mods (.memberPointerType _ T) => .t Q Mods (.memberPointerType D T)
  | P, _ => P

/-- The second conversion of the types, if there is one, and the argument after it. -/
def secondConversion (env : Env) (P A : CPPType) : Conversion × CPPType :=
  if isSimilar (utype P) (utype A) then (.identity, A)
  else match P.kind, A.kind with
    | .bool, .floating => (.floatingIntegralConversion, P)
    | .bool, _ => (.booleanConversion A, P)
    | .integer, .floating => (.floatingIntegralConversion, P)
    | .integer, _ => if promotesTo env P A then (.integralPromotion P A, A) else (.integralConversion, P)
    | .floating, .floating =>
      if P.simpleType = .floating .double ∧ A.simpleType = .floating .float then (.floatingPromotion, P)
      else (.floatingConversion, P)
    | .floating, _ => (.floatingIntegralConversion, P)
    | .memberPointer, _ => (.memberPointerConversion P A, repoint P A)
    | .classType, _ => (.derivedToBaseConversion P A, A)
    | _, _ => (.pointerConversion P A, repoint P A)

/-- Where two rules give two conversions. -/
inductive Overlap (env : Env) : CPPType → CPPType → Prop
  | double {P A} (hP : P.simpleType = .floating .double) (hA : A.simpleType = .floating .float) : Overlap env P A
  | floating {P A f} (hP : P.simpleType = .floating f) (hA : A.simpleType = .floating f) : Overlap env P A
  | bool {P A} (hP : isCPPBoolType P) (hA : isCPPUnscopedEnumType A) (hpromote : promotesTo env P A) : Overlap env P A
  | pointer {qP mP q m X Q Mods Q' Mods'} (hne : (q, m) ≠ (Q', Mods')) (hle : leQuals Q' q) :
      Overlap env (.t qP mP (.pointerType (.t q m (.classType X)))) (.t Q Mods (.pointerType (.t Q' Mods' (.classType X))))
  | memberPointer {qP mP qX mD X q m T Q Mods mC Q' Mods'} (hne : mC ≠ mD) (hle : leQuals Q' q)
      (hsim : isSimilar (.t q m T) (.t Q' Mods' T)) :
      Overlap env (.t qP mP (.memberPointerType (.t qX mD (.classType X)) (.t q m T)))
        (.t Q Mods (.memberPointerType (.t qX mC (.classType X)) (.t Q' Mods' T)))

/-! ### Promotion -/

section Promotion

variable {env : Env}

theorem kind_firstBroader {st : CPPSimpleType} {T : CPPType} {is : List CPPSimpleIntegerType}
    (hT : T.kind = .integer) (his : ∀ i ∈ is, i ≠ .bool) : (firstBroader env st T is).kind = .integer := by
  induction is with
  | nil => exact hT
  | cons i is ih =>
    rw [firstBroader]
    split
    · exact CPPSimpleIntegerType.kind_eq_integer.mpr (his i List.mem_cons_self)
    · exact ih fun j hj => his j (List.mem_cons_of_mem i hj)

/-- An integer type is never promoted to `bool`. -/
theorem kind_promote {T : CPPType} (hT : T.kind = .integer) : (promote env T).kind = .integer := by
  obtain ⟨q, m, st⟩ := T
  cases st with
  | integer i =>
    have hi : i ≠ .bool := CPPSimpleIntegerType.kind_eq_integer.mp hT
    rw [promote]
    split
    · rfl
    · split
      · refine kind_firstBroader ?_ (by decide)
        show i.underlyingType.kind = .integer
        revert hi
        cases i <;> decide
      · split
        · exact kind_firstBroader rfl (by decide)
        · exact hT
  | bitfieldType i n =>
    rw [promote]
    exact kind_firstBroader hT (by decide)
  | _ => simp [CPPType.kind, CPPType.simpleType, CPPSimpleType.kind] at hT

/-- So only an enumeration has a promotion to `bool`. -/
theorem not_promotesTo_bool {P A : CPPType} (hP : P.kind = .bool) (hA : A.kind = .integer) :
    promotesTo env P A = false := by
  have hne : ∀ T : CPPType, T.kind = .integer → eqType T P = false := by
    intro T hT
    rw [Bool.eq_false_iff]
    intro h
    have hkind := congrArg CPPType.kind (eqType_iff.mp h)
    rw [kind_stripType, kind_stripType, hT, hP] at hkind
    exact absurd hkind (by decide)
  unfold promotesTo
  rw [hne _ (kind_promote hA), hne _ (kind_promote (kind_promote hA))]
  rfl

end Promotion

/-! ### Qualifiers -/

@[simp] theorem leQuals_refl (q : Quals) : leQuals q q = true := by
  simp [leQuals]

theorem getDifferentCVOffset_self (L : List Quals) (idx res : Int) : getDifferentCVOffset L L idx res = res := by
  induction L generalizing idx with
  | nil => rw [getDifferentCVOffset]; simp
  | cons q L ih => rw [getDifferentCVOffset, if_pos rfl, ih]

theorem computeLeQualSig_self (L : List Quals) {j k : Int} (hjk : j ≤ k) : computeLeQualSig L L j k = true := by
  induction L generalizing k with
  | nil => rfl
  | cons q L ih => rw [computeLeQualSig, leQuals_refl, decide_eq_true hjk, ih (by omega)]; simp

/-- The qualifiers of the type itself do not count. -/
theorem leQualSig_cons (Q qP : Quals) (L : List Quals) : leQualSig (Q :: L) (qP :: L) = true := by
  rw [leQualSig, getDifferentCVOffset, ite_self, getDifferentCVOffset_self, computeLeQualSig,
    computeLeQualSig_self L (by omega)]
  rfl

/-- One level below they do. -/
theorem leQualSig_cons_cons (Q qP Q' q : Quals) (L : List Quals) :
    leQualSig (Q :: Q' :: L) (qP :: q :: L) = leQuals Q' q := by
  have hoffset : getDifferentCVOffset (Q :: Q' :: L) (qP :: q :: L) 0 0 ≤ 1 := by
    rw [getDifferentCVOffset, ite_self, getDifferentCVOffset, getDifferentCVOffset_self]
    split <;> omega
  rw [leQualSig]
  generalize getDifferentCVOffset (Q :: Q' :: L) (qP :: q :: L) 0 0 = j at hoffset
  rw [computeLeQualSig, computeLeQualSig, computeLeQualSig_self L (by omega)]
  simp [hoffset]

/-- Types that are the same but for their own qualifiers. -/
theorem leQualSig_of_eqType {P A : CPPType} (h : eqType (utype P) (utype A) = true) :
    leQualSig (cvQualificationSignature A) (cvQualificationSignature P) = true := by
  obtain ⟨qP, mP, stP⟩ := P
  obtain ⟨qA, mA, stA⟩ := A
  have hsig := congrArg cvQualificationSignature (eqType_iff.mp h)
  rw [cvQualificationSignature_stripType, cvQualificationSignature_stripType] at hsig
  simp only [utype, cvQualificationSignature_eq, List.cons.injEq, true_and] at hsig
  rw [cvQualificationSignature_eq, cvQualificationSignature_eq, hsig]
  exact leQualSig_cons qA qP _

/-- The third conversion. -/
def thirdConversion (P A : CPPType) : Conversion :=
  if cvQualificationSignature P = cvQualificationSignature A then .identity else .qualificationConversion

theorem computeSCS3_of_le {P A : CPPType} (C1 C2 : Conversion)
    (h : leQualSig (cvQualificationSignature A) (cvQualificationSignature P) = true) :
    computeSCS3 C1 C2 P A = .standardConversionSequence C1 C2 (thirdConversion P A) false P := by
  unfold computeSCS3 thirdConversion
  by_cases heq : cvQualificationSignature P = cvQualificationSignature A
  · rw [if_pos heq, if_pos heq]
  · rw [if_neg heq, if_neg heq, if_pos h]

theorem computeSCS3_of_not_le {P A : CPPType} (C1 C2 : Conversion)
    (h : leQualSig (cvQualificationSignature A) (cvQualificationSignature P) = false) :
    computeSCS3 C1 C2 P A = .cannotConvert := by
  unfold computeSCS3
  split
  · rename_i heq
    obtain ⟨q, m, st⟩ := A
    rw [heq, cvQualificationSignature_eq, leQualSig_cons] at h
    exact absurd h (by decide)
  · rw [if_neg (by simp [h])]

/-- Another second conversion is another sequence. -/
theorem computeSCS3_ne {P A A' : CPPType} (C : Conversion) {C2 C2' : Conversion} (hne : C2 ≠ C2')
    (h : leQualSig (cvQualificationSignature A) (cvQualificationSignature P) = true) :
    computeSCS3 C C2 P A ≠ computeSCS3 C C2' P A' := by
  rw [computeSCS3_of_le C C2 h]
  cases h' : leQualSig (cvQualificationSignature A') (cvQualificationSignature P) with
  | true =>
    rw [computeSCS3_of_le C C2' h']
    intro heq
    injection heq with _ hC2
    exact hne hC2
  | false =>
    rw [computeSCS3_of_not_le C C2' h']
    intro heq
    injection heq

/-! ## Which rule applies -/

section Rules

variable {env : Env} {P A : CPPType} {B : Bool}

theorem isSimilar_eq_false_of_kind (h : P.kind ≠ A.kind) : isSimilar (utype P) (utype A) = false := by
  rw [Bool.eq_false_iff]
  intro hsim
  have hkind := kind_eq_of_isSimilar hsim
  rw [kind_utype, kind_utype] at hkind
  exact h hkind

theorem isSimilar_eq_false_of_ne (hne : eqType (utype P) (utype A) = false) (h : P.kind ≠ .pointer)
    (h' : P.kind ≠ .memberPointer) (h'' : P.kind ≠ .other) : isSimilar (utype P) (utype A) = false := by
  rw [isSimilar_eq_eqType (by rwa [kind_utype]) (by rwa [kind_utype]) (by rwa [kind_utype]), utype_utype, utype_utype]
  exact hne

/-- `bool` is one type. -/
theorem eqType_of_bool (hP : P.kind = .bool) (hA : A.kind = .bool) : eqType (utype P) (utype A) = true := by
  have hstrip : ∀ T : CPPType, T.kind = .bool → stripType (utype T) = CPPSimpleIntegerType.bool.type := by
    intro T hT
    obtain ⟨q, m, st⟩ := T
    cases st with
    | integer i => rw [CPPSimpleIntegerType.kind_eq_bool.mp hT]; rfl
    | bitfieldType i n => rw [CPPSimpleIntegerType.kind_eq_bool.mp hT]; rfl
    | _ => simp [CPPType.kind, CPPType.simpleType, CPPSimpleType.kind] at hT
  rw [eqType_iff, hstrip P hP, hstrip A hA]

theorem kind_eq_of_simpleType {st : CPPSimpleType} (h : P.simpleType = st) : P.kind = st.kind := by
  rw [← h]
  rfl

theorem Env.eq_of_stripClass {X D : Class} (hbase : env.IsBaseClassOf X D) (h : stripClass X = stripClass D) : X = D := by
  rcases Relation.reflTransGen_iff_eq_or_transGen.mp hbase with heq | htrans
  · exact heq
  · exact absurd h (env.acyclic X D htrans)

theorem exists_floating (hP : P.kind = .floating) : ∃ f, P.simpleType = .floating f := by
  obtain ⟨q, m, st⟩ := P
  cases st with
  | floating f => exact ⟨f, rfl⟩
  | integer i => exact absurd hP (i.kind_ne (by decide) (by decide))
  | bitfieldType i n => exact absurd hP (i.kind_ne (by decide) (by decide))
  | _ => simp [CPPType.kind, CPPType.simpleType, CPPSimpleType.kind] at hP

/-- Floating types are the same when they have one name. -/
theorem eqType_of_floating {f f' : CPPSimpleFloatingType} (hP : P.simpleType = .floating f)
    (hA : A.simpleType = .floating f') : eqType (utype P) (utype A) = true ↔ f = f' := by
  obtain ⟨qP, mP, stP⟩ := P
  obtain ⟨qA, mA, stA⟩ := A
  obtain rfl : stP = .floating f := hP
  obtain rfl : stA = .floating f' := hA
  rw [eqType_iff]
  simp [utype, stripType, stripSimpleType]

theorem isSimilar_of_floating {f f' : CPPSimpleFloatingType} (hP : P.simpleType = .floating f)
    (hA : A.simpleType = .floating f') : isSimilar (utype P) (utype A) = true ↔ f = f' := by
  have hkind : (utype P).kind = .floating := by
    rw [kind_utype]
    exact kind_eq_of_simpleType hP
  rw [isSimilar_eq_eqType (by simp [hkind]) (by simp [hkind]) (by simp [hkind]), utype_utype, utype_utype]
  exact eqType_of_floating hP hA

theorem repoint_of_kind (h : A.kind ≠ .pointer) (h' : A.kind ≠ .memberPointer) : repoint P A = P := by
  unfold repoint
  split
  · exact absurd rfl h
  · exact absurd rfl h'
  · rfl

/-- Similar pointers to classes of which one is a base of the other point to one class. -/
theorem class_eq_of_isSimilar {qP Q q Q' : Quals} {mP m Mods Mods' : Finset String} {X D : Class}
    (hbase : env.IsBaseClassType (.t q m (.classType X)) (.t Q' Mods' (.classType D)))
    (hsim : isSimilar (utype (.t qP mP (.pointerType (.t q m (.classType X)))))
      (utype (.t Q Mods (.pointerType (.t Q' Mods' (.classType D))))) = true) : X = D := by
  obtain ⟨X', D', hX, hD, hbase⟩ := hbase
  obtain rfl : X = X' := by injection hX
  obtain rfl : D = D' := by injection hD
  refine Env.eq_of_stripClass hbase ?_
  simp only [utype, isSimilar] at hsim
  have heq := eqType_iff.mp hsim
  simp only [stripType, stripSimpleType, CPPType.t.injEq, CPPSimpleType.classType.injEq] at heq
  exact heq.2.2

/-- The same for pointers to members; here the qualifiers of the class count. -/
theorem memberClass_eq_of_isSimilar {qP Q q Q' : Quals} {mP m Mods Mods' : Finset String} {C D : CPPType}
    {T T' : CPPSimpleType} (hbase : env.IsBaseClassType C D)
    (hsim : isSimilar (utype (.t qP mP (.memberPointerType D (.t q m T))))
      (utype (.t Q Mods (.memberPointerType C (.t Q' Mods' T')))) = true) :
    (∃ X qX mD mC, D = .t qX mD (.classType X) ∧ C = .t qX mC (.classType X)) ∧
      isSimilar (.t q m T) (.t Q' Mods' T') = true := by
  obtain ⟨qC, mC, stC⟩ := C
  obtain ⟨qD, mD, stD⟩ := D
  obtain ⟨X, Y, hX, hY, hbase⟩ := hbase
  obtain rfl : stC = .classType X := hX
  obtain rfl : stD = .classType Y := hY
  simp only [utype, isSimilar, Bool.and_eq_true] at hsim
  have heq := eqType_iff.mp hsim.1
  simp only [stripType, stripSimpleType, CPPType.t.injEq, CPPSimpleType.classType.injEq, true_and] at heq
  obtain rfl := Env.eq_of_stripClass hbase heq.2.symm
  exact ⟨⟨X, qD, mD, mC, rfl, by rw [heq.1]⟩, hsim.2⟩

/-- **The rules agree with `secondConversion`**, but where they overlap. -/
theorem SCS2Rule.secondConversion_eq {C2 : Conversion} {A' : CPPType} (h : SCS2Rule env P A B C2 A')
    (hno : ¬ Overlap env P A) (C : Conversion) :
    computeSCS3 C C2 P A' = computeSCS3 C (secondConversion env P A).1 P (secondConversion env P A).2 := by
  cases h with
  | integralPromotion hP hA hne hpromote =>
    rcases isCPPIntegerType_iff.mp hP with hP | hP
    · have hsim := isSimilar_eq_false_of_ne hne (by simp [hP]) (by simp [hP]) (by simp [hP])
      rcases isCPPIntegerType_iff.mp hA with hA | hA <;> simp [secondConversion, hsim, hP, hA, hpromote]
    · rcases isCPPIntegerType_iff.mp hA with hA | hA
      · rw [not_promotesTo_bool hP hA] at hpromote
        exact absurd hpromote (by decide)
      · rw [eqType_of_bool hP hA] at hne
        exact absurd hne (by decide)
  | enumPromotion hP hA hne hpromote =>
    rcases isCPPIntegerType_iff.mp hP with hP | hP
    · have hsim := isSimilar_eq_false_of_ne hne (by simp [hP]) (by simp [hP]) (by simp [hP])
      simp [secondConversion, hsim, hP, isCPPUnscopedEnumType_iff.mp hA, hpromote]
    · exact absurd (.bool (isCPPBoolType_iff.mpr hP) hA hpromote) hno
  | floatingPromotion hP hA => exact absurd (.double hP hA) hno
  | integralConversion hP hA hne hpromote hbool =>
    rcases isCPPIntegerType_iff.mp hP with hP | hP
    · have hsim := isSimilar_eq_false_of_ne hne (by simp [hP]) (by simp [hP]) (by simp [hP])
      rcases isCPPIntegerType_iff.mp hA with hA | hA <;> simp [secondConversion, hsim, hP, hA, hpromote]
    · rw [isCPPBoolType_iff.mpr hP] at hbool
      exact absurd hbool (by decide)
  | enumConversion hP hA hne hpromote hbool =>
    rcases isCPPIntegerType_iff.mp hP with hP | hP
    · have hsim := isSimilar_eq_false_of_ne hne (by simp [hP]) (by simp [hP]) (by simp [hP])
      simp [secondConversion, hsim, hP, isCPPUnscopedEnumType_iff.mp hA, hpromote]
    · rw [isCPPBoolType_iff.mpr hP] at hbool
      exact absurd hbool (by decide)
  | floatingConversion hP hA hguard =>
    obtain ⟨f, hf⟩ := exists_floating (isCPPFloatingType_iff.mp hP)
    obtain ⟨f', hf'⟩ := exists_floating (isCPPFloatingType_iff.mp hA)
    have hsim : isSimilar (utype P) (utype A) = false := by
      rw [Bool.eq_false_iff]
      intro hsim
      obtain rfl := (isSimilar_of_floating hf hf').mp hsim
      exact hno (.floating hf hf')
    have hdouble : ¬ (P.simpleType = .floating .double ∧ A.simpleType = .floating .float) := by
      rintro ⟨hP, hA⟩
      exact hno (.double hP hA)
    simp [secondConversion, hsim, isCPPFloatingType_iff.mp hP, isCPPFloatingType_iff.mp hA, hdouble]
  | integralFloating hP hA =>
    have hA := isCPPFloatingType_iff.mp hA
    rcases isCPPIntegerType_iff.mp hP with hP | hP <;>
      simp [secondConversion, isSimilar_eq_false_of_kind, hP, hA]
  | floatingIntegral hP hA =>
    have hP := isCPPFloatingType_iff.mp hP
    rcases isCPPIntegerType_iff.mp hA with hA | hA <;>
      simp [secondConversion, isSimilar_eq_false_of_kind, hP, hA]
  | floatingEnum hP hA =>
    simp [secondConversion, isSimilar_eq_false_of_kind, isCPPFloatingType_iff.mp hP, isCPPUnscopedEnumType_iff.mp hA]
  | pointerInteger hP hA =>
    have hP := isCPPPointerType_iff.mp hP
    rcases isCPPIntegerType_iff.mp hA with hA | hA <;>
      simp [secondConversion, isSimilar_eq_false_of_kind, repoint_of_kind, hP, hA]
  | pointerNullptr hP hA =>
    have hP := isCPPPointerType_iff.mp hP
    have hA := isCPPNullPtrTType_iff.mp hA
    simp [secondConversion, isSimilar_eq_false_of_kind, repoint_of_kind, hP, hA]
  | nullptrInteger hP hA =>
    have hP := isCPPNullPtrTType_iff.mp hP
    rcases isCPPIntegerType_iff.mp hA with hA | hA <;>
      simp [secondConversion, isSimilar_eq_false_of_kind, repoint_of_kind, hP, hA]
  | pointerVoid hne =>
    rw [secondConversion, if_neg (by simp [hne])]
    rfl
  | pointerClass hne hbase =>
    rename_i qP mP q m X Q Mods Q' Mods' D
    cases hsim : isSimilar (utype (.t qP mP (.pointerType (.t q m (.classType X)))))
        (utype (.t Q Mods (.pointerType (.t Q' Mods' (.classType D))))) with
    | false =>
      rw [secondConversion, if_neg (by simp [hsim])]
      rfl
    | true =>
      obtain rfl := class_eq_of_isSimilar hbase hsim
      have hle : leQuals Q' q = false := by
        rw [Bool.eq_false_iff]
        intro hle
        refine hno (.pointer ?_ hle)
        intro heq
        injection heq with hq hm
        exact hne (by rw [hq, hm])
      rw [computeSCS3_of_not_le, computeSCS3_of_not_le]
      · rw [secondConversion, if_pos hsim]
        exact (leQualSig_cons_cons _ _ _ _ _).trans hle
      · exact (leQualSig_cons_cons _ _ _ _ _).trans hle
  | memberPointerInteger hP hA =>
    have hP := isCPPMemberPointerType_iff.mp hP
    rcases isCPPIntegerType_iff.mp hA with hA | hA <;>
      simp [secondConversion, isSimilar_eq_false_of_kind, repoint_of_kind, hP, hA]
  | memberPointerNullptr hP hA =>
    have hP := isCPPMemberPointerType_iff.mp hP
    have hA := isCPPNullPtrTType_iff.mp hA
    simp [secondConversion, isSimilar_eq_false_of_kind, repoint_of_kind, hP, hA]
  | memberPointerClass hD hC hne hbase =>
    rename_i qP mP D q m T Q Mods C' Q' Mods'
    cases hsim : isSimilar (utype (.t qP mP (.memberPointerType D (.t q m T))))
        (utype (.t Q Mods (.memberPointerType C' (.t Q' Mods' T)))) with
    | false =>
      rw [secondConversion, if_neg (by simp [hsim])]
      rfl
    | true =>
      obtain ⟨⟨X, qX, mD, mC, rfl, rfl⟩, hsimT⟩ := memberClass_eq_of_isSimilar hbase hsim
      have hle : leQuals Q' q = false := by
        rw [Bool.eq_false_iff]
        intro hle
        refine hno (.memberPointer ?_ hle hsimT)
        intro hm
        exact hne (by rw [hm])
      have hsig : ∀ D' : CPPType, leQualSig (cvQualificationSignature (.t Q Mods (.memberPointerType D' (.t Q' Mods' T))))
          (cvQualificationSignature (.t qP mP (.memberPointerType (.t qX mD (.classType X)) (.t q m T)))) = false := by
        intro D'
        rw [cvQualificationSignature, cvQualificationSignature, cvQualificationSignature_eq,
          cvQualificationSignature_eq, leQualSig_cons_cons, hle]
      rw [computeSCS3_of_not_le _ _ (hsig _), secondConversion, if_pos hsim, computeSCS3_of_not_le _ _ (hsig _)]
  | booleanInteger hP hA hne =>
    have hP := isCPPBoolType_iff.mp hP
    rcases isCPPIntegerType_iff.mp hA with hA | hA
    · simp [secondConversion, isSimilar_eq_false_of_kind, hP, hA]
    · rw [eqType_of_bool hP hA] at hne
      exact absurd hne (by decide)
  | booleanEnum hP hA =>
    simp [secondConversion, isSimilar_eq_false_of_kind, isCPPBoolType_iff.mp hP, isCPPUnscopedEnumType_iff.mp hA]
  | booleanPointer hP hA =>
    simp [secondConversion, isSimilar_eq_false_of_kind, isCPPBoolType_iff.mp hP, isCPPPointerType_iff.mp hA]
  | booleanMemberPointer hP hA =>
    simp [secondConversion, isSimilar_eq_false_of_kind, isCPPBoolType_iff.mp hP, isCPPMemberPointerType_iff.mp hA]
  | identity h =>
    rw [secondConversion, if_pos h]
  | derivedToBase hP hA hne hbase =>
    have hP := isCPPClassType_iff.mp hP
    have hsim := isSimilar_eq_false_of_ne hne (by simp [hP]) (by simp [hP]) (by simp [hP])
    simp [secondConversion, hsim, hP]

theorem ComputeSCS2.exists_sequence (C : Conversion) : ∃ S, ComputeSCS2 env C P A B S := by
  by_cases h : ∃ C2 A', SCS2Rule env P A B C2 A'
  · obtain ⟨C2, A', h⟩ := h
    exact ⟨_, .rule h⟩
  · exact ⟨.cannotConvert, .owise fun C2 A' h' => h ⟨C2, A', h'⟩⟩

/-- Where the rules do not overlap, one that applies gives the sequence. -/
theorem SCS2Rule.unique {C C2 : Conversion} {A' : CPPType} (h : SCS2Rule env P A B C2 A')
    (hno : ¬ Overlap env P A) {S : ConversionSequence} (hS : ComputeSCS2 env C P A B S) :
    S = computeSCS3 C C2 P A' := by
  cases hS with
  | rule h' => rw [h'.secondConversion_eq hno, h.secondConversion_eq hno]
  | owise h' => exact absurd h (h' C2 A')

/-- **Two rules give two sequences** where they overlap. -/
theorem Overlap.exists_two (h : Overlap env P A) (C : Conversion) :
    ∃ S1 S2, ComputeSCS2 env C P A B S1 ∧ ComputeSCS2 env C P A B S2 ∧ S1 ≠ S2 := by
  have htwo : ∀ {C2 C2' A1 A2}, SCS2Rule env P A B C2 A1 → SCS2Rule env P A B C2' A2 → C2 ≠ C2' →
      leQualSig (cvQualificationSignature A1) (cvQualificationSignature P) = true →
      ∃ S1 S2, ComputeSCS2 env C P A B S1 ∧ ComputeSCS2 env C P A B S2 ∧ S1 ≠ S2 := by
    intro C2 C2' A1 A2 h1 h2 hne hle
    exact ⟨_, _, .rule h1, .rule h2, computeSCS3_ne C hne hle⟩
  have hself : leQualSig (cvQualificationSignature P) (cvQualificationSignature P) = true := by
    obtain ⟨q, m, st⟩ := P
    rw [cvQualificationSignature_eq]
    exact leQualSig_cons q q _
  have hfloating : ∀ {T : CPPType} {f}, T.simpleType = .floating f → isCPPFloatingType T = true := by
    intro T f hT
    exact isCPPFloatingType_iff.mpr (kind_eq_of_simpleType hT)
  cases h with
  | double hP hA =>
    refine htwo (.floatingPromotion hP hA) (.floatingConversion (hfloating hP) (hfloating hA) ?_) (by decide) hself
    simp [hP]
  | floating hP hA =>
    refine htwo (.floatingConversion (hfloating hP) (hfloating hA) ?_)
      (.identity ((isSimilar_of_floating hP hA).mpr rfl)) (by decide) hself
    rw [hP]
    rintro ⟨hdouble, hfloat⟩
    exact absurd (hdouble.symm.trans hfloat) (by decide)
  | bool hP hA hpromote =>
    have hne : eqType (utype P) (utype A) = false := by
      rw [Bool.eq_false_iff]
      intro heq
      have hkind := kind_eq_of_eqType heq
      rw [kind_utype, kind_utype, isCPPBoolType_iff.mp hP, isCPPUnscopedEnumType_iff.mp hA] at hkind
      exact absurd hkind (by decide)
    refine htwo (.booleanEnum hP hA) (.enumPromotion ?_ hA hne hpromote) (by simp) hself
    exact isCPPIntegerType_iff.mpr (.inr (isCPPBoolType_iff.mp hP))
  | pointer hne hle =>
    refine htwo (.pointerClass ?_ ⟨_, _, rfl, rfl, .refl⟩) (.identity ?_) (by simp) ?_
    · intro heq
      injection heq with hq hm
      exact hne (by rw [hq, hm])
    · simp [utype, isSimilar, eqType_iff, stripType]
    · exact (leQualSig_cons_cons _ _ _ _ _).trans hle
  | memberPointer hne hle hsim =>
    refine htwo (.memberPointerClass rfl rfl ?_ ⟨_, _, rfl, rfl, .refl⟩) (.identity ?_) (by simp) ?_
    · intro heq
      injection heq with _ hm
      exact hne hm
    · rw [utype, utype, isSimilar, Bool.and_eq_true]
      exact ⟨eqType_iff.mpr rfl, hsim⟩
    · rw [cvQualificationSignature, cvQualificationSignature, cvQualificationSignature_eq,
        cvQualificationSignature_eq, leQualSig_cons_cons, hle]

end Rules

/-- **`computeSCS2` is single-valued exactly where its rules do not overlap**; there, types that are the same but
    for their own qualifiers have an exact match, `float` to `double` is a promotion, and other floating types
    that differ are converted. -/
theorem computeSCS2_singleValued_iff (env : Env) (C : Conversion) (P A : CPPType) (B : Bool) :
    ((∀ S1 S2, ComputeSCS2 env C P A B S1 → ComputeSCS2 env C P A B S2 → S1 = S2) ∧
      (eqType (utype P) (utype A) = true → ∃ C3, (C3 = .identity ∨ C3 = .qualificationConversion) ∧
        ∀ S, ComputeSCS2 env C P A B S ↔ S = .standardConversionSequence C .identity C3 false P) ∧
      (P.simpleType = .floating .double → A.simpleType = .floating .float →
        ∀ S, ComputeSCS2 env C P A B S ↔ S = .standardConversionSequence C .floatingPromotion .identity false P) ∧
      (∀ f f', P.simpleType = .floating f → A.simpleType = .floating f' → f ≠ f' → (f, f') ≠ (.double, .float) →
        ∀ S, ComputeSCS2 env C P A B S ↔ S = .standardConversionSequence C .floatingConversion .identity false P)) ↔
      ¬ Overlap env P A := by
  constructor
  · rintro ⟨hsingle, -⟩ hoverlap
    obtain ⟨S1, S2, h1, h2, hne⟩ := hoverlap.exists_two (B := B) C
    exact hne (hsingle S1 S2 h1 h2)
  · intro hno
    -- a rule that applies gives the sequence, and no other rule gives another
    have hrule : ∀ {C2 A'}, SCS2Rule env P A B C2 A' → ∀ S, ComputeSCS2 env C P A B S ↔ S = computeSCS3 C C2 P A' := by
      intro C2 A' h S
      constructor
      · intro hS
        exact h.unique hno hS
      · intro hS
        rw [hS]
        exact .rule h
    refine ⟨?_, ?_, ?_, ?_⟩
    · intro S1 S2 h1 h2
      cases h1 with
      | rule h => exact (h.unique hno h2).symm
      | owise h =>
        cases h2 with
        | rule h' => exact absurd h' (h _ _)
        | owise h' => rfl
    · intro heq
      refine ⟨thirdConversion P A, ?_, ?_⟩
      · unfold thirdConversion
        split
        · exact .inl rfl
        · exact .inr rfl
      · intro S
        have hsim : isSimilar (utype P) (utype A) = true := isSimilar_of_stripType (eqType_iff.mp heq)
        rw [hrule (.identity hsim) S, computeSCS3_of_le C .identity (leQualSig_of_eqType heq)]
    · intro hP hA
      exact absurd (.double hP hA) hno
    · intro f f' hP hA hne hpair S
      have hconv : SCS2Rule env P A B .floatingConversion P := by
        refine .floatingConversion (isCPPFloatingType_iff.mpr (kind_eq_of_simpleType hP))
          (isCPPFloatingType_iff.mpr (kind_eq_of_simpleType hA)) ?_
        rw [hP]
        rintro ⟨hdouble, hfloat⟩
        exact absurd (hdouble.symm.trans hfloat) (by decide)
      rw [hrule hconv S, computeSCS3, if_pos rfl]

/-- `void f(double); f(1.0f);`: the conversion of a float has two sequences. -/
theorem computeSCS2_float_double :
    ∃ (env : Env) (S1 S2 : ConversionSequence),
      ComputeSCS2 env .lvalueConversion (CPPSimpleType.floating .double).type (CPPSimpleType.floating .float).type true S1 ∧
      ComputeSCS2 env .lvalueConversion (CPPSimpleType.floating .double).type (CPPSimpleType.floating .float).type true S2 ∧
      S1 ≠ S2 := by
  refine ⟨⟨x86GccLimitedLibc, fun _ => (0, 0), fun _ => [], ?_⟩, ?_⟩
  · intro X D h
    obtain ⟨_, _, h⟩ := Relation.TransGen.tail'_iff.mp h
    simp at h
  · exact ⟨_, _, .rule (.floatingPromotion rfl rfl), .rule (.floatingConversion rfl rfl (by decide)), by decide⟩

end CSemantics.Cpp
