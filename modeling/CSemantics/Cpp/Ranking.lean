/-
  Ranking of conversion sequences.

  `C1 >CS C2` is a list of rules that say true, and false where none applies.  Between standard sequences they
  are of four sorts: by the conversions themselves (`GtConversions`), by the kind of reference that is bound
  (`GtReferenceKind`), and by qualifiers, of parameters and of types referred to.

  The second conversions of ONE argument are compared by what lies BETWEEN a base class and the class of the
  argument (`Better`).  This is transitive and asymmetric, but two pointers to one base class with different
  qualifiers are each nearer to the derived class than the other (`ConvClash`).
-/
import CSemantics.Cpp.ImplicitConversion

namespace CSemantics.Cpp

/-! ## The relation -/

/-- `form`; what cannot be converted has none. -/
def form : ConversionSequence → Option Nat
  | .ellipsisConversionSequence => some 1
  | .userDefinedConversionSequence _ _ _ _ => some 2
  | .ambiguousConversionSequence => some 2
  | .standardConversionSequence _ _ _ _ _ => some 3
  | .listInitSequence _ CS => form CS
  | .cannotConvert => none

def Conversion.rank : Conversion → Nat
  -- exact match
  | .identity | .lvalueConversion | .arrayConversion | .functionConversion | .qualificationConversion => 3
  -- promotion
  | .integralPromotion _ _ | .floatingPromotion => 2
  -- conversion
  | .integralConversion | .floatingConversion | .floatingIntegralConversion | .pointerConversion _ _ => 1
  | .memberPointerConversion _ _ | .booleanConversion _ | .derivedToBaseConversion _ _ => 1

/-- A standard conversion sequence. -/
structure Standard where
  C1 : Conversion
  C2 : Conversion
  C3 : Conversion
  isNonStaticRefNone : Bool
  param : CPPType

def Standard.sequence (s : Standard) : ConversionSequence :=
  .standardConversionSequence s.C1 s.C2 s.C3 s.isNonStaticRefNone s.param

def Standard.rank (s : Standard) : Nat := min s.C1.rank (min s.C2.rank s.C3.rank)

def isPointerLike (A : CPPType) : Bool := isCPPPointerType A || isCPPMemberPointerType A || isCPPNullPtrTType A

section Relation

variable (env : Env)

/-- `C1 >Conv C2` -/
inductive GtConv : Conversion → Conversion → Prop
  | boolean {A1 A2} (h1 : isPointerLike A1 = false) (h2 : isPointerLike A2) :
      GtConv (.booleanConversion A1) (.booleanConversion A2)
  | integralPromotion {P1 A1 P2 A2} (h1 : eqType (promote env A1) P1) (h2 : eqType (promote env (promote env A2)) P2)
      (hne : eqType (promote env A2) (promote env (promote env A2)) = false) :
      GtConv (.integralPromotion P1 A1) (.integralPromotion P2 A2)
  /-- A base class rather than `void`. -/
  | overVoid {P1 A1 P2 A2 A B1 B2 q m} (hP1 : P1.simpleType = .pointerType A) (hA1 : A1.simpleType = .pointerType B1)
      (hP2 : P2.simpleType = .pointerType (.t q m .void)) (hA2 : A2.simpleType = .pointerType B2)
      (hB : eqType B1 B2) (hne : eqType A B1 = false) (hbase : env.IsBaseClassType A B1) :
      GtConv (.pointerConversion P1 A1) (.pointerConversion P2 A2)
  | toVoid {P1 A1 P2 A2 A B q m q' m'} (hP1 : P1.simpleType = .pointerType (.t q m .void))
      (hA1 : A1.simpleType = .pointerType A) (hP2 : P2.simpleType = .pointerType (.t q' m' .void))
      (hA2 : A2.simpleType = .pointerType B) (hne : eqType A B = false) (hbase : env.IsBaseClassType A B) :
      GtConv (.pointerConversion P1 A1) (.pointerConversion P2 A2)
  /-- The nearer base class. -/
  | nearerBase {P1 A1 P2 A2 A B C1 C2} (hP1 : P1.simpleType = .pointerType B) (hA1 : A1.simpleType = .pointerType C1)
      (hP2 : P2.simpleType = .pointerType A) (hA2 : A2.simpleType = .pointerType C2) (hne : eqType A B = false)
      (hne' : eqType B C1 = false) (hC : eqType C1 C2) (hbase : env.IsBaseClassType A B)
      (hbase' : env.IsBaseClassType B C1) : GtConv (.pointerConversion P1 A1) (.pointerConversion P2 A2)
  /-- The nearer derived class. -/
  | nearerDerived {P1 A1 P2 A2 A1' A2' B C} (hP1 : P1.simpleType = .pointerType A1') (hA1 : A1.simpleType = .pointerType B)
      (hP2 : P2.simpleType = .pointerType A2') (hA2 : A2.simpleType = .pointerType C) (hA : eqType A1' A2')
      (hne : eqType A1' B = false) (hne' : eqType B C = false) (hbase : env.IsBaseClassType A1' B)
      (hbase' : env.IsBaseClassType B C) : GtConv (.pointerConversion P1 A1) (.pointerConversion P2 A2)
  | memberPointer {P1 A1 P2 A2 CP1 T1 CA1 U1 CP2 T2 CA2 U2} (hP1 : P1.simpleType = .memberPointerType CP1 T1)
      (hA1 : A1.simpleType = .memberPointerType CA1 U1) (hP2 : P2.simpleType = .memberPointerType CP2 T2)
      (hA2 : A2.simpleType = .memberPointerType CA2 U2)
      (h : GtConv (.pointerConversion (CPPSimpleType.pointerType CA1).type (CPPSimpleType.pointerType CP1).type)
        (.pointerConversion (CPPSimpleType.pointerType CA2).type (CPPSimpleType.pointerType CP2).type)) :
      GtConv (.memberPointerConversion P1 A1) (.memberPointerConversion P2 A2)
  | derivedToBase {P1 A1 P2 A2}
      (h : GtConv (.pointerConversion (CPPSimpleType.pointerType P1).type (CPPSimpleType.pointerType A1).type)
        (.pointerConversion (CPPSimpleType.pointerType P2).type (CPPSimpleType.pointerType A2).type)) :
      GtConv (.derivedToBaseConversion P1 A1) (.derivedToBaseConversion P2 A2)

/-- The rules for subsequences, and the rule for ranks. -/
inductive GtConversions (s t : Standard) : Prop
  | identity (h1 : s.C1 = .identity) (h2 : s.C2 = .identity) (h3 : s.C3 = .identity)
      (hne : t.C1 ≠ .identity ∨ t.C2 ≠ .identity ∨ t.C3 ≠ .identity)
  | lvalueTransformation (h2 : s.C2 = .identity) (h3 : s.C3 = .identity) (hne : t.C2 ≠ .identity ∨ t.C3 ≠ .identity)
  | conversion (h2 : s.C2 = .identity) (h3 : s.C3 = t.C3) (hne : t.C2 ≠ .identity)
  | qualification (h2 : s.C2 = t.C2) (h3 : s.C3 = .identity) (hne : t.C3 ≠ .identity)
  | rank (h : t.rank < s.rank ∨ (s.rank = t.rank ∧ GtConv env s.C2 t.C2))

/-- An rvalue reference that is bound to an rvalue. -/
structure BindsRValue (s t : Standard) : Prop where
  notFlag : s.isNonStaticRefNone = false
  notFlag' : t.isNonStaticRefNone = false
  rvalue : isCPPRVRefType s.param
  lvalue : isCPPLVRefType t.param
  notFunction : isCPPFunctionType (innerType s.param) = false

/-- An lvalue reference that is bound to a function. -/
structure BindsFunction (s t : Standard) : Prop where
  lvalue : isCPPLVRefType s.param
  rvalue : isCPPRVRefType t.param
  function : isCPPFunctionType (innerType s.param)
  function' : isCPPFunctionType (innerType t.param)

def GtReferenceKind (s t : Standard) : Prop := BindsRValue s t ∨ BindsFunction s t

/-- The parameters have different qualifiers only. -/
structure LessQualifiedParam (s t : Standard) : Prop where
  first : s.C1 = t.C1
  second : s.C2 = t.C2
  qualification : s.C3 = .qualificationConversion
  qualification' : t.C3 = .qualificationConversion
  similar : isSimilar s.param t.param
  ne : getQuals s.param ≠ getQuals t.param
  le : leQuals (getQuals s.param) (getQuals t.param)

/-- The references are to types that have different qualifiers only. -/
structure LessQualifiedReference (s t : Standard) : Prop where
  ref : isCPPRefType s.param
  ref' : isCPPRefType t.param
  same : eqType (utype (innerType s.param)) (utype (innerType t.param))
  ne : getQuals (innerType s.param) ≠ getQuals (innerType t.param)
  le : leQuals (getQuals (innerType s.param)) (getQuals (innerType t.param))

/-- `>CS`, of standard sequences. -/
inductive GtStandard (s t : Standard) : Prop
  | conversions (h : GtConversions env s t)
  | referenceKind (h : GtReferenceKind s t)
  | lessQualifiedParam (h : LessQualifiedParam s t)
  | lessQualifiedReference (h : LessQualifiedReference s t)

def isStdInitializerList (T : CPPType) : Prop :=
  ∃ Ts, T.simpleType =
    .classType (.mk (.namespace [.Identifier "std"]) .Class (.Identifier "initializer_list") Ts)

/-- `C1 >CS C2` -/
inductive GtCS : ConversionSequence → ConversionSequence → Prop
  | form {C1 C2 n1 n2} (h1 : form C1 = some n1) (h2 : form C2 = some n2) (hlt : n2 < n1) : GtCS C1 C2
  | initializerList {T1 C1 T2 C2} (h1 : isStdInitializerList T1) (h2 : ¬ isStdInitializerList T2) :
      GtCS (.listInitSequence T1 C1) (.listInitSequence T2 C2)
  | array {q m T N1 C1 q' m' N2 C2} (hlt : N1 < N2) :
      GtCS (.listInitSequence (.t q m (.arrayType T N1)) C1) (.listInitSequence (.t q' m' (.arrayType T N2)) C2)
  | listLeft {T C1 C2} (h : GtCS C1 C2) : GtCS (.listInitSequence T C1) C2
  | listRight {C1 T C2} (h : GtCS C1 C2) : GtCS C1 (.listInitSequence T C2)
  | standard {C1 C2 C3 b P C1' C2' C3' b' P'} (h : GtStandard env ⟨C1, C2, C3, b, P⟩ ⟨C1', C2', C3', b', P'⟩) :
      GtCS (.standardConversionSequence C1 C2 C3 b P) (.standardConversionSequence C1' C2' C3' b' P')
  | userDefined {CS1 X T1 U1 CS2 T2 U2} (hT : eqType T1 T2) (h : GtCS U1 U2) :
      GtCS (.userDefinedConversionSequence CS1 X T1 U1) (.userDefinedConversionSequence CS2 X T2 U2)

end Relation

/-! ## Second conversions -/

section Conv

variable {env : Env}

theorem Env.IsBaseClassOf.antisymm {X Y : Class} (h : env.IsBaseClassOf X Y) (h' : env.IsBaseClassOf Y X) : X = Y := by
  rcases Relation.reflTransGen_iff_eq_or_transGen.mp h with heq | htrans
  · exact heq
  · have hcycle : Relation.TransGen (fun D B => B ∈ env.baseClasses D) Y Y := htrans.trans_left h'
    exact absurd rfl (env.acyclic Y Y hcycle)

theorem Env.IsBaseClassType.trans {A B D : CPPType} (h : env.IsBaseClassType A B) (h' : env.IsBaseClassType B D) :
    env.IsBaseClassType A D := by
  obtain ⟨X, Y, hX, hY, hbase⟩ := h
  obtain ⟨Y', Z, hY', hZ, hbase'⟩ := h'
  obtain rfl : Y = Y' := by
    rw [hY] at hY'
    injection hY'
  exact ⟨X, Z, hX, hZ, hbase'.trans hbase⟩

/-- Base classes of each other are one class. -/
theorem Env.IsBaseClassType.antisymm {A B : CPPType} (h : env.IsBaseClassType A B) (h' : env.IsBaseClassType B A) :
    A.simpleType = B.simpleType := by
  obtain ⟨X, Y, hX, hY, hbase⟩ := h
  obtain ⟨Y', X', hY', hX', hbase'⟩ := h'
  obtain rfl : Y = Y' := by
    rw [hY] at hY'
    injection hY'
  obtain rfl : X = X' := by
    rw [hX] at hX'
    injection hX'
  rw [hX, hY, hbase.antisymm hbase']

/-- A base class that is the same type is the same class. -/
theorem Env.IsBaseClassType.simpleType_eq {A B : CPPType} (h : env.IsBaseClassType A B) (heq : eqType A B = true) :
    A.simpleType = B.simpleType := by
  obtain ⟨qA, mA, stA⟩ := A
  obtain ⟨qB, mB, stB⟩ := B
  obtain ⟨X, Y, hX, hY, hbase⟩ := h
  obtain rfl : stA = .classType X := hX
  obtain rfl : stB = .classType Y := hY
  have hstrip := eqType_iff.mp heq
  simp only [stripType, stripSimpleType, CPPType.t.injEq, CPPSimpleType.classType.injEq] at hstrip
  rw [Env.eq_of_stripClass hbase hstrip.2.2]
  rfl

/-- One class, with different qualifiers. -/
structure SameClass (X Y : CPPType) : Prop where
  isClass : isCPPClassType X
  simpleType : X.simpleType = Y.simpleType
  ne : eqType X Y = false

theorem SameClass.symm {X Y : CPPType} (h : SameClass X Y) : SameClass Y X := by
  refine ⟨?_, h.simpleType.symm, ?_⟩
  · rw [isCPPClassType_iff, kind_eq_of_simpleType h.simpleType.symm]
    exact isCPPClassType_iff.mp h.isClass
  · rw [Bool.eq_false_iff]
    intro heq
    exact absurd (eqType_symm heq) (by simp [h.ne])

theorem Env.IsBaseClassType.isClass {A B : CPPType} (h : env.IsBaseClassType A B) : isCPPClassType A = true := by
  obtain ⟨X, Y, hX, -, -⟩ := h
  rw [isCPPClassType_iff]
  exact kind_eq_of_simpleType hX

theorem Env.IsBaseClassType.of_simpleType {A A' B B' : CPPType} (h : env.IsBaseClassType A B)
    (hA : A.simpleType = A'.simpleType) (hB : B.simpleType = B'.simpleType) : env.IsBaseClassType A' B' := by
  obtain ⟨X, Y, hX, hY, hbase⟩ := h
  exact ⟨X, Y, hA ▸ hX, hB ▸ hY, hbase⟩

theorem SameClass.base {X Y : CPPType} (h : SameClass X Y) : env.IsBaseClassType X Y := by
  obtain ⟨q, m, st⟩ := X
  have hclass := h.isClass
  cases st <;> simp [isCPPClassType, CPPType.simpleType] at hclass
  rename_i K
  exact ⟨K, K, rfl, h.simpleType.symm, .refl⟩

/-- `B` is a base of `D`, and `A` of `B`, no two of them the same type. -/
structure Between (env : Env) (A B D : CPPType) : Prop where
  ne : eqType A B = false
  ne' : eqType B D = false
  base : env.IsBaseClassType A B
  base' : env.IsBaseClassType B D

/-- Two types lie between the other and `D` only when they are one class. -/
theorem Between.sameClass {A B D : CPPType} (h : Between env A B D) (h' : Between env B A D) : SameClass A B :=
  ⟨h.base.isClass, h.base.antisymm h'.base, h.ne⟩

theorem Between.trans {A B C D : CPPType} (h : Between env B C D) (h' : Between env A B D) :
    Between env A C D ∨ SameClass C B := by
  have hbase : env.IsBaseClassType A C := h'.base.trans h.base
  cases hne : eqType A C with
  | false => exact .inl ⟨hne, h.ne', hbase, h.base'⟩
  | true =>
    -- then `B` is between a class and itself
    have hAC := hbase.simpleType_eq hne
    have hCB : env.IsBaseClassType C B := h'.base.of_simpleType hAC rfl
    refine .inr (SameClass.symm ⟨h.base.isClass, h.base.antisymm hCB, h.ne⟩)

/-- The same from below. -/
theorem Between.sameClass' {A B D : CPPType} (h : Between env A B D) (h' : Between env A D B) : SameClass B D :=
  ⟨h.base'.isClass, h.base'.antisymm h'.base', h.ne'⟩

theorem Between.trans' {A B C D : CPPType} (h : Between env A B C) (h' : Between env A C D) :
    Between env A B D ∨ SameClass B C := by
  have hbase : env.IsBaseClassType B D := h.base'.trans h'.base'
  cases hne : eqType B D with
  | false => exact .inl ⟨h.ne, hne, h.base, hbase⟩
  | true =>
    have hBD := hbase.simpleType_eq hne
    have hCB : env.IsBaseClassType C B := h'.base'.of_simpleType rfl hBD.symm
    exact .inr ⟨h.base'.isClass, h.base'.antisymm hCB, h.ne'⟩

theorem pointerType_inj {T X Y : CPPType} (h : T.simpleType = .pointerType X) (h' : T.simpleType = .pointerType Y) :
    X = Y := by
  rw [h] at h'
  injection h'

theorem memberPointerType_inj {T C D X Y : CPPType} (h : T.simpleType = .memberPointerType C X)
    (h' : T.simpleType = .memberPointerType D Y) : C = D := by
  rw [h] at h'
  injection h'

/-- Conversions of ONE pointer to others. -/
theorem GtConv.pointer_cases {P1 P2 A : CPPType}
    (h : GtConv env (.pointerConversion P1 A) (.pointerConversion P2 A)) :
    ∃ X D, P1.simpleType = .pointerType X ∧ A.simpleType = .pointerType D ∧
      ((∃ q m, P2.simpleType = .pointerType (.t q m .void) ∧ eqType X D = false ∧ env.IsBaseClassType X D) ∨
        ∃ Y, P2.simpleType = .pointerType Y ∧ Between env Y X D) := by
  cases h with
  | overVoid hP1 hA1 hP2 hA2 hB hne hbase => exact ⟨_, _, hP1, hA1, .inl ⟨_, _, hP2, hne, hbase⟩⟩
  | toVoid hP1 hA1 hP2 hA2 hne hbase =>
    rw [pointerType_inj hA1 hA2, eqType_refl] at hne
    exact absurd hne (by decide)
  | nearerBase hP1 hA1 hP2 hA2 hne hne' hC hbase hbase' =>
    exact ⟨_, _, hP1, hA1, .inr ⟨_, hP2, hne, hne', hbase, hbase'⟩⟩
  | nearerDerived hP1 hA1 hP2 hA2 hA hne hne' hbase hbase' =>
    rw [pointerType_inj hA1 hA2, eqType_refl] at hne'
    exact absurd hne' (by decide)

/-- Conversions of a pointer to a member of ONE class. -/
theorem GtConv.member_cases {D X Y : CPPType} (hD : isCPPClassType D = true)
    (h : GtConv env (.pointerConversion (CPPSimpleType.pointerType D).type (CPPSimpleType.pointerType X).type)
      (.pointerConversion (CPPSimpleType.pointerType D).type (CPPSimpleType.pointerType Y).type)) :
    Between env D X Y := by
  have hvoid : ∀ q m, D ≠ .t q m .void := by
    rintro q m rfl
    exact absurd hD (by simp [isCPPClassType, CPPType.simpleType])
  cases h with
  | overVoid hP1 hA1 hP2 hA2 hB hne hbase =>
    injection hP2 with hP2
    exact absurd hP2 (hvoid _ _)
  | toVoid hP1 hA1 hP2 hA2 hne hbase =>
    injection hP1 with hP1
    exact absurd hP1 (hvoid _ _)
  | nearerBase hP1 hA1 hP2 hA2 hne hne' hC hbase hbase' =>
    injection hP1 with hP1
    injection hP2 with hP2
    rw [← hP1, ← hP2, eqType_refl] at hne
    exact absurd hne (by decide)
  | nearerDerived hP1 hA1 hP2 hA2 hA hne hne' hbase hbase' =>
    injection hP1 with hP1
    injection hA1 with hA1
    injection hA2 with hA2
    subst hP1 hA1 hA2
    exact ⟨hne, hne', hbase, hbase'⟩

theorem Between.gtConv {P1 P2 A X Y D : CPPType} (h : Between env Y X D) (hP1 : P1.simpleType = .pointerType X)
    (hP2 : P2.simpleType = .pointerType Y) (hA : A.simpleType = .pointerType D) :
    GtConv env (.pointerConversion P1 A) (.pointerConversion P2 A) :=
  .nearerBase hP1 hA hP2 hA h.ne h.ne' (eqType_refl D) h.base h.base'

theorem Between.gtConv_member {P1 P2 A X T Y U D V : CPPType} (h : Between env D X Y)
    (hP1 : P1.simpleType = .memberPointerType X T) (hP2 : P2.simpleType = .memberPointerType Y U)
    (hA : A.simpleType = .memberPointerType D V) :
    GtConv env (.memberPointerConversion P1 A) (.memberPointerConversion P2 A) :=
  .memberPointer hP1 hA hP2 hA (.nearerDerived rfl rfl rfl rfl (eqType_refl D) h.ne h.ne' h.base h.base')

/-- **Each is better than the other**: conversions of one pointer to pointers to one class, or of one pointer to a
    member to pointers to members of one class, with different qualifiers. -/
inductive ConvClash (env : Env) : Conversion → Conversion → Prop
  | pointer {P1 P2 A X Y D} (hP1 : P1.simpleType = .pointerType X) (hP2 : P2.simpleType = .pointerType Y)
      (hA : A.simpleType = .pointerType D) (hclass : SameClass X Y) (hX : eqType X D = false) (hY : eqType Y D = false)
      (hbase : env.IsBaseClassType X D) :
      ConvClash env (.pointerConversion P1 A) (.pointerConversion P2 A)
  | memberPointer {P1 P2 A X Y D T U V} (hP1 : P1.simpleType = .memberPointerType X T)
      (hP2 : P2.simpleType = .memberPointerType Y U) (hA : A.simpleType = .memberPointerType D V)
      (hclass : SameClass X Y) (hX : eqType D X = false) (hY : eqType D Y = false) (hbase : env.IsBaseClassType D X) :
      ConvClash env (.memberPointerConversion P1 A) (.memberPointerConversion P2 A)

theorem ConvClash.symm {c1 c2 : Conversion} (h : ConvClash env c1 c2) : ConvClash env c2 c1 := by
  cases h with
  | pointer hP1 hP2 hA hclass hX hY hbase =>
    exact .pointer hP2 hP1 hA hclass.symm hY hX (hbase.of_simpleType hclass.simpleType rfl)
  | memberPointer hP1 hP2 hA hclass hX hY hbase =>
    exact .memberPointer hP2 hP1 hA hclass.symm hY hX (hbase.of_simpleType rfl hclass.simpleType)

theorem ConvClash.gtConv {c1 c2 : Conversion} (h : ConvClash env c1 c2) : GtConv env c1 c2 := by
  cases h with
  | pointer hP1 hP2 hA hclass hX hY hbase =>
    exact Between.gtConv ⟨hclass.symm.ne, hX, hclass.symm.base, hbase⟩ hP1 hP2 hA
  | memberPointer hP1 hP2 hA hclass hX hY hbase =>
    exact Between.gtConv_member ⟨hX, hclass.ne, hbase, hclass.base⟩ hP1 hP2 hA

/-- A second conversion for an argument that the first has made `A`. -/
def SecondFor (env : Env) (A : CPPType) (c : Conversion) : Prop :=
  ∃ P B A', SCS2Rule env (utype P) A B c A'

theorem SecondFor.pointer {P A A' : CPPType} (h : SecondFor env A (.pointerConversion P A')) : A' = A := by
  obtain ⟨_, _, _, h⟩ := h
  generalize utype _ = Q at h
  cases h <;> rfl

theorem SecondFor.memberPointer {P A A' : CPPType} (h : SecondFor env A (.memberPointerConversion P A')) :
    A' = A ∧ ∀ D T, A.simpleType = .memberPointerType D T → isCPPClassType D = true := by
  obtain ⟨_, _, _, h⟩ := h
  generalize utype _ = Q at h
  have hkind : ∀ {k}, A.kind = k → k ≠ .memberPointer → ∀ D T, A.simpleType = .memberPointerType D T → isCPPClassType D = true := by
    intro k hk hne D T hA
    exact absurd (hk ▸ kind_eq_of_simpleType hA) hne
  cases h with
  | memberPointerInteger hP hA =>
    rcases isCPPIntegerType_iff.mp hA with hA | hA
    · exact ⟨rfl, hkind hA (by decide)⟩
    · exact ⟨rfl, hkind hA (by decide)⟩
  | memberPointerNullptr hP hA => exact ⟨rfl, hkind (isCPPNullPtrTType_iff.mp hA) (by decide)⟩
  | memberPointerClass hD hC hne hbase =>
    refine ⟨rfl, ?_⟩
    intro D T hA
    injection hA with hA
    exact hA ▸ hC

theorem SecondFor.derivedToBase {P A A' : CPPType} (h : SecondFor env A (.derivedToBaseConversion P A')) :
    A' = A ∧ getQuals P = noQuals ∧ env.IsBaseClassType P A := by
  obtain ⟨Q, _, _, h⟩ := h
  have hquals : getQuals (utype Q) = noQuals := by
    cases Q
    rfl
  generalize utype Q = Q at h hquals
  cases h with
  | derivedToBase hP hA hne hbase => exact ⟨rfl, hquals, hbase⟩

/-- Classes without qualifiers do not clash. -/
theorem not_sameClass {X Y : CPPType} (hX : getQuals X = noQuals) (hY : getQuals Y = noQuals) : ¬ SameClass X Y := by
  rintro ⟨hclass, hst, hne⟩
  obtain ⟨q, m, st⟩ := X
  obtain ⟨q', m', st'⟩ := Y
  obtain rfl : q = noQuals := hX
  obtain rfl : q' = noQuals := hY
  obtain rfl : st = st' := hst
  cases st <;> simp [isCPPClassType, CPPType.simpleType] at hclass
  rw [Bool.eq_false_iff] at hne
  exact hne (eqType_iff.mpr (by simp [stripType]))

/-- What a better second conversion of ONE argument says. -/
inductive Better (env : Env) (A : CPPType) : Conversion → Conversion → Prop
  | boolean {A1 A2} (h1 : isPointerLike A1 = false) (h2 : isPointerLike A2 = true) :
      Better env A (.booleanConversion A1) (.booleanConversion A2)
  | integralPromotion {P1 A1 P2 A2} (h1 : eqType (promote env A1) P1 = true)
      (h2 : eqType (promote env (promote env A2)) P2 = true)
      (hne : eqType (promote env A2) (promote env (promote env A2)) = false) :
      Better env A (.integralPromotion P1 A1) (.integralPromotion P2 A2)
  | overVoid {P1 P2 X D q m} (hP1 : P1.simpleType = .pointerType X) (hA : A.simpleType = .pointerType D)
      (hP2 : P2.simpleType = .pointerType (.t q m .void)) (hne : eqType X D = false) (hbase : env.IsBaseClassType X D) :
      Better env A (.pointerConversion P1 A) (.pointerConversion P2 A)
  | pointer {P1 P2 X Y D} (hP1 : P1.simpleType = .pointerType X) (hP2 : P2.simpleType = .pointerType Y)
      (hA : A.simpleType = .pointerType D) (h : Between env Y X D) :
      Better env A (.pointerConversion P1 A) (.pointerConversion P2 A)
  | memberPointer {P1 P2 X Y D T U V} (hP1 : P1.simpleType = .memberPointerType X T)
      (hP2 : P2.simpleType = .memberPointerType Y U) (hA : A.simpleType = .memberPointerType D V)
      (h : Between env D X Y) :
      Better env A (.memberPointerConversion P1 A) (.memberPointerConversion P2 A)
  | derivedToBase {P1 P2} (hP1 : getQuals P1 = noQuals) (hP2 : getQuals P2 = noQuals) (h : Between env P2 P1 A) :
      Better env A (.derivedToBaseConversion P1 A) (.derivedToBaseConversion P2 A)

theorem GtConv.better {A : CPPType} {c1 c2 : Conversion} (h : GtConv env c1 c2) (h1 : SecondFor env A c1)
    (h2 : SecondFor env A c2) : Better env A c1 c2 := by
  have hgt := h
  cases h with
  | boolean hA1 hA2 => exact .boolean hA1 hA2
  | integralPromotion hP1 hP2 hne => exact .integralPromotion hP1 hP2 hne
  | memberPointer hP1 hA1 hP2 hA2 h =>
    obtain ⟨rfl, hclass⟩ := h1.memberPointer
    obtain rfl := h2.memberPointer.1
    obtain rfl := memberPointerType_inj hA1 hA2
    exact .memberPointer hP1 hP2 hA1 (h.member_cases (hclass _ _ hA1))
  | derivedToBase h =>
    obtain ⟨rfl, hq1, hbase1⟩ := h1.derivedToBase
    obtain ⟨rfl, hq2, hbase2⟩ := h2.derivedToBase
    obtain ⟨X, D, hX, hD, ⟨q, m, hvoid, -, -⟩ | ⟨Y, hY, hbetween⟩⟩ := h.pointer_cases
    · injection hvoid with hvoid
      exact absurd hbase2.isClass (by rw [hvoid]; simp [isCPPClassType, CPPType.simpleType])
    · injection hX with hX
      injection hD with hD
      injection hY with hY
      subst hX hD hY
      exact .derivedToBase hq1 hq2 hbetween
  | _ =>
    obtain rfl := h1.pointer
    obtain rfl := h2.pointer
    obtain ⟨X, D, hX, hD, ⟨q, m, hvoid, hne, hbase⟩ | ⟨Y, hY, hbetween⟩⟩ := hgt.pointer_cases
    · exact .overVoid hX hD hvoid hne hbase
    · exact .pointer hX hY hD hbetween

theorem Better.gtConv {A : CPPType} {c1 c2 : Conversion} (h : Better env A c1 c2) : GtConv env c1 c2 := by
  cases h with
  | boolean h1 h2 => exact .boolean h1 h2
  | integralPromotion h1 h2 hne => exact .integralPromotion h1 h2 hne
  | overVoid hP1 hA hP2 hne hbase => exact .overVoid hP1 hA hP2 hA (eqType_refl _) hne hbase
  | pointer hP1 hP2 hA h => exact h.gtConv hP1 hP2 hA
  | memberPointer hP1 hP2 hA h => exact h.gtConv_member hP1 hP2 hA
  | derivedToBase hP1 hP2 h => exact .derivedToBase (h.gtConv rfl rfl rfl)

/-- **Better one way round only**, but for a clash. -/
theorem Better.clash {A : CPPType} {c1 c2 : Conversion} (h : Better env A c1 c2) (h' : Better env A c2 c1) :
    ConvClash env c1 c2 := by
  cases h with
  | boolean h1 h2 =>
    cases h' with
    | boolean h1' h2' => exact absurd h2' (by simp [h1])
  | integralPromotion h1 h2 hne =>
    cases h' with
    | integralPromotion h1' h2' hne' =>
      have heq := eqType_trans h1 (eqType_symm h2')
      exact absurd heq (by simp [hne'])
  | overVoid hP1 hA hP2 hne hbase =>
    cases h' with
    | overVoid hP2' hA' hP1' hne' hbase' =>
      have hvoid := pointerType_inj hP1 hP1'
      exact absurd hbase.isClass (by rw [hvoid]; simp [isCPPClassType, CPPType.simpleType])
    | pointer hP2' hP1' hA' hbetween =>
      have hvoid := pointerType_inj hP2 hP2'
      exact absurd (hbetween.base'.isClass) (by rw [← hvoid]; simp [isCPPClassType, CPPType.simpleType])
  | pointer hP1 hP2 hA hbetween =>
    cases h' with
    | overVoid hP2' hA' hP1' hne' hbase' =>
      have hvoid := pointerType_inj hP1 hP1'
      exact absurd hbetween.base'.isClass (by rw [hvoid]; simp [isCPPClassType, CPPType.simpleType])
    | pointer hP2' hP1' hA' hbetween' =>
      obtain rfl := pointerType_inj hP1 hP1'
      obtain rfl := pointerType_inj hP2 hP2'
      obtain rfl := pointerType_inj hA hA'
      exact .pointer hP1 hP2 hA (hbetween.sameClass hbetween').symm hbetween.ne' hbetween'.ne' hbetween.base'
  | memberPointer hP1 hP2 hA hbetween =>
    cases h' with
    | memberPointer hP2' hP1' hA' hbetween' =>
      obtain rfl := memberPointerType_inj hP1 hP1'
      obtain rfl := memberPointerType_inj hP2 hP2'
      obtain rfl := memberPointerType_inj hA hA'
      exact .memberPointer hP1 hP2 hA (hbetween.sameClass' hbetween') hbetween.ne hbetween'.ne hbetween.base
  | derivedToBase hP1 hP2 hbetween =>
    cases h' with
    | derivedToBase hP2' hP1' hbetween' => exact absurd (hbetween.sameClass hbetween') (not_sameClass hP2 hP1)

/-- **Better is transitive**, but for a clash. -/
theorem Better.trans {A : CPPType} {c1 c2 c3 : Conversion} (h : Better env A c1 c2) (h' : Better env A c2 c3) :
    Better env A c1 c3 ∨ ConvClash env c1 c2 := by
  cases h with
  | boolean h1 h2 =>
    cases h' with
    | boolean h1' h2' => exact absurd h2 (by simp [h1'])
  | integralPromotion h1 h2 hne =>
    cases h' with
    | integralPromotion h1' h2' hne' =>
      have heq := eqType_trans h1' (eqType_symm h2)
      exact absurd heq (by simp [hne])
  | overVoid hP1 hA hP2 hne hbase =>
    cases h' with
    | overVoid hP2' hA' hP3 hne' hbase' =>
      have hvoid := pointerType_inj hP2 hP2'
      exact absurd hbase'.isClass (by rw [← hvoid]; simp [isCPPClassType, CPPType.simpleType])
    | pointer hP2' hP3 hA' hbetween =>
      have hvoid := pointerType_inj hP2 hP2'
      exact absurd hbetween.base'.isClass (by rw [← hvoid]; simp [isCPPClassType, CPPType.simpleType])
  | pointer hP1 hP2 hA hbetween =>
    cases h' with
    | overVoid hP2' hA' hP3 hne' hbase' => exact .inl (.overVoid hP1 hA hP3 hbetween.ne' hbetween.base')
    | pointer hP2' hP3 hA' hbetween' =>
      obtain rfl := pointerType_inj hP2 hP2'
      obtain rfl := pointerType_inj hA hA'
      rcases hbetween.trans hbetween' with htrans | hclass
      · exact .inl (.pointer hP1 hP3 hA htrans)
      · exact .inr (.pointer hP1 hP2 hA hclass hbetween.ne' hbetween'.ne' hbetween.base')
  | memberPointer hP1 hP2 hA hbetween =>
    cases h' with
    | memberPointer hP2' hP3 hA' hbetween' =>
      obtain rfl := memberPointerType_inj hP2 hP2'
      obtain rfl := memberPointerType_inj hA hA'
      rcases hbetween.trans' hbetween' with htrans | hclass
      · exact .inl (.memberPointer hP1 hP3 hA htrans)
      · exact .inr (.memberPointer hP1 hP2 hA hclass hbetween.ne hbetween'.ne hbetween.base)
  | derivedToBase hP1 hP2 hbetween =>
    cases h' with
    | derivedToBase hP2' hP3 hbetween' =>
      rcases hbetween.trans hbetween' with htrans | hclass
      · exact .inl (.derivedToBase hP1 hP3 htrans)
      · exact absurd hclass (not_sameClass hP1 hP2)

theorem GtConv.irrefl {A : CPPType} {c : Conversion} (hc : SecondFor env A c) : ¬ GtConv env c c := by
  intro h
  cases (h.better hc hc).clash (h.better hc hc) with
  | pointer hP1 hP2 _ hclass _ _ _ =>
    have hne := hclass.ne
    rw [pointerType_inj hP1 hP2, eqType_refl] at hne
    exact absurd hne (by decide)
  | memberPointer hP1 hP2 _ hclass _ _ _ =>
    have hne := hclass.ne
    rw [memberPointerType_inj hP1 hP2, eqType_refl] at hne
    exact absurd hne (by decide)

end Conv

end CSemantics.Cpp
