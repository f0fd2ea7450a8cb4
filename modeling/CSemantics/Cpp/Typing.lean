/-
  The types of C++.

  A `CPPType` is `t(Quals, Mods, CPPSimpleType)`.  Two questions about types are not equality: `==Type`
  compares what `stripType` leaves, and `isSimilar` does not look at qualifiers, at any level of a chain of
  pointers, members and arrays.  Both are equality of a NORMAL FORM, so they are equivalences.
-/
import CSemantics.Symloc
import CSemantics.Typing.Syntax

namespace CSemantics.Cpp

/-! ## Types -/

inductive CPPSimpleIntegerType
  | signedChar | short | int | long | longLong | oversized
  | unsignedChar | unsignedShort | unsigned | unsignedLong | unsignedLongLong | unsignedOversized
  | char | bool | wchar | char16 | char32
  deriving DecidableEq

inductive CPPSimpleFloatingType
  | float | double | longDouble
  deriving DecidableEq

inductive RefQualifier
  | refLValue | refRValue | refNone
  deriving DecidableEq

inductive LanguageLinkage
  | c | cpp
  deriving DecidableEq

/-- `methodInfo`, but for the class, which `stripMI` drops. -/
inductive MethodInfo
  | noMethod
  | methodInfo (refQual : RefQualifier) (cvQuals : Quals) (static virtual pure explicit userProvided constructor : Bool)
  deriving DecidableEq

inductive ClassKey
  | Class | Struct | Union
  deriving DecidableEq

mutual

/-- `t(q: Quals, m: Set, st: CPPSimpleType)`; a modifier is its name. -/
inductive CPPType
  | t (q : Quals) (m : Finset String) (st : CPPSimpleType)
  deriving DecidableEq

inductive CPPSimpleType
  | integer (i : CPPSimpleIntegerType)
  | floating (f : CPPSimpleFloatingType)
  | void | nullptr
  /-- `bitfieldType(T, N)`, of an integer type or of an enumeration. -/
  | bitfieldType (i : CPPSimpleIntegerType) (n : Int)
  | scopedEnumBitfield (id : Enum) (underlyingType : CPPType) (n : Int)
  | unscopedEnumBitfield (id : Enum) (underlyingType : CPPType) (utFixed : Bool) (n : Int)
  | pointerType (T : CPPType)
  | memberPointerType (C T : CPPType)
  | arrayType (T : CPPType) (n : Int)
  | incompleteArrayType (T : CPPType)
  /-- The expression for the length is never looked at. -/
  | dynamicArrayType (T : CPPType)
  | lvRefType (T : CPPType)
  | rvRefType (T : CPPType)
  | functionType (returnType : CPPType) (paramTypes : CPPTypes) (methodInfo : MethodInfo) (linkage : LanguageLinkage)
      (exceptions : ExceptionSet)
  | classType (C : Class)
  | scopedEnum (id : Enum) (underlyingType : CPPType)
  | unscopedEnum (id : Enum) (underlyingType : CPPType) (utFixed : Bool)
  | dependentType (s : String) (n : Int)
  | auto | decltypeAuto | noType
  deriving DecidableEq

/-- `CPPTypes`, and the types among template arguments. -/
inductive CPPTypes
  | nil
  | cons (T : CPPType) (Ts : CPPTypes)
  | implicitObjectParameter (T : CPPType) (Ts : CPPTypes)
  | variadic
  deriving DecidableEq

inductive ExceptionSet
  | exSet (Ts : CPPTypes)
  | noexcept (b : Bool)
  deriving DecidableEq

inductive ClassQualifier
  | namespace (N : List CId)
  | localQual (B : Scope)
  | inClass (C : Class)
  deriving DecidableEq

/-- `ClassQualifier :: Class(Tag, CId, TemplateArgs)` -/
inductive Class
  | mk (q : ClassQualifier) (tag : ClassKey) (x : CId) (Ts : CPPTypes)
  deriving DecidableEq

/-- `ClassQualifier :: Enum(CId)` -/
inductive Enum
  | enum (q : ClassQualifier) (x : CId)
  deriving DecidableEq

end

/-- `type(T)` -/
def CPPSimpleType.type (st : CPPSimpleType) : CPPType := .t noQuals ∅ st

def CPPSimpleIntegerType.type (i : CPPSimpleIntegerType) : CPPType := (CPPSimpleType.integer i).type

def CPPType.simpleType : CPPType → CPPSimpleType
  | .t _ _ st => st

def getQuals : CPPType → Quals
  | .t q _ _ => q

def utype : CPPType → CPPType
  | .t _ m st => .t noQuals m st

@[simp] theorem utype_utype (T : CPPType) : utype (utype T) = utype T := by
  cases T
  rfl

/-- `Qs <=Quals Qs'` -/
def leQuals (q q' : Quals) : Bool :=
  (!q.const || q'.const) && (!q.volatile || q'.volatile) && (!q.restrict || q'.restrict) && (!q.atomic || q'.atomic)

/-! ### Kinds of types -/

/-- `cppIntegerType`: an integer type, or a bit field of one. -/
def isCPPIntegerType (T : CPPType) : Bool :=
  match T.simpleType with
  | .integer _ | .bitfieldType _ _ => true
  | _ => false

def isCPPFloatingType (T : CPPType) : Bool :=
  match T.simpleType with
  | .floating _ => true
  | _ => false

def isCPPBoolType (T : CPPType) : Bool :=
  match T.simpleType with
  | .integer i => i == .bool
  | .bitfieldType i _ => i == .bool
  | _ => false

def isCPPUnscopedEnumType (T : CPPType) : Bool :=
  match T.simpleType with
  | .unscopedEnum _ _ _ => true
  | .unscopedEnumBitfield _ _ _ _ => true
  | _ => false

def isCPPPointerType (T : CPPType) : Bool :=
  match T.simpleType with
  | .pointerType _ => true
  | _ => false

def isCPPMemberPointerType (T : CPPType) : Bool :=
  match T.simpleType with
  | .memberPointerType _ _ => true
  | _ => false

def isCPPNullPtrTType (T : CPPType) : Bool := T.simpleType == .nullptr

def isCPPFunctionType (T : CPPType) : Bool :=
  match T.simpleType with
  | .functionType _ _ _ _ _ => true
  | _ => false

def isCPPArrayType (T : CPPType) : Bool :=
  match T.simpleType with
  | .arrayType _ _ | .incompleteArrayType _ | .dynamicArrayType _ => true
  | _ => false

def isCPPClassType (T : CPPType) : Bool :=
  match T.simpleType with
  | .classType _ => true
  | _ => false

/-! ## Types that are the same -/

/-- `stripMI`: `defaultMethodInfo()` with the qualifiers. -/
def stripMI : MethodInfo → MethodInfo
  | .noMethod => .methodInfo .refNone noQuals false false false false true false
  | .methodInfo r cv _ _ _ _ _ _ => .methodInfo r cv false false false false true false

mutual

/-- Removes all that is not part of the type. -/
def stripType : CPPType → CPPType
  | .t q m st =>
    match st with
    | .dynamicArrayType _ | .dependentType _ _ | .auto | .decltypeAuto | .noType => .t q m st
    | _ => .t q ∅ (stripSimpleType st)

/-- `stripType`, in the type without its qualifiers and modifiers. -/
def stripSimpleType : CPPSimpleType → CPPSimpleType
  | .bitfieldType i _ => .integer i
  | .scopedEnumBitfield id _ _ => .scopedEnum (stripEnum id) CPPSimpleIntegerType.int.type
  | .unscopedEnumBitfield id _ _ _ => .unscopedEnum (stripEnum id) CPPSimpleIntegerType.int.type false
  | .pointerType T => .pointerType (stripType T)
  | .memberPointerType C T => .memberPointerType (stripType C) (stripType T)
  | .arrayType T n => .arrayType (stripType T) n
  | .incompleteArrayType T => .incompleteArrayType (stripType T)
  | .lvRefType T => .lvRefType (stripType T)
  | .rvRefType T => .rvRefType (stripType T)
  | .functionType ret params mi linkage _ =>
    .functionType (stripType ret) (stripTypes params) (stripMI mi) linkage (.noexcept false)
  | .classType C => .classType (stripClass C)
  | .scopedEnum id _ => .scopedEnum (stripEnum id) CPPSimpleIntegerType.int.type
  | .unscopedEnum id _ _ => .unscopedEnum (stripEnum id) CPPSimpleIntegerType.int.type false
  | st => st

def stripTypes : CPPTypes → CPPTypes
  | .nil => .nil
  | .cons T Ts => .cons (stripType T) (stripTypes Ts)
  -- not a type: the last rule of `stripType` leaves it
  | .implicitObjectParameter T Ts => .implicitObjectParameter T (stripTypes Ts)
  | .variadic => .variadic

def stripQualifier : ClassQualifier → ClassQualifier
  | .inClass C => .inClass (stripClass C)
  | q => q

def stripClass : Class → Class
  | .mk q tag x Ts => .mk (stripQualifier q) tag x (stripTypes Ts)

def stripEnum : Enum → Enum
  | .enum q x => .enum (stripQualifier q) x

end

/-- `T1 ==Type T2` -/
def eqType (T1 T2 : CPPType) : Bool := stripType T1 == stripType T2

theorem eqType_iff {T1 T2 : CPPType} : eqType T1 T2 = true ↔ stripType T1 = stripType T2 := by
  unfold eqType
  rw [beq_iff_eq]

theorem eqType_refl (T : CPPType) : eqType T T = true := eqType_iff.mpr rfl

theorem eqType_symm {T1 T2 : CPPType} (h : eqType T1 T2 = true) : eqType T2 T1 = true :=
  eqType_iff.mpr (eqType_iff.mp h).symm

theorem eqType_trans {T1 T2 T3 : CPPType} (h : eqType T1 T2 = true) (h' : eqType T2 T3 = true) : eqType T1 T3 = true :=
  eqType_iff.mpr ((eqType_iff.mp h).trans (eqType_iff.mp h'))

/-- The same type, but for qualifiers. -/
def isSimilar : CPPType → CPPType → Bool
  | .t _ _ (.pointerType T1), .t _ _ (.pointerType T2) => isSimilar T1 T2
  | .t _ _ (.memberPointerType C1 T1), .t _ _ (.memberPointerType C2 T2) => eqType C1 C2 && isSimilar T1 T2
  | .t _ _ (.arrayType T1 n1), .t _ _ (.arrayType T2 n2) => decide (n1 = n2) && isSimilar T1 T2
  | .t _ _ (.incompleteArrayType T1), .t _ _ (.incompleteArrayType T2) => isSimilar T1 T2
  | T1, T2 => eqType (utype T1) (utype T2)

/-- The qualifiers of a type, level by level. -/
def cvQualificationSignature : CPPType → List Quals
  | .t q _ (.pointerType T) => q :: cvQualificationSignature T
  | .t q _ (.memberPointerType _ T) => q :: cvQualificationSignature T
  | .t q _ (.arrayType T _) => q :: cvQualificationSignature T
  | .t q _ (.incompleteArrayType T) => q :: cvQualificationSignature T
  | .t q _ _ => [q]

/-- `getDifferentCVOffset`: the last level at which two signatures differ. -/
def getDifferentCVOffset : List Quals → List Quals → Int → Int → Int
  | q :: L1, q' :: L2, idx, res => getDifferentCVOffset L1 L2 (idx + 1) (if q = q' then res else idx)
  | _, _, _, res => res

def computeLeQualSig : List Quals → List Quals → Int → Int → Bool
  | q1 :: L1, q2 :: L2, j, k =>
    (k == 0 || (leQuals q1 q2 && (decide (j ≤ k) || q2.const))) && computeLeQualSig L1 L2 j (k + 1)
  | [], [], _, _ => true
  | _, _, _, _ => false

/-- `Qs1 <=QualSig Qs2` -/
def leQualSig (Qs1 Qs2 : List Quals) : Bool := computeLeQualSig Qs1 Qs2 (getDifferentCVOffset Qs1 Qs2 0 0) 0

/-! ## Promotions -/

/-- `underlyingType`, of an integer type. -/
def CPPSimpleIntegerType.underlyingType : CPPSimpleIntegerType → CPPSimpleIntegerType
  | .char => .signedChar
  | .char16 => .unsignedShort
  | .char32 => .unsigned
  | .wchar => .int
  | i => i

/-- What the program says about its enumerations and classes.  A class is complete before it is a base, so no
    class is its own base. -/
structure Env where
  cfg : Settings
  /-- `<enum-min>` and `<enum-max>` -/
  enumRange : Enum → Int × Int
  baseClasses : Class → List Class
  acyclic : ∀ B D, Relation.TransGen (fun D B => B ∈ baseClasses D) D B → stripClass B ≠ stripClass D

/-- Where no class has a base -/
theorem Env.acyclic_of_no_bases : ∀ B D : Class,
    Relation.TransGen (fun _ B => B ∈ ([] : List Class)) D B → stripClass B ≠ stripClass D := by
  intro B D h
  obtain ⟨C, -, hB⟩ := Relation.TransGen.tail'_iff.mp h
  cases hB

section Promotions

variable (env : Env)

/-- `byteSizeofType`, of an integer type. -/
def byteSizeofInteger : CPPSimpleIntegerType → Nat
  | .bool => env.cfg.sizeofBool
  | .signedChar | .unsignedChar | .char => env.cfg.sizeofSignedChar
  | .short | .unsignedShort | .char16 => env.cfg.sizeofShortInt
  | .int | .unsigned | .wchar | .char32 => env.cfg.sizeofInt
  | .long | .unsignedLong => env.cfg.sizeofLongInt
  | .longLong | .unsignedLongLong => env.cfg.sizeofLongLongInt
  | .oversized | .unsignedOversized => env.cfg.sizeofOversizedInt

/-- `#min` and `#max` of an integer type of that many bits. -/
def integerRange (i : CPPSimpleIntegerType) (bits : Nat) : Int × Int :=
  match i.underlyingType with
  | .signedChar | .short | .int | .long | .longLong | .oversized => (-2 ^ (bits - 1), 2 ^ (bits - 1) - 1)
  | .bool => (0, 1)
  | _ => (0, 2 ^ bits - 1)

/-- `min` and `max`: a bit field has no value that its type does not have. -/
def valueRange : CPPSimpleType → Int × Int
  | .integer i => integerRange i (byteSizeofInteger env i * env.cfg.bitsPerByte)
  | .bitfieldType i n =>
    let own := integerRange i n.toNat
    let inner := integerRange i (byteSizeofInteger env i * env.cfg.bitsPerByte)
    (max own.1 inner.1, min own.2 inner.2)
  | .scopedEnum _ (.t _ _ st) => valueRange st
  | .scopedEnumBitfield _ (.t _ _ st) _ => valueRange st
  | .unscopedEnum id (.t _ _ st) fixed => if fixed then valueRange st else env.enumRange id
  | .unscopedEnumBitfield id (.t _ _ st) fixed _ => if fixed then valueRange st else env.enumRange id
  | _ => (0, 0)

def broaderTypeThan (st1 st2 : CPPSimpleType) : Bool :=
  decide ((valueRange env st1).2 ≥ (valueRange env st2).2) && decide ((valueRange env st1).1 ≤ (valueRange env st2).1)

/-- `rank` -/
def CPPSimpleIntegerType.rank : CPPSimpleIntegerType → Int
  | .bool => 0
  | .char | .signedChar | .unsignedChar => 1
  | .short | .unsignedShort | .char16 => 2
  | .int | .unsigned | .wchar | .char32 => 3
  | .long | .unsignedLong => 4
  | .longLong | .unsignedLongLong => 5
  | .oversized | .unsignedOversized => 6

/-- The first type of the list that can represent the values of `st`. -/
def firstBroader (st : CPPSimpleType) (otherwise : CPPType) : List CPPSimpleIntegerType → CPPType
  | [] => otherwise
  | i :: is => if broaderTypeThan env (.integer i) st then i.type else firstBroader st otherwise is

/-- `promote`: one step of promotion. -/
def promote : CPPType → CPPType
  | .t q m (.integer i) =>
    if i = .bool then CPPSimpleIntegerType.int.type
    else if i = .char16 ∨ i = .char32 ∨ i = .wchar then
      firstBroader env (.integer i) i.underlyingType.type
        [.int, .unsigned, .long, .unsignedLong, .longLong, .unsignedLongLong]
    else if i.rank < CPPSimpleIntegerType.int.rank then
      firstBroader env (.integer i) CPPSimpleIntegerType.unsigned.type [.int]
    else .t q m (.integer i)
  | .t _ _ (.bitfieldType i n) =>
    firstBroader env (.bitfieldType i n) (CPPSimpleType.bitfieldType i n).type [.int, .unsigned]
  | .t _ _ (.unscopedEnum id UT fixed) => promoteEnum id UT fixed
  | .t _ _ (.unscopedEnumBitfield id UT fixed _) => promoteEnum id UT fixed
  | .t q m (.scopedEnumBitfield id UT _) => .t q m (.scopedEnum id UT)
  | T => T
where
  promoteEnum (id : Enum) (UT : CPPType) (fixed : Bool) : CPPType :=
    if fixed then UT
    else firstBroader env (.unscopedEnum id UT false) UT.simpleType.type
      [.int, .unsigned, .long, .unsignedLong, .longLong, .unsignedLongLong]

end Promotions

/-- `isBaseClassOf(B, D)`: also of itself. -/
def Env.IsBaseClassOf (env : Env) (B D : Class) : Prop := Relation.ReflTransGen (fun D B => B ∈ env.baseClasses D) D B

/-! ## The normal forms -/

attribute [local simp] stripType stripSimpleType isSimilar cvQualificationSignature

/-- The qualifiers of the levels below the first. -/
def CPPSimpleType.signature : CPPSimpleType → List Quals
  | .pointerType T => cvQualificationSignature T
  | .memberPointerType _ T => cvQualificationSignature T
  | .arrayType T _ => cvQualificationSignature T
  | .incompleteArrayType T => cvQualificationSignature T
  | _ => []

theorem cvQualificationSignature_eq (q : Quals) (m : Finset String) (st : CPPSimpleType) :
    cvQualificationSignature (.t q m st) = q :: st.signature := by
  cases st <;> simp [cvQualificationSignature, CPPSimpleType.signature]

/-- `stripType` keeps the signature. -/
theorem cvQualificationSignature_stripType (T : CPPType) :
    cvQualificationSignature (stripType T) = cvQualificationSignature T := by
  induction T using cvQualificationSignature.induct with
  | case1 q m T ih => simp [stripType, stripSimpleType, cvQualificationSignature, ih]
  | case2 q m C T ih => simp [stripType, stripSimpleType, cvQualificationSignature, ih]
  | case3 q m T n ih => simp [stripType, stripSimpleType, cvQualificationSignature, ih]
  | case4 q m T ih => simp [stripType, stripSimpleType, cvQualificationSignature, ih]
  | case5 q m st h1 h2 h3 h4 =>
    cases st with
    | pointerType T => exact absurd rfl (h1 T)
    | memberPointerType C T => exact absurd rfl (h2 C T)
    | arrayType T n => exact absurd rfl (h3 T n)
    | incompleteArrayType T => exact absurd rfl (h4 T)
    | _ => simp [stripType, stripSimpleType, cvQualificationSignature]

theorem stripType_utype (T : CPPType) : stripType (utype T) = utype (stripType T) := by
  obtain ⟨q, m, st⟩ := T
  cases st <;> rfl

/-- Types that are the same are similar. -/
theorem isSimilar_of_stripType {T1 T2 : CPPType} (h : stripType T1 = stripType T2) : isSimilar T1 T2 = true := by
  induction T1, T2 using isSimilar.induct with
  | case1 q1 m1 T1 q2 m2 T2 ih =>
    simp only [stripType, stripSimpleType, CPPType.t.injEq, CPPSimpleType.pointerType.injEq] at h
    rw [isSimilar]
    exact ih h.2.2
  | case2 q1 m1 C1 T1 q2 m2 C2 T2 ih =>
    simp only [stripType, stripSimpleType, CPPType.t.injEq, CPPSimpleType.memberPointerType.injEq] at h
    rw [isSimilar, Bool.and_eq_true, eqType_iff]
    exact ⟨h.2.2.1, ih h.2.2.2⟩
  | case3 q1 m1 T1 n1 q2 m2 T2 n2 ih =>
    simp only [stripType, stripSimpleType, CPPType.t.injEq, CPPSimpleType.arrayType.injEq] at h
    rw [isSimilar, Bool.and_eq_true, decide_eq_true_eq]
    exact ⟨h.2.2.2, ih h.2.2.1⟩
  | case4 q1 m1 T1 q2 m2 T2 ih =>
    simp only [stripType, stripSimpleType, CPPType.t.injEq, CPPSimpleType.incompleteArrayType.injEq] at h
    rw [isSimilar]
    exact ih h.2.2
  | case5 T1 T2 h1 h2 h3 h4 =>
    rw [isSimilar]
    · rw [eqType_iff, stripType_utype, stripType_utype, h]
    · exact h1
    · exact h2
    · exact h3
    · exact h4

/-! ### Similar is transitive -/

theorem isSimilar_pointerType {q : Quals} {m : Finset String} {T T' : CPPType}
    (h : isSimilar (.t q m (.pointerType T)) T' = true) :
    ∃ q' m' T'', T' = .t q' m' (.pointerType T'') ∧ isSimilar T T'' = true := by
  obtain ⟨q', m', st⟩ := T'
  cases st with
  | pointerType T'' => exact ⟨q', m', T'', rfl, by simpa [isSimilar] using h⟩
  | _ => simp [isSimilar, eqType_iff, utype, stripType, stripSimpleType] at h

theorem isSimilar_memberPointerType {q : Quals} {m : Finset String} {C T T' : CPPType}
    (h : isSimilar (.t q m (.memberPointerType C T)) T' = true) :
    ∃ q' m' C' T'', T' = .t q' m' (.memberPointerType C' T'') ∧ eqType C C' = true ∧ isSimilar T T'' = true := by
  obtain ⟨q', m', st⟩ := T'
  cases st with
  | memberPointerType C' T'' => exact ⟨q', m', C', T'', rfl, by simpa [isSimilar] using h⟩
  | _ => simp [isSimilar, eqType_iff, utype, stripType, stripSimpleType] at h

theorem isSimilar_arrayType {q : Quals} {m : Finset String} {T T' : CPPType} {n : Int}
    (h : isSimilar (.t q m (.arrayType T n)) T' = true) :
    ∃ q' m' T'', T' = .t q' m' (.arrayType T'' n) ∧ isSimilar T T'' = true := by
  obtain ⟨q', m', st⟩ := T'
  cases st with
  | arrayType T'' n' =>
    simp only [isSimilar, Bool.and_eq_true, decide_eq_true_eq] at h
    exact ⟨q', m', T'', by rw [h.1], h.2⟩
  | _ => simp [isSimilar, eqType_iff, utype, stripType, stripSimpleType] at h

theorem isSimilar_incompleteArrayType {q : Quals} {m : Finset String} {T T' : CPPType}
    (h : isSimilar (.t q m (.incompleteArrayType T)) T' = true) :
    ∃ q' m' T'', T' = .t q' m' (.incompleteArrayType T'') ∧ isSimilar T T'' = true := by
  obtain ⟨q', m', st⟩ := T'
  cases st with
  | incompleteArrayType T'' => exact ⟨q', m', T'', rfl, by simpa [isSimilar] using h⟩
  | _ => simp [isSimilar, eqType_iff, utype, stripType, stripSimpleType] at h

/-- Types that `isSimilar` does not look into. -/
def isLeaf (T : CPPType) : Bool :=
  match T.simpleType with
  | .pointerType _ | .memberPointerType _ _ | .arrayType _ _ | .incompleteArrayType _ => false
  | _ => true

theorem isSimilar_of_isLeaf {T1 : CPPType} (h : isLeaf T1 = true) (T2 : CPPType) :
    isSimilar T1 T2 = eqType (utype T1) (utype T2) := by
  obtain ⟨q, m, st⟩ := T1
  cases st <;> first | rfl | simp [isLeaf, CPPType.simpleType] at h

theorem isLeaf_stripType_utype (T : CPPType) : isLeaf (stripType (utype T)) = isLeaf T := by
  obtain ⟨q, m, st⟩ := T
  cases st <;> rfl

/-- The last rule of `isSimilar` is left with leaves: two chains would have had a rule of their own. -/
theorem isLeaf_of_eqType_utype {T1 T2 : CPPType} (h : eqType (utype T1) (utype T2) = true)
    (h1 : ∀ q m T q' m' T', T1 = .t q m (.pointerType T) → T2 = .t q' m' (.pointerType T') → False)
    (h2 : ∀ q m C T q' m' C' T', T1 = .t q m (.memberPointerType C T) → T2 = .t q' m' (.memberPointerType C' T') →
      False)
    (h3 : ∀ q m T n q' m' T' n', T1 = .t q m (.arrayType T n) → T2 = .t q' m' (.arrayType T' n') → False)
    (h4 : ∀ q m T q' m' T', T1 = .t q m (.incompleteArrayType T) → T2 = .t q' m' (.incompleteArrayType T') →
      False) :
    isLeaf T1 = true := by
  obtain ⟨q1, m1, st1⟩ := T1
  obtain ⟨q2, m2, st2⟩ := T2
  have hstrip := eqType_iff.mp h
  cases st1 with
  | pointerType T =>
    cases st2 <;> simp [utype, stripType, stripSimpleType] at hstrip
    exact (h1 _ _ _ _ _ _ rfl rfl).elim
  | memberPointerType C T =>
    cases st2 <;> simp [utype, stripType, stripSimpleType] at hstrip
    exact (h2 _ _ _ _ _ _ _ _ rfl rfl).elim
  | arrayType T n =>
    cases st2 <;> simp [utype, stripType, stripSimpleType] at hstrip
    exact (h3 _ _ _ _ _ _ _ _ rfl rfl).elim
  | incompleteArrayType T =>
    cases st2 <;> simp [utype, stripType, stripSimpleType] at hstrip
    exact (h4 _ _ _ _ _ _ rfl rfl).elim
  | _ => rfl

theorem isSimilar_trans {T1 T2 T3 : CPPType} (h : isSimilar T1 T2 = true) (h' : isSimilar T2 T3 = true) :
    isSimilar T1 T3 = true := by
  induction T1, T2 using isSimilar.induct generalizing T3 with
  | case1 q1 m1 T1 q2 m2 T2 ih =>
    obtain ⟨q3, m3, T3, rfl, h'⟩ := isSimilar_pointerType h'
    rw [isSimilar] at h ⊢
    exact ih h h'
  | case2 q1 m1 C1 T1 q2 m2 C2 T2 ih =>
    obtain ⟨q3, m3, C3, T3, rfl, hC, h'⟩ := isSimilar_memberPointerType h'
    rw [isSimilar, Bool.and_eq_true] at h ⊢
    exact ⟨eqType_iff.mpr ((eqType_iff.mp h.1).trans (eqType_iff.mp hC)), ih h.2 h'⟩
  | case3 q1 m1 T1 n1 q2 m2 T2 n2 ih =>
    obtain ⟨q3, m3, T3, rfl, h3⟩ := isSimilar_arrayType h'
    rw [isSimilar, Bool.and_eq_true] at h ⊢
    exact ⟨h.1, ih h.2 h3⟩
  | case4 q1 m1 T1 q2 m2 T2 ih =>
    obtain ⟨q3, m3, T3, rfl, h'⟩ := isSimilar_incompleteArrayType h'
    rw [isSimilar] at h ⊢
    exact ih h h'
  | case5 T1 T2 h1 h2 h3 h4 =>
    rw [isSimilar] at h
    · have hleaf := isLeaf_of_eqType_utype h h1 h2 h3 h4
      have hleaf' : isLeaf T2 = true := by
        rw [← isLeaf_stripType_utype, ← eqType_iff.mp h, isLeaf_stripType_utype, hleaf]
      rw [isSimilar_of_isLeaf hleaf'] at h'
      rw [isSimilar_of_isLeaf hleaf]
      exact eqType_iff.mpr ((eqType_iff.mp h).trans (eqType_iff.mp h'))
    · exact h1
    · exact h2
    · exact h3
    · exact h4

/-- The kinds of types that conversions tell apart. -/
inductive Kind
  | integer | bool | floating | nullptr | void | pointer | memberPointer | classType | unscopedEnum | other
  deriving DecidableEq

def CPPSimpleIntegerType.kind : CPPSimpleIntegerType → Kind
  | .bool => .bool
  | _ => .integer

def CPPSimpleType.kind : CPPSimpleType → Kind
  | .integer i => i.kind
  | .bitfieldType i _ => i.kind
  | .floating _ => .floating
  | .void => .void
  | .nullptr => .nullptr
  | .pointerType _ => .pointer
  | .memberPointerType _ _ => .memberPointer
  | .classType _ => .classType
  | .unscopedEnum _ _ _ => .unscopedEnum
  | .unscopedEnumBitfield _ _ _ _ => .unscopedEnum
  | _ => .other

attribute [local simp] CPPSimpleType.kind

def CPPType.kind (T : CPPType) : Kind := T.simpleType.kind

@[simp] theorem kind_utype (T : CPPType) : (utype T).kind = T.kind := by
  cases T
  rfl

@[simp] theorem kind_stripType (T : CPPType) : (stripType T).kind = T.kind := by
  obtain ⟨q, m, st⟩ := T
  cases st <;> rfl

theorem kind_eq_of_eqType {T1 T2 : CPPType} (h : eqType T1 T2 = true) : T1.kind = T2.kind := by
  rw [← kind_stripType T1, ← kind_stripType T2, eqType_iff.mp h]

/-- **Similar types are of one kind.** -/
theorem kind_eq_of_isSimilar {T1 T2 : CPPType} (h : isSimilar T1 T2 = true) : T1.kind = T2.kind := by
  induction T1, T2 using isSimilar.induct with
  | case1 => rfl
  | case2 => rfl
  | case3 => rfl
  | case4 => rfl
  | case5 T1 T2 h1 h2 h3 h4 =>
    rw [isSimilar] at h
    · simpa using kind_eq_of_eqType h
    · exact h1
    · exact h2
    · exact h3
    · exact h4

/-- Where there is no chain to follow, similar is the same. -/
theorem isSimilar_eq_eqType {T1 T2 : CPPType} (h : T1.kind ≠ .pointer) (h' : T1.kind ≠ .memberPointer) (h'' : T1.kind ≠ .other) :
    isSimilar T1 T2 = eqType (utype T1) (utype T2) := by
  obtain ⟨q, m, st⟩ := T1
  cases st <;> first | rfl | exact absurd rfl h | exact absurd rfl h' | exact absurd rfl h''

@[simp] theorem CPPSimpleIntegerType.kind_eq_bool {i : CPPSimpleIntegerType} : i.kind = .bool ↔ i = .bool := by
  cases i <;> decide

@[simp] theorem CPPSimpleIntegerType.kind_eq_integer {i : CPPSimpleIntegerType} : i.kind = .integer ↔ i ≠ .bool := by
  cases i <;> decide

theorem CPPSimpleIntegerType.kind_ne (i : CPPSimpleIntegerType) {k : Kind} (h : k ≠ .bool) (h' : k ≠ .integer) :
    i.kind ≠ k := by
  cases i <;> first | exact h.symm | exact h'.symm

theorem isCPPIntegerType_iff {T : CPPType} : isCPPIntegerType T = true ↔ T.kind = .integer ∨ T.kind = .bool := by
  obtain ⟨q, m, st⟩ := T
  cases st <;> simp [isCPPIntegerType, CPPType.kind, CPPType.simpleType, CPPSimpleType.kind, em']

theorem isCPPFloatingType_iff {T : CPPType} : isCPPFloatingType T = true ↔ T.kind = .floating := by
  obtain ⟨q, m, st⟩ := T
  cases st <;> simp [isCPPFloatingType, CPPType.kind, CPPType.simpleType, CPPSimpleType.kind, CPPSimpleIntegerType.kind_ne]

theorem isCPPBoolType_iff {T : CPPType} : isCPPBoolType T = true ↔ T.kind = .bool := by
  obtain ⟨q, m, st⟩ := T
  cases st <;> simp [isCPPBoolType, CPPType.kind, CPPType.simpleType, CPPSimpleType.kind]

theorem isCPPUnscopedEnumType_iff {T : CPPType} : isCPPUnscopedEnumType T = true ↔ T.kind = .unscopedEnum := by
  obtain ⟨q, m, st⟩ := T
  cases st <;> simp [isCPPUnscopedEnumType, CPPType.kind, CPPType.simpleType, CPPSimpleType.kind, CPPSimpleIntegerType.kind_ne]

theorem isCPPNullPtrTType_iff {T : CPPType} : isCPPNullPtrTType T = true ↔ T.kind = .nullptr := by
  obtain ⟨q, m, st⟩ := T
  cases st <;> simp [isCPPNullPtrTType, CPPType.kind, CPPType.simpleType, CPPSimpleType.kind, CPPSimpleIntegerType.kind_ne]

theorem isCPPPointerType_iff {T : CPPType} : isCPPPointerType T = true ↔ T.kind = .pointer := by
  obtain ⟨q, m, st⟩ := T
  cases st <;> simp [isCPPPointerType, CPPType.kind, CPPType.simpleType, CPPSimpleType.kind, CPPSimpleIntegerType.kind_ne]

theorem isCPPMemberPointerType_iff {T : CPPType} : isCPPMemberPointerType T = true ↔ T.kind = .memberPointer := by
  obtain ⟨q, m, st⟩ := T
  cases st <;> simp [isCPPMemberPointerType, CPPType.kind, CPPType.simpleType, CPPSimpleType.kind, CPPSimpleIntegerType.kind_ne]

theorem isCPPClassType_iff {T : CPPType} : isCPPClassType T = true ↔ T.kind = .classType := by
  obtain ⟨q, m, st⟩ := T
  cases st <;> simp [isCPPClassType, CPPType.kind, CPPType.simpleType, CPPSimpleType.kind, CPPSimpleIntegerType.kind_ne]

end CSemantics.Cpp
