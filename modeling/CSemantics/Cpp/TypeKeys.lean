/-
  Types as keys.

  An environment has one entry for each type of a name, under the key `stripType(T)`.  What is stripped are the
  modifiers and what is in a type without being part of it: exceptions, the class of a member function, the type
  behind an enumeration, the width of a bit-field.  The walk goes through parameters and template arguments alike:
  a parameter list is made a list of template arguments and back.  What is no type in such a list stays as it is.

      stripType_stripType    stripping again changes nothing
      preserved_iff          the types that a type is made of may be replaced by the same types,
                             everywhere but in an array whose length is not constant
      stripType_ofType       overload resolution strips its types in the same way
      type_keys              the two, with what follows for `==Type` and for an environment

  There is no rule for `dynamicArrayType`; the last rule takes it, which leaves a type as it is.
-/
import CSemantics.Cpp.Typing
import CSemantics.Lib.AssocMap

namespace CSemantics.Cpp.TypeKeys

/-! ## Types -/

/-- `CPPSimpleFundamentalType` -/
inductive CPPSimpleFundamentalType
  | integer (i : CPPSimpleIntegerType)
  | floating (f : CPPSimpleFloatingType)
  | void | nullptr
  deriving DecidableEq

/-- `Namespace`: its names from the outside, or the one that a declaration in a block is in. -/
inductive Namespace
  | names (N : List CId)
  | NoNamespace
  | UnnamedNamespace (tu : String)
  deriving DecidableEq

mutual

/-- `t(Quals, Mods, CPPSimpleType)`; `κ` has the terms that `stripType` does not go into: the length of an array
    that `new` makes, and a template argument that is no type. -/
inductive CPPType (κ : Type)
  | t (q : Quals) (m : Finset String) (st : CPPSimpleType κ)
  deriving DecidableEq

inductive CPPSimpleType (κ : Type)
  | fundamental (f : CPPSimpleFundamentalType)
  | bitfieldType (st : CPPSimpleType κ) (n : Int)
  | pointerType (T : CPPType κ)
  | memberPointerType (C T : CPPType κ)
  | arrayType (T : CPPType κ) (n : Int)
  | incompleteArrayType (T : CPPType κ)
  | dynamicArrayType (T : CPPType κ) (n : κ)
  | lvRefType (T : CPPType κ)
  | rvRefType (T : CPPType κ)
  | functionType (returnType : CPPType κ) (paramTypes : TemplateArgs κ) (methodInfo : MethodInfo κ)
      (linkage : LanguageLinkage) (exceptions : ExceptionSet κ)
  | classType (C : Class κ)
  | scopedEnum (id : Enum κ) (underlyingType : CPPType κ)
  | unscopedEnum (id : Enum κ) (underlyingType : CPPType κ) (utFixed : Bool)
  | dependentType (s : String) (n : Int)
  | auto | decltypeAuto | noType
  deriving DecidableEq

/-- What is in a `CPPTypes` or in a `TemplateArgs`. -/
inductive TemplateArg (κ : Type)
  | type (T : CPPType κ)
  | variadic
  | implicitObjectParameter (T : CPPType κ)
  | value (v : κ)
  deriving DecidableEq

/-- `CPPTypes` and `TemplateArgs` -/
inductive TemplateArgs (κ : Type)
  | nil
  | cons (A : TemplateArg κ) (As : TemplateArgs κ)
  deriving DecidableEq

/-- The class of a `methodInfo`, if it has one. -/
inductive MethodClass (κ : Type)
  | none
  | some (C : Class κ)
  deriving DecidableEq

inductive MethodInfo (κ : Type)
  | noMethod
  | methodInfo (refQual : RefQualifier) (cvQuals : Quals) (static virtual pure explicit : Bool)
      (cls : MethodClass κ) (userProvided constructor : Bool)
  deriving DecidableEq

inductive ExceptionSet (κ : Type)
  | exSet (Ts : TemplateArgs κ)
  | noexcept (b : Bool)
  deriving DecidableEq

inductive ClassQualifier (κ : Type)
  | namespace (N : Namespace)
  | localQual (B : Scope)
  | inClass (C : Class κ)
  deriving DecidableEq

/-- `ClassQualifier :: Class(Tag, CId, TemplateArgs)` -/
inductive Class (κ : Type)
  | mk (q : ClassQualifier κ) (tag : ClassKey) (x : CId) (Ts : TemplateArgs κ)
  deriving DecidableEq

/-- `ClassQualifier :: Enum(CId)` -/
inductive Enum (κ : Type)
  | enum (q : ClassQualifier κ) (x : CId)
  deriving DecidableEq

end

variable {κ : Type}

/-- `type(int)` -/
def intType : CPPType κ := .t noQuals ∅ (.fundamental (.integer .int))

/-! ### Lists -/

def TemplateArgs.toList : TemplateArgs κ → List (TemplateArg κ)
  | .nil => []
  | .cons A As => A :: As.toList

def TemplateArgs.ofList : List (TemplateArg κ) → TemplateArgs κ
  | [] => .nil
  | A :: As => .cons A (ofList As)

/-- `toTemplateArgs(Ts)` -/
def toTemplateArgs (Ts : TemplateArgs κ) : TemplateArgs κ := .ofList Ts.toList

/-- `toCPPTypes(Ts)` -/
def toCPPTypes (Ts : TemplateArgs κ) : TemplateArgs κ := .ofList Ts.toList

@[simp] theorem TemplateArgs.ofList_toList : ∀ Ts : TemplateArgs κ, ofList Ts.toList = Ts
  | .nil => rfl
  | .cons A As => by rw [toList, ofList, ofList_toList As]

@[simp] theorem toTemplateArgs_eq (Ts : TemplateArgs κ) : toTemplateArgs Ts = Ts := Ts.ofList_toList

@[simp] theorem toCPPTypes_eq (Ts : TemplateArgs κ) : toCPPTypes Ts = Ts := Ts.ofList_toList

/-! ## Stripping -/

/-- `stripMI` -/
def stripMI : MethodInfo κ → MethodInfo κ
  | .noMethod => .methodInfo .refNone noQuals false false false false .none true false
  | .methodInfo refQual cvQuals _ _ _ _ _ _ _ => .methodInfo refQual cvQuals false false false false .none true false

mutual

/-- `stripType` -/
def stripType : CPPType κ → CPPType κ
  | .t q m st => stripSimpleType q m st

/-- `stripType(t(Q, Mods, T))` -/
def stripSimpleType (q : Quals) (m : Finset String) : CPPSimpleType κ → CPPType κ
  | .fundamental f => .t q ∅ (.fundamental f)
  | .bitfieldType st _ => stripSimpleType q m st
  | .pointerType T => .t q ∅ (.pointerType (stripType T))
  | .arrayType T n => .t q ∅ (.arrayType (stripType T) n)
  | .incompleteArrayType T => .t q ∅ (.incompleteArrayType (stripType T))
  | .lvRefType T => .t q ∅ (.lvRefType (stripType T))
  | .rvRefType T => .t q ∅ (.rvRefType (stripType T))
  | .memberPointerType C T => .t q ∅ (.memberPointerType (stripType C) (stripType T))
  -- with the parameters as template arguments: `stripSimpleType_functionType`
  | .functionType ret params mi linkage _ =>
    .t q ∅ (.functionType (stripType ret) (stripTypes params) (stripMI mi) linkage (.noexcept false))
  | .classType C => .t q ∅ (.classType (stripClass C))
  | .scopedEnum id _ => .t q ∅ (.scopedEnum (stripEnum id) intType)
  | .unscopedEnum id _ _ => .t q ∅ (.unscopedEnum (stripEnum id) intType false)
  -- [owise]
  | .dynamicArrayType T n => .t q m (.dynamicArrayType T n)
  | .dependentType s n => .t q m (.dependentType s n)
  | .auto => .t q m .auto
  | .decltypeAuto => .t q m .decltypeAuto
  | .noType => .t q m .noType

/-- `stripType` of what is in a list; all but a type is left to the last rule. -/
def stripArg : TemplateArg κ → TemplateArg κ
  | .type T => .type (stripType T)
  | .variadic => .variadic
  | .implicitObjectParameter T => .implicitObjectParameter T
  | .value v => .value v

def stripTypes : TemplateArgs κ → TemplateArgs κ
  | .nil => .nil
  | .cons A As => .cons (stripArg A) (stripTypes As)

def stripClass : Class κ → Class κ
  | .mk q tag x Ts => .mk (stripQualifier q) tag x (stripTypes Ts)

def stripQualifier : ClassQualifier κ → ClassQualifier κ
  | .namespace N => .namespace N
  | .localQual B => .localQual B
  | .inClass C => .inClass (stripClass C)

/-- The enumeration in `stripType(t(Q, _, scopedEnum(Id, _)))` -/
def stripEnum : Enum κ → Enum κ
  | .enum q x => .enum (stripQualifier q) x

end

/-- The rule for functions. -/
theorem stripSimpleType_functionType (q : Quals) (m : Finset String) (ret : CPPType κ) (params : TemplateArgs κ)
    (mi : MethodInfo κ) (linkage : LanguageLinkage) (ex : ExceptionSet κ) :
    stripType (.t q m (.functionType ret params mi linkage ex)) =
      .t q ∅ (.functionType (stripType ret) (toCPPTypes (stripTypes (toTemplateArgs params))) (stripMI mi) linkage
        (.noexcept false)) := by
  rw [toTemplateArgs_eq, toCPPTypes_eq, stripType, stripSimpleType]

/-- `T1 ==Type T2` -/
def EqType (T1 T2 : CPPType κ) : Prop := stripType T1 = stripType T2

/-! ## Twice -/

@[simp] theorem stripMI_stripMI (mi : MethodInfo κ) : stripMI (stripMI mi) = stripMI mi := by
  cases mi <;> rfl

mutual

@[simp] theorem stripType_stripType : ∀ T : CPPType κ, stripType (stripType T) = stripType T
  | .t q m st => by
    rw [stripType]
    exact stripType_stripSimpleType q m st

theorem stripType_stripSimpleType (q : Quals) (m : Finset String) :
    ∀ st : CPPSimpleType κ, stripType (stripSimpleType q m st) = stripSimpleType q m st
  | .fundamental f => rfl
  | .bitfieldType st _ => by
    rw [stripSimpleType]
    exact stripType_stripSimpleType q m st
  | .pointerType T => by simp only [stripSimpleType, stripType, stripType_stripType T]
  | .arrayType T n => by simp only [stripSimpleType, stripType, stripType_stripType T]
  | .incompleteArrayType T => by simp only [stripSimpleType, stripType, stripType_stripType T]
  | .lvRefType T => by simp only [stripSimpleType, stripType, stripType_stripType T]
  | .rvRefType T => by simp only [stripSimpleType, stripType, stripType_stripType T]
  | .memberPointerType C T => by
    simp only [stripSimpleType, stripType, stripType_stripType C, stripType_stripType T]
  | .functionType ret params mi linkage _ => by
    simp only [stripSimpleType, stripType, stripType_stripType ret, stripTypes_stripTypes params, stripMI_stripMI]
  | .classType C => by simp only [stripSimpleType, stripType, stripClass_stripClass C]
  | .scopedEnum id _ => by simp only [stripSimpleType, stripType, stripEnum_stripEnum id]
  | .unscopedEnum id _ _ => by simp only [stripSimpleType, stripType, stripEnum_stripEnum id]
  | .dynamicArrayType T n => rfl
  | .dependentType s n => rfl
  | .auto => rfl
  | .decltypeAuto => rfl
  | .noType => rfl

theorem stripArg_stripArg : ∀ A : TemplateArg κ, stripArg (stripArg A) = stripArg A
  | .type T => by simp only [stripArg, stripType_stripType T]
  | .variadic => rfl
  | .implicitObjectParameter _ => rfl
  | .value _ => rfl

theorem stripTypes_stripTypes : ∀ Ts : TemplateArgs κ, stripTypes (stripTypes Ts) = stripTypes Ts
  | .nil => rfl
  | .cons A As => by simp only [stripTypes, stripArg_stripArg A, stripTypes_stripTypes As]

theorem stripClass_stripClass : ∀ C : Class κ, stripClass (stripClass C) = stripClass C
  | .mk q _ _ Ts => by simp only [stripClass, stripQualifier_stripQualifier q, stripTypes_stripTypes Ts]

theorem stripQualifier_stripQualifier :
    ∀ q : ClassQualifier κ, stripQualifier (stripQualifier q) = stripQualifier q
  | .namespace _ => rfl
  | .localQual _ => rfl
  | .inClass C => by simp only [stripQualifier, stripClass_stripClass C]

theorem stripEnum_stripEnum : ∀ e : Enum κ, stripEnum (stripEnum e) = stripEnum e
  | .enum q _ => by simp only [stripEnum, stripQualifier_stripQualifier q]

end

/-- **The same type** is what has the same key. -/
theorem equivalence_eqType : Equivalence (@EqType κ) := (Setoid.ker stripType).iseqv

/-! ## What a type is made of -/

/-- Items of a list that are the same, or the same type. -/
inductive SameArg : TemplateArg κ → TemplateArg κ → Prop
  | same (A : TemplateArg κ) : SameArg A A
  | type {T T' : CPPType κ} (h : EqType T T') : SameArg (.type T) (.type T')

/-- Lists that are the same, item by item. -/
def SameArgs (Ts Ts' : TemplateArgs κ) : Prop := List.Forall₂ SameArg Ts.toList Ts'.toList

/-- Classes with the same names, from the inside to the outside, and the same template arguments. -/
inductive SameClass : Class κ → Class κ → Prop
  | namespace (N : Namespace) (tag : ClassKey) (x : CId) {Ts Ts' : TemplateArgs κ} (h : SameArgs Ts Ts') :
      SameClass (.mk (.namespace N) tag x Ts) (.mk (.namespace N) tag x Ts')
  | localQual (B : Scope) (tag : ClassKey) (x : CId) {Ts Ts' : TemplateArgs κ} (h : SameArgs Ts Ts') :
      SameClass (.mk (.localQual B) tag x Ts) (.mk (.localQual B) tag x Ts')
  | inClass {C C' : Class κ} (hC : SameClass C C') (tag : ClassKey) (x : CId) {Ts Ts' : TemplateArgs κ}
      (h : SameArgs Ts Ts') : SameClass (.mk (.inClass C) tag x Ts) (.mk (.inClass C') tag x Ts')

/-- Enumerations of one name, in the same scope. -/
inductive SameEnum : Enum κ → Enum κ → Prop
  | same (e : Enum κ) : SameEnum e e
  | inClass {C C' : Class κ} (hC : SameClass C C') (x : CId) :
      SameEnum (.enum (.inClass C) x) (.enum (.inClass C') x)

/-- What makes a type of types. -/
inductive TypeConstructor
  | bitfieldType | pointerType | memberPointerType | arrayType | incompleteArrayType | dynamicArrayType | lvRefType
  | rvRefType | functionType | classType | scopedEnum | unscopedEnum

/-- The same parts make the same type, whatever the modifiers are. -/
def Preserved (κ : Type) : TypeConstructor → Prop
  | .bitfieldType => ∀ q m m' (st st' : CPPSimpleType κ) n n', EqType (.t q m st) (.t q m' st') →
    EqType (.t q m (.bitfieldType st n)) (.t q m' (.bitfieldType st' n'))
  | .pointerType => ∀ q m m' (T T' : CPPType κ), EqType T T' →
    EqType (.t q m (.pointerType T)) (.t q m' (.pointerType T'))
  | .memberPointerType => ∀ q m m' (C C' T T' : CPPType κ), EqType C C' → EqType T T' →
    EqType (.t q m (.memberPointerType C T)) (.t q m' (.memberPointerType C' T'))
  | .arrayType => ∀ q m m' (T T' : CPPType κ) n, EqType T T' →
    EqType (.t q m (.arrayType T n)) (.t q m' (.arrayType T' n))
  | .incompleteArrayType => ∀ q m m' (T T' : CPPType κ), EqType T T' →
    EqType (.t q m (.incompleteArrayType T)) (.t q m' (.incompleteArrayType T'))
  | .dynamicArrayType => ∀ q m m' (T T' : CPPType κ) n, EqType T T' →
    EqType (.t q m (.dynamicArrayType T n)) (.t q m' (.dynamicArrayType T' n))
  | .lvRefType => ∀ q m m' (T T' : CPPType κ), EqType T T' →
    EqType (.t q m (.lvRefType T)) (.t q m' (.lvRefType T'))
  | .rvRefType => ∀ q m m' (T T' : CPPType κ), EqType T T' →
    EqType (.t q m (.rvRefType T)) (.t q m' (.rvRefType T'))
  | .functionType => ∀ q m m' (ret ret' : CPPType κ) params params' mi mi' linkage ex ex', EqType ret ret' →
    SameArgs params params' → stripMI mi = stripMI mi' →
    EqType (.t q m (.functionType ret params mi linkage ex)) (.t q m' (.functionType ret' params' mi' linkage ex'))
  | .classType => ∀ q m m' (C C' : Class κ), SameClass C C' → EqType (.t q m (.classType C)) (.t q m' (.classType C'))
  | .scopedEnum => ∀ q m m' (e e' : Enum κ) U U', SameEnum e e' →
    EqType (.t q m (.scopedEnum e U)) (.t q m' (.scopedEnum e' U'))
  | .unscopedEnum => ∀ q m m' (e e' : Enum κ) U U' b b', SameEnum e e' →
    EqType (.t q m (.unscopedEnum e U b)) (.t q m' (.unscopedEnum e' U' b'))

theorem stripArg_eq {A A' : TemplateArg κ} (h : SameArg A A') : stripArg A = stripArg A' := by
  cases h with
  | same => rfl
  | type h => exact congrArg TemplateArg.type h

theorem stripTypes_eq : ∀ {Ts Ts' : TemplateArgs κ}, SameArgs Ts Ts' → stripTypes Ts = stripTypes Ts'
  | .nil, .nil, _ => rfl
  | .nil, .cons _ _, h => by cases h
  | .cons _ _, .nil, h => by cases h
  | .cons A As, .cons A' As', h => by
    obtain ⟨hA, hAs⟩ := List.forall₂_cons.1 h
    rw [stripTypes, stripTypes, stripArg_eq hA, stripTypes_eq hAs]

theorem stripClass_eq {C C' : Class κ} (h : SameClass C C') : stripClass C = stripClass C' := by
  induction h with
  | «namespace» N tag x h => rw [stripClass, stripClass, stripTypes_eq h]
  | localQual B tag x h => rw [stripClass, stripClass, stripTypes_eq h]
  | inClass _ tag x h ih => rw [stripClass, stripClass, stripQualifier, stripQualifier, ih, stripTypes_eq h]

theorem stripEnum_eq {e e' : Enum κ} (h : SameEnum e e') : stripEnum e = stripEnum e' := by
  cases h with
  | same => rfl
  | inClass hC x => rw [stripEnum, stripEnum, stripQualifier, stripQualifier, stripClass_eq hC]

/-- `void (*)()`, with an exception specification or without -/
def functionPointer (noexcept : Bool) : CPPType κ :=
  .t noQuals ∅ (.pointerType (.t noQuals ∅
    (.functionType (.t noQuals ∅ (.fundamental .void)) .nil .noMethod .cpp (.noexcept noexcept))))

/-- **An array that `new` makes** keeps what its elements are declared with. -/
theorem not_preserved_dynamicArrayType [Inhabited κ] : ¬ Preserved κ .dynamicArrayType := by
  intro h
  have hsame := h noQuals ∅ ∅ (functionPointer true) (functionPointer false) default rfl
  rw [EqType] at hsame
  simp [stripType, stripSimpleType, functionPointer] at hsame

/-- **`==Type` goes through every constructor but one.** -/
theorem preserved_iff [Inhabited κ] (c : TypeConstructor) : Preserved κ c ↔ c ≠ .dynamicArrayType := by
  cases c with
  | dynamicArrayType => exact iff_of_false not_preserved_dynamicArrayType fun h => h rfl
  | bitfieldType =>
    refine iff_of_true (fun q m m' st st' n n' h => ?_) (by simp)
    have h : stripSimpleType q m st = stripSimpleType q m' st' := h
    rw [EqType, stripType, stripType, stripSimpleType, stripSimpleType, h]
  | memberPointerType =>
    refine iff_of_true (fun q m m' C C' T T' hC hT => ?_) (by simp)
    rw [EqType] at hC hT
    rw [EqType, stripType, stripType, stripSimpleType, stripSimpleType, hC, hT]
  | functionType =>
    refine iff_of_true (fun q m m' ret ret' ps ps' mi mi' linkage ex ex' hret hps hmi => ?_) (by simp)
    rw [EqType] at hret
    rw [EqType, stripType, stripType, stripSimpleType, stripSimpleType, hret, stripTypes_eq hps, hmi]
  | classType =>
    refine iff_of_true (fun q m m' C C' h => ?_) (by simp)
    rw [EqType, stripType, stripType, stripSimpleType, stripSimpleType, stripClass_eq h]
  | scopedEnum =>
    refine iff_of_true (fun q m m' e e' U U' h => ?_) (by simp)
    rw [EqType, stripType, stripType, stripSimpleType, stripSimpleType, stripEnum_eq h]
  | unscopedEnum =>
    refine iff_of_true (fun q m m' e e' U U' b b' h => ?_) (by simp)
    rw [EqType, stripType, stripType, stripSimpleType, stripSimpleType, stripEnum_eq h]
  | arrayType =>
    refine iff_of_true (fun q m m' T T' n h => ?_) (by simp)
    rw [EqType] at h
    rw [EqType, stripType, stripType, stripSimpleType, stripSimpleType, h]
  | pointerType | incompleteArrayType | lvRefType | rvRefType =>
    refine iff_of_true (fun q m m' T T' h => ?_) (by simp)
    rw [EqType] at h
    rw [EqType, stripType, stripType, stripSimpleType, stripSimpleType, h]

/-! ## The types of the translator -/

section Typing

/-- `methodInfo`, whose class is not looked at there. -/
def ofMethodInfo : Cpp.MethodInfo → MethodInfo κ
  | .noMethod => .noMethod
  | .methodInfo refQual cvQuals static virtual pure explicit userProvided constructor =>
    .methodInfo refQual cvQuals static virtual pure explicit .none userProvided constructor

theorem stripMI_ofMethodInfo (mi : Cpp.MethodInfo) :
    stripMI (ofMethodInfo mi : MethodInfo κ) = ofMethodInfo (Cpp.stripMI mi) := by
  cases mi <;> rfl

variable [Inhabited κ]

mutual

/-- A type of which nothing is kept that overload resolution does not ask for. -/
def ofType : Cpp.CPPType → CPPType κ
  | .t q m st => .t q m (ofSimpleType st)

def ofSimpleType : Cpp.CPPSimpleType → CPPSimpleType κ
  | .integer i => .fundamental (.integer i)
  | .floating f => .fundamental (.floating f)
  | .void => .fundamental .void
  | .nullptr => .fundamental .nullptr
  | .bitfieldType i n => .bitfieldType (.fundamental (.integer i)) n
  | .scopedEnumBitfield id U n => .bitfieldType (.scopedEnum (ofEnum id) (ofType U)) n
  | .unscopedEnumBitfield id U b n => .bitfieldType (.unscopedEnum (ofEnum id) (ofType U) b) n
  | .pointerType T => .pointerType (ofType T)
  | .memberPointerType C T => .memberPointerType (ofType C) (ofType T)
  | .arrayType T n => .arrayType (ofType T) n
  | .incompleteArrayType T => .incompleteArrayType (ofType T)
  | .dynamicArrayType T => .dynamicArrayType (ofType T) default
  | .lvRefType T => .lvRefType (ofType T)
  | .rvRefType T => .rvRefType (ofType T)
  | .functionType ret params mi linkage ex =>
    .functionType (ofType ret) (ofTypes params) (ofMethodInfo mi) linkage (ofExceptionSet ex)
  | .classType C => .classType (ofClass C)
  | .scopedEnum id U => .scopedEnum (ofEnum id) (ofType U)
  | .unscopedEnum id U b => .unscopedEnum (ofEnum id) (ofType U) b
  | .dependentType s n => .dependentType s n
  | .auto => .auto
  | .decltypeAuto => .decltypeAuto
  | .noType => .noType

def ofTypes : CPPTypes → TemplateArgs κ
  | .nil => .nil
  | .cons T Ts => .cons (.type (ofType T)) (ofTypes Ts)
  | .implicitObjectParameter T Ts => .cons (.implicitObjectParameter (ofType T)) (ofTypes Ts)
  | .variadic => .cons .variadic .nil

def ofExceptionSet : Cpp.ExceptionSet → ExceptionSet κ
  | .exSet Ts => .exSet (ofTypes Ts)
  | .noexcept b => .noexcept b

def ofQualifier : Cpp.ClassQualifier → ClassQualifier κ
  | .namespace N => .namespace (.names N)
  | .localQual B => .localQual B
  | .inClass C => .inClass (ofClass C)

def ofClass : Cpp.Class → Class κ
  | .mk q tag x Ts => .mk (ofQualifier q) tag x (ofTypes Ts)

def ofEnum : Cpp.Enum → Enum κ
  | .enum q x => .enum (ofQualifier q) x

end

mutual

/-- **Both strip the same.** -/
theorem stripType_ofType : ∀ T : Cpp.CPPType, stripType (ofType T : CPPType κ) = ofType (Cpp.stripType T)
  | .t q m st => by
    rw [ofType, stripType]
    exact stripSimpleType_ofSimpleType q m st

theorem stripSimpleType_ofSimpleType (q : Quals) (m : Finset String) : ∀ st : Cpp.CPPSimpleType,
    stripSimpleType q m (ofSimpleType st : CPPSimpleType κ) = ofType (Cpp.stripType (.t q m st))
  | .integer _ => rfl
  | .floating _ => rfl
  | .void => rfl
  | .nullptr => rfl
  | .bitfieldType _ _ => rfl
  | .scopedEnumBitfield id U n => by
    simp only [ofSimpleType, stripSimpleType, Cpp.stripType, Cpp.stripSimpleType, ofType, stripEnum_ofEnum id]
    rfl
  | .unscopedEnumBitfield id U b n => by
    simp only [ofSimpleType, stripSimpleType, Cpp.stripType, Cpp.stripSimpleType, ofType, stripEnum_ofEnum id]
    rfl
  | .pointerType T => by
    simp only [ofSimpleType, stripSimpleType, Cpp.stripType, Cpp.stripSimpleType, ofType, stripType_ofType T]
  | .memberPointerType C T => by
    simp only [ofSimpleType, stripSimpleType, Cpp.stripType, Cpp.stripSimpleType, ofType, stripType_ofType C,
      stripType_ofType T]
  | .arrayType T n => by
    simp only [ofSimpleType, stripSimpleType, Cpp.stripType, Cpp.stripSimpleType, ofType, stripType_ofType T]
  | .incompleteArrayType T => by
    simp only [ofSimpleType, stripSimpleType, Cpp.stripType, Cpp.stripSimpleType, ofType, stripType_ofType T]
  | .dynamicArrayType _ => rfl
  | .lvRefType T => by
    simp only [ofSimpleType, stripSimpleType, Cpp.stripType, Cpp.stripSimpleType, ofType, stripType_ofType T]
  | .rvRefType T => by
    simp only [ofSimpleType, stripSimpleType, Cpp.stripType, Cpp.stripSimpleType, ofType, stripType_ofType T]
  | .functionType ret params mi linkage ex => by
    simp only [ofSimpleType, stripSimpleType, Cpp.stripType, Cpp.stripSimpleType, ofType, ofExceptionSet,
      stripType_ofType ret, stripTypes_ofTypes params, stripMI_ofMethodInfo]
  | .classType C => by
    simp only [ofSimpleType, stripSimpleType, Cpp.stripType, Cpp.stripSimpleType, ofType, stripClass_ofClass C]
  | .scopedEnum id U => by
    simp only [ofSimpleType, stripSimpleType, Cpp.stripType, Cpp.stripSimpleType, ofType, stripEnum_ofEnum id]
    rfl
  | .unscopedEnum id U b => by
    simp only [ofSimpleType, stripSimpleType, Cpp.stripType, Cpp.stripSimpleType, ofType, stripEnum_ofEnum id]
    rfl
  | .dependentType _ _ => rfl
  | .auto => rfl
  | .decltypeAuto => rfl
  | .noType => rfl

theorem stripTypes_ofTypes : ∀ Ts : CPPTypes,
    stripTypes (ofTypes Ts : TemplateArgs κ) = ofTypes (Cpp.stripTypes Ts)
  | .nil => rfl
  | .cons T Ts => by
    simp only [ofTypes, stripTypes, stripArg, Cpp.stripTypes, stripType_ofType T, stripTypes_ofTypes Ts]
  | .implicitObjectParameter T Ts => by
    simp only [ofTypes, stripTypes, stripArg, Cpp.stripTypes, stripTypes_ofTypes Ts]
  | .variadic => rfl

theorem stripClass_ofClass : ∀ C : Cpp.Class, stripClass (ofClass C : Class κ) = ofClass (Cpp.stripClass C)
  | .mk q tag x Ts => by
    simp only [ofClass, stripClass, Cpp.stripClass, stripQualifier_ofQualifier q, stripTypes_ofTypes Ts]

theorem stripQualifier_ofQualifier : ∀ q : Cpp.ClassQualifier,
    stripQualifier (ofQualifier q : ClassQualifier κ) = ofQualifier (Cpp.stripQualifier q)
  | .namespace _ => rfl
  | .localQual _ => rfl
  | .inClass C => by simp only [ofQualifier, stripQualifier, Cpp.stripQualifier, stripClass_ofClass C]

theorem stripEnum_ofEnum : ∀ e : Cpp.Enum, stripEnum (ofEnum e : Enum κ) = ofEnum (Cpp.stripEnum e)
  | .enum q x => by simp only [ofEnum, stripEnum, Cpp.stripEnum, stripQualifier_ofQualifier q]

end

/-- The types that overload resolution takes for the same have the same key. -/
theorem eqType_ofType {T T' : Cpp.CPPType} (h : Cpp.eqType T T' = true) : EqType (ofType T : CPPType κ) (ofType T') := by
  rw [EqType, stripType_ofType, stripType_ofType, Cpp.eqType_iff.mp h]

end Typing

/-! ## Environments -/

section Env

variable {δ : Type}

/-- `envEntry(Base, Using, DefaultArgs)` -/
structure EnvEntry (δ : Type) where
  base : SymBase
  isUsing : Bool
  defaultArgs : δ

/-- What a name is bound to: under a key, the type as it was declared and the entry. -/
abbrev XEnv (κ δ : Type) := List (CPPType κ × (CPPType κ × EnvEntry δ))

/-- Every key is the key of the type it has, and no key is there twice. -/
structure Keyed (env : XEnv κ δ) : Prop where
  key : ∀ p ∈ env, p.1 = stripType p.2.1
  nodup : (env.map Prod.fst).Nodup

/-- **One entry for each type**: what has the same type is the same entry. -/
theorem Keyed.entry {env : XEnv κ δ} (h : Keyed env) {p p' : CPPType κ × (CPPType κ × EnvEntry δ)} (hp : p ∈ env)
    (hp' : p' ∈ env) (hT : EqType p.2.1 p'.2.1) : p = p' := by
  have hkey : p.1 = p'.1 := by rw [h.key p hp, h.key p' hp', hT]
  exact List.inj_on_of_nodup_map h.nodup hp hp' hkey

theorem keyed_nil : Keyed ([] : XEnv κ δ) where
  key _ hp := absurd hp List.not_mem_nil
  nodup := List.nodup_nil

variable [DecidableEq κ]

/-- `updateFnEnv`, of one name -/
def updateFnEnv (emptyDefaultArguments : CPPType κ → δ) (env : XEnv κ δ) (T : CPPType κ) (base : SymBase)
    (isUsing : Bool) : XEnv κ δ :=
  match env.lookup (stripType T) with
  | some (_, entry) =>
    AssocMap.update env (stripType T) (T, { entry with base := base, isUsing := isUsing })
  | none => AssocMap.update env (stripType T) (T, ⟨base, isUsing, emptyDefaultArguments T⟩)

/-- A name, and everything it is declared as. -/
def declare (emptyDefaultArguments : CPPType κ → δ) : XEnv κ δ → List (CPPType κ × SymBase × Bool) → XEnv κ δ
  | env, [] => env
  | env, (T, base, isUsing) :: ds =>
    declare emptyDefaultArguments (updateFnEnv emptyDefaultArguments env T base isUsing) ds

theorem keyed_update {env : XEnv κ δ} (h : Keyed env) (T : CPPType κ) (e : EnvEntry δ) :
    Keyed (AssocMap.update env (stripType T) (T, e)) where
  key p hp := by
    rcases List.mem_append.1 hp with hp | hp
    · exact h.key p (List.mem_of_mem_filter hp)
    · rw [List.mem_singleton.1 hp]
  nodup := AssocMap.nodup_keys_update h.nodup _ _

theorem keyed_updateFnEnv (emptyDefaultArguments : CPPType κ → δ) {env : XEnv κ δ} (h : Keyed env) (T : CPPType κ)
    (base : SymBase) (isUsing : Bool) : Keyed (updateFnEnv emptyDefaultArguments env T base isUsing) := by
  unfold updateFnEnv
  split
  · exact keyed_update h T _
  · exact keyed_update h T _

theorem keyed_declare (emptyDefaultArguments : CPPType κ → δ) (ds : List (CPPType κ × SymBase × Bool)) :
    ∀ {env : XEnv κ δ}, Keyed env → Keyed (declare emptyDefaultArguments env ds) := by
  induction ds with
  | nil => exact fun h => h
  | cons d ds ih =>
    obtain ⟨T, base, isUsing⟩ := d
    exact fun h => ih (keyed_updateFnEnv emptyDefaultArguments h T base isUsing)

end Env

end CSemantics.Cpp.TypeKeys
