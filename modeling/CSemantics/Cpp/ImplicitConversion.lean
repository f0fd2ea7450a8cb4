/-
  Implicit conversion sequences.

  `computeConversionSequence` for one argument and one parameter.  A reference that binds directly has a
  sequence of its own, with the REFERENCE as its parameter; any other reference has the sequence of the type
  it refers to.  What no standard conversion can do a constructor of the parameter or a conversion function of
  the argument may do; their own arguments are not converted by such a function again.

  All sequences of one argument that are standard have one of two shapes (`StandardFor`): a direct binding, or
  what the rules for the second conversion make of ONE type, the argument after the first conversion.
-/
import CSemantics.Cpp.Overloading

namespace CSemantics.Cpp

/-! ## Arguments -/

inductive ValueCategory
  | lvalue | xvalue | prvalue
  deriving DecidableEq

/-- The type and the category of an argument: of an expression, or of the elements of an initializer list. -/
inductive ArgType
  | exp (A : CPPType) (C : ValueCategory)
  | initList (elements : List ArgType)

def isCPPLVRefType (T : CPPType) : Bool :=
  match T.simpleType with
  | .lvRefType _ => true
  | _ => false

def isCPPRVRefType (T : CPPType) : Bool :=
  match T.simpleType with
  | .rvRefType _ => true
  | _ => false

def isCPPRefType (T : CPPType) : Bool := isCPPLVRefType T || isCPPRVRefType T

def isCPPVoidType (T : CPPType) : Bool := T.simpleType == .void

/-- `innerType`; only a type with an inner type is asked for it. -/
def innerType (T : CPPType) : CPPType :=
  match T.simpleType with
  | .pointerType T | .arrayType T _ | .incompleteArrayType T | .dynamicArrayType T | .lvRefType T | .rvRefType T => T
  | _ => T

def isObjectType (T : CPPType) : Bool := !isCPPFunctionType T && !isCPPRefType T && !isCPPVoidType T

/-- The category of what a function that returns `T` gives. -/
def unnamedCat (T : CPPType) : ValueCategory :=
  if isCPPLVRefType T || (isCPPRVRefType T && isCPPFunctionType (innerType T)) then .lvalue
  else if isCPPRVRefType T && isObjectType (innerType T) then .xvalue
  else .prvalue

def prvalType (T : CPPType) : CPPType := if isCPPArrayType T || isCPPClassType T then T else utype T

/-! ## Binding references -/

section Binding

variable (env : Env)

def Env.IsProperBaseClassType (B D : CPPType) : Prop :=
  ∃ B' D', B.simpleType = .classType B' ∧ D.simpleType = .classType D' ∧ B' ≠ D' ∧ env.IsBaseClassOf B' D'

def IsReferenceRelated (T1 T2 : CPPType) : Prop := isSimilar (utype T1) (utype T2) ∨ env.IsBaseClassType T1 T2

def IsReferenceCompatible (T1 T2 : CPPType) : Prop := IsReferenceRelated env T1 T2 ∧ leQuals (getQuals T2) (getQuals T1)

def isValidReferenceType (T : CPPType) : Bool :=
  match T.simpleType with
  | .rvRefType _ => true
  | .lvRefType (.t q _ _) => q.const && !q.volatile
  | _ => false

/-- The rules of `bindsDirectlyToExp` that do not look at the flag. -/
def BindsDirectly (P A : CPPType) : ValueCategory → Prop
  | .lvalue => (isCPPLVRefType P ∧ IsReferenceCompatible env (innerType P) A) ∨
      (isCPPFunctionType A ∧ IsReferenceCompatible env (innerType P) A ∧ isValidReferenceType P)
  | .xvalue => IsReferenceCompatible env (innerType P) A ∧ isValidReferenceType P
  | .prvalue => (isCPPClassType A ∨ isCPPArrayType A) ∧ IsReferenceCompatible env (innerType P) A ∧
      isValidReferenceType P

/-- The type referred to with `const`. -/
def addConst : CPPType → CPPType
  | .t q m (.lvRefType (.t q' m' st)) => .t q m (.lvRefType (.t { q' with const := true } m' st))
  | .t q m (.rvRefType (.t q' m' st)) => .t q m (.rvRefType (.t { q' with const := true } m' st))
  | T => T

/-- The object of a member function without a ref-qualifier may be an rvalue. -/
def BindsDirectlyToExp (P A : CPPType) (C : ValueCategory) (isNonStaticRefNone : Bool) : Prop :=
  BindsDirectly env P A C ∨ (isNonStaticRefNone ∧ C ≠ .lvalue ∧ BindsDirectly env (addConst P) A C)

/-- `notBool bindsDirectlyToConversion(P, A, C)`: there is only a rule for false. -/
def NotBindsDirectlyToConversion (P A : CPPType) (C : ValueCategory) : Prop :=
  ¬ (isCPPClassType A ∧ ¬ IsReferenceRelated env (innerType P) A) ∨ BindsDirectlyToExp env P A C false

end Binding

/-! ## Standard conversions -/

/-- The first conversion of `computeSCS`, and the argument after it. -/
def firstConversion (A : CPPType) : ValueCategory → Option (Conversion × CPPType)
  | .prvalue => if isCPPArrayType A then none else some (.identity, A)
  | .lvalue =>
    if isCPPArrayType A then some (.arrayConversion, (CPPSimpleType.pointerType (innerType A)).type)
    else if isCPPFunctionType A then some (.functionConversion, (CPPSimpleType.pointerType A).type)
    else some (.lvalueConversion, prvalType A)
  | .xvalue =>
    if isCPPArrayType A then some (.arrayConversion, (CPPSimpleType.pointerType (innerType A)).type)
    else if isCPPFunctionType A then none
    else some (.lvalueConversion, prvalType A)

/-- `computeSCS(P, A, C, B)` -/
def ComputeSCS (env : Env) (P A : CPPType) (C : ValueCategory) (B : Bool) (S : ConversionSequence) : Prop :=
  match firstConversion A C with
  | some (C1, A') => ComputeSCS2 env C1 P A' B S
  | none => S = .cannotConvert

/-- `adjustParamType` -/
def adjustParamType (P : CPPType) : ConversionSequence → ConversionSequence
  | .standardConversionSequence C1 C2 C3 b _ => .standardConversionSequence C1 C2 C3 b P
  | S => S

/-! ## All conversions -/

/-- The functions of the classes that convert. -/
structure OverloadEnv extends Env where
  /-- the types of the constructors, in `<cenv>` -/
  constructors : Class → List CPPType
  /-- `<conversion-functions>`, with the classes they are members of -/
  conversionFunctions : Class → List (Class × CPPType)

/-- `computeConversionSequence(P, A, C, isNonStaticRefNone, isImplicit, canUDC)`, where `udc` says what the
    user-defined conversions are: what `canUDC` allows. -/
inductive ComputeSequence (env : Env) (canUDC : Bool) (udc : CPPType → CPPType → ValueCategory → ConversionSequence → Prop) :
    CPPType → ArgType → Bool → Bool → ConversionSequence → Prop
  | identity {P A C b implicit} (hP : isCPPRefType P) (hbinds : BindsDirectlyToExp env P A C b)
      (hbase : ¬ env.IsProperBaseClassType (innerType P) A) :
      ComputeSequence env canUDC udc P (.exp A C) b implicit
        (.standardConversionSequence .identity .identity .identity b P)
  | derivedToBase {P A C b implicit} (hP : isCPPRefType P) (hbinds : BindsDirectlyToExp env P A C b)
      (hbase : env.IsProperBaseClassType (innerType P) A) :
      ComputeSequence env canUDC udc P (.exp A C) b implicit
        (.standardConversionSequence .identity (.derivedToBaseConversion P A) .identity b P)
  | inner {P A C S} (hP : isCPPRefType P) (hbinds : ¬ BindsDirectlyToExp env P A C false)
      (hconv : NotBindsDirectlyToConversion env P A C) (hvalid : isValidReferenceType P)
      (h : ComputeSequence env canUDC udc (innerType P) (.exp A C) false false S) :
      ComputeSequence env canUDC udc P (.exp A C) false false S
  | invalid {P A C} (hP : isCPPRefType P) (hbinds : ¬ BindsDirectlyToExp env P A C false)
      (hconv : NotBindsDirectlyToConversion env P A C) (hvalid : isValidReferenceType P = false) :
      ComputeSequence env canUDC udc P (.exp A C) false false .cannotConvert
  | implicitObject {P A C b} (hP : isCPPRefType P) (hbinds : ¬ BindsDirectlyToExp env P A C b) :
      ComputeSequence env canUDC udc P (.exp A C) b true .cannotConvert
  | initList {P a S} (hP : isCPPRefType P = false) (hclass : isCPPClassType P = false) (harray : isCPPArrayType P = false)
      (h : ComputeSequence env canUDC udc P a false false S) :
      ComputeSequence env canUDC udc P (.initList [a]) false false (.listInitSequence P S)
  | initListEmpty {P} (hP : isCPPRefType P = false) (hclass : isCPPClassType P = false)
      (harray : isCPPArrayType P = false) :
      ComputeSequence env canUDC udc P (.initList []) false false
        (.listInitSequence P (.standardConversionSequence .identity .identity .identity false P))
  | initListMany {P a a' as} (hP : isCPPRefType P = false) (hclass : isCPPClassType P = false)
      (harray : isCPPArrayType P = false) :
      ComputeSequence env canUDC udc P (.initList (a :: a' :: as)) false false .cannotConvert
  | value {P A C S} (hP : isCPPRefType P = false)
      (hclass : (isCPPClassType P = false ∧ isCPPClassType A = false) ∨ eqType (utype A) (utype P) ∨ env.IsBaseClassType P A)
      (h : ComputeSCS env (utype P) (utype A) C canUDC S) :
      ComputeSequence env canUDC udc P (.exp A C) false false (adjustParamType P S)
  | owise {P A C S} (hvalue : isCPPRefType P = false → ¬ ((isCPPClassType P = false ∧ isCPPClassType A = false) ∨
        eqType (utype A) (utype P) ∨ env.IsBaseClassType P A))
      (hbinds : isCPPRefType P → ¬ BindsDirectlyToExp env P A C false ∧ ¬ NotBindsDirectlyToConversion env P A C)
      (h : udc (utype P) (utype A) C S) :
      ComputeSequence env canUDC udc P (.exp A C) false false S

/-- With `canUDC` false. -/
def ComputeStandard (env : Env) : CPPType → ArgType → Bool → Bool → ConversionSequence → Prop :=
  ComputeSequence env false (fun _ _ _ S => S = .cannotConvert)

/-! ### User-defined conversions -/

def isCannotConvert : ConversionSequence → Bool
  | .cannotConvert => true
  | .userDefinedConversionSequence .cannotConvert _ _ _ => true
  | .userDefinedConversionSequence _ _ _ .cannotConvert => true
  | _ => false

/-- `resolveUDC` -/
def resolveUDC (Ss : List ConversionSequence) : ConversionSequence :=
  match Ss.filter fun S => !isCannotConvert S with
  | [] => .cannotConvert
  | [S] => S
  | _ => .ambiguousConversionSequence

def getReturnType (T : CPPType) : CPPType :=
  match T.simpleType with
  | .functionType ret _ _ _ _ => ret
  | _ => T

def isMethodExplicit (T : CPPType) : Bool :=
  match T.simpleType with
  | .functionType _ _ (.methodInfo _ _ _ _ _ explicit _ _) _ _ => explicit
  | _ => false

/-- The type of the parameter, if there is one only. -/
def singleParam (T : CPPType) : Option CPPType :=
  match T.simpleType with
  | .functionType _ (.cons Param .nil) _ _ _ => some Param
  | _ => none

/-- `implicitObjectParameterType` of a member of `C`, and whether it has no ref-qualifier. -/
def implicitObjectParameterType (C : Class) (T : CPPType) : Option (CPPType × Bool) :=
  match T.simpleType with
  | .functionType _ _ (.methodInfo refQual cv static _ _ _ _ constructor) _ _ =>
    if constructor then none
    else if static then some (CPPSimpleType.noType.type, refQual == .refNone)
    else if refQual = .refRValue then some ((CPPSimpleType.rvRefType (.t cv ∅ (.classType C))).type, false)
    else some ((CPPSimpleType.lvRefType (.t cv ∅ (.classType C))).type, refQual == .refNone)
  | _ => none

def Class.name : Class → CId
  | .mk _ _ x _ => x

section UserDefined

variable (env : OverloadEnv)

/-- One constructor of `P`. -/
def ConvertsTo (P : Class) (A : CPPType) (C : ValueCategory) (FuncT : CPPType) (S : ConversionSequence) : Prop :=
  ∃ Param CS1 CS2, singleParam FuncT = some Param ∧
    ComputeStandard env.toEnv Param (.exp A C) false false CS1 ∧
    ComputeStandard env.toEnv (CPPSimpleType.classType P).type
      (.exp (CPPSimpleType.classType P).type (unnamedCat (getReturnType FuncT))) false false CS2 ∧
    S = .userDefinedConversionSequence CS1 (.constructorId P P.name) FuncT CS2

def ComputeUDCTo (P : Class) (A : CPPType) (C : ValueCategory) (S : ConversionSequence) : Prop :=
  ∃ Ss, List.Forall₂ (ConvertsTo env P A C) ((((env.constructors P).filter fun T => !isMethodExplicit T).map
    stripType).filter fun T => (singleParam T).isSome) Ss ∧ S = resolveUDC Ss

/-- One conversion function of `A`. -/
def ConvertsFrom (P : CPPType) (A : Class) (C : ValueCategory) (F : Class × CPPType) (S : ConversionSequence) : Prop :=
  ∃ Obj refNone CS1 CS2, implicitObjectParameterType F.1 F.2 = some (Obj, refNone) ∧
    ComputeStandard env.toEnv Obj (.exp (CPPSimpleType.classType A).type C) refNone true CS1 ∧
    ComputeStandard env.toEnv P (.exp (getReturnType F.2) (unnamedCat (getReturnType F.2))) false false CS2 ∧
    S = .userDefinedConversionSequence CS1 (.conversionId A (getReturnType F.2)) F.2 CS2

def ComputeUDCFrom (P : CPPType) (A : Class) (C : ValueCategory) (S : ConversionSequence) : Prop :=
  ∃ Ss, List.Forall₂ (ConvertsFrom env P A C) (env.conversionFunctions A) Ss ∧ S = resolveUDC Ss

inductive ComputeUDC : CPPType → CPPType → ValueCategory → ConversionSequence → Prop
  | toClass {q m P A C S} (hA : isCPPClassType A = false) (h : ComputeUDCTo env P A C S) :
      ComputeUDC (.t q m (.classType P)) A C S
  | fromClass {P q m A C S} (hP : isCPPClassType P = false) (h : ComputeUDCFrom env P A C S) :
      ComputeUDC P (.t q m (.classType A)) C S
  /-- The conversions of the argument are counted twice, and the constructors not at all. -/
  | both {q m P q' m' A C CS1 CS2} (h1 : ComputeUDCFrom env (CPPSimpleType.classType P).type A C CS1)
      (h2 : ComputeUDCTo env P (CPPSimpleType.classType A).type C CS2) :
      ComputeUDC (.t q m (.classType P)) (.t q' m' (.classType A)) C (resolveUDC [CS1, CS1])

/-- `computeConversionSequence` -/
def ComputeConversionSequence (P : CPPType) (a : ArgType) (isNonStaticRefNone isImplicit canUDC : Bool)
    (S : ConversionSequence) : Prop :=
  if canUDC then ComputeSequence env.toEnv true (ComputeUDC env) P a isNonStaticRefNone isImplicit S
  else ComputeStandard env.toEnv P a isNonStaticRefNone isImplicit S

end UserDefined

end CSemantics.Cpp
