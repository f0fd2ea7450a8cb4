/-
  User-defined conversions from class to class.

  The constructors of the one class and the conversion functions of the other are collected apart, each
  collection is resolved, and the two results are resolved again.  What this is for is a question about ALL
  candidates at once (`IsUDC`): the one that is viable, an ambiguity, or no conversion.

  `#computeUDC` resolves the result for the conversion functions with ITSELF.  So the number of viable
  conversion functions alone decides, and it is right only where the constructors would not have mattered:

      viable conversion functions   0        1           2 and more
      what is computed              none     ambiguous   ambiguous
      right                         for 0    for 1, ..   always       viable constructors

  A class with a converting constructor and no conversion function is the usual case.
-/
import CSemantics.Cpp.ImplicitConversion

namespace CSemantics.Cpp

/-! ## The conversion that is meant -/

/-- The sequences that convert. -/
def viable (Ss : List ConversionSequence) : List ConversionSequence := Ss.filter fun S => !isCannotConvert S

/-- What the conversion by the candidates with the sequences `Ss` is. -/
inductive IsUDC (Ss : List ConversionSequence) : ConversionSequence → Prop
  | none (h : viable Ss = []) : IsUDC Ss .cannotConvert
  | one {S} (h : viable Ss = [S]) : IsUDC Ss S
  | several (h : 2 ≤ (viable Ss).length) : IsUDC Ss .ambiguousConversionSequence

theorem viable_append (Ss Ss' : List ConversionSequence) : viable (Ss ++ Ss') = viable Ss ++ viable Ss' :=
  List.filter_append _ _

theorem resolveUDC_of_two {Ss : List ConversionSequence} (h : 2 ≤ (viable Ss).length) :
    resolveUDC Ss = .ambiguousConversionSequence := by
  unfold resolveUDC
  unfold viable at h
  split
  · rename_i heq
    simp [heq] at h
  · rename_i heq
    simp [heq] at h
  · rfl

/-- **`resolveUDC` is right about one list.** -/
theorem isUDC_resolveUDC (Ss : List ConversionSequence) : IsUDC Ss (resolveUDC Ss) := by
  by_cases hmany : 2 ≤ (viable Ss).length
  · rw [resolveUDC_of_two hmany]
    exact .several hmany
  · unfold resolveUDC
    split
    · rename_i heq
      exact .none heq
    · rename_i S heq
      exact .one heq
    · rename_i hnil hone
      refine absurd ?_ hmany
      change ¬ viable Ss = [] at hnil
      match hv : viable Ss with
      | [] => exact absurd hv hnil
      | [S] => exact absurd hv (hone S)
      | _ :: _ :: _ => simp

/-- There is one answer. -/
theorem IsUDC.eq_resolveUDC {Ss : List ConversionSequence} {S : ConversionSequence} (h : IsUDC Ss S) :
    S = resolveUDC Ss := by
  cases h with
  | none h => unfold resolveUDC; unfold viable at h; rw [h]
  | one h => unfold resolveUDC; unfold viable at h; rw [h]
  | several h => exact (resolveUDC_of_two h).symm

theorem isUDC_iff {Ss : List ConversionSequence} {S : ConversionSequence} : IsUDC Ss S ↔ S = resolveUDC Ss := by
  constructor
  · exact IsUDC.eq_resolveUDC
  · rintro rfl
    exact isUDC_resolveUDC Ss

/-! ## What is computed -/

/-- The sequences of the conversion functions of `A` and of the constructors of `P`. -/
structure Candidates (env : OverloadEnv) (P A : Class) (C : ValueCategory) (SF ST : List ConversionSequence) :
    Prop where
  conversionFunctions : List.Forall₂ (ConvertsFrom env (CPPSimpleType.classType P).type A C)
    (env.conversionFunctions A) SF
  constructors : List.Forall₂ (ConvertsTo env P (CPPSimpleType.classType A).type C)
    ((((env.constructors P).filter fun T => !isMethodExplicit T).map stripType).filter fun T => (singleParam T).isSome)
    ST

/-- The result for these sequences. -/
def udcOf (SF : List ConversionSequence) : ConversionSequence := resolveUDC [resolveUDC SF, resolveUDC SF]

theorem computeUDC_eq_udcOf {env : OverloadEnv} {P A : Class} {q q' : Quals} {m m' : Finset String} {C : ValueCategory}
    {S : ConversionSequence} :
    ComputeUDC env (.t q m (.classType P)) (.t q' m' (.classType A)) C S ↔
      ∃ SF ST, Candidates env P A C SF ST ∧ S = udcOf SF := by
  constructor
  · intro h
    cases h with
    | toClass hA _ => simp [isCPPClassType, CPPType.simpleType] at hA
    | fromClass hP _ => simp [isCPPClassType, CPPType.simpleType] at hP
    | both h1 h2 =>
      obtain ⟨SF, hSF, rfl⟩ := h1
      obtain ⟨ST, hST, rfl⟩ := h2
      exact ⟨SF, ST, ⟨hSF, hST⟩, rfl⟩
  · rintro ⟨SF, ST, ⟨hSF, hST⟩, rfl⟩
    exact .both ⟨SF, hSF, rfl⟩ ⟨ST, hST, rfl⟩

/-- A candidate that converts is not itself ambiguous. -/
theorem Candidates.ne_ambiguous {env : OverloadEnv} {P A : Class} {C : ValueCategory} {SF ST : List ConversionSequence}
    (h : Candidates env P A C SF ST) : ∀ S ∈ SF, S ≠ .ambiguousConversionSequence := by
  have hall : ∀ {Fs Ss}, List.Forall₂ (ConvertsFrom env (CPPSimpleType.classType P).type A C) Fs Ss →
      ∀ S ∈ Ss, S ≠ .ambiguousConversionSequence := by
    intro Fs Ss hF
    induction hF with
    | nil => simp
    | cons hS _ ih =>
      obtain ⟨Obj, refNone, CS1, CS2, -, -, -, rfl⟩ := hS
      intro S hmem
      rcases List.mem_cons.mp hmem with rfl | hmem
      · simp
      · exact ih S hmem
  exact hall h.conversionFunctions

/-! ### By the number of viable conversion functions -/

theorem udcOf_of_none {SF : List ConversionSequence} (h : viable SF = []) : udcOf SF = .cannotConvert := by
  have hSF : resolveUDC SF = .cannotConvert := (IsUDC.none h).eq_resolveUDC.symm
  unfold udcOf
  rw [hSF]
  rfl

/-- The one conversion, taken twice, is ambiguous. -/
theorem udcOf_of_some {SF : List ConversionSequence} (h : viable SF ≠ []) : udcOf SF = .ambiguousConversionSequence := by
  have hconverts : ∀ S, IsUDC SF S → isCannotConvert S = false := by
    intro S hS
    cases hS with
    | none hnil => exact absurd hnil h
    | one hone =>
      have hmem : S ∈ viable SF := by rw [hone]; exact List.mem_singleton_self _
      simpa using (List.mem_filter.mp hmem).2
    | several _ => rfl
  have hresolve := hconverts _ (isUDC_resolveUDC SF)
  refine resolveUDC_of_two ?_
  simp [viable, hresolve]

/-- When the result for the conversion functions with itself is the one for all candidates. -/
theorem isUDC_udcOf_iff {SF ST : List ConversionSequence} (hne : ∀ S ∈ SF, S ≠ .ambiguousConversionSequence) :
    IsUDC (SF ++ ST) (udcOf SF) ↔
      ((viable SF).length = 0 ∧ (viable ST).length = 0) ∨ ((viable SF).length = 1 ∧ 1 ≤ (viable ST).length) ∨
        2 ≤ (viable SF).length := by
  have hlen : (viable (SF ++ ST)).length = (viable SF).length + (viable ST).length := by
    rw [viable_append, List.length_append]
  by_cases hnil : viable SF = []
  · -- nothing is found, so there must be no constructor either
    rw [udcOf_of_none hnil]
    have hSF : (viable SF).length = 0 := by rw [hnil]; rfl
    constructor
    · intro h
      cases h with
      | none h => exact .inl ⟨hSF, by rw [h] at hlen; simp at hlen; omega⟩
      | one h =>
        have hmem : ConversionSequence.cannotConvert ∈ viable (SF ++ ST) := by rw [h]; exact List.mem_singleton_self _
        exact absurd (List.mem_filter.mp hmem).2 (by decide)
    · rintro (⟨-, hST⟩ | ⟨hone, -⟩ | hmany)
      · exact .none (List.length_eq_zero_iff.mp (by omega))
      · omega
      · omega
  · -- an ambiguity is found, so there must be two candidates
    rw [udcOf_of_some hnil]
    have hpos : 0 < (viable SF).length := List.length_pos_of_ne_nil hnil
    constructor
    · intro h
      cases h with
      | one h =>
        have hST : viable ST = [] := by
          rw [h] at hlen
          simp at hlen
          exact List.length_eq_zero_iff.mp (by omega)
        rw [viable_append, hST, List.append_nil] at h
        have hmem : ConversionSequence.ambiguousConversionSequence ∈ viable SF := by
          rw [h]; exact List.mem_singleton_self _
        exact absurd rfl (hne _ (List.mem_filter.mp hmem).1)
      | several h => omega
    · intro h
      exact .several (by omega)

/-- **Class to class, the result is the user-defined conversion exactly when the constructors do not matter**: no
    candidate is viable, or one conversion function and some constructor are, or several conversion functions.
    `computeUDC` gives what the sequences of the candidates resolve to, and nothing else. -/
theorem computeUDC_iff (env : OverloadEnv) (P A : Class) (q q' : Quals) (m m' : Finset String) (C : ValueCategory) :
    (∀ S, ComputeUDC env (.t q m (.classType P)) (.t q' m' (.classType A)) C S ↔
      ∃ SF ST, Candidates env P A C SF ST ∧ S = udcOf SF) ∧
    ∀ SF ST, Candidates env P A C SF ST →
      (IsUDC (SF ++ ST) (udcOf SF) ↔
        ((viable SF).length = 0 ∧ (viable ST).length = 0) ∨ ((viable SF).length = 1 ∧ 1 ≤ (viable ST).length) ∨
          2 ≤ (viable SF).length) :=
  ⟨fun _ => computeUDC_eq_udcOf, fun _ _ h => isUDC_udcOf_iff h.ne_ambiguous⟩

/-! ### One conversion function -/

/-- `struct P { P(A &); P(const P &); };` -/
def structP : Class := .mk (.namespace []) .Struct (.Identifier "P") .nil

/-- `struct A {};`, or `struct A { operator P(); };`. -/
def structA : Class := .mk (.namespace []) .Struct (.Identifier "A") .nil

def typeP : CPPType := (CPPSimpleType.classType structP).type

def typeA : CPPType := (CPPSimpleType.classType structA).type

/-- A function of the classes. -/
def methodType (ret : CPPType) (params : CPPTypes) (constructor : Bool) : CPPType :=
  (CPPSimpleType.functionType ret params
    (.methodInfo .refNone noQuals false false false false true constructor) .cpp (.noexcept false)).type

/-- `P(const P &)` -/
def copyP : CPPType :=
  methodType typeP (.cons (CPPSimpleType.lvRefType (.t ⟨true, false, false, false⟩ ∅ (.classType structP))).type .nil) true

/-- `P(A &)` -/
def fromA : CPPType := methodType typeP (.cons (CPPSimpleType.lvRefType typeA).type .nil) true

/-- `operator P()` -/
def operatorP : CPPType := methodType typeP .nil false

/-- The classes, with constructors of `P` and conversion functions of `A`. -/
def envPA (constructors conversionFunctions : List CPPType) : OverloadEnv where
  cfg := x86GccLimitedLibc
  enumRange _ := (0, 0)
  baseClasses _ := []
  acyclic := Env.acyclic_of_no_bases
  constructors C := if C = structP then constructors else []
  conversionFunctions C := if C = structA then conversionFunctions.map fun T => (structA, T) else []

/-- An object is bound to a reference to its class. -/
theorem standard_binds (ctors convs : List CPPType) (X : Class) (b implicit : Bool) :
    ComputeStandard (envPA ctors convs).toEnv (CPPSimpleType.lvRefType (CPPSimpleType.classType X).type).type
      (.exp (CPPSimpleType.classType X).type .lvalue) b implicit
      (.standardConversionSequence .identity .identity .identity b
        (CPPSimpleType.lvRefType (CPPSimpleType.classType X).type).type) := by
  refine .identity rfl (.inl (.inl ⟨rfl, .inl ?_, leQuals_refl _⟩)) ?_
  · exact isSimilar_of_stripType rfl
  · rintro ⟨B', D', hB, hD, hne, -⟩
    cases hB
    cases hD
    exact hne rfl

/-- An object of a class converts to the class. -/
theorem standard_self (ctors convs : List CPPType) (X : Class) :
    ComputeStandard (envPA ctors convs).toEnv (CPPSimpleType.classType X).type
      (.exp (CPPSimpleType.classType X).type .prvalue) false false
      (.standardConversionSequence .identity .identity .identity false (CPPSimpleType.classType X).type) := by
  have hscs : ComputeSCS (envPA ctors convs).toEnv (CPPSimpleType.classType X).type (CPPSimpleType.classType X).type
      .prvalue false (computeSCS3 .identity .identity (CPPSimpleType.classType X).type (CPPSimpleType.classType X).type) :=
    .rule (.identity (isSimilar_of_stripType rfl))
  rw [computeSCS3, if_pos rfl] at hscs
  have hadjust : adjustParamType (CPPSimpleType.classType X).type (.standardConversionSequence .identity .identity
      .identity false (CPPSimpleType.classType X).type) =
      .standardConversionSequence .identity .identity .identity false (CPPSimpleType.classType X).type := rfl
  rw [← hadjust]
  exact .value rfl (.inr (.inl (eqType_iff.mpr rfl))) hscs

/-- `A` is not bound to a reference to `P`. -/
theorem standard_copyP (ctors convs : List CPPType) :
    ComputeStandard (envPA ctors convs).toEnv
      (CPPSimpleType.lvRefType (.t ⟨true, false, false, false⟩ ∅ (.classType structP))).type
      (.exp typeA .lvalue) false false .cannotConvert := by
  have hrelated : ¬ IsReferenceRelated (envPA ctors convs).toEnv
      (.t ⟨true, false, false, false⟩ ∅ (.classType structP)) typeA := by
    rintro (hsim | ⟨B', D', hB, hD, hbase⟩)
    · exact absurd hsim (by decide)
    · cases hB
      cases hD
      rcases Relation.ReflTransGen.cases_tail hbase with heq | ⟨Z, -, hZ⟩
      · exact absurd heq (by decide)
      · cases hZ
  have hbinds : ∀ b, ¬ BindsDirectlyToExp (envPA ctors convs).toEnv
      (CPPSimpleType.lvRefType (.t ⟨true, false, false, false⟩ ∅ (.classType structP))).type typeA .lvalue b := by
    rintro b ((⟨-, hcompat⟩ | ⟨hfun, -⟩) | ⟨-, hcat, -⟩)
    · exact hrelated hcompat.1
    · exact absurd hfun (by decide)
    · exact hcat rfl
  refine .owise (fun hP => absurd hP (by decide)) ?_ rfl
  intro _
  refine ⟨hbinds false, ?_⟩
  rintro (hconv | h)
  · exact hconv ⟨rfl, hrelated⟩
  · exact hbinds false h

/-- The sequence of `operator P()`. -/
def byOperator : ConversionSequence :=
  .userDefinedConversionSequence
    (.standardConversionSequence .identity .identity .identity true (CPPSimpleType.lvRefType typeA).type)
    (.conversionId structA typeP) operatorP (.standardConversionSequence .identity .identity .identity false typeP)

/-- The sequence of a constructor, with that of its argument. -/
def byConstructor (CS1 : ConversionSequence) (T : CPPType) : ConversionSequence :=
  .userDefinedConversionSequence CS1 (.constructorId structP (.Identifier "P")) (stripType T)
    (.standardConversionSequence .identity .identity .identity false typeP)

theorem convertsFrom_operatorP (ctors convs : List CPPType) :
    ConvertsFrom (envPA ctors convs) typeP structA .lvalue (structA, operatorP) byOperator :=
  ⟨(CPPSimpleType.lvRefType typeA).type, true, _, _, rfl, standard_binds ctors convs structA true true,
    standard_self ctors convs structP, rfl⟩

/-- The sequence of `P(A &)`. -/
def byFromA : ConversionSequence :=
  byConstructor (.standardConversionSequence .identity .identity .identity false (CPPSimpleType.lvRefType typeA).type)
    fromA

theorem convertsTo_fromA (ctors convs : List CPPType) :
    ConvertsTo (envPA ctors convs) structP typeA .lvalue (stripType fromA) byFromA :=
  ⟨_, _, _, rfl, standard_binds ctors convs structA false false, standard_self ctors convs structP, rfl⟩

theorem convertsTo_copyP (ctors convs : List CPPType) :
    ConvertsTo (envPA ctors convs) structP typeA .lvalue (stripType copyP) (byConstructor .cannotConvert copyP) :=
  ⟨_, _, _, rfl, standard_copyP ctors convs, standard_self ctors convs structP, rfl⟩

theorem candidates_fromA :
    Candidates (envPA [fromA, copyP] []) structP structA .lvalue [] [byFromA, byConstructor .cannotConvert copyP] where
  conversionFunctions := .nil
  constructors := .cons (convertsTo_fromA _ _) (.cons (convertsTo_copyP _ _) .nil)

theorem candidates_both :
    Candidates (envPA [fromA, copyP] [operatorP]) structP structA .lvalue [byOperator]
      [byFromA, byConstructor .cannotConvert copyP] where
  conversionFunctions := .cons (convertsFrom_operatorP _ _) .nil
  constructors := .cons (convertsTo_fromA _ _) (.cons (convertsTo_copyP _ _) .nil)

/-- With `P(A &)` and `operator P()` the conversion is ambiguous, and found to be. -/
theorem computeUDC_both :
    IsUDC ([byOperator] ++ [byFromA, byConstructor .cannotConvert copyP]) (udcOf [byOperator]) :=
  ((computeUDC_iff (envPA [fromA, copyP] [operatorP]) structP structA noQuals noQuals ∅ ∅ .lvalue).2 _ _
    candidates_both).mpr (.inr (.inl ⟨rfl, by decide⟩))

/-- `struct A {}; struct P { P(A &); P(const P &); };`: the constructor is not found. -/
theorem computeUDC_fromA :
    Candidates (envPA [fromA, copyP] []) structP structA .lvalue [] [byFromA, byConstructor .cannotConvert copyP] ∧
    ComputeUDC (envPA [fromA, copyP] []) typeP typeA .lvalue .cannotConvert ∧
    IsUDC ([] ++ [byFromA, byConstructor .cannotConvert copyP]) byFromA ∧
    ¬ IsUDC ([] ++ [byFromA, byConstructor .cannotConvert copyP]) .cannotConvert := by
  refine ⟨candidates_fromA, computeUDC_eq_udcOf.mpr ⟨_, _, candidates_fromA, rfl⟩, .one rfl, ?_⟩
  intro h
  exact absurd (isUDC_iff.mp h) (by decide)

end CSemantics.Cpp
