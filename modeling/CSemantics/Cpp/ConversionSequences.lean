/-
  Conversion sequences for the arguments of a call.

  `#getConversionSequences` walks along the parameters of a function and the arguments of a call, and asks for
  one conversion sequence after another.  Its rules consume a parameter and an argument, or under `...` an
  argument alone.  The rule for the object of a STATIC member consumes NEITHER: it adds
  `bottomConversionSequence` and applies again, for ever.

      void f(A, B)          2 arguments   param, param
      void C::f(B)          2 arguments   object, param
      void f(A, ...)        3 arguments   param, variadic, variadic
      static void C::f(B)   2 arguments   bottom, bottom, bottom, ...

  The walk is a transition system, and what is inevitable from a state is said parameter by parameter
  (`inevitably_param`, `inevitably_variadic`, `not_inevitably_static`).
-/
import CSemantics.Lib.Inevitable
import CSemantics.Cpp.BestViable
import CSemantics.Cpp.UserDefined

namespace CSemantics.Cpp

/-! ## Parameters -/

/-- The elements of `getParams`. -/
inductive Param
  | param (P : CPPType)
  | implicitObjectParameter (P : CPPType)
  | variadic

/-- `toList`, of the types of the parameters. -/
def CPPTypes.toList : CPPTypes → List Param
  | .nil => []
  | .cons T Ts => .param T :: Ts.toList
  | .implicitObjectParameter T Ts => .implicitObjectParameter T :: Ts.toList
  | .variadic => [.variadic]

/-- `getImpliedParamType`, of a member of `C`. -/
def getImpliedParamType (refQual : RefQualifier) (cv : Quals) (static : Bool) (C : Class) : CPPType :=
  if static then CPPSimpleType.noType.type
  else if refQual = .refRValue then (CPPSimpleType.rvRefType (.t cv ∅ (.classType C))).type
  else (CPPSimpleType.lvRefType (.t cv ∅ (.classType C))).type

/-- `getParams`, of a function type; `C` is the class in its `methodInfo`. -/
def getParams (C : Class) (T : CPPType) : List Param :=
  match T.simpleType with
  | .functionType _ L .noMethod _ _ => L.toList
  | .functionType _ L (.methodInfo refQual cv static _ _ _ _ constructor) _ _ =>
    if constructor then L.toList
    else .implicitObjectParameter (getImpliedParamType refQual cv static C) :: L.toList
  | _ => []

def isMethodStatic (T : CPPType) : Bool :=
  match T.simpleType with
  | .functionType _ _ (.methodInfo _ _ static _ _ _ _ _) _ _ => static
  | _ => false

def isFunctionMember (T : CPPType) : Bool :=
  match T.simpleType with
  | .functionType _ _ (.methodInfo ..) _ _ => true
  | _ => false

def hasImplicitParameter (T : CPPType) : Bool :=
  match T.simpleType with
  | .functionType _ _ (.methodInfo _ _ _ _ _ _ _ constructor) _ _ => !constructor
  | _ => false

/-- `getRefQualifier` -/
def getRefQualifier (T : CPPType) : RefQualifier :=
  match T.simpleType with
  | .functionType _ _ (.methodInfo refQual ..) _ _ => refQual
  | _ => .refNone

/-- `#getRealParams` -/
def getRealParams : List Param → List Param
  | [] => []
  | [.variadic] => []
  | p :: Ps => p :: getRealParams Ps

def isVariadicFunction (C : Class) (T : CPPType) : Bool :=
  (getParams C T).length != (getRealParams (getParams C T)).length

/-- `acceptsNArgs(M, T, DArgs)`; `none` is `NoArg()`, and index -1 is the last element. -/
def acceptsNArgs {δ : Type} (M : Nat) (C : Class) (T : CPPType) (DArgs : List (Option δ)) : Bool :=
  if (getRealParams (getParams C T)).length = M then true
  else if (getRealParams (getParams C T)).length < M then isVariadicFunction C T
  else match (if hasImplicitParameter T then (if M = 0 then DArgs.getLast? else DArgs[M - 1]?) else DArgs[M]?) with
    | some arg => arg.isSome
    | none => false

/-! ## The walk -/

/-- What stands before `#getConversionSequences`. -/
inductive Pending
  | none
  /-- `computeConversionSequence(P, A, C, isNonStaticRefNone, isImplicit, true)` -/
  | compute (P : CPPType) (a : ArgType) (isNonStaticRefNone isImplicit : Bool)
  | done (CS : ConversionSequence)

/-- `#getConversionSequences`; `Types` and `Cats` come from one list of arguments and are one list here.  `none`
    is `bottomConversionSequence`. -/
structure Walk where
  pending : Pending
  params : List Param
  args : List ArgType
  result : List (Option ConversionSequence)

/-- The rules of `#getConversionSequences`, of a function with these flags. -/
inductive Walk.Step (env : OverloadEnv) (isNonStaticRefNone isStatic : Bool) : Walk → Walk → Prop
  | param {P Ps a as R} :
      Step env isNonStaticRefNone isStatic ⟨.none, .param P :: Ps, a :: as, R⟩ ⟨.compute P a false false, Ps, as, R⟩
  | object {P Ps a as R} (hstatic : isStatic = false) :
      Step env isNonStaticRefNone isStatic ⟨.none, .implicitObjectParameter P :: Ps, a :: as, R⟩
        ⟨.compute P a isNonStaticRefNone true, Ps, as, R⟩
  | compute {P a b implicit S Ps as R} (h : ComputeConversionSequence env P a b implicit true S) :
      Step env isNonStaticRefNone isStatic ⟨.compute P a b implicit, Ps, as, R⟩ ⟨.done S, Ps, as, R⟩
  | collect {S Ps as R} :
      Step env isNonStaticRefNone isStatic ⟨.done S, Ps, as, R⟩ ⟨.none, Ps, as, some S :: R⟩
  -- the parameter and the argument stay
  | static {P Ps a as R} (hstatic : isStatic = true) :
      Step env isNonStaticRefNone isStatic ⟨.none, .implicitObjectParameter P :: Ps, a :: as, R⟩
        ⟨.none, .implicitObjectParameter P :: Ps, a :: as, none :: R⟩
  | variadic {a as R} :
      Step env isNonStaticRefNone isStatic ⟨.none, [.variadic], a :: as, R⟩
        ⟨.none, [.variadic], as, some .ellipsisConversionSequence :: R⟩

/-- `#getConversionSequences(_, .List, .List, _, _, Result) => krlist(Result)` -/
def Walk.Finished (s : Walk) (R : List (Option ConversionSequence)) : Prop :=
  s.pending = .none ∧ s.args = [] ∧ s.result = R

/-- `getConversionSequences(T, Types, Cats)` -/
def getConversionSequences (C : Class) (T : CPPType) (args : List ArgType) : Walk := ⟨.none, getParams C T, args, []⟩

/-- The rules for `T`. -/
def Walk.StepOf (env : OverloadEnv) (T : CPPType) : Walk → Walk → Prop :=
  Walk.Step env (isFunctionMember T && !isMethodStatic T && getRefQualifier T == .refNone) (isMethodStatic T)

/-! ## One sequence for each argument -/

/-- The sequences of the arguments, in their order. -/
inductive Sequences (env : OverloadEnv) (isNonStaticRefNone isStatic : Bool) :
    List Param → List ArgType → List (Option ConversionSequence) → Prop
  | nil {Ps} : Sequences env isNonStaticRefNone isStatic Ps [] []
  | param {P Ps a as S xs} (h : ComputeConversionSequence env P a false false true S)
      (hrest : Sequences env isNonStaticRefNone isStatic Ps as xs) :
      Sequences env isNonStaticRefNone isStatic (.param P :: Ps) (a :: as) (some S :: xs)
  | object {P Ps a as S xs} (hstatic : isStatic = false)
      (h : ComputeConversionSequence env P a isNonStaticRefNone true true S)
      (hrest : Sequences env isNonStaticRefNone isStatic Ps as xs) :
      Sequences env isNonStaticRefNone isStatic (.implicitObjectParameter P :: Ps) (a :: as) (some S :: xs)
  /-- The object of a static member is not converted. -/
  | static {P Ps a as xs} (hstatic : isStatic = true)
      (hrest : Sequences env isNonStaticRefNone isStatic Ps as xs) :
      Sequences env isNonStaticRefNone isStatic (.implicitObjectParameter P :: Ps) (a :: as) (none :: xs)
  | variadic {a as xs} (hrest : Sequences env isNonStaticRefNone isStatic [.variadic] as xs) :
      Sequences env isNonStaticRefNone isStatic [.variadic] (a :: as) (some .ellipsisConversionSequence :: xs)

def SequencesOf (env : OverloadEnv) (C : Class) (T : CPPType) : List ArgType → List (Option ConversionSequence) → Prop :=
  Sequences env (isFunctionMember T && !isMethodStatic T && getRefQualifier T == .refNone) (isMethodStatic T)
    (getParams C T)

/-- **Every walk ends, with one sequence for each argument, the last argument first.** -/
def OneSequenceEach (env : OverloadEnv) (C : Class) (T : CPPType) (args : List ArgType) : Prop :=
  Inevitably (Walk.StepOf env T) (fun s => ∃ xs, SequencesOf env C T args xs ∧ s.Finished xs.reverse)
    (getConversionSequences C T args)

/-- Some walk ends with these sequences. -/
def EndsWith (env : OverloadEnv) (C : Class) (T : CPPType) (args : List ArgType) (R : List (Option ConversionSequence)) :
    Prop :=
  ∃ s, Relation.ReflTransGen (Walk.StepOf env T) (getConversionSequences C T args) s ∧ s.Finished R

/-- Each argument has a parameter, and a conversion to it. -/
inductive Converts (env : OverloadEnv) (b static : Bool) : List Param → List ArgType → Prop
  | nil {Ps} : Converts env b static Ps []
  | param {P Ps a as} (h : ∃ S, ComputeConversionSequence env P a false false true S)
      (hrest : Converts env b static Ps as) : Converts env b static (.param P :: Ps) (a :: as)
  | object {P Ps a as} (hstatic : static = false) (h : ∃ S, ComputeConversionSequence env P a b true true S)
      (hrest : Converts env b static Ps as) : Converts env b static (.implicitObjectParameter P :: Ps) (a :: as)
  | variadic {a as} (hrest : Converts env b static [.variadic] as) : Converts env b static [.variadic] (a :: as)

section Walks

variable {env : OverloadEnv} {b static : Bool} {Ps : List Param} {a : ArgType} {as : List ArgType}
  {R : List (Option ConversionSequence)}

theorem Sequences.length_eq {xs : List (Option ConversionSequence)} (h : Sequences env b static Ps as xs) :
    xs.length = as.length := by
  induction h with
  | nil => rfl
  | param _ _ ih => simp [ih]
  | object _ _ _ ih => simp [ih]
  | static _ _ ih => simp [ih]
  | variadic _ ih => simp [ih]

/-! ### What is inevitable -/

/-- A walk that ends does so with a list that is as it should be. -/
def Ends (G : List (Option ConversionSequence) → Prop) (s : Walk) : Prop := ∃ R, G R ∧ s.Finished R

variable {G : List (Option ConversionSequence) → Prop}

theorem inevitably_finished :
    Inevitably (Walk.Step env b static) (Ends G) ⟨.none, Ps, [], R⟩ ↔ G R := by
  constructor
  · intro h
    cases h with
    | now h =>
      obtain ⟨R', hG, -, -, rfl⟩ := h
      exact hG
    | next h _ =>
      obtain ⟨t, ht⟩ := h
      cases ht
  · intro hG
    exact .now ⟨R, hG, rfl, rfl, rfl⟩

/-- One sequence is computed, and the walk goes on. -/
theorem inevitably_compute {P : CPPType} {b' implicit : Bool} :
    Inevitably (Walk.Step env b static) (Ends G) ⟨.compute P a b' implicit, Ps, as, R⟩ ↔
      (∃ S, ComputeConversionSequence env P a b' implicit true S) ∧
      ∀ S, ComputeConversionSequence env P a b' implicit true S →
        Inevitably (Walk.Step env b static) (Ends G) ⟨.none, Ps, as, some S :: R⟩ := by
  constructor
  · intro h
    cases h with
    | now h =>
      obtain ⟨R', -, hpending, -⟩ := h
      cases hpending
    | next h h' =>
      refine ⟨?_, fun S hS => ?_⟩
      · obtain ⟨t, ht⟩ := h
        cases ht with
        | compute hS => exact ⟨_, hS⟩
      · cases h' _ (.compute hS) with
        | now h =>
          obtain ⟨R', -, hpending, -⟩ := h
          cases hpending
        | next _ h'' => exact h'' _ .collect
  · rintro ⟨⟨S, hS⟩, hall⟩
    refine .next ⟨_, .compute hS⟩ fun t ht => ?_
    cases ht with
    | compute hS' =>
      refine .next ⟨_, .collect⟩ fun t ht => ?_
      cases ht
      exact hall _ hS'

/-- Where there is one way to go on. -/
theorem inevitably_single {s t : Walk} (hargs : s.args ≠ []) (hst : Walk.Step env b static s t)
    (honly : ∀ u, Walk.Step env b static s u → u = t) :
    Inevitably (Walk.Step env b static) (Ends G) s ↔ Inevitably (Walk.Step env b static) (Ends G) t := by
  constructor
  · intro h
    cases h with
    | now h =>
      obtain ⟨R', -, -, hnil, -⟩ := h
      exact absurd hnil hargs
    | next _ h' => exact h' t hst
  · intro h
    refine .next ⟨t, hst⟩ fun u hu => ?_
    rw [honly u hu]
    exact h

theorem inevitably_param {P : CPPType} :
    Inevitably (Walk.Step env b static) (Ends G) ⟨.none, .param P :: Ps, a :: as, R⟩ ↔
      Inevitably (Walk.Step env b static) (Ends G) ⟨.compute P a false false, Ps, as, R⟩ := by
  refine inevitably_single (by simp) .param ?_
  intro u hu
  cases hu
  rfl

theorem inevitably_object {P : CPPType} (hstatic : static = false) :
    Inevitably (Walk.Step env b static) (Ends G) ⟨.none, .implicitObjectParameter P :: Ps, a :: as, R⟩ ↔
      Inevitably (Walk.Step env b static) (Ends G) ⟨.compute P a b true, Ps, as, R⟩ := by
  refine inevitably_single (by simp) (.object hstatic) ?_
  intro u hu
  cases hu with
  | object _ => rfl
  | static h => exact absurd (h.symm.trans hstatic) (by decide)

theorem inevitably_variadic :
    Inevitably (Walk.Step env b static) (Ends G) ⟨.none, [.variadic], a :: as, R⟩ ↔
      Inevitably (Walk.Step env b static) (Ends G)
        ⟨.none, [.variadic], as, some .ellipsisConversionSequence :: R⟩ := by
  refine inevitably_single (by simp) .variadic ?_
  intro u hu
  cases hu
  rfl

/-- **The walk of a static member comes to nothing**: it is where it was, with a longer result. -/
theorem not_inevitably_static {P : CPPType} (hstatic : static = true) :
    ¬ Inevitably (Walk.Step env b static) (Ends G) ⟨.none, .implicitObjectParameter P :: Ps, a :: as, R⟩ := by
  intro h
  generalize hs : (⟨.none, .implicitObjectParameter P :: Ps, a :: as, R⟩ : Walk) = s at h
  induction h generalizing R with
  | now h =>
    subst hs
    obtain ⟨R', -, -, hnil, -⟩ := h
    cases hnil
  | next _ _ ih =>
    subst hs
    exact ih _ (.static hstatic) rfl

/-! ### From the first argument to the last -/

theorem Converts.exists_sequences (h : Converts env b static Ps as) : ∃ xs, Sequences env b static Ps as xs := by
  induction h with
  | nil => exact ⟨[], .nil⟩
  | param h _ ih =>
    obtain ⟨S, hS⟩ := h
    obtain ⟨xs, hxs⟩ := ih
    exact ⟨_, .param hS hxs⟩
  | object hstatic h _ ih =>
    obtain ⟨S, hS⟩ := h
    obtain ⟨xs, hxs⟩ := ih
    exact ⟨_, .object hstatic hS hxs⟩
  | variadic _ ih =>
    obtain ⟨xs, hxs⟩ := ih
    exact ⟨_, .variadic hxs⟩

/-- **Where every argument converts, every walk ends**, with whatever the sequences of the arguments make good. -/
theorem Converts.inevitably (h : Converts env b static Ps as)
    (hG : ∀ xs, Sequences env b static Ps as xs → G (xs.reverse ++ R)) :
    Inevitably (Walk.Step env b static) (Ends G) ⟨.none, Ps, as, R⟩ := by
  induction h generalizing R with
  | nil => exact inevitably_finished.mpr (hG [] .nil)
  | param h _ ih =>
    rw [inevitably_param, inevitably_compute]
    refine ⟨h, fun S hS => ih fun xs hxs => ?_⟩
    simpa using hG _ (.param hS hxs)
  | object hstatic h _ ih =>
    rw [inevitably_object hstatic, inevitably_compute]
    refine ⟨h, fun S hS => ih fun xs hxs => ?_⟩
    simpa using hG _ (.object hstatic hS hxs)
  | variadic _ ih =>
    rw [inevitably_variadic]
    refine ih fun xs hxs => ?_
    simpa using hG _ (.variadic hxs)

/-- Every argument is consumed in a walk that ends. -/
theorem converts_of_inevitably (h : Inevitably (Walk.Step env b static) (Ends G) ⟨.none, Ps, as, R⟩) :
    Converts env b static Ps as := by
  induction as generalizing Ps R with
  | nil => exact .nil
  | cons a as ih =>
    -- the first parameter decides which rule there is
    have hrule : ∃ t, Walk.Step env b static ⟨.none, Ps, a :: as, R⟩ t := by
      cases h with
      | now h =>
        obtain ⟨R', -, -, hnil, -⟩ := h
        cases hnil
      | next h _ => exact h
    obtain ⟨t, ht⟩ := hrule
    cases ht with
    | param =>
      rw [inevitably_param, inevitably_compute] at h
      obtain ⟨⟨S, hS⟩, hall⟩ := h
      exact .param ⟨S, hS⟩ (ih (hall S hS))
    | object hstatic =>
      rw [inevitably_object hstatic, inevitably_compute] at h
      obtain ⟨⟨S, hS⟩, hall⟩ := h
      exact .object hstatic ⟨S, hS⟩ (ih (hall S hS))
    | static hstatic => exact absurd h (not_inevitably_static hstatic)
    | variadic =>
      rw [inevitably_variadic] at h
      exact .variadic (ih h)

end Walks

/-- **When there is one sequence for each argument.** -/
theorem oneSequenceEach_iff_converts {env : OverloadEnv} {C : Class} {T : CPPType} {args : List ArgType} :
    OneSequenceEach env C T args ↔
      Converts env (isFunctionMember T && !isMethodStatic T && getRefQualifier T == .refNone) (isMethodStatic T)
        (getParams C T) args := by
  have hends : ∀ s : Walk, (∃ xs, SequencesOf env C T args xs ∧ s.Finished xs.reverse) ↔
      Ends (fun R => ∃ xs, SequencesOf env C T args xs ∧ R = xs.reverse) s := by
    intro s
    constructor
    · rintro ⟨xs, hxs, hs⟩
      exact ⟨_, ⟨xs, hxs, rfl⟩, hs⟩
    · rintro ⟨R, ⟨xs, hxs, rfl⟩, hs⟩
      exact ⟨xs, hxs, hs⟩
  constructor
  · intro h
    exact converts_of_inevitably (Inevitably.mono (fun s => (hends s).mp) h)
  · intro h
    refine Inevitably.mono (fun s => (hends s).mpr) (h.inevitably fun xs hxs => ⟨xs, hxs, ?_⟩)
    rw [List.append_nil]

/-- Walks that end have sequences of the same arguments, so they can be compared. -/
theorem OneSequenceEach.length_eq {env : OverloadEnv} {C : Class} {T : CPPType} {args : List ArgType}
    {R : List (Option ConversionSequence)} (h : OneSequenceEach env C T args) (hR : EndsWith env C T args R) :
    R.length = args.length := by
  obtain ⟨s, hs, hend⟩ := hR
  have hstop : ∀ s R, Walk.Finished s R → ∀ t, ¬ Walk.StepOf env T s t := by
    rintro ⟨pending, params, args, result⟩ R ⟨hpending, hargs, -⟩ t ht
    cases hpending
    cases hargs
    cases ht
  obtain ⟨xs, hxs, hfin⟩ := h.at_end (fun s t ⟨xs, _, hfin⟩ => hstop s _ hfin t) hs (hstop s R hend)
  have hR : R = xs.reverse := hend.2.2.symm.trans hfin.2.2
  rw [hR, List.length_reverse]
  exact hxs.length_eq

/-! ## Which arguments convert -/

/-- Only a parameter that is no reference, class or array has a rule for an initializer list. -/
def takesInitList (P : CPPType) : Bool := !isCPPRefType P && !isCPPClassType P && !isCPPArrayType P

section Existence

variable {env : OverloadEnv}

theorem exists_classType {T : CPPType} (h : isCPPClassType T = true) : ∃ X, T.simpleType = .classType X := by
  unfold isCPPClassType at h
  split at h
  · exact ⟨_, by assumption⟩
  · cases h

theorem isCPPRefType_iff {T : CPPType} :
    isCPPRefType T = true ↔ ∃ T', T.simpleType = .lvRefType T' ∨ T.simpleType = .rvRefType T' := by
  obtain ⟨q, m, st⟩ := T
  cases st <;> simp [isCPPRefType, isCPPLVRefType, isCPPRVRefType, CPPType.simpleType]

/-- What a reference refers to is a smaller type. -/
theorem sizeOf_innerType {P : CPPType} (hP : isCPPRefType P = true) : sizeOf (innerType P) < sizeOf P := by
  obtain ⟨q, m, st⟩ := P
  obtain ⟨T, hT⟩ := isCPPRefType_iff.mp hP
  rcases hT with hT | hT
  · cases hT
    show sizeOf T < sizeOf (CPPType.t q m (.lvRefType T))
    simp
    omega
  · cases hT
    show sizeOf T < sizeOf (CPPType.t q m (.rvRefType T))
    simp
    omega

theorem exists_computeSCS (env : Env) (P A : CPPType) (C : ValueCategory) (B : Bool) : ∃ S, ComputeSCS env P A C B S := by
  unfold ComputeSCS
  cases firstConversion A C with
  | none => exact ⟨_, rfl⟩
  | some c => exact ComputeSCS2.exists_sequence c.1

/-- **An expression converts**, as far as user-defined conversions do. -/
theorem exists_computeSequence {env : Env} {canUDC : Bool} {udc : CPPType → CPPType → ValueCategory → ConversionSequence → Prop}
    {A : CPPType} {C : ValueCategory}
    (hudc : ∀ P, isCPPClassType P = true ∨ isCPPClassType A = true → ∃ S, udc (utype P) (utype A) C S) (P : CPPType) :
    ∃ S, ComputeSequence env canUDC udc P (.exp A C) false false S := by
  by_cases hP : isCPPRefType P = true
  · by_cases hbinds : BindsDirectlyToExp env P A C false
    · by_cases hbase : env.IsProperBaseClassType (innerType P) A
      · exact ⟨_, .derivedToBase hP hbinds hbase⟩
      · exact ⟨_, .identity hP hbinds hbase⟩
    · by_cases hconv : NotBindsDirectlyToConversion env P A C
      · cases hvalid : isValidReferenceType P with
        | true =>
          obtain ⟨S, hS⟩ := exists_computeSequence hudc (innerType P)
          exact ⟨S, .inner hP hbinds hconv hvalid hS⟩
        | false => exact ⟨_, .invalid hP hbinds hconv hvalid⟩
      · -- the argument is a class that is not related to the parameter
        have hA : isCPPClassType A = true := by
          by_contra hA
          exact hconv (.inl fun h => hA h.1)
        obtain ⟨S, hS⟩ := hudc P (.inr hA)
        exact ⟨S, .owise (fun h => absurd hP (by simp [h])) (fun _ => ⟨hbinds, hconv⟩) hS⟩
  · have hP' : isCPPRefType P = false := Bool.eq_false_iff.mpr hP
    by_cases hclass : (isCPPClassType P = false ∧ isCPPClassType A = false) ∨ eqType (utype A) (utype P) = true ∨
        env.IsBaseClassType P A
    · obtain ⟨S, hS⟩ := exists_computeSCS env (utype P) (utype A) C canUDC
      exact ⟨_, .value hP' hclass hS⟩
    · have hPA : isCPPClassType P = true ∨ isCPPClassType A = true := by
        by_contra hno
        rw [not_or, Bool.not_eq_true, Bool.not_eq_true] at hno
        exact hclass (.inl hno)
      obtain ⟨S, hS⟩ := hudc P hPA
      exact ⟨S, .owise (fun _ => hclass) (fun h => absurd h hP) hS⟩
termination_by sizeOf P
decreasing_by exact sizeOf_innerType hP

theorem exists_computeStandard (env : Env) (P A : CPPType) (C : ValueCategory) :
    ∃ S, ComputeStandard env P (.exp A C) false false S :=
  exists_computeSequence (fun _ _ => ⟨_, rfl⟩) P

/-- The object of a member function converts to its reference, or does not. -/
theorem exists_computeSequence_object {env : Env} {canUDC : Bool}
    {udc : CPPType → CPPType → ValueCategory → ConversionSequence → Prop} {P A : CPPType} {C : ValueCategory} {b : Bool}
    (hP : isCPPRefType P = true) : ∃ S, ComputeSequence env canUDC udc P (.exp A C) b true S := by
  by_cases hbinds : BindsDirectlyToExp env P A C b
  · by_cases hbase : env.IsProperBaseClassType (innerType P) A
    · exact ⟨_, .derivedToBase hP hbinds hbase⟩
    · exact ⟨_, .identity hP hbinds hbase⟩
  · exact ⟨_, .implicitObject hP hbinds⟩

theorem exists_forall₂ {α β : Type} {R : α → β → Prop} {as : List α} (h : ∀ a ∈ as, ∃ b, R a b) :
    ∃ bs, List.Forall₂ R as bs := by
  induction as with
  | nil => exact ⟨[], .nil⟩
  | cons a as ih =>
    obtain ⟨b, hb⟩ := h a List.mem_cons_self
    obtain ⟨bs, hbs⟩ := ih fun a' ha' => h a' (List.mem_cons_of_mem a ha')
    exact ⟨b :: bs, .cons hb hbs⟩

theorem exists_computeUDCTo (env : OverloadEnv) (P : Class) (A : CPPType) (C : ValueCategory) : ∃ S, ComputeUDCTo env P A C S := by
  obtain ⟨Ss, hSs⟩ : ∃ Ss, List.Forall₂ (ConvertsTo env P A C) ((((env.constructors P).filter fun T =>
      !isMethodExplicit T).map stripType).filter fun T => (singleParam T).isSome) Ss := by
    refine exists_forall₂ fun FuncT hFuncT => ?_
    obtain ⟨Param, hParam⟩ := Option.isSome_iff_exists.mp (List.mem_filter.mp hFuncT).2
    obtain ⟨CS1, hCS1⟩ := exists_computeStandard env.toEnv Param A C
    obtain ⟨CS2, hCS2⟩ := exists_computeStandard env.toEnv (CPPSimpleType.classType P).type
      (CPPSimpleType.classType P).type (unnamedCat (getReturnType FuncT))
    exact ⟨_, Param, CS1, CS2, hParam, hCS1, hCS2, rfl⟩
  exact ⟨_, Ss, hSs, rfl⟩

/-- Conversion functions are non-static member functions. -/
def ConversionFunctions (env : OverloadEnv) : Prop :=
  ∀ A, ∀ F ∈ env.conversionFunctions A, ∃ Obj refNone,
    implicitObjectParameterType F.1 F.2 = some (Obj, refNone) ∧ isCPPRefType Obj = true

theorem exists_computeUDCFrom (henv : ConversionFunctions env) (P : CPPType) (A : Class) (C : ValueCategory) :
    ∃ S, ComputeUDCFrom env P A C S := by
  obtain ⟨Ss, hSs⟩ : ∃ Ss, List.Forall₂ (ConvertsFrom env P A C) (env.conversionFunctions A) Ss := by
    refine exists_forall₂ fun F hF => ?_
    obtain ⟨Obj, refNone, hobj, href⟩ := henv A F hF
    obtain ⟨CS1, hCS1⟩ : ∃ S, ComputeStandard env.toEnv Obj (.exp (CPPSimpleType.classType A).type C) refNone true S :=
      exists_computeSequence_object href
    obtain ⟨CS2, hCS2⟩ := exists_computeStandard env.toEnv P (getReturnType F.2) (unnamedCat (getReturnType F.2))
    exact ⟨_, Obj, refNone, CS1, CS2, hobj, hCS1, hCS2, rfl⟩
  exact ⟨_, Ss, hSs, rfl⟩

theorem exists_computeUDC (henv : ConversionFunctions env) {P A : CPPType}
    (h : isCPPClassType P = true ∨ isCPPClassType A = true) (C : ValueCategory) : ∃ S, ComputeUDC env P A C S := by
  obtain ⟨q, m, st⟩ := P
  obtain ⟨q', m', st'⟩ := A
  by_cases hP : isCPPClassType (.t q m st) = true
  · obtain ⟨X, hX⟩ := exists_classType hP
    change st = _ at hX
    subst hX
    by_cases hA : isCPPClassType (.t q' m' st') = true
    · obtain ⟨Y, hY⟩ := exists_classType hA
      change st' = _ at hY
      subst hY
      obtain ⟨CS1, h1⟩ := exists_computeUDCFrom henv (CPPSimpleType.classType X).type Y C
      obtain ⟨CS2, h2⟩ := exists_computeUDCTo env X (CPPSimpleType.classType Y).type C
      exact ⟨_, .both h1 h2⟩
    · obtain ⟨S, hS⟩ := exists_computeUDCTo env X (.t q' m' st') C
      exact ⟨S, .toClass (Bool.eq_false_iff.mpr hA) hS⟩
  · obtain ⟨Y, hY⟩ := exists_classType (h.resolve_left hP)
    change st' = _ at hY
    subst hY
    obtain ⟨S, hS⟩ := exists_computeUDCFrom henv (.t q m st) Y C
    exact ⟨S, .fromClass (Bool.eq_false_iff.mpr hP) hS⟩

/-! ### Initializer lists -/

theorem exists_initList {canUDC : Bool} {P : CPPType} (hP : takesInitList P = true)
    (hexp : ∀ A C, ∃ S, ComputeSequence env.toEnv canUDC (ComputeUDC env) P (.exp A C) false false S) :
    ∀ a : ArgType, ∃ S, ComputeSequence env.toEnv canUDC (ComputeUDC env) P a false false S
  | .exp A C => hexp A C
  | .initList [] => by
    simp only [takesInitList, Bool.and_eq_true, Bool.not_eq_true'] at hP
    exact ⟨_, .initListEmpty hP.1.1 hP.1.2 hP.2⟩
  | .initList [a] => by
    obtain ⟨S, hS⟩ := exists_initList hP hexp a
    simp only [takesInitList, Bool.and_eq_true, Bool.not_eq_true'] at hP
    exact ⟨_, .initList hP.1.1 hP.1.2 hP.2 hS⟩
  | .initList (a :: a' :: as) => by
    simp only [takesInitList, Bool.and_eq_true, Bool.not_eq_true'] at hP
    exact ⟨_, .initListMany hP.1.1 hP.1.2 hP.2⟩

/-- **Which arguments convert to a parameter.** -/
theorem exists_conversion_iff (henv : ConversionFunctions env) {P : CPPType} {a : ArgType} :
    (∃ S, ComputeConversionSequence env P a false false true S) ↔ ∀ l, a = .initList l → takesInitList P = true := by
  have hexp : ∀ A C, ∃ S, ComputeSequence env.toEnv true (ComputeUDC env) P (.exp A C) false false S := by
    intro A C
    refine exists_computeSequence (fun P h => ?_) P
    refine exists_computeUDC henv ?_ C
    have hutype : ∀ T, isCPPClassType (utype T) = isCPPClassType T := by
      rintro ⟨q, m, st⟩
      rfl
    rwa [hutype, hutype]
  constructor
  · rintro ⟨S, hS⟩ l rfl
    change ComputeSequence env.toEnv true (ComputeUDC env) P (.initList l) false false S at hS
    cases hS <;> simp_all [takesInitList]
  · intro h
    show ∃ S, ComputeSequence env.toEnv true (ComputeUDC env) P a false false S
    cases a with
    | exp A C => exact hexp A C
    | initList l => exact exists_initList (h l rfl) hexp _

/-- The object of a member function is an expression. -/
theorem exists_conversion_object_iff {P : CPPType} (hP : isCPPRefType P = true) {a : ArgType} {b : Bool} :
    (∃ S, ComputeConversionSequence env P a b true true S) ↔ ∀ l, a ≠ .initList l := by
  constructor
  · rintro ⟨S, hS⟩ l rfl
    change ComputeSequence env.toEnv true (ComputeUDC env) P (.initList l) b true S at hS
    cases hS
  · intro h
    show ∃ S, ComputeSequence env.toEnv true (ComputeUDC env) P a b true S
    cases a with
    | exp A C => exact exists_computeSequence_object hP
    | initList l => exact absurd rfl (h l)

end Existence

/-! ### Which calls -/

/-- Whether an initializer list converts to the parameter, or is not converted. -/
def Param.takesInitList : Param → Bool
  | .param P => CSemantics.Cpp.takesInitList P
  | .implicitObjectParameter _ => false
  | .variadic => true

/-- The parameters that the program gives a function: `...` is the last one. -/
inductive Ordinary : List Param → Prop
  | nil : Ordinary []
  | param {P Ps} (h : Ordinary Ps) : Ordinary (.param P :: Ps)
  | variadic : Ordinary [.variadic]

/-- The parameters of a function type. -/
def paramTypes (T : CPPType) : List Param :=
  match T.simpleType with
  | .functionType _ L _ _ _ => L.toList
  | _ => []

theorem getParams_eq (C : Class) (T : CPPType) :
    (hasImplicitParameter T = true ∧ ∃ P, getParams C T = .implicitObjectParameter P :: paramTypes T ∧
      (isMethodStatic T = false → isCPPRefType P = true)) ∨
    (hasImplicitParameter T = false ∧ getParams C T = paramTypes T) := by
  obtain ⟨q, m, st⟩ := T
  cases st with
  | functionType ret L mi linkage ex =>
    cases mi with
    | noMethod => exact .inr ⟨rfl, rfl⟩
    | methodInfo refQual cv static virtual pure explicit userProvided constructor =>
      cases constructor with
      | true => exact .inr ⟨rfl, rfl⟩
      | false =>
        refine .inl ⟨rfl, _, rfl, ?_⟩
        intro hstatic
        change static = false at hstatic
        subst hstatic
        cases refQual <;> rfl
  | _ => exact .inr ⟨rfl, rfl⟩

theorem getRealParams_cons {p : Param} {Ps : List Param} (hp : p ≠ .variadic) :
    getRealParams (p :: Ps) = p :: getRealParams Ps := by
  cases p with
  | param P => cases Ps <;> simp [getRealParams]
  | implicitObjectParameter P => cases Ps <;> simp [getRealParams]
  | variadic => exact absurd rfl hp

/-- Without `...` all parameters are real. -/
theorem Ordinary.getRealParams_eq {Ps : List Param} (h : Ordinary Ps) (hno : .variadic ∉ Ps) : getRealParams Ps = Ps := by
  induction h with
  | nil => rfl
  | param _ ih =>
    rw [getRealParams_cons (by simp), ih fun hmem => hno (List.mem_cons_of_mem _ hmem)]
  | variadic => exact absurd (List.mem_singleton_self _) hno

/-- The arguments have parameters, or the function has `...`. -/
theorem length_le_of_accepts {δ : Type} {M : Nat} {C : Class} {T : CPPType} {DArgs : List (Option δ)}
    (hparams : Ordinary (paramTypes T)) (h : acceptsNArgs M C T DArgs = true) :
    M ≤ (getRealParams (getParams C T)).length ∨ .variadic ∈ paramTypes T := by
  by_cases hle : M ≤ (getRealParams (getParams C T)).length
  · exact .inl hle
  · refine .inr ?_
    rw [acceptsNArgs, if_neg (by omega), if_pos (by omega)] at h
    by_contra hno
    refine absurd h ?_
    unfold isVariadicFunction
    rcases getParams_eq C T with ⟨-, P, hP, -⟩ | ⟨-, hP⟩
    · rw [hP, getRealParams_cons (by simp), hparams.getRealParams_eq hno]
      simp
    · rw [hP, hparams.getRealParams_eq hno]
      simp

theorem Ordinary.converts_iff {env : OverloadEnv} (henv : ConversionFunctions env) {b s : Bool} {Ps : List Param}
    {as : List ArgType} (h : Ordinary Ps) (hlen : as.length ≤ (getRealParams Ps).length ∨ .variadic ∈ Ps) :
    Converts env b s Ps as ↔
      ∀ (i : Nat) p l, Ps[i]? = some p → as[i]? = some (.initList l) → p.takesInitList = true := by
  induction h generalizing as with
  | nil =>
    have has : as = [] := by simpa [getRealParams] using hlen
    subst has
    exact ⟨fun _ i p l _ hl => by simp at hl, fun _ => .nil⟩
  | @param P Ps h ih =>
    cases as with
    | nil => exact ⟨fun _ i p l _ hl => by simp at hl, fun _ => .nil⟩
    | cons a as =>
      have hlen' : as.length ≤ (getRealParams Ps).length ∨ .variadic ∈ Ps := by
        rw [getRealParams_cons (by simp)] at hlen
        simpa using hlen
      constructor
      · intro hc
        cases hc with
        | param hS hrest =>
          intro i p l hp hl
          cases i with
          | zero =>
            cases hp
            cases hl
            exact (exists_conversion_iff henv).mp hS l rfl
          | succ i => exact (ih hlen').mp hrest i p l hp hl
      · intro hall
        refine .param ((exists_conversion_iff henv).mpr fun l hl => ?_) ((ih hlen').mpr fun i p l hp hl => ?_)
        · exact hall 0 (.param P) l rfl (by rw [hl]; rfl)
        · exact hall (i + 1) p l hp hl
  | variadic =>
    constructor
    · intro _ i p l hp _
      cases i with
      | zero =>
        cases hp
        rfl
      | succ i => simp at hp
    · intro _
      have hrest : ∀ as, Converts env b s [.variadic] as := by
        intro as
        induction as with
        | nil => exact .nil
        | cons a as ih => exact .variadic ih
      exact hrest as

/-- The function is no static member, or there is nothing to convert; and initializer lists are given to parameters
    that take them. -/
def CanWalk (C : Class) (T : CPPType) (args : List ArgType) : Prop :=
  (isMethodStatic T = true → hasImplicitParameter T = true → args = []) ∧
  ∀ (i : Nat) p l, (getParams C T)[i]? = some p → args[i]? = some (.initList l) → p.takesInitList = true

/-- **Which calls have one sequence for each argument.** -/
theorem oneSequenceEach_iff {δ : Type} {env : OverloadEnv} (henv : ConversionFunctions env) {C : Class} {T : CPPType}
    {args : List ArgType} {D : List (Option δ)} (hparams : Ordinary (paramTypes T))
    (haccepts : acceptsNArgs args.length C T D = true) : OneSequenceEach env C T args ↔ CanWalk C T args := by
  have hlen := length_le_of_accepts hparams haccepts
  rw [oneSequenceEach_iff_converts]
  unfold CanWalk
  rcases getParams_eq C T with ⟨himp, P, hP, href⟩ | ⟨himp, hP⟩
  · rw [hP] at hlen ⊢
    rw [getRealParams_cons (by simp)] at hlen
    cases args with
    | nil => exact ⟨fun _ => ⟨fun _ _ => rfl, fun i p l _ hl => by simp at hl⟩, fun _ => .nil⟩
    | cons a args =>
      have hrest := Ordinary.converts_iff henv (b := isFunctionMember T && !isMethodStatic T && getRefQualifier T == .refNone)
        (s := isMethodStatic T) hparams (by simpa using hlen)
      constructor
      · intro hc
        cases hc with
        | object hstatic hS hargs =>
          refine ⟨fun h => absurd (h.symm.trans hstatic) (by decide), fun i p l hp hl => ?_⟩
          cases i with
          | zero =>
            cases hl
            exact absurd rfl ((exists_conversion_object_iff (href hstatic)).mp hS l)
          | succ i => exact hrest.mp hargs i p l hp hl
      · rintro ⟨hstatic, hall⟩
        have hstatic : isMethodStatic T = false := by
          rw [Bool.eq_false_iff]
          intro h
          cases hstatic h himp
        refine .object hstatic ((exists_conversion_object_iff (href hstatic)).mpr fun l hl => ?_) (hrest.mpr ?_)
        · exact absurd (hall 0 _ l rfl (by rw [hl]; rfl)) (by simp [Param.takesInitList])
        · exact fun i p l hp hl => hall (i + 1) p l hp hl
  · rw [hP] at hlen ⊢
    rw [Ordinary.converts_iff henv hparams hlen]
    exact ⟨fun h => ⟨fun _ h' => absurd (h'.symm.trans himp) (by decide), h⟩, fun h => h.2⟩

/-- **Two functions for one call are compared argument by argument**, exactly when neither is a static member that is
    given an argument, and every initializer list is given to a parameter that takes one: then each has one sequence
    for each argument, in one order, and every comparison of them ends. -/
theorem getConversionSequences_iff {δ : Type} (env : OverloadEnv) (henv : ConversionFunctions env) (C1 C2 : Class)
    (T1 T2 : CPPType) (args : List ArgType) (DArgs1 DArgs2 : List (Option δ)) (h1 : Ordinary (paramTypes T1))
    (h2 : Ordinary (paramTypes T2)) (haccepts1 : acceptsNArgs args.length C1 T1 DArgs1 = true)
    (haccepts2 : acceptsNArgs args.length C2 T2 DArgs2 = true) :
    (OneSequenceEach env C1 T1 args ∧ OneSequenceEach env C2 T2 args ∧
      ∀ (gt : ConversionSequence → ConversionSequence → Bool) (R1 R2 : List (Option ConversionSequence)),
        EndsWith env C1 T1 args R1 → EndsWith env C2 T2 args R2 →
        (∃ w, hasWorseCSThan gt R1 R2 = .ok w) ∧ ∃ b, hasBetterCSThan gt R1 R2 = .ok b) ↔
      CanWalk C1 T1 args ∧ CanWalk C2 T2 args := by
  rw [oneSequenceEach_iff henv h1 haccepts1, oneSequenceEach_iff henv h2 haccepts2]
  constructor
  · rintro ⟨hw1, hw2, -⟩
    exact ⟨hw1, hw2⟩
  · rintro ⟨hw1, hw2⟩
    refine ⟨hw1, hw2, fun gt R1 R2 hR1 hR2 => ?_⟩
    have hlen : R1.length = R2.length := by
      rw [((oneSequenceEach_iff henv h1 haccepts1).mpr hw1).length_eq hR1,
        ((oneSequenceEach_iff henv h2 haccepts2).mpr hw2).length_eq hR2]
    rw [hasWorseCSThan_swap]
    exact ⟨exists_hasBetterCSThan hlen.symm, exists_hasBetterCSThan hlen⟩

/-! ### A static member -/

def intType : CPPType := CPPSimpleIntegerType.int.type

/-- `void f(int)`, of a class or not. -/
def takesInt (mi : MethodInfo) : CPPType :=
  (CPPSimpleType.functionType CPPSimpleType.void.type (.cons intType .nil) mi .cpp (.noexcept false)).type

/-- `struct A { void f(int); };` -/
def memberTakesInt : CPPType := takesInt (.methodInfo .refNone noQuals false false false false true false)

/-- `struct A { static void f(int); };` -/
def staticTakesInt : CPPType := takesInt (.methodInfo .refNone noQuals true false false false true false)

/-- `a.f(1)` -/
def callArgs : List ArgType := [.exp typeA .lvalue, .exp intType .prvalue]

theorem conversionFunctions_envPA : ConversionFunctions (envPA [] []) := by
  intro A F hF
  simp [envPA] at hF

theorem canWalk_memberTakesInt : CanWalk structA memberTakesInt callArgs := by
  refine ⟨by decide, fun i p l _ hl => ?_⟩
  rcases i with _ | _ | i
  · cases hl
  · cases hl
  · simp [callArgs] at hl

/-- Two members for `a.f(1)`. -/
theorem getConversionSequences_memberTakesInt :
    OneSequenceEach (envPA [] []) structA memberTakesInt callArgs ∧
    OneSequenceEach (envPA [] []) structA memberTakesInt callArgs ∧
    ∀ (gt : ConversionSequence → ConversionSequence → Bool) (R1 R2 : List (Option ConversionSequence)),
      EndsWith (envPA [] []) structA memberTakesInt callArgs R1 →
      EndsWith (envPA [] []) structA memberTakesInt callArgs R2 →
      (∃ w, hasWorseCSThan gt R1 R2 = .ok w) ∧ ∃ b, hasBetterCSThan gt R1 R2 = .ok b :=
  (getConversionSequences_iff (envPA [] []) conversionFunctions_envPA structA structA memberTakesInt memberTakesInt
    callArgs ([none] : List (Option Unit)) ([none] : List (Option Unit)) (.param .nil) (.param .nil) rfl rfl).mpr
    ⟨canWalk_memberTakesInt, canWalk_memberTakesInt⟩

/-- The static member for `a.f(1)`. -/
theorem getConversionSequences_staticTakesInt :
    acceptsNArgs callArgs.length structA staticTakesInt ([none] : List (Option Unit)) = true ∧
    ¬ OneSequenceEach (envPA [] []) structA staticTakesInt callArgs := by
  refine ⟨rfl, fun h => ?_⟩
  have hwalk := (oneSequenceEach_iff (T := staticTakesInt) (D := ([none] : List (Option Unit))) conversionFunctions_envPA
    (.param .nil) rfl).mp h
  exact absurd (hwalk.1 rfl rfl) (by simp [callArgs])

end CSemantics.Cpp
