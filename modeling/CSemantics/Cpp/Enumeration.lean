/-
  The values of an enumeration of C++.

  `declareEnumerators` goes through the enumerators and keeps the smallest and largest value, the next value and the
  type of the last.  Where the initializer is left out the value is the next one; without a fixed underlying type
  this is reported, and if no integral type has the value the program is ill-formed.

  At the end the range is computed.  `firstGreaterThanOrEqualTo` tries 0, 1, 3, 7, ... until one is large enough:
  `2 ^ n - 1` is at least `n`, so it gets there.

      firstGreaterThanOrEqualTo_isLeast   the least of these numbers
      declareEnumerators_spec             values and bounds, from any point of the list on
      enumeration_values                  the values, the range and the underlying type
-/
import CSemantics.Cpp.Typing

namespace CSemantics.Cpp

/-! ## The rules -/

/-- A message: it is a warning, or the program is ill-formed. -/
inductive EnumMsg
  | UNSPEC (code text : String)
  | ILL (code text : String)
  deriving DecidableEq, Repr

/-- `Enumerator(X, Init)`, with the value and the type of the initializer. -/
structure Enumerator where
  x : CId
  init : Option (Int × CPPSimpleType)

/-- Possible underlying types -/
def integralTypesGreaterThanInt : List CPPSimpleIntegerType :=
  [.int, .unsigned, .long, .unsignedLong, .longLong, .oversized, .unsignedLongLong, .unsignedOversized]

def allIntegralTypes : List CPPSimpleIntegerType :=
  [.signedChar, .unsignedChar, .short, .unsignedShort] ++ integralTypesGreaterThanInt

/-- The type of an enumerator of another enumeration is its underlying type. -/
def initType : CPPSimpleType → CPPSimpleType
  | .unscopedEnum _ (.t _ _ st) _ => initType st
  | st => st

/-- `firstGreaterThanOrEqualTo(Exp, Tresh)` -/
def firstGreaterThanOrEqualTo (Exp : Nat) (Tresh : Int) : Int :=
  if Tresh ≤ 2 ^ Exp - 1 then 2 ^ Exp - 1 else firstGreaterThanOrEqualTo (Exp + 1) Tresh
  termination_by (Tresh - Exp).toNat
  decreasing_by
    have hexp : (Exp : Int) < 2 ^ Exp := by exact_mod_cast Nat.lt_two_pow_self
    omega

def calculateMaxEnumValue (EMin EMax : Int) : Int := firstGreaterThanOrEqualTo 0 (max (|EMin| - 1) |EMax|)

def calculateMinEnumValue (EMin EMax : Int) : Int := if EMin ≥ 0 then 0 else 0 - (calculateMaxEnumValue EMin EMax + 1)

/-- What has been declared. -/
structure EnumDeclared where
  enumerators : List (CId × Int)
  min : Int
  max : Int
  reports : List EnumMsg

/-- What is known of an enumeration once it is complete; without an underlying type it is not completed. -/
structure CompleteEnum where
  enumerators : List (CId × Int)
  min : Int
  max : Int
  ut : Option CPPSimpleIntegerType
  reports : List EnumMsg

section Rules

variable (env : Env)

def inRange (I : Int) (T : CPPSimpleType) : Bool := I ≤ (valueRange env T).2 && I ≥ (valueRange env T).1

/-- `firstSuitableType(Min, Max, Types)`; `no-type` is `none`. -/
def firstSuitableType (Min Max : Int) (Types : List CPPSimpleIntegerType) : Option CPPSimpleIntegerType :=
  Types.find? fun T => Min ≥ (valueRange env (.integer T)).1 && Max ≤ (valueRange env (.integer T)).2

/-- The value and the type of an enumerator without an initializer. -/
def impliedInit (fixed first : Bool) (ut : CPPSimpleType) (Next : Int) (PrevType : CPPSimpleType) :
    Except EnumMsg (Int × CPPSimpleType × List EnumMsg) :=
  if fixed then .ok (if first then 0 else Next, ut, [])
  else if first then
    .ok (0, .integer .int, [.UNSPEC "TDE2"
      "No initializer specified for the first enumerator, underlying type of enumerator is unspecified."])
  else if inRange env Next PrevType then .ok (Next, PrevType, [])
  else
    match firstSuitableType env Next Next allIntegralTypes with
    | some T => .ok (Next, .integer T, [.UNSPEC "TDE3" "Value does not fit to type of preceding enumerator."])
    | none => .error (.ILL "TDE4" "Incremented enumerator value is not representable in any integer type.")

/-- `declareEnumerators(T, Min, Max, Next, PrevType, Enumerators, Fixed, First)` -/
def declareEnumerators (ut : CPPSimpleType) (fixed : Bool) :
    (Min Max Next : Int) → CPPSimpleType → (first : Bool) → List Enumerator → Except EnumMsg EnumDeclared
  | Min, Max, _, _, _, [] => .ok ⟨[], Min, Max, []⟩
  | Min, Max, Next, PrevType, first, e :: L => do
    let (V, T, reports) ←
      match e.init with
      | some (V, T) => Except.ok (V, T, [])
      | none => impliedInit env fixed first ut Next PrevType
    if fixed && !inRange env V ut then
      throw (.ILL "TDE1" ("Value of enumerator '" ++ showCId e.x ++ "' does not fit to fixed underlying type."))
    let d ← declareEnumerators ut fixed (if first then V else min Min V) (if first then V else max Max V) (V + 1)
      (initType T) false L
    return ⟨(e.x, V) :: d.enumerators, d.min, d.max, reports ++ d.reports⟩

/-- The enumerators, and then `calculateEnumValues` and `computeEnumUt`. -/
def declareUnscopedEnum (ut : CPPSimpleType) (Enumerators : List Enumerator) : Except EnumMsg CompleteEnum := do
  let d ← declareEnumerators env ut false 0 0 0 (.integer .int) true Enumerators
  let Min := calculateMinEnumValue d.min d.max
  let Max := calculateMaxEnumValue d.min d.max
  return ⟨d.enumerators, Min, Max, firstSuitableType env Min Max integralTypesGreaterThanInt, d.reports⟩

end Rules

/-! ## The range -/

/-- **The search** finds the least number of the form, from an exponent on. -/
theorem firstGreaterThanOrEqualTo_spec (Exp : Nat) (Tresh : Int) :
    ∃ M, Exp ≤ M ∧ firstGreaterThanOrEqualTo Exp Tresh = 2 ^ M - 1 ∧ Tresh ≤ 2 ^ M - 1 ∧
      ∀ k, Exp ≤ k → Tresh ≤ 2 ^ k - 1 → M ≤ k := by
  induction Exp using firstGreaterThanOrEqualTo.induct Tresh with
  | case1 Exp hle =>
    rw [firstGreaterThanOrEqualTo, if_pos hle]
    exact ⟨Exp, le_refl Exp, rfl, hle, fun k hk _ => hk⟩
  | case2 Exp hnle ih =>
    obtain ⟨M, hM, heq, hle, hleast⟩ := ih
    rw [firstGreaterThanOrEqualTo, if_neg hnle]
    refine ⟨M, by omega, heq, hle, fun k hk hkle => ?_⟩
    -- the exponent itself was too small
    have hne : k ≠ Exp := by
      rintro rfl
      exact hnle hkle
    exact hleast k (by omega) hkle

/-- The numbers `2 ^ M - 1` that are at least `Tresh`. -/
def LargeEnough (Tresh : Int) : Set Int := {b | (∃ M : Nat, b = 2 ^ M - 1) ∧ Tresh ≤ b}

theorem firstGreaterThanOrEqualTo_isLeast (Tresh : Int) :
    IsLeast (LargeEnough Tresh) (firstGreaterThanOrEqualTo 0 Tresh) := by
  obtain ⟨M, -, heq, hle, hleast⟩ := firstGreaterThanOrEqualTo_spec 0 Tresh
  rw [heq]
  refine ⟨⟨⟨M, rfl⟩, hle⟩, ?_⟩
  rintro b ⟨⟨k, rfl⟩, hk⟩
  have hpow : (2 : Int) ^ M ≤ 2 ^ k := by exact_mod_cast Nat.pow_le_pow_right (by decide) (hleast k (Nat.zero_le k) hk)
  omega

/-- What lies between the smallest and the largest value lies in the range. -/
theorem mem_range {EMin EMax V : Int} (hmin : EMin ≤ V) (hmax : V ≤ EMax) :
    calculateMinEnumValue EMin EMax ≤ V ∧ V ≤ calculateMaxEnumValue EMin EMax := by
  have hlarge := (firstGreaterThanOrEqualTo_isLeast (max (|EMin| - 1) |EMax|)).1.2
  have hlow : |EMin| - 1 ≤ calculateMaxEnumValue EMin EMax := (le_max_left _ _).trans hlarge
  have hhigh : |EMax| ≤ calculateMaxEnumValue EMin EMax := (le_max_right _ _).trans hlarge
  have habs := neg_abs_le EMin
  have habs' := le_abs_self EMax
  constructor
  · unfold calculateMinEnumValue
    split
    · omega
    · omega
  · omega

/-! ## The values -/

/-- What the values should be: one that is left out is the previous one plus one. -/
def enumeratorValues : Int → List Enumerator → List Int
  | _, [] => []
  | Next, e :: L =>
    let V := match e.init with
      | some (V, _) => V
      | none => Next
    V :: enumeratorValues (V + 1) L

/-- No integral type has the value. -/
def Unrepresentable (env : Env) (V : Int) : Prop :=
  ∀ T ∈ allIntegralTypes, ¬((valueRange env (.integer T)).1 ≤ V ∧ V ≤ (valueRange env (.integer T)).2)

/-- "Incremented enumerator value is not representable in any integer type." -/
def notRepresentable : EnumMsg := .ILL "TDE4" "Incremented enumerator value is not representable in any integer type."

section Values

variable {env : Env} {ut : CPPSimpleType}

theorem firstSuitableType_eq_some {Min Max : Int} {Types : List CPPSimpleIntegerType} {T : CPPSimpleIntegerType}
    (h : firstSuitableType env Min Max Types = some T) :
    T ∈ Types ∧ (valueRange env (.integer T)).1 ≤ Min ∧ Max ≤ (valueRange env (.integer T)).2 := by
  have hfound := List.find?_some h
  rw [Bool.and_eq_true, decide_eq_true_eq, decide_eq_true_eq] at hfound
  exact ⟨List.mem_of_find?_eq_some h, hfound⟩

theorem firstSuitableType_eq_none {Min Max : Int} {Types : List CPPSimpleIntegerType} :
    firstSuitableType env Min Max Types = none ↔
      ∀ T ∈ Types, ¬((valueRange env (.integer T)).1 ≤ Min ∧ Max ≤ (valueRange env (.integer T)).2) := by
  rw [firstSuitableType, List.find?_eq_none]
  simp

/-- Without a fixed type, the value that is implied is the next one. -/
theorem impliedInit_cases {first : Bool} {Next : Int} {PrevType : CPPSimpleType} (hfirst : first = true → Next = 0) :
    (∃ T reports, impliedInit env false first ut Next PrevType = .ok (Next, T, reports)) ∨
      (impliedInit env false first ut Next PrevType = .error notRepresentable ∧ Unrepresentable env Next) := by
  unfold impliedInit
  cases first with
  | true =>
    obtain rfl := hfirst rfl
    exact .inl ⟨_, _, rfl⟩
  | false =>
    by_cases hrange : inRange env Next PrevType = true
    · exact .inl ⟨PrevType, [], by simp [hrange]⟩
    · cases hsuitable : firstSuitableType env Next Next allIntegralTypes with
      | some T => exact .inl ⟨.integer T, [_], by rw [if_neg hrange]; rfl⟩
      | none => exact .inr ⟨by rw [if_neg hrange]; rfl, firstSuitableType_eq_none.mp hsuitable⟩

/-- The smallest value, where `Min` was the smallest before. -/
def lowest (first : Bool) (Min : Int) (values : List Int) : Int :=
  if first then values.min?.getD Min else values.foldl min Min

def highest (first : Bool) (Max : Int) (values : List Int) : Int :=
  if first then values.max?.getD Max else values.foldl max Max

theorem lowest_cons (first : Bool) (Min V : Int) (values : List Int) :
    lowest first Min (V :: values) = lowest false (if first then V else min Min V) values := by
  cases first with
  | false => rfl
  | true =>
    rw [lowest, if_pos rfl, List.min?_cons']
    rfl

theorem highest_cons (first : Bool) (Max V : Int) (values : List Int) :
    highest first Max (V :: values) = highest false (if first then V else max Max V) values := by
  cases first with
  | false => rfl
  | true =>
    rw [highest, if_pos rfl, List.max?_cons']
    rfl

/-- What has been declared is right. -/
structure EnumDeclaresFrom (Min Max Next : Int) (first : Bool) (L : List Enumerator) (d : EnumDeclared) : Prop where
  names : d.enumerators.map Prod.fst = L.map Enumerator.x
  values : d.enumerators.map Prod.snd = enumeratorValues Next L
  min : d.min = lowest first Min (enumeratorValues Next L)
  max : d.max = highest first Max (enumeratorValues Next L)

/-- Some enumerator is left out where no integral type has its value. -/
def Overflows (env : Env) (Next : Int) (L : List Enumerator) : Prop :=
  ∃ (i : Nat) (x : CId) (V : Int), L[i]? = some (⟨x, none⟩ : Enumerator) ∧
    (enumeratorValues Next L)[i]? = some V ∧ Unrepresentable env V

/-- **The loop**, from any point of the list on. -/
theorem declareEnumerators_spec (L : List Enumerator) :
    ∀ {Min Max Next : Int} {PrevType : CPPSimpleType} {first : Bool}, (first = true → Next = 0) →
      match declareEnumerators env ut false Min Max Next PrevType first L with
      | .ok d => EnumDeclaresFrom Min Max Next first L d
      | .error e => e = notRepresentable ∧ Overflows env Next L := by
  induction L with
  | nil =>
    intro Min Max Next PrevType first hfirst
    have hnil : EnumDeclaresFrom Min Max Next first [] ⟨[], Min, Max, []⟩ :=
      ⟨rfl, rfl, by cases first <;> rfl, by cases first <;> rfl⟩
    rw [declareEnumerators]
    exact hnil
  | cons e L ih =>
    intro Min Max Next PrevType first hfirst
    obtain ⟨x, init⟩ := e
    -- the enumerator has the value `V`, and the rest follows
    have hgo : ∀ (V : Int) (T : CPPSimpleType) (reports : List EnumMsg),
        enumeratorValues Next (⟨x, init⟩ :: L) = V :: enumeratorValues (V + 1) L →
        match (do
          let d ← declareEnumerators env ut false (if first then V else min Min V) (if first then V else max Max V)
            (V + 1) (initType T) false L
          return (⟨(x, V) :: d.enumerators, d.min, d.max, reports ++ d.reports⟩ : EnumDeclared) : Except EnumMsg EnumDeclared) with
        | .ok d => EnumDeclaresFrom Min Max Next first (⟨x, init⟩ :: L) d
        | .error e => e = notRepresentable ∧ Overflows env Next (⟨x, init⟩ :: L) := by
      intro V T reports hvalues
      have hrest := @ih (if first then V else min Min V) (if first then V else max Max V) (V + 1) (initType T) false
        (fun h => by cases h)
      cases hrun : declareEnumerators env ut false (if first then V else min Min V) (if first then V else max Max V)
          (V + 1) (initType T) false L with
      | ok d =>
        rw [hrun] at hrest
        have hrest : EnumDeclaresFrom _ _ (V + 1) false L d := hrest
        refine ⟨?_, ?_, ?_, ?_⟩
        · simp [hrest.names]
        · rw [hvalues]
          simp [hrest.values]
        · rw [hvalues, lowest_cons]
          exact hrest.min
        · rw [hvalues, highest_cons]
          exact hrest.max
      | error e =>
        rw [hrun] at hrest
        obtain ⟨he, i, y, W, hi, hW, hbad⟩ := hrest
        exact ⟨he, i + 1, y, W, hi, by rw [hvalues]; exact hW, hbad⟩
    rw [declareEnumerators]
    cases init with
    | some init =>
      obtain ⟨V, T⟩ := init
      exact hgo V T [] rfl
    | none =>
      have himplied := @impliedInit_cases env ut first Next PrevType hfirst
      rcases himplied with ⟨T, reports, hinit⟩ | ⟨hinit, hbad⟩
      · dsimp only
        rw [hinit]
        exact hgo Next T reports rfl
      · dsimp only
        rw [hinit]
        exact ⟨rfl, 0, x, Next, rfl, rfl, hbad⟩

/-- The smallest and the largest value, 0 where there is none. -/
def emin (values : List Int) : Int := values.min?.getD 0

def emax (values : List Int) : Int := values.max?.getD 0

theorem emin_le {values : List Int} {V : Int} (hV : V ∈ values) : emin values ≤ V := by
  unfold emin
  cases hmin : values.min? with
  | none =>
    rw [List.min?_eq_none_iff.mp hmin] at hV
    cases hV
  | some a => exact (List.min?_eq_some_iff.mp hmin).2 V hV

theorem le_emax {values : List Int} {V : Int} (hV : V ∈ values) : V ≤ emax values := by
  unfold emax
  cases hmax : values.max? with
  | none =>
    rw [List.max?_eq_none_iff.mp hmax] at hV
    cases hV
  | some a => exact (List.max?_eq_some_iff.mp hmax).2 V hV

end Values

/-! ## An enumeration -/

/-- All values from `Min` to `Max` are values of the type. -/
def RepresentsAll (env : Env) (T : CPPSimpleIntegerType) (Min Max : Int) : Prop :=
  (valueRange env (.integer T)).1 ≤ Min ∧ Max ≤ (valueRange env (.integer T)).2

/-- **7.2**: the values of an enumeration without a fixed underlying type, its range and its underlying type. -/
structure IsEnumeration (env : Env) (L : List Enumerator) (info : CompleteEnum) : Prop where
  names : info.enumerators.map Prod.fst = L.map Enumerator.x
  values : info.enumerators.map Prod.snd = enumeratorValues 0 L
  max : IsLeast (LargeEnough (max (|emin (enumeratorValues 0 L)| - 1) |emax (enumeratorValues 0 L)|)) info.max
  min : info.min = if emin (enumeratorValues 0 L) ≥ 0 then 0 else -(info.max + 1)
  within : ∀ e ∈ info.enumerators, info.min ≤ e.2 ∧ e.2 ≤ info.max
  utRepresents : ∀ T, info.ut = some T → T ∈ integralTypesGreaterThanInt ∧ RepresentsAll env T info.min info.max
  utExists : (∃ T ∈ integralTypesGreaterThanInt, RepresentsAll env T info.min info.max) → info.ut.isSome

/-- **The enumeration is right**, or some enumerator is left out where no integral type has its value. -/
theorem enumeration_values (env : Env) (ut : CPPSimpleType) (L : List Enumerator) :
    match declareUnscopedEnum env ut L with
    | .ok info => IsEnumeration env L info
    | .error e => e = notRepresentable ∧ Overflows env 0 L := by
  have hloop := @declareEnumerators_spec env ut L 0 0 0 (.integer .int) true fun _ => rfl
  unfold declareUnscopedEnum
  cases hrun : declareEnumerators env ut false 0 0 0 (.integer .int) true L with
  | error e =>
    rw [hrun] at hloop
    exact hloop
  | ok d =>
    rw [hrun] at hloop
    have hd : EnumDeclaresFrom 0 0 0 true L d := hloop
    have hmin : d.min = emin (enumeratorValues 0 L) := hd.min
    have hmax : d.max = emax (enumeratorValues 0 L) := hd.max
    refine ⟨hd.names, hd.values, ?_, ?_, ?_, ?_, ?_⟩
    · rw [← hmin, ← hmax]
      exact firstGreaterThanOrEqualTo_isLeast _
    · rw [← hmin]
      change calculateMinEnumValue d.min d.max = _
      rw [calculateMinEnumValue, zero_sub]
    · intro e he
      have hV : e.2 ∈ enumeratorValues 0 L := by
        rw [← hd.values]
        exact List.mem_map_of_mem he
      exact mem_range (hmin.trans_le (emin_le hV)) ((le_emax hV).trans_eq hmax.symm)
    · intro T hT
      exact firstSuitableType_eq_some hT
    · rintro ⟨T, hmem, hrep⟩
      by_contra hnone
      exact firstSuitableType_eq_none.mp (Option.not_isSome_iff_eq_none.mp hnone) T hmem hrep

end CSemantics.Cpp
