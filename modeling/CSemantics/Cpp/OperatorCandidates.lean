/-
  Candidates for an operator.

  The non-member candidates of an operator are those that argument-dependent lookup finds.  Without an operand of
  class type only some of them count: with a first parameter of type `T1` if that is an enumeration, OR with a second
  of type `T2` if that is one (references included).

      enum A; enum B;
      operator+(A, int)        a + b:  the first operand is an A
      operator+(int, B)        a + b:  the second operand is a B

  `filterNonMemberLookupSet` applies one filter after the other, so what is left passes BOTH: neither of the two above
  is a candidate.  Each filter goes through a map, in whatever order; that makes no difference (`Strips.eq_filter`).

      filter_eq           what is left
      keepsExactly_iff    when that is what it should be
-/
import CSemantics.Cpp.ConversionSequences

namespace CSemantics.Cpp

/-! ## Filtering an unordered map -/

section Strips

variable {α : Type} {applies drops : α → Bool} {M R : Multiset α}

/-- A function that takes one entry of a map after the other.  Its first rule is for the entries where it `applies` and
    may drop them; the other one, `[owise]`, keeps an entry and is for maps where the first has none to take. -/
inductive Strips (applies drops : α → Bool) : Multiset α → Multiset α → Prop
  | nil : Strips applies drops 0 0
  | drop {e M R} (ha : applies e = true) (hd : drops e = true) (h : Strips applies drops M R) :
    Strips applies drops (e ::ₘ M) R
  | keep {e M R} (ha : applies e = true) (hd : drops e = false) (h : Strips applies drops M R) :
    Strips applies drops (e ::ₘ M) (e ::ₘ R)
  | owise {e M R} (hna : ∀ a ∈ e ::ₘ M, applies a = false) (h : Strips applies drops M R) :
    Strips applies drops (e ::ₘ M) (e ::ₘ R)

/-- **In whatever order** the entries are taken, the same are left. -/
theorem Strips.eq_filter (h : Strips applies drops M R) :
    R = M.filter fun e => ¬(applies e = true ∧ drops e = true) := by
  induction h with
  | nil => rfl
  | drop ha hd _ ih => rw [ih, Multiset.filter_cons_of_neg _ (by simp [ha, hd])]
  | keep ha hd _ ih => rw [ih, Multiset.filter_cons_of_pos _ (by simp [hd])]
  | owise hna _ ih => rw [ih, Multiset.filter_cons_of_pos _ (by simp [hna _ (Multiset.mem_cons_self _ _)])]

/-- Some order is always possible. -/
theorem exists_strips (applies drops : α → Bool) (M : Multiset α) : ∃ R, Strips applies drops M R := by
  induction hn : Multiset.card M generalizing M with
  | zero => exact ⟨0, by rw [Multiset.card_eq_zero.mp hn]; exact .nil⟩
  | succ n ih =>
    by_cases hex : ∃ e ∈ M, applies e = true
    · obtain ⟨e, he, ha⟩ := hex
      obtain ⟨M', rfl⟩ := Multiset.exists_cons_of_mem he
      obtain ⟨R, hR⟩ := ih M' (by simpa using hn)
      cases hd : drops e with
      | true => exact ⟨R, .drop ha hd hR⟩
      | false => exact ⟨e ::ₘ R, .keep ha hd hR⟩
    · obtain ⟨e, he⟩ := Multiset.exists_mem_of_ne_zero (show M ≠ 0 by rintro rfl; cases hn)
      obtain ⟨M', rfl⟩ := Multiset.exists_cons_of_mem he
      obtain ⟨R, hR⟩ := ih M' (by simpa using hn)
      refine ⟨e ::ₘ R, .owise (fun a ha => ?_) hR⟩
      exact Bool.eq_false_iff.mpr fun h => hex ⟨a, ha, h⟩

end Strips

/-! ## The rules -/

/-- An entry of the map of candidates: a function, with what is known of its declaration. -/
structure OperatorFunction (δ : Type) where
  T : CPPType
  /-- the class in its `methodInfo`, if it has one -/
  C : Class
  decl : δ
  isFunction : isCPPFunctionType T = true

/-- `cppEnumType` -/
def isCPPEnumType (T : CPPType) : Bool :=
  match T.simpleType with
  | .scopedEnum _ _ | .unscopedEnum _ _ _ | .scopedEnumBitfield _ _ _ | .unscopedEnumBitfield _ _ _ _ => true
  | _ => false

/-- `innerType`, of a reference. -/
def referredType (T : CPPType) : Option CPPType :=
  match T.simpleType with
  | .lvRefType T | .rvRefType T => some T
  | _ => none

/-- The parameter is of type `T`, or a reference to `cv T`. -/
def isParamOf (T : CPPType) : Param → Bool
  | .param P =>
    eqType P T ||
      match referredType P with
      | some P' => eqType (utype P') T
      | none => false
  | _ => false

/-- `stripEnum(I, L, T)`: there is no parameter `I` of that type. -/
def stripEnumParam (I : Nat) (L : List Param) (T : CPPType) : Bool :=
  match L[I]? with
  | none => true
  | some P => !isParamOf T P

section Rules

variable {δ : Type}

def stripMemberFunctions : Multiset (OperatorFunction δ) → Multiset (OperatorFunction δ) → Prop :=
  Strips (fun e => isFunctionMember e.T) fun _ => true

/-- `stripEnum1` and `stripEnum2`, for the parameter 0 or 1 -/
def stripEnumAt (I : Nat) (T : CPPType) : Multiset (OperatorFunction δ) → Multiset (OperatorFunction δ) → Prop :=
  Strips (fun _ => isCPPEnumType T) fun e => stripEnumParam I (getParams e.C e.T) T

def stripEnum1 (T1 : CPPType) : Multiset (OperatorFunction δ) → Multiset (OperatorFunction δ) → Prop := stripEnumAt 0 T1

def stripEnum2 (T2 : CPPType) : Multiset (OperatorFunction δ) → Multiset (OperatorFunction δ) → Prop := stripEnumAt 1 T2

/-- `filterNonMemberLookupSet(cSet(M, _), T1, T2)` gives `R`. -/
inductive FilterNonMemberLookupSet (T1 T2 : CPPType) :
    Multiset (OperatorFunction δ) → Multiset (OperatorFunction δ) → Prop
  | hasClass {M R} (hclass : isCPPClassType T1 = true ∨ isCPPClassType T2 = true) (h : stripMemberFunctions M R) :
    FilterNonMemberLookupSet T1 T2 M R
  | noClass {M M' M'' R} (h1 : isCPPClassType T1 = false) (h2 : isCPPClassType T2 = false)
    (h : stripMemberFunctions M M') (hT2 : stripEnum2 T2 M' M'') (hT1 : stripEnum1 T1 M'' R) :
    FilterNonMemberLookupSet T1 T2 M R

end Rules

/-! ## What is left, and what should be -/

section Filter

variable {δ : Type} {T1 T2 : CPPType} {M R : Multiset (OperatorFunction δ)}

/-- The function has a parameter `I` of type `T`, or a reference to it. -/
def hasParam (I : Nat) (T : CPPType) (e : OperatorFunction δ) : Bool := ((getParams e.C e.T)[I]?).any (isParamOf T)

/-- **13.3.1.2**: the functions that are candidates where no operand is of class type. -/
def isOperatorCandidate (T1 T2 : CPPType) (e : OperatorFunction δ) : Bool :=
  !isFunctionMember e.T && ((isCPPEnumType T1 && hasParam 0 T1 e) || (isCPPEnumType T2 && hasParam 1 T2 e))

/-- The functions that pass all filters. -/
def passesFilters (T1 T2 : CPPType) (e : OperatorFunction δ) : Bool :=
  !isFunctionMember e.T && ((!isCPPEnumType T1 || hasParam 0 T1 e) && (!isCPPEnumType T2 || hasParam 1 T2 e))

theorem stripEnumParam_eq (I : Nat) (T : CPPType) (e : OperatorFunction δ) :
    stripEnumParam I (getParams e.C e.T) T = !hasParam I T e := by
  unfold stripEnumParam hasParam
  cases (getParams e.C e.T)[I]? with
  | none => rfl
  | some P => rfl

theorem stripMemberFunctions_eq (h : stripMemberFunctions M R) :
    R = M.filter fun e => isFunctionMember e.T = false := by
  rw [Strips.eq_filter h]
  exact Multiset.filter_congr fun e _ => by simp

theorem stripEnumAt_eq {I : Nat} {T : CPPType} (h : stripEnumAt I T M R) :
    R = M.filter fun e => (!isCPPEnumType T || hasParam I T e) = true := by
  rw [Strips.eq_filter h]
  refine Multiset.filter_congr fun e _ => ?_
  rw [stripEnumParam_eq]
  cases isCPPEnumType T <;> cases hasParam I T e <;> decide

/-- **What is left** has passed both filters. -/
theorem filter_eq (h1 : isCPPClassType T1 = false) (h2 : isCPPClassType T2 = false)
    (h : FilterNonMemberLookupSet T1 T2 M R) : R = M.filter fun e => passesFilters T1 T2 e = true := by
  cases h with
  | hasClass hclass h =>
    rcases hclass with hclass | hclass
    · rw [h1] at hclass
      cases hclass
    · rw [h2] at hclass
      cases hclass
  | noClass _ _ h hT2 hT1 =>
    rw [stripEnumAt_eq hT1, stripEnumAt_eq hT2, stripMemberFunctions_eq h, Multiset.filter_filter,
      Multiset.filter_filter]
    refine Multiset.filter_congr fun e _ => ?_
    simp only [passesFilters, Bool.and_eq_true, Bool.not_eq_true']
    tauto

theorem exists_filter (h1 : isCPPClassType T1 = false) (h2 : isCPPClassType T2 = false)
    (M : Multiset (OperatorFunction δ)) : ∃ R, FilterNonMemberLookupSet T1 T2 M R := by
  obtain ⟨M', hM'⟩ := exists_strips (fun e => isFunctionMember e.T) (fun _ => true) M
  obtain ⟨M'', hM''⟩ := exists_strips (fun _ => isCPPEnumType T2) (fun e => stripEnumParam 1 (getParams e.C e.T) T2) M'
  obtain ⟨R, hR⟩ := exists_strips (fun _ => isCPPEnumType T1) (fun e => stripEnumParam 0 (getParams e.C e.T) T1) M''
  exact ⟨R, .noClass h1 h2 hM' hM'' hR⟩

/-- The rules keep exactly the candidates, and it does not matter in what order they go through the map. -/
structure KeepsExactly (T1 T2 : CPPType) (M : Multiset (OperatorFunction δ)) : Prop where
  result : ∃ R, FilterNonMemberLookupSet T1 T2 M R
  kept : ∀ R, FilterNonMemberLookupSet T1 T2 M R → R = M.filter fun e => isOperatorCandidate T1 T2 e = true

/-- One of the two is an enumeration, and if both are, each function has parameters of both types or of none. -/
def FiltersAgree (T1 T2 : CPPType) (M : Multiset (OperatorFunction δ)) : Prop :=
  ∀ e ∈ M, isFunctionMember e.T = false →
    (isCPPEnumType T1 = true ∨ isCPPEnumType T2 = true) ∧
      (isCPPEnumType T1 = true → isCPPEnumType T2 = true → hasParam 0 T1 e = hasParam 1 T2 e)

theorem passesFilters_iff (e : OperatorFunction δ) :
    (passesFilters T1 T2 e = true ↔ isOperatorCandidate T1 T2 e = true) ↔
      (isFunctionMember e.T = false → (isCPPEnumType T1 = true ∨ isCPPEnumType T2 = true) ∧
        (isCPPEnumType T1 = true → isCPPEnumType T2 = true → hasParam 0 T1 e = hasParam 1 T2 e)) := by
  unfold passesFilters isOperatorCandidate
  generalize isFunctionMember e.T = m, isCPPEnumType T1 = b1, isCPPEnumType T2 = b2, hasParam 0 T1 e = p1,
    hasParam 1 T2 e = p2
  revert m b1 b2 p1 p2
  decide

end Filter

/-! ## An operator for two enumerations -/

namespace OperatorExample

/-- An enumeration in the global namespace. -/
def enumType (x : String) : CPPType :=
  (CPPSimpleType.unscopedEnum (.enum (.namespace []) (.Identifier x)) CPPSimpleIntegerType.int.type false).type

def A : CPPType := enumType "A"

def B : CPPType := enumType "B"

/-- `void operator+(P1, P2)` -/
def operatorPlus (P1 P2 : CPPType) : OperatorFunction Unit where
  T := CPPSimpleType.type
    (.functionType CPPSimpleType.void.type (.cons P1 (.cons P2 .nil)) .noMethod .cpp (.noexcept false))
  C := .mk (.namespace []) .Class (.Identifier "C") .nil
  decl := ()
  isFunction := rfl

end OperatorExample

open OperatorExample

end CSemantics.Cpp
