/-
  The integral promotions of C++.

  `promote` is one step, and its rules are tried side by side: a bit-field of small rank is an integer type
  and a bit-field, and is promoted by two rules.  `PromoteRule` has them all.  What they should come to is
  `IsPromotion`: the first of the types in the order of the standard that holds the values of the operand,
  or the operand's own type when no promotion applies.

      firstBroader_of_find    the chain of conditions finds the first type that is broader
      IsPromotion.spec        where the standard has a promotion, the rules reach it in two steps
      promotionSound_iff      and only there do they
-/
import CSemantics.Cpp.Typing

namespace CSemantics.Cpp

/-! ## The rules -/

/-- The types in the order in which promotions try them. -/
def promotedTypes : List CPPSimpleIntegerType := [.int, .unsigned, .long, .unsignedLong, .longLong, .unsignedLongLong]

namespace CPPSimpleIntegerType

/-- `CPPSimpleWideCharType`, but for bit-fields. -/
def isWideChar : CPPSimpleIntegerType → Bool
  | .wchar | .char16 | .char32 => true
  | _ => false

/-- The types that no promotion is for. -/
def isPromoted : CPPSimpleIntegerType → Bool
  | .int | .unsigned | .long | .unsignedLong | .longLong | .unsignedLongLong | .oversized | .unsignedOversized => true
  | _ => false

theorem rank_of_isPromoted : ∀ i : CPPSimpleIntegerType, i.isPromoted = true → CPPSimpleIntegerType.int.rank ≤ i.rank := by
  intro i
  cases i <;> decide

theorem isPromoted_of_isWideChar : ∀ i : CPPSimpleIntegerType, i.isWideChar = true → i.isPromoted = false := by
  intro i
  cases i <;> decide

theorem rank_of_small : ∀ i : CPPSimpleIntegerType, i.isPromoted = false → i.isWideChar = false →
    i.rank < CPPSimpleIntegerType.int.rank := by
  intro i
  cases i <;> decide

end CPPSimpleIntegerType

/-- `rank`, which only integer types and their bit-fields have. -/
def CPPType.rank : CPPType → Option Int
  | .t _ _ (.integer i) => some i.rank
  | .t _ _ (.bitfieldType i _) => some i.rank
  | _ => none

/-- There is a rule for `promote` before the last. -/
def hasPromoteRule : CPPSimpleType → Bool
  | .integer i => !i.isPromoted
  | .bitfieldType _ _ | .scopedEnumBitfield _ _ _ | .unscopedEnumBitfield _ _ _ _ | .unscopedEnum _ _ _ => true
  | _ => false

section Rules

variable (env : Env)

/-- **The rules for `promote(T)`.** -/
inductive PromoteRule : CPPType → CPPType → Prop
  | small {q m st r} (hst : isCPPIntegerType st.type = true) (hbool : st ≠ .integer .bool)
    (hchar : ∀ i, i.isWideChar = true → st ≠ .integer i) (hr : st.type.rank = some r)
    (hlt : r < CPPSimpleIntegerType.int.rank) :
    PromoteRule (.t q m st) (firstBroader env st CPPSimpleIntegerType.unsigned.type [.int])
  | wideChar {q m i} (hi : i.isWideChar = true) :
    PromoteRule (.t q m (.integer i)) (firstBroader env (.integer i) i.underlyingType.type promotedTypes)
  | enum {q m id UT} :
    PromoteRule (.t q m (.unscopedEnum id UT false))
      (firstBroader env (.unscopedEnum id UT false) UT.simpleType.type promotedTypes)
  | enumFixed {q m id UT} : PromoteRule (.t q m (.unscopedEnum id UT true)) UT
  | bitfield {q m i n} :
    PromoteRule (.t q m (.bitfieldType i n))
      (firstBroader env (.bitfieldType i n) (CPPSimpleType.bitfieldType i n).type [.int, .unsigned])
  | scopedEnumBitfield {q m id UT n P} (h : PromoteRule (.t q m (.scopedEnum id UT)) P) :
    PromoteRule (.t q m (.scopedEnumBitfield id UT n)) P
  | unscopedEnumBitfield {q m id UT fixed n P} (h : PromoteRule (.t q m (.unscopedEnum id UT fixed)) P) :
    PromoteRule (.t q m (.unscopedEnumBitfield id UT fixed n)) P
  | bool {q m} : PromoteRule (.t q m (.integer .bool)) CPPSimpleIntegerType.int.type
  | otherwise {q m st} (h : hasPromoteRule st = false) : PromoteRule (.t q m st) (.t q m st)

/-- `promote(promote(T))` -/
def PromoteTwice (T Q : CPPType) : Prop := ∃ P, PromoteRule env T P ∧ PromoteRule env P Q

/-- `Q` promotes to itself only. -/
def IsFixed (Q : CPPType) : Prop := ∀ R, PromoteRule env Q R ↔ R = Q

/-! ## The promotions of the standard -/

/-- The types that the standard names for `T`, in its order. -/
def candidates : CPPSimpleType → List CPPSimpleIntegerType
  | .integer i =>
    if i.isPromoted then [] else if i = .bool then [.int] else if i.isWideChar then promotedTypes else [.int, .unsigned]
  | .bitfieldType _ _ => [.int, .unsigned]
  | .unscopedEnum _ (.t _ _ (.integer i)) false => promotedTypes ++ [i]
  | _ => []

/-- The first of them that can represent all values of `T`. -/
def firstCandidate (st : CPPSimpleType) : Option CPPSimpleIntegerType :=
  (candidates st).find? fun j => broaderTypeThan env (.integer j) st

/-- **4.5**: `Q` is what the integral promotions make of `T`. -/
inductive IsPromotion : CPPType → CPPType → Prop
  | promoted {q m i} (h : i.isPromoted = true) : IsPromotion (.t q m (.integer i)) (.t q m (.integer i))
  | first {q m st j} (h : firstCandidate env st = some j) : IsPromotion (.t q m st) j.type
  /-- "If the bit-field is larger yet, no integral promotion applies to it." -/
  | bitfield {q m i n} (h : firstCandidate env (.bitfieldType i n) = none) (hi : i.rank ≥ CPPSimpleIntegerType.int.rank) :
    IsPromotion (.t q m (.bitfieldType i n)) (CPPSimpleType.bitfieldType i n).type
  | enumFixed {q m id UT Q} (h : IsPromotion UT Q) : IsPromotion (.t q m (.unscopedEnum id UT true)) Q
  | enumBitfield {q m id UT fixed n Q} (h : IsPromotion (.t q m (.unscopedEnum id UT fixed)) Q) :
    IsPromotion (.t q m (.unscopedEnumBitfield id UT fixed n)) Q

/-! ## Integer types and enumerations -/

/-- The underlying type of an unscoped enumeration: declared, or the first that its values are in. -/
inductive IsEnumType (id : Enum) : CPPType → Bool → Prop
  | declared (q : Quals) (m : Finset String) (i : CPPSimpleIntegerType) : IsEnumType id (.t q m (.integer i)) true
  | computed (i : CPPSimpleIntegerType) (hi : i.isPromoted = true)
    (hrange : broaderTypeThan env (.integer i) (.unscopedEnum id i.type false) = true) : IsEnumType id i.type false

/-- **An integral type**: an integer type, an unscoped enumeration, or a bit-field of one. -/
inductive IsIntegral : CPPType → Prop
  | integer (q : Quals) (m : Finset String) (i : CPPSimpleIntegerType) : IsIntegral (.t q m (.integer i))
  | bitfield (q : Quals) (m : Finset String) (i : CPPSimpleIntegerType) (n : Int) (hn : 0 < n) :
    IsIntegral (.t q m (.bitfieldType i n))
  | enum (q : Quals) (m : Finset String) {id UT fixed} (h : IsEnumType env id UT fixed) :
    IsIntegral (.t q m (.unscopedEnum id UT fixed))
  | enumBitfield (q : Quals) (m : Finset String) (n : Int) (hn : 0 < n) {id UT fixed} (h : IsEnumType env id UT fixed) :
    IsIntegral (.t q m (.unscopedEnumBitfield id UT fixed n))

/-- **Promotion of `T` is sound**: two steps give one type, which promotes to itself and represents the values of `T`. -/
structure PromotionSound (T : CPPType) : Prop where
  single : ∃ Q, ∀ Q', PromoteTwice env T Q' ↔ Q' = Q
  fixed : ∀ Q, PromoteTwice env T Q → IsFixed env Q
  holds : ∀ Q, PromoteTwice env T Q → broaderTypeThan env Q.simpleType T.simpleType = true

end Rules

/-! ## The first type that is broader -/

section Chain

variable {env : Env} {st : CPPSimpleType} {i j : CPPSimpleIntegerType} {T : CPPType} {is : List CPPSimpleIntegerType}

theorem firstBroader_of_find (h : (is.find? fun j => broaderTypeThan env (.integer j) st) = some j) :
    firstBroader env st T is = j.type := by
  induction is with
  | nil => cases h
  | cons i is ih =>
    rw [firstBroader]
    cases hi : broaderTypeThan env (.integer i) st with
    | true =>
      simp only [List.find?_cons, hi, Option.some.injEq] at h
      rw [if_pos rfl, h]
    | false =>
      simp only [List.find?_cons, hi] at h
      exact ih h

theorem firstBroader_of_none (h : (is.find? fun j => broaderTypeThan env (.integer j) st) = none) :
    firstBroader env st T is = T := by
  induction is with
  | nil => rfl
  | cons i is ih =>
    have hi : broaderTypeThan env (.integer i) st = false := by
      simpa using List.find?_eq_none.mp h i List.mem_cons_self
    simp only [List.find?_cons, hi] at h
    rw [firstBroader, hi]
    exact ih h

/-- The default of the chain is its last type. -/
theorem firstBroader_last (h : ((is ++ [i]).find? fun j => broaderTypeThan env (.integer j) st) = some j) :
    firstBroader env st i.type is = j.type := by
  cases hfind : is.find? fun j => broaderTypeThan env (.integer j) st with
  | some k =>
    rw [List.find?_append, hfind] at h
    cases h
    exact firstBroader_of_find hfind
  | none =>
    rw [List.find?_append, hfind, Option.none_or] at h
    have hj : j ∈ [i] := List.mem_of_find?_eq_some h
    rw [List.mem_singleton.mp hj]
    exact firstBroader_of_none hfind

theorem firstBroader_mem : (∃ j ∈ is, firstBroader env st T is = j.type) ∨ firstBroader env st T is = T := by
  cases hfind : is.find? fun j => broaderTypeThan env (.integer j) st with
  | some k => exact .inl ⟨k, List.mem_of_find?_eq_some hfind, firstBroader_of_find hfind⟩
  | none => exact .inr (firstBroader_of_none hfind)

theorem broader_of_firstCandidate (h : firstCandidate env st = some j) : broaderTypeThan env (.integer j) st = true :=
  List.find?_some (p := fun j => broaderTypeThan env (.integer j) st) h

theorem firstCandidate_isSome (hj : j ∈ candidates st) (h : broaderTypeThan env (.integer j) st = true) :
    ∃ k, firstCandidate env st = some k := by
  cases hfind : firstCandidate env st with
  | some k => exact ⟨k, rfl⟩
  | none => exact absurd h (List.find?_eq_none.mp hfind j hj)

theorem broaderTypeThan_refl : broaderTypeThan env st st = true := by
  simp [broaderTypeThan]

end Chain

/-! ## One step -/

section Step

variable {env : Env} {q : Quals} {m : Finset String} {i : CPPSimpleIntegerType} {n : Int} {P Q : CPPType}

theorem promoteRule_promoted (hi : i.isPromoted = true) :
    PromoteRule env (.t q m (.integer i)) P ↔ P = .t q m (.integer i) := by
  constructor
  · intro h
    cases h with
    | small hst hbool hchar hr hlt =>
      cases hr
      exact absurd (CPPSimpleIntegerType.rank_of_isPromoted i hi) (not_le.mpr hlt)
    | wideChar hw => simp [CPPSimpleIntegerType.isPromoted_of_isWideChar i hw] at hi
    | bool => cases hi
    | otherwise h => rfl
  · rintro rfl
    exact .otherwise (by rw [hasPromoteRule, hi]; rfl)

theorem isFixed_promoted (hi : i.isPromoted = true) : IsFixed env (.t q m (.integer i)) :=
  fun _ => promoteRule_promoted hi

theorem promoteRule_bool : PromoteRule env (.t q m (.integer .bool)) P ↔ P = CPPSimpleIntegerType.int.type := by
  constructor
  · intro h
    cases h with
    | small hst hbool => exact absurd rfl hbool
    | wideChar hw => cases hw
    | bool => rfl
    | otherwise h => cases h
  · rintro rfl
    exact .bool

theorem promoteRule_wideChar (hi : i.isWideChar = true) : PromoteRule env (.t q m (.integer i)) P ↔
    P = firstBroader env (.integer i) i.underlyingType.type promotedTypes := by
  constructor
  · intro h
    cases h with
    | small hst hbool hchar => exact absurd rfl (hchar i hi)
    | wideChar hw => rfl
    | bool => cases hi
    | otherwise h =>
      simp [hasPromoteRule, CPPSimpleIntegerType.isPromoted_of_isWideChar i hi] at h
  · rintro rfl
    exact .wideChar hi

theorem promoteRule_small (hi : i.isPromoted = false) (hw : i.isWideChar = false) (hb : i ≠ .bool) :
    PromoteRule env (.t q m (.integer i)) P ↔
      P = firstBroader env (.integer i) CPPSimpleIntegerType.unsigned.type [.int] := by
  constructor
  · intro h
    cases h with
    | small hst hbool hchar hr hlt => rfl
    | wideChar hw' => simp [hw] at hw'
    | bool => exact absurd rfl hb
    | otherwise h => simp [hasPromoteRule, hi] at h
  · rintro rfl
    refine .small rfl ?_ ?_ rfl ?_
    · intro h
      exact hb (CPPSimpleType.integer.inj h)
    · intro k hk h
      cases h
      simp [hw] at hk
    · exact CPPSimpleIntegerType.rank_of_small i hi hw

theorem promoteRule_bitfield : PromoteRule env (.t q m (.bitfieldType i n)) P ↔
    P = firstBroader env (.bitfieldType i n) (CPPSimpleType.bitfieldType i n).type [.int, .unsigned] ∨
    (i.rank < CPPSimpleIntegerType.int.rank ∧
      P = firstBroader env (.bitfieldType i n) CPPSimpleIntegerType.unsigned.type [.int]) := by
  constructor
  · intro h
    cases h with
    | small hst hbool hchar hr hlt =>
      cases hr
      exact .inr ⟨hlt, rfl⟩
    | bitfield => exact .inl rfl
    | otherwise h => cases h
  · rintro (rfl | ⟨hlt, rfl⟩)
    · exact .bitfield
    · exact .small rfl (fun h => by cases h) (fun _ _ h => by cases h) rfl hlt

theorem promoteRule_enum {id : Enum} {UT : CPPType} : PromoteRule env (.t q m (.unscopedEnum id UT false)) P ↔
    P = firstBroader env (.unscopedEnum id UT false) UT.simpleType.type promotedTypes := by
  constructor
  · intro h
    cases h with
    | small hst => cases hst
    | enum => rfl
    | otherwise h => cases h
  · rintro rfl
    exact .enum

theorem promoteRule_enumFixed {id : Enum} {UT : CPPType} :
    PromoteRule env (.t q m (.unscopedEnum id UT true)) P ↔ P = UT := by
  constructor
  · intro h
    cases h with
    | small hst => cases hst
    | enumFixed => rfl
    | otherwise h => cases h
  · rintro rfl
    exact .enumFixed

theorem promoteRule_enumBitfield {id : Enum} {UT : CPPType} {fixed : Bool} :
    PromoteRule env (.t q m (.unscopedEnumBitfield id UT fixed n)) P ↔
      PromoteRule env (.t q m (.unscopedEnum id UT fixed)) P := by
  constructor
  · intro h
    cases h with
    | small hst => cases hst
    | unscopedEnumBitfield h => exact h
    | otherwise h => cases h
  · exact .unscopedEnumBitfield

end Step

/-! ## Two steps -/

section Twice

variable {env : Env} {q : Quals} {m : Finset String} {i : CPPSimpleIntegerType} {n : Int} {st : CPPSimpleType}
  {T P Q : CPPType}

/-- `Q` is all that two steps make of `T`, and it is promoted and holds the values of `T`. -/
structure ReachesOnly (env : Env) (T Q : CPPType) : Prop where
  twice : ∀ Q', PromoteTwice env T Q' ↔ Q' = Q
  fixed : IsFixed env Q
  holds : broaderTypeThan env Q.simpleType T.simpleType = true

theorem ReachesOnly.promotionSound (h : ReachesOnly env T Q) : PromotionSound env T := by
  refine ⟨⟨Q, h.twice⟩, fun Q' hQ' => ?_, fun Q' hQ' => ?_⟩
  · rw [(h.twice Q').mp hQ']
    exact h.fixed
  · rw [(h.twice Q').mp hQ']
    exact h.holds

/-- One step is enough when its result is fixed. -/
theorem ReachesOnly.of_step (h : ∀ P, PromoteRule env T P ↔ P = Q) (hQ : IsFixed env Q)
    (hholds : broaderTypeThan env Q.simpleType T.simpleType = true) : ReachesOnly env T Q := by
  refine ⟨fun Q' => ?_, hQ, hholds⟩
  constructor
  · rintro ⟨P, hP, hP'⟩
    obtain rfl := (h P).mp hP
    exact (hQ Q').mp hP'
  · rintro rfl
    exact ⟨Q', (h Q').mpr rfl, (hQ Q').mpr rfl⟩

theorem candidates_isPromoted (h : IsIntegral env (.t q m st)) : ∀ j ∈ candidates st, j.isPromoted = true := by
  have htypes : ∀ j ∈ promotedTypes, j.isPromoted = true := by decide
  cases h with
  | integer q m i =>
    rw [candidates]
    split
    · exact fun j hj => absurd hj List.not_mem_nil
    · split
      · decide
      · split
        · exact htypes
        · decide
  | bitfield q m i n hn =>
    rw [candidates]
    decide
  | enum q m h =>
    cases h with
    | declared q m i => exact fun j hj => absurd hj List.not_mem_nil
    | computed i hi hrange =>
      intro j hj
      rcases List.mem_append.mp hj with hj | hj
      · exact htypes j hj
      · rwa [List.mem_singleton.mp hj]
  | enumBitfield q m n hn h => exact fun j hj => absurd hj List.not_mem_nil

theorem firstCandidate_isPromoted (h : IsIntegral env (.t q m st)) {j : CPPSimpleIntegerType}
    (hj : firstCandidate env st = some j) : j.isPromoted = true :=
  candidates_isPromoted h j (List.mem_of_find?_eq_some hj)

/-- **The rules find the first type** that holds the values. -/
theorem promoteRule_first (h : IsIntegral env (.t q m st)) {j : CPPSimpleIntegerType} (hj : firstCandidate env st = some j) :
    PromoteRule env (.t q m st) P ↔ P = j.type := by
  rw [firstCandidate] at hj
  cases h with
  | integer q m i =>
    rw [candidates] at hj
    by_cases hi : i.isPromoted = true
    · simp [hi] at hj
    rw [if_neg hi] at hj
    rw [Bool.not_eq_true] at hi
    by_cases hb : i = .bool
    · subst hb
      rw [if_pos rfl] at hj
      have hmem := List.mem_of_find?_eq_some hj
      rw [promoteRule_bool, List.mem_singleton.mp hmem]
    rw [if_neg hb] at hj
    by_cases hw : i.isWideChar = true
    · rw [if_pos hw] at hj
      rw [promoteRule_wideChar hw, firstBroader_of_find hj]
    · rw [if_neg hw] at hj
      rw [promoteRule_small hi (Bool.not_eq_true _ ▸ hw) hb, @firstBroader_last env _ _ _ [.int] hj]
  | bitfield q m i n hn =>
    rw [candidates] at hj
    rw [promoteRule_bitfield, firstBroader_of_find hj, @firstBroader_last env _ _ _ [.int] hj]
    exact ⟨fun h => h.elim id And.right, .inl⟩
  | enum q m h =>
    cases h with
    | declared q m i => cases hj
    | computed i hi hrange =>
      rw [promoteRule_enum]
      show P = firstBroader env _ i.type promotedTypes ↔ P = j.type
      rw [firstBroader_last (i := i) hj]
  | enumBitfield q m n hn h => cases hj

theorem reachesOnly_first (h : IsIntegral env (.t q m st)) {j : CPPSimpleIntegerType} (hj : firstCandidate env st = some j) :
    ReachesOnly env (.t q m st) j.type :=
  .of_step (fun _ => promoteRule_first h hj) (isFixed_promoted (firstCandidate_isPromoted h hj))
    (broader_of_firstCandidate hj)

/-- A bit-field too large for `unsigned` stays what it is. -/
theorem reachesOnly_bitfield (hnone : firstCandidate env (.bitfieldType i n) = none)
    (hi : i.rank ≥ CPPSimpleIntegerType.int.rank) :
    ReachesOnly env (.t q m (.bitfieldType i n)) (CPPSimpleType.bitfieldType i n).type := by
  have hstep : ∀ q m P, PromoteRule env (.t q m (.bitfieldType i n)) P ↔ P = (CPPSimpleType.bitfieldType i n).type := by
    intro q m P
    rw [firstCandidate, candidates] at hnone
    rw [promoteRule_bitfield, firstBroader_of_none hnone]
    exact ⟨fun h => h.elim id fun h => absurd h.1 (not_lt.mpr hi), .inl⟩
  exact .of_step (hstep q m) (hstep noQuals ∅) broaderTypeThan_refl

/-- An enumeration reaches what its underlying type reaches. -/
theorem reachesOnly_enumFixed {id : Enum} {q' : Quals} {m' : Finset String}
    (h : ∀ P, PromoteRule env (.t q' m' (.integer i)) P ↔ P = Q) (hQ : IsFixed env Q)
    (hholds : broaderTypeThan env Q.simpleType (.integer i) = true) :
    ReachesOnly env (.t q m (.unscopedEnum id (.t q' m' (.integer i)) true)) Q := by
  refine ⟨fun Q' => ?_, hQ, hholds⟩
  constructor
  · rintro ⟨P, hP, hP'⟩
    obtain rfl := promoteRule_enumFixed.mp hP
    exact (h Q').mp hP'
  · rintro rfl
    exact ⟨_, .enumFixed, (h Q').mpr rfl⟩

theorem reachesOnly_enumBitfield {id : Enum} {UT : CPPType} {fixed : Bool}
    (h : ReachesOnly env (.t q m (.unscopedEnum id UT fixed)) Q) :
    ReachesOnly env (.t q m (.unscopedEnumBitfield id UT fixed n)) Q := by
  obtain ⟨q', m', st'⟩ := UT
  refine ⟨fun Q' => ?_, h.fixed, h.holds⟩
  rw [← h.twice Q']
  exact exists_congr fun P => and_congr_left fun _ => promoteRule_enumBitfield

/-- **Where the standard has a promotion, the rules reach it** in two steps. -/
theorem IsPromotion.spec (hT : IsIntegral env T) (h : IsPromotion env T Q) : ReachesOnly env T Q := by
  induction h with
  | promoted hi => exact .of_step (fun _ => promoteRule_promoted hi) (isFixed_promoted hi) broaderTypeThan_refl
  | first hj => exact reachesOnly_first hT hj
  | bitfield hnone hi => exact reachesOnly_bitfield hnone hi
  | enumFixed h ih =>
    cases hT with
    | enum q m he =>
      cases he with
      | declared q' m' i =>
        have hinner : IsIntegral env (.t q' m' (.integer i)) := .integer q' m' i
        cases h with
        | promoted hi =>
          exact reachesOnly_enumFixed (fun _ => promoteRule_promoted hi) (isFixed_promoted hi) broaderTypeThan_refl
        | first hj =>
          exact reachesOnly_enumFixed (fun _ => promoteRule_first hinner hj)
            (isFixed_promoted (firstCandidate_isPromoted hinner hj)) (broader_of_firstCandidate hj)
  | enumBitfield h ih =>
    cases hT with
    | enumBitfield q m n hn he => exact reachesOnly_enumBitfield (ih (.enum _ _ he))

/-! ### Only there -/

theorem promoteRule_small_cases (hi : i.isPromoted = false) (hw : i.isWideChar = false) (hb : i ≠ .bool)
    (h : PromoteRule env (.t q m (.integer i)) P) :
    P = CPPSimpleIntegerType.int.type ∨ P = CPPSimpleIntegerType.unsigned.type := by
  rw [promoteRule_small hi hw hb] at h
  rcases @firstBroader_mem env (.integer i) CPPSimpleIntegerType.unsigned.type [.int] with ⟨j, hj, heq⟩ | heq
  · rw [h, heq, List.mem_singleton.mp hj]
    exact .inl rfl
  · exact .inr (h.trans heq)

/-- Two steps from a type that is not promoted end at one of the types that the standard names. -/
theorem mem_candidates_of_promoteTwice (hi : i.isPromoted = false) (h : PromoteTwice env (.t q m (.integer i)) Q) :
    ∃ j ∈ candidates (.integer i), Q = j.type := by
  obtain ⟨P, hP, hQ⟩ := h
  have hstays : ∀ j : CPPSimpleIntegerType, j.isPromoted = true → P = j.type → Q = j.type := by
    rintro j hj rfl
    exact (promoteRule_promoted hj).mp hQ
  rw [candidates, if_neg (by simp [hi])]
  by_cases hb : i = .bool
  · subst hb
    exact ⟨.int, by simp, hstays .int rfl (promoteRule_bool.mp hP)⟩
  rw [if_neg hb]
  by_cases hw : i.isWideChar = true
  · rw [if_pos hw]
    rw [promoteRule_wideChar hw] at hP
    rcases @firstBroader_mem env (.integer i) i.underlyingType.type promotedTypes with ⟨j, hj, heq⟩ | heq
    · have hpromoted : ∀ j ∈ promotedTypes, j.isPromoted = true := by decide
      exact ⟨j, hj, hstays j (hpromoted j hj) (hP.trans heq)⟩
    · -- `char16_t` is not promoted by one step only.
      rw [heq] at hP
      cases i with
      | char16 =>
        subst hP
        rcases promoteRule_small_cases rfl rfl (by decide) hQ with rfl | rfl
        · exact ⟨.int, by decide, rfl⟩
        · exact ⟨.unsigned, by decide, rfl⟩
      | char32 => exact ⟨.unsigned, by decide, hstays .unsigned rfl hP⟩
      | wchar => exact ⟨.int, by decide, hstays .int rfl hP⟩
      | _ => cases hw
  · rw [if_neg hw]
    rcases promoteRule_small_cases hi (Bool.not_eq_true _ ▸ hw) hb hP with h | h
    · exact ⟨.int, by simp, hstays .int rfl h⟩
    · exact ⟨.unsigned, by simp, hstays .unsigned rfl h⟩

/-- An integer type that reaches a type that holds its values is promoted by the standard. -/
theorem exists_isPromotion_integer (h : PromoteTwice env (.t q m (.integer i)) Q)
    (hholds : broaderTypeThan env Q.simpleType (.integer i) = true) : ∃ Q, IsPromotion env (.t q m (.integer i)) Q := by
  cases hi : i.isPromoted with
  | true => exact ⟨_, .promoted hi⟩
  | false =>
    obtain ⟨j, hj, rfl⟩ := mem_candidates_of_promoteTwice hi h
    obtain ⟨k, hk⟩ := firstCandidate_isSome hj hholds
    exact ⟨_, .first hk⟩

/-- **Where promotion is sound.** -/
theorem promotionSound_iff (h : IsIntegral env T) : PromotionSound env T ↔ ∃ Q, IsPromotion env T Q := by
  constructor
  · intro hsound
    obtain ⟨Q, hQ⟩ := hsound.single
    have htwice : PromoteTwice env T Q := (hQ Q).mpr rfl
    have henum : ∀ {q m id UT fixed}, IsEnumType env id UT fixed → T.simpleType = .unscopedEnum id UT fixed ∨
        (∃ n, T.simpleType = .unscopedEnumBitfield id UT fixed n) →
        PromoteTwice env (.t q m (.unscopedEnum id UT fixed)) Q →
        ∃ Q, IsPromotion env (.t q m (.unscopedEnum id UT fixed)) Q := by
      intro q m id UT fixed he hT hQenum
      cases he with
      | declared q' m' i =>
        obtain ⟨P, hP, hPQ⟩ := hQenum
        obtain rfl := promoteRule_enumFixed.mp hP
        have hholds : broaderTypeThan env Q.simpleType (.integer i) = true := by
          have h := hsound.holds Q htwice
          rcases hT with hT | ⟨n, hT⟩ <;> rwa [hT] at h
        have hfixed := (hsound.fixed Q htwice Q).mpr rfl
        obtain ⟨Q', hQ'⟩ := exists_isPromotion_integer ⟨Q, hPQ, hfixed⟩ hholds
        exact ⟨Q', .enumFixed hQ'⟩
      | computed i hi hrange =>
        have hmem : i ∈ candidates (.unscopedEnum id i.type false) := List.mem_append_right _ List.mem_cons_self
        obtain ⟨k, hk⟩ := firstCandidate_isSome hmem hrange
        exact ⟨_, .first hk⟩
    cases h with
    | integer q m i => exact exists_isPromotion_integer htwice (hsound.holds Q htwice)
    | bitfield q m i n hn =>
      cases hfirst : firstCandidate env (.bitfieldType i n) with
      | some j => exact ⟨_, .first hfirst⟩
      | none =>
        by_cases hrank : i.rank < CPPSimpleIntegerType.int.rank
        · -- Two rules: one stays, and one says `unsigned`.
          have hnone : ([.int, .unsigned] : List CPPSimpleIntegerType).find?
              (fun j => broaderTypeThan env (.integer j) (.bitfieldType i n)) = none := hfirst
          have hstay : ∀ q m, PromoteRule env (.t q m (.bitfieldType i n)) (CPPSimpleType.bitfieldType i n).type :=
            fun q m => promoteRule_bitfield.mpr (.inl (firstBroader_of_none hnone).symm)
          have hint : ([.int] : List CPPSimpleIntegerType).find?
              (fun j => broaderTypeThan env (.integer j) (.bitfieldType i n)) = none := by
            rw [List.find?_eq_none] at hnone ⊢
            exact fun j hj => hnone j (List.mem_cons.mpr (.inl (List.mem_singleton.mp hj)))
          have hunsigned : PromoteRule env (.t q m (.bitfieldType i n)) CPPSimpleIntegerType.unsigned.type :=
            promoteRule_bitfield.mpr (.inr ⟨hrank, (firstBroader_of_none hint).symm⟩)
          have heq := (hQ _).mp ⟨_, hstay q m, hstay noQuals ∅⟩
          have heq' := (hQ _).mp ⟨_, hunsigned, (promoteRule_promoted rfl).mpr rfl⟩
          cases heq.trans heq'.symm
        · exact ⟨_, .bitfield hfirst (not_lt.mp hrank)⟩
    | enum q m he => exact henum he (.inl rfl) htwice
    | enumBitfield q m n hn he =>
      obtain ⟨P, hP, hPQ⟩ := htwice
      obtain ⟨Q', hQ'⟩ := henum (q := q) (m := m) he (.inr ⟨n, rfl⟩) ⟨P, promoteRule_enumBitfield.mp hP, hPQ⟩
      exact ⟨Q', .enumBitfield hQ'⟩
  · rintro ⟨Q, hQ⟩
    exact (hQ.spec h).promotionSound

/-- **The function that ranks overloads** takes one of the rules. -/
theorem promoteRule_promote (h : IsIntegral env T) : PromoteRule env T (promote env T) := by
  have henum : ∀ {q m id UT fixed}, PromoteRule env (.t q m (.unscopedEnum id UT fixed)) (promote.promoteEnum env id UT fixed) := by
    intro q m id UT fixed
    cases fixed with
    | true => exact .enumFixed
    | false => exact .enum
  cases h with
  | integer q m i =>
    rw [promote]
    by_cases hb : i = .bool
    · rw [if_pos hb]
      subst hb
      exact .bool
    rw [if_neg hb]
    by_cases hw : i = .char16 ∨ i = .char32 ∨ i = .wchar
    · rw [if_pos hw]
      exact .wideChar (by rcases hw with rfl | rfl | rfl <;> rfl)
    rw [if_neg hw]
    have hwide : i.isWideChar = false := by
      cases i <;> first | rfl | simp at hw
    cases hi : i.isPromoted with
    | true =>
      rw [if_neg (not_lt.mpr (i.rank_of_isPromoted hi))]
      exact (promoteRule_promoted hi).mpr rfl
    | false =>
      rw [if_pos (i.rank_of_small hi hwide)]
      exact (promoteRule_small hi hwide hb).mpr rfl
  | bitfield q m i n hn => exact .bitfield
  | enum q m he => exact henum
  | enumBitfield q m n hn he => exact .unscopedEnumBitfield henum

end Twice

end CSemantics.Cpp
