/-
  The order of the conversion sequences of one argument.

  A standard sequence is a direct binding or a value (`StandardFor`), a user-defined one ends in a standard
  sequence of its own, whose argument the function that converts decides, and a list is as good as its only
  element.  So there is ONE standard sequence to compare in each (`standardOf`), and `>CS` is the order of forms
  and then of these (`gtCS_iff`).

  The conversions of a direct binding are compared by rank alone.  This leaves four strict orders to put together:
  where two disagree is a CLASH, and where none applies to the ends of a chain is a GAP.
-/
import CSemantics.Cpp.Ranking

namespace CSemantics.Cpp

/-! ## Standard sequences -/

/-- The standard sequences of ONE argument, or of an empty list. -/
inductive StandardFor (env : Env) : Option (CPPType × ValueCategory) → Standard → Prop
  | identity {A C b P} (hP : isCPPRefType P = true) (hrelated : IsReferenceRelated env (innerType P) A)
      (hbase : ¬ env.IsProperBaseClassType (innerType P) A) :
      StandardFor env (some (A, C)) ⟨.identity, .identity, .identity, b, P⟩
  | derivedToBase {A C b P} (hP : isCPPRefType P = true) (hrelated : IsReferenceRelated env (innerType P) A)
      (hbase : env.IsProperBaseClassType (innerType P) A) :
      StandardFor env (some (A, C)) ⟨.identity, .derivedToBaseConversion P A, .identity, b, P⟩
  | value {A C P C1 A' C2 C3} (hP : isCPPRefType P = false) (hfirst : firstConversion (utype A) C = some (C1, A'))
      (hsecond : SecondFor env A' C2) (hthird : C3 = .identity ∨ C3 = .qualificationConversion) :
      StandardFor env (some (A, C)) ⟨C1, C2, C3, false, P⟩
  | empty {P} (hP : isCPPRefType P = false) : StandardFor env none ⟨.identity, .identity, .identity, false, P⟩

section Standard

variable {env : Env} {a : Option (CPPType × ValueCategory)} {s t u : Standard}

theorem rank_le (c : Conversion) : c.rank ≤ 3 := by
  cases c <;> simp [Conversion.rank]

theorem SecondFor.rank {A : CPPType} {c : Conversion} (h : SecondFor env A c) : c = .identity ∨ c.rank < 3 := by
  obtain ⟨_, _, _, h⟩ := h
  generalize utype _ = P at h
  cases h with
  | identity h => exact .inl rfl
  | _ => exact .inr (by simp [Conversion.rank])

/-- Only the second conversion has a rank to speak of. -/
structure Ranked (s : Standard) : Prop where
  first : s.C1.rank = 3
  second : s.C2 = .identity ∨ s.C2.rank < 3
  third : s.C3 = .identity ∨ s.C3 = .qualificationConversion

theorem StandardFor.ranked (h : StandardFor env a s) : Ranked s := by
  cases h with
  | identity hP hrelated hbase => exact ⟨rfl, .inl rfl, .inl rfl⟩
  | derivedToBase hP hrelated hbase => exact ⟨rfl, .inr (by simp [Conversion.rank]), .inl rfl⟩
  | value hP hfirst hsecond hthird =>
    refine ⟨?_, hsecond.rank, hthird⟩
    unfold firstConversion at hfirst
    split at hfirst
    · split at hfirst <;> simp at hfirst
      rw [← hfirst.1]
      rfl
    · split at hfirst
      · simp at hfirst
        rw [← hfirst.1]
        rfl
      · split at hfirst <;> · simp at hfirst; rw [← hfirst.1]; rfl
    · split at hfirst
      · simp at hfirst
        rw [← hfirst.1]
        rfl
      · split at hfirst <;> simp at hfirst
        rw [← hfirst.1]
        rfl
  | empty hP => exact ⟨rfl, .inl rfl, .inl rfl⟩

theorem Ranked.rank_eq (h : Ranked s) : s.rank = s.C2.rank := by
  have hthird : s.C3.rank = 3 := by
    rcases h.third with h3 | h3 <;> rw [h3] <;> rfl
  have hle := rank_le s.C2
  rw [Standard.rank, h.first, hthird]
  omega

theorem Ranked.rank_eq_three (h : Ranked s) : s.C2.rank = 3 ↔ s.C2 = .identity := by
  constructor
  · intro hrank
    rcases h.second with h2 | h2
    · exact h2
    · omega
  · intro h2
    rw [h2]
    rfl

/-- With one second conversion: no qualification, or nothing at all. -/
def Less (s t : Standard) : Prop :=
  (s.C3 = .identity ∧ t.C3 ≠ .identity) ∨
    (s.C1 = .identity ∧ s.C2 = .identity ∧ s.C3 = .identity ∧ t.C1 ≠ .identity)

/-- **The rules for subsequences follow the rank** of the second conversion. -/
theorem gtConversions_iff (hs : Ranked s) (ht : Ranked t) :
    GtConversions env s t ↔ t.C2.rank < s.C2.rank ∨ (s.C2 = t.C2 ∧ Less s t) ∨
      (s.C2.rank = t.C2.rank ∧ GtConv env s.C2 t.C2) := by
  have hrank : s.C2 = .identity → t.C2 ≠ .identity → t.C2.rank < s.C2.rank := by
    intro h2 hne
    have h3 := hs.rank_eq_three.mpr h2
    rcases ht.second with ht2 | ht2
    · exact absurd ht2 hne
    · omega
  constructor
  · intro h
    cases h with
    | identity h1 h2 h3 hne =>
      by_cases ht2 : t.C2 = .identity
      · refine .inr (.inl ⟨h2.trans ht2.symm, ?_⟩)
        by_cases ht3 : t.C3 = .identity
        · rcases hne with hne | hne | hne
          · exact .inr ⟨h1, h2, h3, hne⟩
          · exact absurd ht2 hne
          · exact absurd ht3 hne
        · exact .inl ⟨h3, ht3⟩
      · exact .inl (hrank h2 ht2)
    | lvalueTransformation h2 h3 hne =>
      by_cases ht2 : t.C2 = .identity
      · rcases hne with hne | hne
        · exact absurd ht2 hne
        · exact .inr (.inl ⟨h2.trans ht2.symm, .inl ⟨h3, hne⟩⟩)
      · exact .inl (hrank h2 ht2)
    | conversion h2 h3 hne => exact .inl (hrank h2 hne)
    | qualification h2 h3 hne => exact .inr (.inl ⟨h2, .inl ⟨h3, hne⟩⟩)
    | rank h =>
      rw [hs.rank_eq, ht.rank_eq] at h
      rcases h with h | h
      · exact .inl h
      · exact .inr (.inr h)
  · rintro (h | ⟨h2, ⟨h3, hne⟩ | ⟨h1, hs2, h3, hne⟩⟩ | h)
    · exact .rank (.inl (by rw [hs.rank_eq, ht.rank_eq]; exact h))
    · exact .qualification h2 h3 hne
    · exact .identity h1 hs2 h3 (.inl hne)
    · exact .rank (.inr (by rw [hs.rank_eq, ht.rank_eq]; exact h))

/-! ### Functions and classes referred to -/

@[simp] theorem isCPPFunctionType_utype (T : CPPType) : isCPPFunctionType (utype T) = isCPPFunctionType T := by
  cases T
  rfl

theorem isCPPFunctionType_stripType (T : CPPType) : isCPPFunctionType (stripType T) = isCPPFunctionType T := by
  obtain ⟨q, m, st⟩ := T
  cases st <;> rfl

theorem isCPPFunctionType_of_eqType {T1 T2 : CPPType} (h : eqType T1 T2 = true) :
    isCPPFunctionType T1 = isCPPFunctionType T2 := by
  rw [← isCPPFunctionType_stripType T1, ← isCPPFunctionType_stripType T2, eqType_iff.mp h]

theorem isCPPFunctionType_of_isSimilar {T1 T2 : CPPType} (h : isSimilar T1 T2 = true) :
    isCPPFunctionType T1 = isCPPFunctionType T2 := by
  induction T1, T2 using isSimilar.induct with
  | case1 => rfl
  | case2 => rfl
  | case3 => rfl
  | case4 => rfl
  | case5 T1 T2 h1 h2 h3 h4 =>
    rw [isSimilar] at h
    · simpa using isCPPFunctionType_of_eqType h
    · exact h1
    · exact h2
    · exact h3
    · exact h4

theorem exists_class {T : CPPType} (h : T.kind = .classType) : ∃ X, T.simpleType = .classType X := by
  obtain ⟨q, m, st⟩ := T
  cases st with
  | classType X => exact ⟨X, rfl⟩
  | integer i => exact absurd h (i.kind_ne (by decide) (by decide))
  | bitfieldType i n => exact absurd h (i.kind_ne (by decide) (by decide))
  | _ => simp [CPPType.kind, CPPType.simpleType, CPPSimpleType.kind] at h

theorem not_function_of_class {T : CPPType} (h : isCPPClassType T = true) : isCPPFunctionType T = false := by
  obtain ⟨q, m, st⟩ := T
  cases st <;> simp_all [isCPPClassType, isCPPFunctionType, CPPType.simpleType]

theorem IsReferenceRelated.function {T A : CPPType} (h : IsReferenceRelated env T A) :
    isCPPFunctionType T = isCPPFunctionType A := by
  rcases h with hsim | hbase
  · simpa using isCPPFunctionType_of_isSimilar hsim
  · obtain ⟨X, Y, hX, hY, -⟩ := id hbase
    rw [not_function_of_class hbase.isClass, not_function_of_class (isCPPClassType_iff.mpr (kind_eq_of_simpleType hY))]

/-- **A proper base stays one** under another name for its type. -/
theorem IsReferenceRelated.proper {T T' A : CPPType} (hrelated : IsReferenceRelated env T' A)
    (heq : eqType (utype T) (utype T') = true) (hbase : env.IsProperBaseClassType T A) :
    env.IsProperBaseClassType T' A := by
  obtain ⟨qT, mT, stT⟩ := T
  obtain ⟨qT', mT', stT'⟩ := T'
  obtain ⟨qA, mA, stA⟩ := A
  obtain ⟨X, D, hX, hD, hne, hbase⟩ := hbase
  obtain rfl : stT = .classType X := hX
  obtain rfl : stA = .classType D := hD
  -- a class that is the same as the derived class would be its own base
  have hstrip : stripClass X ≠ stripClass D := fun h => hne (Env.eq_of_stripClass hbase h)
  have hT' := eqType_iff.mp heq
  have hkind := kind_eq_of_eqType heq
  rw [kind_utype, kind_utype] at hkind
  obtain ⟨Y, rfl⟩ : ∃ Y, stT' = .classType Y := exists_class hkind.symm
  simp only [utype, stripType, stripSimpleType, CPPType.t.injEq, CPPSimpleType.classType.injEq, true_and] at hT'
  rcases hrelated with hsim | hbase'
  · rw [isSimilar_eq_eqType (by simp [CPPType.kind, CPPType.simpleType, CPPSimpleType.kind, utype])
      (by simp [CPPType.kind, CPPType.simpleType, CPPSimpleType.kind, utype])
      (by simp [CPPType.kind, CPPType.simpleType, CPPSimpleType.kind, utype])] at hsim
    have hD := eqType_iff.mp hsim
    simp only [utype, stripType, stripSimpleType, CPPType.t.injEq, CPPSimpleType.classType.injEq, true_and] at hD
    exact absurd (hT'.trans hD) hstrip
  · obtain ⟨Y', D', hY', hD', hbase'⟩ := hbase'
    obtain rfl : Y = Y' := by injection hY'
    obtain rfl : D = D' := by injection hD'
    refine ⟨Y, D, rfl, rfl, ?_, hbase'⟩
    rintro rfl
    exact hstrip hT'

/-! ### Direct bindings -/

/-- A direct binding. -/
structure Binding (env : Env) (A : CPPType) (s : Standard) : Prop where
  ref : isCPPRefType s.param = true
  related : IsReferenceRelated env (innerType s.param) A
  first : s.C1 = .identity
  second : (s.C2 = .identity ∧ ¬ env.IsProperBaseClassType (innerType s.param) A) ∨
    (s.C2 = .derivedToBaseConversion s.param A ∧ env.IsProperBaseClassType (innerType s.param) A)
  third : s.C3 = .identity

theorem StandardFor.binding (h : StandardFor env a s) (href : isCPPRefType s.param = true) :
    ∃ A C, a = some (A, C) ∧ Binding env A s := by
  cases h with
  | identity hP hrelated hbase => exact ⟨_, _, rfl, hP, hrelated, rfl, .inl ⟨rfl, hbase⟩, rfl⟩
  | derivedToBase hP hrelated hbase => exact ⟨_, _, rfl, hP, hrelated, rfl, .inr ⟨rfl, hbase⟩, rfl⟩
  | value hP _ _ _ => exact absurd href (by simp [hP])
  | empty hP => exact absurd href (by simp [hP])

/-- Two direct bindings of one argument. -/
theorem StandardFor.bindings (hs : StandardFor env a s) (ht : StandardFor env a t) (href : isCPPRefType s.param = true)
    (href' : isCPPRefType t.param = true) : ∃ A, Binding env A s ∧ Binding env A t := by
  obtain ⟨A, C, rfl, hA⟩ := hs.binding href
  obtain ⟨A', C', heq, hA'⟩ := ht.binding href'
  obtain ⟨rfl, rfl⟩ : A = A' ∧ C = C' := by simpa using heq
  exact ⟨A, hA, hA'⟩

/-- The same type, and so the same rank. -/
theorem LessQualifiedReference.rank (h : LessQualifiedReference s t) (hs : StandardFor env a s)
    (ht : StandardFor env a t) : s.C2.rank = t.C2.rank := by
  obtain ⟨A, hA, hA'⟩ := hs.bindings ht h.ref h.ref'
  rcases hA.second with ⟨hs2, hbase⟩ | ⟨hs2, hbase⟩
  · rcases hA'.second with ⟨ht2, hbase'⟩ | ⟨ht2, hbase'⟩
    · rw [hs2, ht2]
    · exact absurd (hA.related.proper (eqType_symm h.same) hbase') hbase
  · rcases hA'.second with ⟨ht2, hbase'⟩ | ⟨ht2, hbase'⟩
    · exact absurd (hA'.related.proper h.same hbase) hbase'
    · rw [hs2, ht2]
      rfl

/-- What is bound is a function for both or for none. -/
theorem StandardFor.function (hs : StandardFor env a s) (ht : StandardFor env a t) (href : isCPPRefType s.param = true)
    (href' : isCPPRefType t.param = true) :
    isCPPFunctionType (innerType s.param) = isCPPFunctionType (innerType t.param) := by
  obtain ⟨A, hA, hA'⟩ := hs.bindings ht href href'
  rw [hA.related.function, hA'.related.function]

/-! ### The conversions of one argument -/

theorem kind_of_ref {T : CPPType} (h : isCPPRefType T = true) : T.kind = .other := by
  obtain ⟨q, m, st⟩ := T
  cases st <;> simp [isCPPRefType, isCPPLVRefType, isCPPRVRefType, CPPType.simpleType] at h <;> rfl

/-- A conversion to a reference is not compared. -/
theorem not_gtConv_ref {P A : CPPType} (hP : isCPPRefType P = true) (c : Conversion) :
    ¬ GtConv env (.derivedToBaseConversion P A) c ∧ ¬ GtConv env c (.derivedToBaseConversion P A) := by
  have hclass : isCPPClassType P ≠ true := by
    rw [Ne, isCPPClassType_iff, kind_of_ref hP]
    decide
  have hvoid : ∀ q m, P ≠ .t q m .void := by
    rintro q m rfl
    exact absurd (kind_of_ref hP) (by simp [CPPType.kind, CPPType.simpleType, CPPSimpleType.kind])
  constructor
  · intro h
    cases h with
    | derivedToBase h =>
      cases h with
      | overVoid hP1 _ _ _ _ _ hbase => injection hP1 with hP1; exact hclass (hP1 ▸ hbase.isClass)
      | toVoid hP1 => injection hP1 with hP1; exact hvoid _ _ hP1
      | nearerBase hP1 _ _ _ _ _ _ _ hbase' => injection hP1 with hP1; exact hclass (hP1 ▸ hbase'.isClass)
      | nearerDerived hP1 _ _ _ _ _ _ hbase => injection hP1 with hP1; exact hclass (hP1 ▸ hbase.isClass)
  · intro h
    cases h with
    | derivedToBase h =>
      cases h with
      | overVoid _ _ hP2 => injection hP2 with hP2; exact hvoid _ _ hP2
      | toVoid _ _ hP2 => injection hP2 with hP2; exact hvoid _ _ hP2
      | nearerBase _ _ hP2 _ _ _ _ hbase => injection hP2 with hP2; exact hclass (hP2 ▸ hbase.isClass)
      | nearerDerived _ _ hP2 _ hA _ _ hbase =>
        injection hP2 with hP2
        have hkind := kind_eq_of_eqType hA
        rw [isCPPClassType_iff.mp hbase.isClass, ← hP2, kind_of_ref hP] at hkind
        exact absurd hkind (by decide)

/-- The argument after the first conversion. -/
def afterFirst (a : Option (CPPType × ValueCategory)) : Option CPPType :=
  a.bind fun (A, C) => (firstConversion (utype A) C).map Prod.snd

/-- Only conversions of one type are compared. -/
theorem StandardFor.secondFor (hs : StandardFor env a s) (ht : StandardFor env a t) (h : GtConv env s.C2 t.C2) :
    ∃ A', afterFirst a = some A' ∧ SecondFor env A' s.C2 ∧ SecondFor env A' t.C2 := by
  cases hs with
  | identity => cases h
  | empty => cases h
  | derivedToBase hP => exact absurd h (not_gtConv_ref hP _).1
  | value hP hfirst hsecond hthird =>
    cases ht with
    | identity => cases h
    | derivedToBase hP' => exact absurd h (not_gtConv_ref hP' _).2
    | value hP' hfirst' hsecond' hthird' =>
      obtain ⟨-, rfl⟩ : _ ∧ _ := by simpa using hfirst.symm.trans hfirst'
      exact ⟨_, by simp [afterFirst, hfirst], hsecond, hsecond'⟩

theorem StandardFor.irrefl (hs : StandardFor env a s) : ¬ GtConv env s.C2 s.C2 := by
  intro h
  obtain ⟨A', -, hA', -⟩ := hs.secondFor hs h
  exact GtConv.irrefl hA' h

theorem GtConversions.rank_le (h : GtConversions env s t) (hs : Ranked s) (ht : Ranked t) : t.C2.rank ≤ s.C2.rank := by
  rcases (gtConversions_iff hs ht).mp h with h | ⟨h, -⟩ | ⟨h, -⟩
  · omega
  · rw [h]
  · omega

theorem GtConversions.clash (hs : StandardFor env a s) (ht : StandardFor env a t) (h : GtConversions env s t)
    (h' : GtConversions env t s) : ConvClash env s.C2 t.C2 := by
  have hle := h.rank_le hs.ranked ht.ranked
  have hle' := h'.rank_le ht.ranked hs.ranked
  rcases (gtConversions_iff hs.ranked ht.ranked).mp h with h | ⟨heq, h⟩ | ⟨-, h⟩
  · omega
  · rcases (gtConversions_iff ht.ranked hs.ranked).mp h' with h' | ⟨-, h'⟩ | ⟨-, h'⟩
    · omega
    · -- the end of a chain of subsequences is no subsequence
      rcases h with ⟨hs3, hne⟩ | ⟨hs1, -, hs3, hne⟩ <;> rcases h' with ⟨ht3, hne'⟩ | ⟨ht1, -, ht3, hne'⟩
      · exact absurd ht3 hne
      · exact absurd ht3 hne
      · exact absurd hs3 hne'
      · exact absurd ht1 hne
    · rw [heq] at h'
      exact absurd h' ht.irrefl
  · rcases (gtConversions_iff ht.ranked hs.ranked).mp h' with h' | ⟨heq, -⟩ | ⟨-, h'⟩
    · omega
    · rw [heq] at h
      exact absurd h hs.irrefl
    · obtain ⟨A', -, hs', ht'⟩ := hs.secondFor ht h
      exact (h.better hs' ht').clash (h'.better ht' hs')

theorem GtConversions.irrefl (hs : StandardFor env a s) : ¬ GtConversions env s s :=
  fun h => hs.irrefl (h.clash hs hs h).gtConv

theorem GtConversions.trans (hs : StandardFor env a s) (ht : StandardFor env a t) (hu : StandardFor env a u)
    (h : GtConversions env s t) (h' : GtConversions env t u) :
    GtConversions env s u ∨ ConvClash env s.C2 t.C2 := by
  have hle := h.rank_le hs.ranked ht.ranked
  have hle' := h'.rank_le ht.ranked hu.ranked
  rw [gtConversions_iff hs.ranked hu.ranked]
  rcases (gtConversions_iff hs.ranked ht.ranked).mp h with h | ⟨heq, h⟩ | ⟨hrank, h⟩
  · exact .inl (.inl (by omega))
  · rcases (gtConversions_iff ht.ranked hu.ranked).mp h' with h' | ⟨heq', h'⟩ | ⟨hrank', h'⟩
    · exact .inl (.inl (by omega))
    · refine .inl (.inr (.inl ⟨heq.trans heq', ?_⟩))
      rcases h with ⟨hs3, hne⟩ | ⟨hs1, hs2, hs3, hne⟩ <;> rcases h' with ⟨ht3, hne'⟩ | ⟨ht1, ht2, ht3, hne'⟩
      · exact absurd ht3 hne
      · exact absurd ht3 hne
      · exact .inl ⟨hs3, hne'⟩
      · exact absurd ht1 hne
    · rw [heq]
      exact .inl (.inr (.inr ⟨hrank', h'⟩))
  · rcases (gtConversions_iff ht.ranked hu.ranked).mp h' with h' | ⟨heq', h'⟩ | ⟨hrank', h'⟩
    · exact .inl (.inl (by omega))
    · rw [← heq']
      exact .inl (.inr (.inr ⟨hrank, h⟩))
    · obtain ⟨A', ha, hs', ht'⟩ := hs.secondFor ht h
      obtain ⟨A'', ha', ht'', hu'⟩ := ht.secondFor hu h'
      obtain rfl : A' = A'' := by simpa [ha] using ha'
      rcases (h.better hs' ht').trans (h'.better ht'' hu') with htrans | hclash
      · exact .inl (.inr (.inr ⟨hrank.trans hrank', htrans.gtConv⟩))
      · exact .inr hclash

/-! ### References and qualifiers -/

theorem Binding.not_gtConv {A : CPPType} (hA : Binding env A s) (c : Conversion) :
    ¬ GtConv env s.C2 c ∧ ¬ GtConv env c s.C2 := by
  rcases hA.second with ⟨h2, -⟩ | ⟨h2, -⟩
  · rw [h2]
    constructor
    · intro h
      cases h
    · intro h
      cases h
  · rw [h2]
    exact not_gtConv_ref hA.ref c

/-- What is better than a direct binding has a better rank. -/
theorem Binding.rank_lt {A : CPPType} (hA : Binding env A t) (hs : StandardFor env a s) (ht : StandardFor env a t)
    (h : GtConversions env s t) : t.C2.rank < s.C2.rank := by
  rcases (gtConversions_iff hs.ranked ht.ranked).mp h with h | ⟨-, ⟨-, hne⟩ | ⟨-, -, -, hne⟩⟩ | ⟨-, h⟩
  · exact h
  · exact absurd hA.third hne
  · exact absurd hA.first hne
  · exact absurd h (hA.not_gtConv _).2

/-- What a direct binding is better than, another of no worse rank is better than too. -/
theorem Binding.gtConversions {A : CPPType} (hA : Binding env A s) (hA' : Binding env A t) (hs : StandardFor env a s)
    (ht : StandardFor env a t) (hu : StandardFor env a u) (hrank : t.C2.rank ≤ s.C2.rank)
    (h : GtConversions env t u) : GtConversions env s u := by
  rw [gtConversions_iff hs.ranked hu.ranked]
  rcases (gtConversions_iff ht.ranked hu.ranked).mp h with h | ⟨heq, hless⟩ | ⟨-, h⟩
  · exact .inl (by omega)
  · rcases hA'.second with ⟨h2, -⟩ | ⟨h2, -⟩
    · have hs2 : s.C2 = .identity := by
        have h3 := ht.ranked.rank_eq_three.mpr h2
        have hle := rank_le s.C2
        exact hs.ranked.rank_eq_three.mp (by omega)
      refine .inr (.inl ⟨hs2.trans (h2.symm.trans heq), ?_⟩)
      rcases hless with ⟨-, hne⟩ | ⟨-, -, -, hne⟩
      · exact .inl ⟨hA.third, hne⟩
      · exact .inr ⟨hA.first, hs2, hA.third, hne⟩
    · -- no other sequence has this second conversion
      exfalso
      rcases hless with ⟨-, hne⟩ | ⟨-, ht2, -⟩
      · cases hu with
        | identity => exact hne rfl
        | derivedToBase => exact hne rfl
        | empty => exact hne rfl
        | value hP hfirst hsecond hthird =>
          dsimp only at heq
          rw [← heq, h2] at hsecond
          have hkind := isCPPClassType_iff.mp hsecond.derivedToBase.2.2.isClass
          rw [kind_of_ref hA'.ref] at hkind
          exact absurd hkind (by decide)
      · rw [h2] at ht2
        injection ht2
  · exact absurd h (hA'.not_gtConv _).1

theorem leQuals_antisymm {q q' : Quals} (h : leQuals q q' = true) (h' : leQuals q' q = true) : q = q' := by
  obtain ⟨c, v, r, b⟩ := q
  obtain ⟨c', v', r', b'⟩ := q'
  revert h h'
  cases c <;> cases c' <;> simp [leQuals] <;> grind

theorem leQuals_trans {q q' q'' : Quals} (h : leQuals q q' = true) (h' : leQuals q' q'' = true) : leQuals q q'' = true := by
  simp only [leQuals, Bool.and_eq_true, Bool.or_eq_true, Bool.not_eq_true'] at *
  grind

theorem GtReferenceKind.refs (h : GtReferenceKind s t) : isCPPRefType s.param = true ∧ isCPPRefType t.param = true := by
  unfold isCPPRefType
  rcases h with h | h
  · simp [h.rvalue, h.lvalue]
  · simp [h.rvalue, h.lvalue]

theorem not_lvRef_and_rvRef (T : CPPType) : ¬ (isCPPLVRefType T = true ∧ isCPPRVRefType T = true) := by
  obtain ⟨q, m, st⟩ := T
  cases st <;> simp [isCPPLVRefType, isCPPRVRefType, CPPType.simpleType]

theorem GtReferenceKind.asymm (h : GtReferenceKind s t) : ¬ GtReferenceKind t s := by
  intro h'
  rcases h with h | h <;> rcases h' with h' | h'
  · exact not_lvRef_and_rvRef _ ⟨h.lvalue, h'.rvalue⟩
  · exact absurd h'.function' (by simp [h.notFunction])
  · exact absurd h.function' (by simp [h'.notFunction])
  · exact not_lvRef_and_rvRef _ ⟨h.lvalue, h'.rvalue⟩

theorem LessQualifiedReference.asymm (h : LessQualifiedReference s t) : ¬ LessQualifiedReference t s :=
  fun h' => h.ne (leQuals_antisymm h.le h'.le)

theorem LessQualifiedReference.trans (h : LessQualifiedReference s t) (h' : LessQualifiedReference t u) :
    LessQualifiedReference s u := by
  refine ⟨h.ref, h'.ref', eqType_trans h.same h'.same, ?_, leQuals_trans h.le h'.le⟩
  intro heq
  exact h.ne (leQuals_antisymm h.le (heq ▸ h'.le))

/-- A sequence with a qualification conversion is not a direct binding. -/
theorem LessQualifiedParam.not_ref (h : LessQualifiedParam s t) (hs : StandardFor env a s) (ht : StandardFor env a t) :
    isCPPRefType s.param = false ∧ isCPPRefType t.param = false := by
  constructor
  · rw [Bool.eq_false_iff]
    intro href
    obtain ⟨A, C, -, hA⟩ := hs.binding href
    exact absurd (hA.third.symm.trans h.qualification) (by decide)
  · rw [Bool.eq_false_iff]
    intro href
    obtain ⟨A, C, -, hA⟩ := ht.binding href
    exact absurd (hA.third.symm.trans h.qualification') (by decide)

/-- It differs from the other in its parameter only. -/
theorem LessQualifiedParam.gtConversions_left (h : LessQualifiedParam s t) (hs : StandardFor env a s)
    (ht : StandardFor env a t) (hu : StandardFor env a u) : GtConversions env s u ↔ GtConversions env t u := by
  rw [gtConversions_iff hs.ranked hu.ranked, gtConversions_iff ht.ranked hu.ranked, Less, Less, h.first, h.second,
    h.qualification, h.qualification']

theorem LessQualifiedParam.gtConversions_right (h : LessQualifiedParam s t) (hs : StandardFor env a s)
    (ht : StandardFor env a t) (hu : StandardFor env a u) : GtConversions env u s ↔ GtConversions env u t := by
  rw [gtConversions_iff hu.ranked hs.ranked, gtConversions_iff hu.ranked ht.ranked, Less, Less, h.first, h.second,
    h.qualification, h.qualification']

/-! ### Clashes and gaps -/

/-- **Two rules disagree** about two sequences. -/
inductive StandardClash (env : Env) (s t : Standard) : Prop
  | rank (h : GtReferenceKind s t) (hrank : s.C2.rank < t.C2.rank)
  | qualifiers (h : GtReferenceKind s t) (h' : LessQualifiedReference t s)
  | conversion (h : ConvClash env s.C2 t.C2)

/-- **No rule applies** to the ends of a chain, of which one is the object of a member function. -/
inductive StandardGap (s t u : Standard) : Prop
  | last (h : BindsRValue s t) (h' : LessQualifiedReference t u) (hflag : u.isNonStaticRefNone = true)
      (hrank : s.C2.rank = u.C2.rank) (hne : ¬ LessQualifiedReference s u)
  | first (h : LessQualifiedReference s t) (h' : BindsRValue t u) (hflag : s.isNonStaticRefNone = true)
      (hrank : s.C2.rank = u.C2.rank) (hne : ¬ LessQualifiedReference s u)

theorem ConvClash.gtConversions (hs : StandardFor env a s) (ht : StandardFor env a t) (h : ConvClash env s.C2 t.C2) :
    GtConversions env s t := by
  rw [gtConversions_iff hs.ranked ht.ranked]
  refine .inr (.inr ⟨?_, h.gtConv⟩)
  generalize s.C2 = c1 at h
  generalize t.C2 = c2 at h
  cases h <;> rfl

/-- A clash is two sequences each better than the other. -/
theorem StandardClash.gtStandard (hs : StandardFor env a s) (ht : StandardFor env a t) (h : StandardClash env s t) :
    GtStandard env s t ∧ GtStandard env t s := by
  cases h with
  | rank h hrank => exact ⟨.referenceKind h, .conversions ((gtConversions_iff ht.ranked hs.ranked).mpr (.inl hrank))⟩
  | qualifiers h h' => exact ⟨.referenceKind h, .lessQualifiedReference h'⟩
  | conversion h => exact ⟨.conversions (h.gtConversions hs ht), .conversions (h.symm.gtConversions ht hs)⟩

theorem GtStandard.clash (hs : StandardFor env a s) (ht : StandardFor env a t) (h : GtStandard env s t)
    (h' : GtStandard env t s) : StandardClash env s t ∨ StandardClash env t s := by
  -- the conversions of two direct bindings are better by their rank
  have hrank : ∀ {s t}, StandardFor env a s → StandardFor env a t → GtConversions env s t →
      isCPPRefType t.param = true → t.C2.rank < s.C2.rank := by
    intro s t hs ht h href
    obtain ⟨A, C, -, hA⟩ := ht.binding href
    exact hA.rank_lt hs ht h
  cases h with
  | conversions h =>
    cases h' with
    | conversions h' => exact .inl (.conversion (h.clash hs ht h'))
    | referenceKind h' => exact .inr (.rank h' (hrank hs ht h h'.refs.1))
    | lessQualifiedParam h' => exact absurd ((h'.gtConversions_right ht hs hs).mp h) (GtConversions.irrefl hs)
    | lessQualifiedReference h' =>
      have hlt := hrank hs ht h h'.ref
      have heq := h'.rank ht hs
      omega
  | referenceKind h =>
    cases h' with
    | conversions h' => exact .inl (.rank h (hrank ht hs h' h.refs.1))
    | referenceKind h' => exact absurd h' h.asymm
    | lessQualifiedParam h' => exact absurd h.refs.1 (by simp [(h'.not_ref ht hs).2])
    | lessQualifiedReference h' => exact .inl (.qualifiers h h')
  | lessQualifiedParam h =>
    cases h' with
    | conversions h' => exact absurd ((h.gtConversions_right hs ht ht).mp h') (GtConversions.irrefl ht)
    | referenceKind h' => exact absurd h'.refs.1 (by simp [(h.not_ref hs ht).2])
    | lessQualifiedParam h' => exact absurd (leQuals_antisymm h.le h'.le) h.ne
    | lessQualifiedReference h' => exact absurd h'.ref (by simp [(h.not_ref hs ht).2])
  | lessQualifiedReference h =>
    cases h' with
    | conversions h' =>
      have hlt := hrank ht hs h' h.ref
      have heq := h.rank hs ht
      omega
    | referenceKind h' => exact .inr (.qualifiers h' h)
    | lessQualifiedParam h' => exact absurd h.ref (by simp [(h'.not_ref ht hs).2])
    | lessQualifiedReference h' => exact absurd h' h.asymm

theorem GtStandard.irrefl (hs : StandardFor env a s) : ¬ GtStandard env s s := by
  intro h
  cases h with
  | conversions h => exact GtConversions.irrefl hs h
  | referenceKind h => exact h.asymm h
  | lessQualifiedParam h => exact h.ne rfl
  | lessQualifiedReference h => exact h.ne rfl

/-- The kind of reference, and then qualifiers: an rvalue reference at the end would be better than the middle. -/
theorem GtReferenceKind.lessQualified (h : GtReferenceKind s t) (h' : LessQualifiedReference t u)
    (hno : ¬ GtReferenceKind u t)
    (hst : isCPPFunctionType (innerType s.param) = isCPPFunctionType (innerType t.param))
    (htu : isCPPFunctionType (innerType t.param) = isCPPFunctionType (innerType u.param))
    (hrank : u.C2.rank ≤ s.C2.rank) :
    GtReferenceKind s u ∨ LessQualifiedReference s u ∨ u.C2.rank < s.C2.rank ∨ StandardGap s t u := by
  rcases h with h | h <;> rcases Bool.or_eq_true_iff.mp h'.ref' with hu | hu
  · cases hflag : u.isNonStaticRefNone with
    | false => exact .inl (.inl ⟨h.notFlag, hflag, h.rvalue, hu, h.notFunction⟩)
    | true =>
      by_cases hless : LessQualifiedReference s u
      · exact .inr (.inl hless)
      · rcases Nat.lt_or_ge u.C2.rank s.C2.rank with hlt | hge
        · exact .inr (.inr (.inl hlt))
        · exact .inr (.inr (.inr (.last h h' hflag (by omega) hless)))
  · cases hflag : u.isNonStaticRefNone with
    | false => exact absurd (.inl ⟨hflag, h.notFlag', hu, h.lvalue, by rw [← htu, ← hst, h.notFunction]⟩) hno
    | true =>
      by_cases hless : LessQualifiedReference s u
      · exact .inr (.inl hless)
      · rcases Nat.lt_or_ge u.C2.rank s.C2.rank with hlt | hge
        · exact .inr (.inr (.inl hlt))
        · exact .inr (.inr (.inr (.last h h' hflag (by omega) hless)))
  · exact absurd (.inr ⟨hu, h.rvalue, by rw [← htu, h.function'], h.function'⟩) hno
  · exact .inl (.inr ⟨h.lvalue, hu, h.function, by rw [← htu, h.function']⟩)

/-- Qualifiers, and then the kind of reference. -/
theorem LessQualifiedReference.referenceKind (h : LessQualifiedReference s t) (h' : GtReferenceKind t u)
    (hno : ¬ GtReferenceKind t s)
    (hst : isCPPFunctionType (innerType s.param) = isCPPFunctionType (innerType t.param))
    (hrank : u.C2.rank ≤ s.C2.rank) :
    GtReferenceKind s u ∨ LessQualifiedReference s u ∨ u.C2.rank < s.C2.rank ∨ StandardGap s t u := by
  rcases h' with h' | h' <;> rcases Bool.or_eq_true_iff.mp h.ref with hs | hs
  · cases hflag : s.isNonStaticRefNone with
    | false => exact absurd (.inl ⟨h'.notFlag, hflag, h'.rvalue, hs, h'.notFunction⟩) hno
    | true =>
      by_cases hless : LessQualifiedReference s u
      · exact .inr (.inl hless)
      · rcases Nat.lt_or_ge u.C2.rank s.C2.rank with hlt | hge
        · exact .inr (.inr (.inl hlt))
        · exact .inr (.inr (.inr (.first h h' hflag (by omega) hless)))
  · cases hflag : s.isNonStaticRefNone with
    | false => exact .inl (.inl ⟨hflag, h'.notFlag', hs, h'.lvalue, by rw [hst, h'.notFunction]⟩)
    | true =>
      by_cases hless : LessQualifiedReference s u
      · exact .inr (.inl hless)
      · rcases Nat.lt_or_ge u.C2.rank s.C2.rank with hlt | hge
        · exact .inr (.inr (.inl hlt))
        · exact .inr (.inr (.inr (.first h h' hflag (by omega) hless)))
  · exact .inl (.inr ⟨hs, h'.rvalue, by rw [hst, h'.function], h'.function'⟩)
  · exact absurd (.inr ⟨h'.lvalue, hs, h'.function, by rw [hst, h'.function]⟩) hno

/-- **The relation is transitive** where no two sequences clash and there is no gap. -/
theorem GtStandard.trans (hs : StandardFor env a s) (ht : StandardFor env a t) (hu : StandardFor env a u)
    (hclash : ∀ x ∈ [s, t, u], ∀ y ∈ [s, t, u], ¬ StandardClash env x y) (h : GtStandard env s t)
    (h' : GtStandard env t u) : GtStandard env s u ∨ StandardGap s t u := by
  have hst : ¬ StandardClash env s t := hclash s (by simp) t (by simp)
  have hts : ¬ StandardClash env t s := hclash t (by simp) s (by simp)
  have htu : ¬ StandardClash env t u := hclash t (by simp) u (by simp)
  have hut : ¬ StandardClash env u t := hclash u (by simp) t (by simp)
  -- a better rank is enough
  have hlt : u.C2.rank < s.C2.rank → GtStandard env s u := fun hlt =>
    .conversions ((gtConversions_iff hs.ranked hu.ranked).mpr (.inl hlt))
  have hright : GtConversions env s t → isCPPRefType t.param = true → u.C2.rank ≤ t.C2.rank → GtStandard env s u := by
    intro h href hle
    obtain ⟨A, C, -, hA⟩ := ht.binding href
    have hrank := hA.rank_lt hs ht h
    exact hlt (by omega)
  have hleft : GtConversions env t u → isCPPRefType s.param = true → isCPPRefType t.param = true →
      t.C2.rank ≤ s.C2.rank → GtStandard env s u := by
    intro h href href' hle
    obtain ⟨A, hA, hA'⟩ := hs.bindings ht href href'
    exact .conversions (hA.gtConversions hA' hs ht hu hle h)
  -- the kind of reference does not decide against the rank
  have hrankle : ∀ {x y}, GtReferenceKind x y → ¬ StandardClash env x y → y.C2.rank ≤ x.C2.rank := by
    intro x y h hno
    by_contra hlt
    exact hno (.rank h (by omega))
  cases h with
  | conversions h =>
    cases h' with
    | conversions h' =>
      rcases GtConversions.trans hs ht hu h h' with htrans | hclash
      · exact .inl (.conversions htrans)
      · exact absurd (.conversion hclash) hst
    | referenceKind h' => exact .inl (hright h h'.refs.1 (hrankle h' htu))
    | lessQualifiedParam h' => exact .inl (.conversions ((h'.gtConversions_right ht hu hs).mp h))
    | lessQualifiedReference h' => exact .inl (hright h h'.ref (h'.rank ht hu).ge)
  | referenceKind h =>
    cases h' with
    | conversions h' => exact .inl (hleft h' h.refs.1 h.refs.2 (hrankle h hst))
    | referenceKind h' =>
      have hfunction := hs.function ht h.refs.1 h.refs.2
      rcases h with h | h <;> rcases h' with h' | h'
      · exact absurd ⟨h.lvalue, h'.rvalue⟩ (not_lvRef_and_rvRef _)
      · exact absurd (hfunction.trans h'.function) (by simp [h.notFunction])
      · exact absurd h.function' (by simp [h'.notFunction])
      · exact absurd ⟨h'.lvalue, h.rvalue⟩ (not_lvRef_and_rvRef _)
    | lessQualifiedParam h' => exact absurd h.refs.2 (by simp [(h'.not_ref ht hu).1])
    | lessQualifiedReference h' =>
      have hle := hrankle h hst
      have heq := h'.rank ht hu
      rcases h.lessQualified h' (fun hkind => hut (.qualifiers hkind h')) (hs.function ht h.refs.1 h.refs.2)
          (ht.function hu h'.ref h'.ref') (by omega) with hgt | hgt | hgt | hgap
      · exact .inl (.referenceKind hgt)
      · exact .inl (.lessQualifiedReference hgt)
      · exact .inl (hlt hgt)
      · exact .inr hgap
  | lessQualifiedParam h =>
    cases h' with
    | conversions h' => exact .inl (.conversions ((h.gtConversions_left hs ht hu).mpr h'))
    | referenceKind h' => exact absurd h'.refs.1 (by simp [(h.not_ref hs ht).2])
    | lessQualifiedParam h' =>
      refine .inl (.lessQualifiedParam ⟨h.first.trans h'.first, h.second.trans h'.second, h.qualification,
        h'.qualification', isSimilar_trans h.similar h'.similar, ?_, leQuals_trans h.le h'.le⟩)
      intro heq
      exact h.ne (leQuals_antisymm h.le (heq ▸ h'.le))
    | lessQualifiedReference h' => exact absurd h'.ref (by simp [(h.not_ref hs ht).2])
  | lessQualifiedReference h =>
    cases h' with
    | conversions h' => exact .inl (hleft h' h.ref h.ref' (h.rank hs ht).ge)
    | referenceKind h' =>
      have hle := hrankle h' htu
      have heq := h.rank hs ht
      rcases h.referenceKind h' (fun hkind => hts (.qualifiers hkind h)) (hs.function ht h.ref h.ref') (by omega)
        with hgt | hgt | hgt | hgap
      · exact .inl (.referenceKind hgt)
      · exact .inl (.lessQualifiedReference hgt)
      · exact .inl (hlt hgt)
      · exact .inr hgap
    | lessQualifiedParam h' => exact absurd h.ref' (by simp [(h'.not_ref ht hu).1])
    | lessQualifiedReference h' => exact .inl (.lessQualifiedReference (h.trans h'))

/-- A gap is a chain whose ends are not compared. -/
theorem StandardGap.not_gtStandard (hs : StandardFor env a s) (ht : StandardFor env a t) (hu : StandardFor env a u)
    (h : StandardGap s t u) : GtStandard env s t ∧ GtStandard env t u ∧ ¬ GtStandard env s u := by
  have hno : isCPPRefType s.param = true → isCPPRefType u.param = true → s.C2.rank = u.C2.rank →
      ¬ GtReferenceKind s u → ¬ LessQualifiedReference s u → ¬ GtStandard env s u := by
    intro href href' hrank hkind hless hgt
    cases hgt with
    | conversions hgt =>
      obtain ⟨A, C, -, hA⟩ := hu.binding href'
      have hlt := hA.rank_lt hs hu hgt
      omega
    | referenceKind hgt => exact hkind hgt
    | lessQualifiedParam hgt => exact absurd href (by simp [(hgt.not_ref hs hu).1])
    | lessQualifiedReference hgt => exact hless hgt
  cases h with
  | last h h' hflag hrank hne =>
    have hrefs := GtReferenceKind.refs (.inl h)
    refine ⟨.referenceKind (.inl h), .lessQualifiedReference h', hno hrefs.1 h'.ref' hrank ?_ hne⟩
    rintro (hgt | hgt)
    · exact absurd hgt.notFlag' (by simp [hflag])
    · exact absurd hgt.function (by simp [h.notFunction])
  | first h h' hflag hrank hne =>
    have hrefs := GtReferenceKind.refs (.inl h')
    refine ⟨.lessQualifiedReference h, .referenceKind (.inl h'), hno h.ref hrefs.2 hrank ?_ hne⟩
    rintro (hgt | hgt)
    · exact absurd hgt.notFlag (by simp [hflag])
    · have hfunction := hs.function ht h.ref h.ref'
      exact absurd (hfunction.symm.trans hgt.function) (by simp [h'.notFunction])

end Standard

/-! ## All sequences -/

/-- The argument of the second standard conversion of a user-defined one. -/
def convertedBy (X : QualId) (T : CPPType) : CPPType × ValueCategory :=
  match X with
  | .constructorId P _ => ((CPPSimpleType.classType P).type, unnamedCat (getReturnType T))
  | .conversionId _ Ret => (Ret, unnamedCat Ret)

/-- The standard sequences among those of an expression that no function converts. -/
def SimpleFor (env : Env) (A : CPPType × ValueCategory) (S : ConversionSequence) : Prop :=
  S = .cannotConvert ∨ ∃ s, StandardFor env (some A) s ∧ S = s.sequence

/-- The expression in a list of one element, of one element. -/
def ArgType.core : ArgType → Option (CPPType × ValueCategory)
  | .exp A C => some (A, C)
  | .initList [a] => a.core
  | .initList _ => none

/-- The sequences of ONE argument. -/
inductive SequenceFor (env : Env) : ArgType → ConversionSequence → Prop
  | cannotConvert {a} : SequenceFor env a .cannotConvert
  | ellipsis {a} : SequenceFor env a .ellipsisConversionSequence
  | ambiguous {a} : SequenceFor env a .ambiguousConversionSequence
  | standard {a s} (h : StandardFor env a.core s) :
      SequenceFor env a (.standardConversionSequence s.C1 s.C2 s.C3 s.isNonStaticRefNone s.param)
  | userDefined {a CS1 X T U} (h : SimpleFor env (convertedBy X T) U) :
      SequenceFor env a (.userDefinedConversionSequence CS1 X T U)
  | initList {P a a' S} (hcore : a'.core = a.core) (hclass : isCPPClassType P = false) (harray : isCPPArrayType P = false)
      (h : SequenceFor env a' S) : SequenceFor env a (.listInitSequence P S)

section Produced

variable {env : OverloadEnv}

theorem BindsDirectlyToExp.related {P A : CPPType} {C : ValueCategory} {b : Bool}
    (h : BindsDirectlyToExp env.toEnv P A C b) : IsReferenceRelated env.toEnv (innerType P) A := by
  have hdirect : ∀ {P}, BindsDirectly env.toEnv P A C → IsReferenceRelated env.toEnv (innerType P) A := by
    intro P h
    cases C with
    | lvalue =>
      rcases h with ⟨-, h⟩ | ⟨-, h, -⟩
      · exact h.1
      · exact h.1
    | xvalue => exact h.1.1
    | prvalue => exact h.2.1.1
  have hconst : IsReferenceRelated env.toEnv (innerType (addConst P)) A → IsReferenceRelated env.toEnv (innerType P) A := by
    unfold addConst
    split
    · exact id
    · exact id
    · exact id
  rcases h with h | ⟨-, -, h⟩
  · exact hdirect h
  · exact hconst (hdirect h)

theorem ComputeSCS.standardFor {P A : CPPType} {C : ValueCategory} {B : Bool} {S : ConversionSequence}
    (hP : isCPPRefType P = false) (h : ComputeSCS env.toEnv (utype P) (utype A) C B S) :
    SimpleFor env.toEnv (A, C) (adjustParamType P S) := by
  unfold ComputeSCS at h
  split at h
  · rename_i C1 A' hfirst
    cases h with
    | owise h => exact .inl rfl
    | rule h =>
      rename_i C2 A2
      unfold computeSCS3
      split
      · exact .inr ⟨⟨C1, C2, .identity, false, P⟩, .value hP hfirst ⟨_, _, _, h⟩ (.inl rfl), rfl⟩
      · split
        · exact .inr ⟨⟨C1, C2, .qualificationConversion, false, P⟩, .value hP hfirst ⟨_, _, _, h⟩ (.inr rfl), rfl⟩
        · exact .inl rfl
  · rw [h]
    exact .inl rfl

theorem SimpleFor.sequenceFor {A : CPPType} {C : ValueCategory} {S : ConversionSequence}
    (h : SimpleFor env.toEnv (A, C) S) : SequenceFor env.toEnv (.exp A C) S := by
  rcases h with rfl | ⟨s, hs, rfl⟩
  · exact .cannotConvert
  · exact .standard hs

/-- **Every sequence has its shape**, when the user-defined ones have theirs. -/
theorem ComputeSequence.sequenceFor {canUDC b implicit : Bool} {P : CPPType} {a : ArgType} {S : ConversionSequence}
    {udc : CPPType → CPPType → ValueCategory → ConversionSequence → Prop}
    (hudc : ∀ {P A C S}, udc P A C S → ∀ A', SequenceFor env.toEnv (.exp A' C) S)
    (h : ComputeSequence env.toEnv canUDC udc P a b implicit S) : SequenceFor env.toEnv a S := by
  induction h with
  | @identity P A C b implicit hP hbinds hbase =>
    exact .standard (a := .exp A C) (.identity hP hbinds.related hbase)
  | @derivedToBase P A C b implicit hP hbinds hbase =>
    exact .standard (a := .exp A C) (.derivedToBase hP hbinds.related hbase)
  | inner hP hbinds hconv hvalid h ih => exact ih
  | invalid => exact .cannotConvert
  | implicitObject => exact .cannotConvert
  | initList hP hclass harray h ih =>
    refine .initList ?_ hclass harray ih
    rw [ArgType.core]
  | initListEmpty hP hclass harray =>
    exact .initList rfl hclass harray (.standard (a := .initList []) (.empty hP))
  | initListMany => exact .cannotConvert
  | value hP hclass h => exact (ComputeSCS.standardFor hP h).sequenceFor
  | owise hvalue hbinds h => exact hudc h _

theorem ComputeStandard.sequenceFor {b implicit : Bool} {P : CPPType} {a : ArgType} {S : ConversionSequence}
    (h : ComputeStandard env.toEnv P a b implicit S) : SequenceFor env.toEnv a S := by
  refine ComputeSequence.sequenceFor ?_ h
  rintro P A C S rfl A'
  exact .cannotConvert

/-- Without user-defined conversions an expression has standard sequences only. -/
theorem ComputeStandard.simpleFor {b implicit : Bool} {P A : CPPType} {C : ValueCategory} {S : ConversionSequence}
    (h : ComputeStandard env.toEnv P (.exp A C) b implicit S) : SimpleFor env.toEnv (A, C) S := by
  unfold ComputeStandard at h
  generalize ha : ArgType.exp A C = a at h
  induction h with
  | identity hP hbinds hbase =>
    cases ha
    exact .inr ⟨_, .identity hP hbinds.related hbase, rfl⟩
  | derivedToBase hP hbinds hbase =>
    cases ha
    exact .inr ⟨_, .derivedToBase hP hbinds.related hbase, rfl⟩
  | inner hP hbinds hconv hvalid h ih => exact ih ha
  | invalid => exact .inl rfl
  | implicitObject => exact .inl rfl
  | initList => cases ha
  | initListEmpty => cases ha
  | initListMany => cases ha
  | value hP hclass h =>
    cases ha
    exact ComputeSCS.standardFor hP h
  | owise hvalue hbinds h => exact .inl h

/-- The functions found resolve to one of them, or to none or many. -/
theorem resolveUDC_cases (Ss : List ConversionSequence) :
    resolveUDC Ss = .cannotConvert ∨ resolveUDC Ss = .ambiguousConversionSequence ∨ resolveUDC Ss ∈ Ss := by
  unfold resolveUDC
  split
  · exact .inl rfl
  · rename_i S heq
    have hmem : S ∈ Ss.filter fun S => !isCannotConvert S := by
      rw [heq]
      exact List.mem_cons_self
    exact .inr (.inr (List.mem_filter.mp hmem).1)
  · exact .inr (.inl rfl)

theorem sequenceFor_resolveUDC {A : CPPType} {C : ValueCategory} {Ss : List ConversionSequence}
    (h : ∀ S ∈ Ss, SequenceFor env.toEnv (.exp A C) S) : SequenceFor env.toEnv (.exp A C) (resolveUDC Ss) := by
  rcases resolveUDC_cases Ss with heq | heq | hmem
  · rw [heq]
    exact .cannotConvert
  · rw [heq]
    exact .ambiguous
  · exact h _ hmem

theorem forall₂_mem {α β : Type} {R : α → β → Prop} {xs : List α} {ys : List β} (h : List.Forall₂ R xs ys) :
    ∀ y ∈ ys, ∃ x, R x y := by
  induction h with
  | nil => simp
  | cons hR _ ih =>
    intro y hy
    rcases List.mem_cons.mp hy with rfl | hy
    · exact ⟨_, hR⟩
    · exact ih y hy

theorem ComputeUDCTo.sequenceFor {P : Class} {A A' : CPPType} {C : ValueCategory} {S : ConversionSequence}
    (h : ComputeUDCTo env P A C S) : SequenceFor env.toEnv (.exp A' C) S := by
  obtain ⟨Ss, hSs, rfl⟩ := h
  refine sequenceFor_resolveUDC ?_
  intro S hS
  obtain ⟨FuncT, Param, CS1, CS2, -, -, h2, rfl⟩ := forall₂_mem hSs S hS
  exact .userDefined (ComputeStandard.simpleFor h2)

theorem ComputeUDCFrom.sequenceFor {P A' : CPPType} {A : Class} {C : ValueCategory} {S : ConversionSequence}
    (h : ComputeUDCFrom env P A C S) : SequenceFor env.toEnv (.exp A' C) S := by
  obtain ⟨Ss, hSs, rfl⟩ := h
  refine sequenceFor_resolveUDC ?_
  intro S hS
  obtain ⟨F, Obj, refNone, CS1, CS2, -, -, h2, rfl⟩ := forall₂_mem hSs S hS
  exact .userDefined (ComputeStandard.simpleFor h2)

theorem ComputeUDC.sequenceFor {P A A' : CPPType} {C : ValueCategory} {S : ConversionSequence}
    (h : ComputeUDC env P A C S) : SequenceFor env.toEnv (.exp A' C) S := by
  cases h with
  | toClass hA h => exact h.sequenceFor
  | fromClass hP h => exact h.sequenceFor
  | both h1 h2 =>
    refine sequenceFor_resolveUDC ?_
    intro S hS
    obtain rfl : S = _ := by simpa using hS
    exact h1.sequenceFor

/-- A sequence for the argument, of some parameter. -/
def Produced (env : OverloadEnv) (a : ArgType) (S : ConversionSequence) : Prop :=
  S = .ellipsisConversionSequence ∨
    ∃ P isNonStaticRefNone isImplicit canUDC, ComputeConversionSequence env P a isNonStaticRefNone isImplicit canUDC S

theorem Produced.sequenceFor {a : ArgType} {S : ConversionSequence} (h : Produced env a S) :
    SequenceFor env.toEnv a S := by
  rcases h with rfl | ⟨P, b, implicit, canUDC, h⟩
  · exact .ellipsis
  · unfold ComputeConversionSequence at h
    split at h
    · exact ComputeSequence.sequenceFor (fun hS A' => ComputeUDC.sequenceFor hS) h
    · exact ComputeStandard.sequenceFor h

end Produced

/-! ### The standard sequence that is compared -/

/-- The standard sequence, and the function that converts before it. -/
def standardOf : ConversionSequence → Option (Option (QualId × CPPType) × Standard)
  | .standardConversionSequence C1 C2 C3 b P => some (none, ⟨C1, C2, C3, b, P⟩)
  | .userDefinedConversionSequence _ X T (.standardConversionSequence C1 C2 C3 b P) =>
    some (some (X, T), ⟨C1, C2, C3, b, P⟩)
  | .listInitSequence _ S => standardOf S
  | _ => none

/-- Converted by the same function, or by none. -/
def SameFunction : Option (QualId × CPPType) → Option (QualId × CPPType) → Prop
  | some (X, T), some (X', T') => X = X' ∧ eqType T T' = true
  | none, none => True
  | _, _ => False

/-- The argument of the standard sequence. -/
def argOf (a : ArgType) : Option (QualId × CPPType) → Option (CPPType × ValueCategory)
  | some (X, T) => some (convertedBy X T)
  | none => a.core

section Comparison

variable {env : Env} {a : ArgType} {x y z : ConversionSequence}

theorem SequenceFor.standardFor (hx : SequenceFor env a x) {k : Option (QualId × CPPType)} {s : Standard}
    (h : standardOf x = some (k, s)) : StandardFor env (argOf a k) s := by
  induction hx with
  | cannotConvert => simp [standardOf] at h
  | ellipsis => simp [standardOf] at h
  | ambiguous => simp [standardOf] at h
  | standard hs =>
    simp only [standardOf, Option.some.injEq, Prod.mk.injEq] at h
    obtain ⟨rfl, rfl⟩ := h
    exact hs
  | userDefined hU =>
    rcases hU with rfl | ⟨s', hs', rfl⟩
    · simp [standardOf] at h
    · simp only [standardOf, Standard.sequence, Option.some.injEq, Prod.mk.injEq] at h
      obtain ⟨rfl, rfl⟩ := h
      exact hs'
  | initList hcore hclass harray hS ih =>
    have hs := ih h
    cases k with
    | none =>
      rw [argOf, ← hcore]
      exact hs
    | some k => exact hs

theorem form_of_standardOf (hx : SequenceFor env a x) {k : Option (QualId × CPPType)} {s : Standard}
    (h : standardOf x = some (k, s)) : form x = some (if k.isSome then 2 else 3) := by
  induction hx with
  | cannotConvert => simp [standardOf] at h
  | ellipsis => simp [standardOf] at h
  | ambiguous => simp [standardOf] at h
  | standard hs =>
    simp only [standardOf, Option.some.injEq, Prod.mk.injEq] at h
    rw [← h.1]
    rfl
  | userDefined hU =>
    rcases hU with rfl | ⟨s', hs', rfl⟩
    · simp [standardOf] at h
    · simp only [standardOf, Standard.sequence, Option.some.injEq, Prod.mk.injEq] at h
      rw [← h.1]
      rfl
  | initList hcore hclass harray hS ih => exact ih h

/-- The forms differ, or the standard sequences after one function are compared. -/
inductive Compared (env : Env) (x y : ConversionSequence) : Prop
  | form {n1 n2} (h1 : form x = some n1) (h2 : form y = some n2) (hlt : n2 < n1)
  | standard {k k' s t} (hx : standardOf x = some (k, s)) (hy : standardOf y = some (k', t)) (hsame : SameFunction k k')
      (h : GtStandard env s t)

theorem not_gtCS_cannotConvert (S : ConversionSequence) :
    ¬ GtCS env .cannotConvert S ∧ ¬ GtCS env S .cannotConvert := by
  constructor
  · intro h
    generalize hx : ConversionSequence.cannotConvert = x at h
    induction h with
    | form h1 => subst hx; cases h1
    | listRight h ih => exact ih hx
    | _ => cases hx
  · intro h
    generalize hx : ConversionSequence.cannotConvert = x at h
    induction h with
    | form h1 h2 => subst hx; cases h2
    | listLeft h ih => exact ih hx
    | _ => cases hx

theorem gtCS_standard {s t : Standard} : GtCS env s.sequence t.sequence ↔ GtStandard env s t := by
  constructor
  · intro h
    unfold Standard.sequence at h
    cases h with
    | form h1 h2 hlt =>
      cases h1
      cases h2
      omega
    | standard h => exact h
  · exact .standard

theorem SequenceFor.initList_inv {P : CPPType} {S : ConversionSequence} (h : SequenceFor env a (.listInitSequence P S)) :
    isCPPClassType P = false ∧ isCPPArrayType P = false ∧ ∃ a', SequenceFor env a' S := by
  cases h with
  | initList hcore hclass harray h => exact ⟨hclass, harray, _, h⟩

theorem Compared.of_gtCS {a' : ArgType} (hx : SequenceFor env a x) (hy : SequenceFor env a' y) (h : GtCS env x y) :
    Compared env x y := by
  induction h generalizing a a' with
  | form h1 h2 hlt => exact .form h1 h2 hlt
  | initializerList h1 h2 =>
    obtain ⟨Ts, hT⟩ := h1
    exact absurd (isCPPClassType_iff.mpr (kind_eq_of_simpleType hT)) (by simp [hx.initList_inv.1])
  | array hlt => exact absurd hx.initList_inv.2.1 (by simp [isCPPArrayType, CPPType.simpleType])
  | listLeft h ih =>
    obtain ⟨-, -, _, hx⟩ := hx.initList_inv
    cases ih hx hy with
    | form h1 h2 hlt => exact .form h1 h2 hlt
    | standard hx hy hsame h => exact .standard hx hy hsame h
  | listRight h ih =>
    obtain ⟨-, -, _, hy⟩ := hy.initList_inv
    cases ih hx hy with
    | form h1 h2 hlt => exact .form h1 h2 hlt
    | standard hx hy hsame h => exact .standard hx hy hsame h
  | standard h => exact .standard rfl rfl trivial h
  | userDefined hT h ih =>
    cases hx with
    | userDefined hU =>
      cases hy with
      | userDefined hU' =>
        rcases hU with rfl | ⟨s, -, rfl⟩
        · exact absurd h (not_gtCS_cannotConvert _).1
        · rcases hU' with rfl | ⟨t, -, rfl⟩
          · exact absurd h (not_gtCS_cannotConvert _).2
          · exact .standard rfl rfl ⟨rfl, hT⟩ (gtCS_standard.mp h)

theorem standardOf_induction {motive : ConversionSequence → Prop} {k : Option (QualId × CPPType)} {s : Standard}
    (hlist : ∀ T S, motive S → motive (.listInitSequence T S)) (hnone : k = none → motive s.sequence)
    (hsome : ∀ CS1 X T, k = some (X, T) → motive (.userDefinedConversionSequence CS1 X T s.sequence)) :
    ∀ x, standardOf x = some (k, s) → motive x := by
  intro x
  induction x with
  | listInitSequence T S ih => exact fun h => hlist T S (ih h)
  | standardConversionSequence C1 C2 C3 b P =>
    intro h
    simp only [standardOf, Option.some.injEq, Prod.mk.injEq] at h
    obtain ⟨rfl, rfl⟩ := h
    exact hnone rfl
  | userDefinedConversionSequence CS1 X T U ih1 ih2 =>
    intro h
    cases U with
    | standardConversionSequence C1 C2 C3 b P =>
      simp only [standardOf, Option.some.injEq, Prod.mk.injEq] at h
      obtain ⟨rfl, rfl⟩ := h
      exact hsome CS1 X T rfl
    | _ => simp [standardOf] at h
  | _ => simp [standardOf]

theorem Compared.gtCS (h : Compared env x y) : GtCS env x y := by
  cases h with
  | form h1 h2 hlt => exact .form h1 h2 hlt
  | standard hx hy hsame h =>
    rename_i k k' s t
    refine standardOf_induction (motive := fun x => GtCS env x y) (fun T S ih => .listLeft ih) ?_ ?_ x hx
    · rintro rfl
      refine standardOf_induction (motive := fun y => GtCS env s.sequence y) (fun T S ih => .listRight ih) ?_ ?_ y hy
      · rintro rfl
        exact gtCS_standard.mpr h
      · rintro CS1 X T rfl
        exact absurd hsame id
    · rintro CS1 X T rfl
      refine standardOf_induction (motive := fun y => GtCS env (.userDefinedConversionSequence CS1 X T s.sequence) y)
        (fun T S ih => .listRight ih) ?_ ?_ y hy
      · rintro rfl
        exact absurd hsame id
      · rintro CS2 X' T' rfl
        obtain ⟨rfl, hT⟩ := hsame
        exact .userDefined hT (gtCS_standard.mpr h)

theorem SameFunction.trans {k k' k'' : Option (QualId × CPPType)} (h : SameFunction k k') (h' : SameFunction k' k'') :
    SameFunction k k'' := by
  match k, k', k'' with
  | none, none, none => trivial
  | some (X, T), some (X', T'), some (X'', T'') => exact ⟨h.1.trans h'.1, eqType_trans h.2 h'.2⟩

theorem SameFunction.symm {k k' : Option (QualId × CPPType)} (h : SameFunction k k') : SameFunction k' k := by
  match k, k' with
  | none, none => trivial
  | some (X, T), some (X', T') => exact ⟨h.1.symm, eqType_symm h.2⟩

theorem SameFunction.refl (k : Option (QualId × CPPType)) : SameFunction k k := by
  match k with
  | none => trivial
  | some (X, T) => exact ⟨rfl, eqType_refl T⟩

theorem unnamedCat_stripType (T : CPPType) : unnamedCat (stripType T) = unnamedCat T := by
  obtain ⟨q, m, st⟩ := T
  cases st with
  | lvRefType T => rfl
  | rvRefType T =>
    obtain ⟨q, m, st⟩ := T
    cases st <;> rfl
  | _ => rfl

theorem getReturnType_stripType (T : CPPType) : getReturnType (stripType T) = stripType (getReturnType T) := by
  obtain ⟨q, m, st⟩ := T
  cases st <;> rfl

/-- One function is given one argument. -/
theorem SameFunction.argOf {k k' : Option (QualId × CPPType)} (h : SameFunction k k') : argOf a k = argOf a k' := by
  match k, k' with
  | none, none => rfl
  | some (X, T), some (X', T') =>
    obtain ⟨rfl, hT⟩ := h
    have hcat : unnamedCat (getReturnType T) = unnamedCat (getReturnType T') := by
      rw [← unnamedCat_stripType, ← getReturnType_stripType, eqType_iff.mp hT, getReturnType_stripType,
        unnamedCat_stripType]
    simp only [CSemantics.Cpp.argOf, convertedBy]
    rw [hcat]

theorem SameFunction.form (hx : SequenceFor env a x) (hy : SequenceFor env a y) {k k' : Option (QualId × CPPType)}
    {s t : Standard} (h : standardOf x = some (k, s)) (h' : standardOf y = some (k', t)) (hsame : SameFunction k k') :
    CSemantics.Cpp.form x = CSemantics.Cpp.form y := by
  rw [form_of_standardOf hx h, form_of_standardOf hy h']
  match k, k' with
  | none, none => rfl
  | some _, some _ => rfl

end Comparison

/-! ## The order -/

/-- **A clash**: the standard sequences, after the same function or none, are each better than the other. -/
def Clash (env : Env) (x y : ConversionSequence) : Prop :=
  ∃ k k' s t, standardOf x = some (k, s) ∧ standardOf y = some (k', t) ∧ SameFunction k k' ∧ StandardClash env s t

/-- **A gap**: of the standard sequences, after the same function or none, the first and the last are not compared. -/
def Gap (x y z : ConversionSequence) : Prop :=
  ∃ k k' k'' s t u, standardOf x = some (k, s) ∧ standardOf y = some (k', t) ∧ standardOf z = some (k'', u) ∧
    SameFunction k k' ∧ SameFunction k' k'' ∧ StandardGap s t u

section Order

variable {env : Env} {a : ArgType} {x y z : ConversionSequence}

theorem gtCS_iff (hx : SequenceFor env a x) (hy : SequenceFor env a y) : GtCS env x y ↔ Compared env x y :=
  ⟨fun h => .of_gtCS hx hy h, fun h => h.gtCS⟩

theorem GtCS.irrefl (hx : SequenceFor env a x) : ¬ GtCS env x x := by
  rw [gtCS_iff hx hx]
  intro h
  cases h with
  | form h1 h2 hlt =>
    obtain rfl := Option.some.inj (h1.symm.trans h2)
    omega
  | standard h1 h2 hsame h =>
    obtain ⟨rfl, rfl⟩ : _ ∧ _ := by simpa using h1.symm.trans h2
    exact GtStandard.irrefl (hx.standardFor h1) h

/-- Better both ways is a clash. -/
theorem GtCS.clash (hx : SequenceFor env a x) (hy : SequenceFor env a y) (h : GtCS env x y) (h' : GtCS env y x) :
    Clash env x y ∨ Clash env y x := by
  rw [gtCS_iff hx hy] at h
  rw [gtCS_iff hy hx] at h'
  cases h with
  | form h1 h2 hlt =>
    cases h' with
    | form h1' h2' hlt' =>
      obtain rfl := Option.some.inj (h1.symm.trans h2')
      obtain rfl := Option.some.inj (h2.symm.trans h1')
      omega
    | standard hy' hx' hsame h' =>
      have hform := SameFunction.form hy hx hy' hx' hsame
      rw [h1, h2] at hform
      obtain rfl := Option.some.inj hform
      omega
  | standard hx' hy' hsame h =>
    have hform := SameFunction.form hx hy hx' hy' hsame
    cases h' with
    | form h1 h2 hlt =>
      rw [h1, h2] at hform
      obtain rfl := Option.some.inj hform
      omega
    | standard hy'' hx'' hsame' h' =>
      obtain ⟨rfl, rfl⟩ : _ ∧ _ := by simpa using hx'.symm.trans hx''
      obtain ⟨rfl, rfl⟩ : _ ∧ _ := by simpa using hy'.symm.trans hy''
      have ht := hy.standardFor hy'
      rw [← hsame.argOf] at ht
      rcases h.clash (hx.standardFor hx') ht h' with hclash | hclash
      · exact .inl ⟨_, _, _, _, hx', hy', hsame, hclash⟩
      · exact .inr ⟨_, _, _, _, hy', hx', hsame.symm, hclash⟩

theorem Clash.gtCS (hx : SequenceFor env a x) (hy : SequenceFor env a y) (h : Clash env x y) :
    GtCS env x y ∧ GtCS env y x := by
  obtain ⟨k, k', s, t, hx', hy', hsame, hclash⟩ := h
  have ht := hy.standardFor hy'
  rw [← hsame.argOf] at ht
  obtain ⟨hst, hts⟩ := hclash.gtStandard (hx.standardFor hx') ht
  exact ⟨Compared.gtCS (.standard hx' hy' hsame hst), Compared.gtCS (.standard hy' hx' hsame.symm hts)⟩

/-- **Transitive**, but for clashes and gaps. -/
theorem GtCS.trans (hx : SequenceFor env a x) (hy : SequenceFor env a y) (hz : SequenceFor env a z)
    (hclash : ∀ v ∈ [x, y, z], ∀ w ∈ [x, y, z], ¬ Clash env v w) (h : GtCS env x y) (h' : GtCS env y z) :
    GtCS env x z ∨ Gap x y z := by
  rw [gtCS_iff hx hy] at h
  rw [gtCS_iff hy hz] at h'
  cases h with
  | form h1 h2 hlt =>
    cases h' with
    | form h1' h2' hlt' =>
      obtain rfl := Option.some.inj (h2.symm.trans h1')
      exact .inl (.form h1 h2' (by omega))
    | standard hy' hz' hsame h' =>
      have hform := SameFunction.form hy hz hy' hz' hsame
      exact .inl (.form h1 (hform.symm.trans h2) hlt)
  | standard hx' hy' hsame h =>
    cases h' with
    | form h1 h2 hlt =>
      have hform := SameFunction.form hx hy hx' hy' hsame
      exact .inl (.form (hform.trans h1) h2 hlt)
    | standard hy'' hz' hsame' h' =>
      obtain ⟨rfl, rfl⟩ : _ ∧ _ := by simpa using hy'.symm.trans hy''
      have hs := hx.standardFor hx'
      have ht := hy.standardFor hy'
      have hu := hz.standardFor hz'
      rw [← hsame.argOf] at ht
      rw [← hsame'.argOf, ← hsame.argOf] at hu
      rename_i k k' s t k'' u
      have hstandard : ∀ v ∈ [s, t, u], ∃ v' ∈ [x, y, z], ∃ kv, standardOf v' = some (kv, v) ∧ SameFunction k kv := by
        simp only [List.mem_cons, List.not_mem_nil, or_false, forall_eq_or_imp, forall_eq]
        exact ⟨⟨x, .inl rfl, _, hx', .refl k⟩, ⟨y, .inr (.inl rfl), _, hy', hsame⟩,
          ⟨z, .inr (.inr rfl), _, hz', hsame.trans hsame'⟩⟩
      have hno : ∀ v ∈ [s, t, u], ∀ w ∈ [s, t, u], ¬ StandardClash env v w := by
        intro v hv w hw hvw
        obtain ⟨v', hv', kv, hkv, hsamev⟩ := hstandard v hv
        obtain ⟨w', hw', kw, hkw, hsamew⟩ := hstandard w hw
        exact hclash v' hv' w' hw' ⟨kv, kw, v, w, hkv, hkw, hsamev.symm.trans hsamew, hvw⟩
      rcases h.trans hs ht hu hno h' with htrans | hgap
      · exact .inl (Compared.gtCS (.standard hx' hz' (hsame.trans hsame') htrans))
      · exact .inr ⟨_, _, _, _, _, _, hx', hy', hz', hsame, hsame', hgap⟩

theorem Gap.not_gtCS (hx : SequenceFor env a x) (hy : SequenceFor env a y) (hz : SequenceFor env a z) (h : Gap x y z) :
    GtCS env x y ∧ GtCS env y z ∧ ¬ GtCS env x z := by
  obtain ⟨k, k', k'', s, t, u, hx', hy', hz', hsame, hsame', hgap⟩ := h
  have hs := hx.standardFor hx'
  have ht := hy.standardFor hy'
  have hu := hz.standardFor hz'
  rw [← hsame.argOf] at ht
  rw [← hsame'.argOf, ← hsame.argOf] at hu
  obtain ⟨hst, htu, hno⟩ := hgap.not_gtStandard hs ht hu
  refine ⟨Compared.gtCS (.standard hx' hy' hsame hst), Compared.gtCS (.standard hy' hz' hsame' htu), ?_⟩
  rw [gtCS_iff hx hz]
  intro h
  cases h with
  | form h1 h2 hlt =>
    have hform := SameFunction.form hx hz hx' hz' (hsame.trans hsame')
    rw [h1, h2] at hform
    obtain rfl := Option.some.inj hform
    omega
  | standard hx'' hz'' _ h =>
    obtain ⟨rfl, rfl⟩ : _ ∧ _ := by simpa using hx'.symm.trans hx''
    obtain ⟨rfl, rfl⟩ : _ ∧ _ := by simpa using hz'.symm.trans hz''
    exact hno h

end Order

/-- **`>CS` is a strict partial order of sequences for one argument** exactly when no two of them clash and no
    three leave a gap. -/
theorem gtCS_strict_iff (env : OverloadEnv) (a : ArgType) (x y z : ConversionSequence) (hx : Produced env a x)
    (hy : Produced env a y) (hz : Produced env a z) :
    ((∀ v ∈ [x, y, z], ¬ GtCS env.toEnv v v) ∧
      (∀ v ∈ [x, y, z], ∀ w ∈ [x, y, z], GtCS env.toEnv v w → ¬ GtCS env.toEnv w v) ∧
      (∀ v ∈ [x, y, z], ∀ w ∈ [x, y, z], ∀ u ∈ [x, y, z], GtCS env.toEnv v w → GtCS env.toEnv w u → GtCS env.toEnv v u)) ↔
    ((∀ v ∈ [x, y, z], ∀ w ∈ [x, y, z], ¬ Clash env.toEnv v w) ∧
      (∀ v ∈ [x, y, z], ∀ w ∈ [x, y, z], ∀ u ∈ [x, y, z], ¬ Gap v w u)) := by
  have hseq : ∀ v ∈ [x, y, z], SequenceFor env.toEnv a v := by
    simp only [List.mem_cons, List.not_mem_nil, or_false, forall_eq_or_imp, forall_eq]
    exact ⟨hx.sequenceFor, hy.sequenceFor, hz.sequenceFor⟩
  constructor
  · rintro ⟨-, hasymm, htrans⟩
    constructor
    · intro v hv w hw hclash
      obtain ⟨hvw, hwv⟩ := hclash.gtCS (hseq v hv) (hseq w hw)
      exact hasymm v hv w hw hvw hwv
    · intro v hv w hw u hu hgap
      obtain ⟨hvw, hwu, hno⟩ := hgap.not_gtCS (hseq v hv) (hseq w hw) (hseq u hu)
      exact hno (htrans v hv w hw u hu hvw hwu)
  · rintro ⟨hclash, hgap⟩
    refine ⟨?_, ?_, ?_⟩
    · intro v hv
      exact GtCS.irrefl (hseq v hv)
    · intro v hv w hw hvw hwv
      rcases hvw.clash (hseq v hv) (hseq w hw) hwv with h | h
      · exact hclash v hv w hw h
      · exact hclash w hw v hv h
    · intro v hv w hw u hu hvw hwu
      have hmem : ∀ v' ∈ [v, w, u], v' ∈ [x, y, z] := by
        simp only [List.mem_cons, List.not_mem_nil, or_false, forall_eq_or_imp, forall_eq] at hv hw hu ⊢
        exact ⟨hv, hw, hu⟩
      have hno : ∀ v' ∈ [v, w, u], ∀ w' ∈ [v, w, u], ¬ Clash env.toEnv v' w' :=
        fun v' hv' w' hw' => hclash v' (hmem v' hv') w' (hmem w' hw')
      rcases GtCS.trans (hseq v hv) (hseq w hw) (hseq u hu) hno hvw hwu with h | h
      · exact h
      · exact absurd h (hgap v hv w hw u hu)

/-! ### A clash -/

/-- `struct B {}; struct D : B {};` -/
def structB : Class := .mk (.namespace []) .Struct (.Identifier "B") .nil

def structD : Class := .mk (.namespace []) .Struct (.Identifier "D") .nil

def envBD : OverloadEnv where
  cfg := x86GccLimitedLibc
  enumRange _ := (0, 0)
  baseClasses C := if C = structD then [structB] else []
  acyclic := by
    intro X Y h
    obtain ⟨Z, hrefl, hX⟩ := Relation.TransGen.tail'_iff.mp h
    have hZ : Z = structD ∧ X = structB := by
      split at hX
      · exact ⟨by assumption, by simpa using hX⟩
      · simp at hX
    obtain ⟨rfl, rfl⟩ := hZ
    rcases Relation.ReflTransGen.cases_tail hrefl with heq | ⟨W, -, hW⟩
    · rw [← heq]
      decide
    · -- nothing is derived from `D`
      split at hW
      · exact absurd (List.mem_singleton.mp hW) (by decide)
      · simp at hW
  constructors _ := []
  conversionFunctions _ := []

def pointerTo (q : Quals) (C : Class) : CPPType := (CPPSimpleType.pointerType (.t q ∅ (.classType C))).type

def constQuals : Quals := ⟨true, false, false, false⟩

/-- The argument of `void f(B *); void f(const B *); D *p; f(p);` -/
def argD : ArgType := .exp (pointerTo noQuals structD) .lvalue

/-- Its sequence for `f(B *)`. -/
def toB : ConversionSequence :=
  .standardConversionSequence .lvalueConversion
    (.pointerConversion (pointerTo noQuals structB) (pointerTo noQuals structD)) .identity false
    (pointerTo noQuals structB)

/-- Its sequence for `f(const B *)`. -/
def toConstB : ConversionSequence :=
  .standardConversionSequence .lvalueConversion
    (.pointerConversion (pointerTo constQuals structB) (pointerTo noQuals structD)) .qualificationConversion false
    (pointerTo constQuals structB)

theorem base_structB (q q' : Quals) :
    envBD.IsBaseClassType (.t q ∅ (.classType structB)) (.t q' ∅ (.classType structD)) :=
  ⟨structB, structD, rfl, rfl, .single (by simp [envBD])⟩

theorem produced_pointerTo (q : Quals) :
    Produced envBD argD (adjustParamType (pointerTo q structB) (computeSCS3 .lvalueConversion
      (.pointerConversion (pointerTo q structB) (pointerTo noQuals structD)) (pointerTo q structB)
      (pointerTo noQuals structB))) := by
  refine .inr ⟨pointerTo q structB, false, false, true, ?_⟩
  show ComputeSequence envBD.toEnv true _ _ (.exp _ .lvalue) false false _
  refine .value rfl (.inl ⟨rfl, rfl⟩) ?_
  show ComputeSCS2 envBD.toEnv .lvalueConversion _ (pointerTo noQuals structD) true _
  exact .rule (.pointerClass (by simp [structB, structD]) (base_structB q noQuals))

theorem produced_toB : Produced envBD argD toB := by
  have h := produced_pointerTo noQuals
  rwa [show adjustParamType _ _ = toB by decide] at h

theorem produced_toConstB : Produced envBD argD toConstB := by
  have h := produced_pointerTo constQuals
  rwa [show adjustParamType _ _ = toConstB by decide] at h

/-- Each is the conversion to the nearer class. -/
theorem convClash_toB :
    ConvClash envBD.toEnv (.pointerConversion (pointerTo noQuals structB) (pointerTo noQuals structD))
      (.pointerConversion (pointerTo constQuals structB) (pointerTo noQuals structD)) :=
  .pointer rfl rfl rfl ⟨by decide, rfl, by decide⟩ (by decide) (by decide) (base_structB _ _)

theorem gtCS_strict_toB :
    ¬ ((∀ v ∈ [toB, toConstB, .ellipsisConversionSequence], ¬ GtCS envBD.toEnv v v) ∧
      (∀ v ∈ [toB, toConstB, .ellipsisConversionSequence], ∀ w ∈ [toB, toConstB, .ellipsisConversionSequence],
        GtCS envBD.toEnv v w → ¬ GtCS envBD.toEnv w v) ∧
      (∀ v ∈ [toB, toConstB, .ellipsisConversionSequence], ∀ w ∈ [toB, toConstB, .ellipsisConversionSequence],
        ∀ u ∈ [toB, toConstB, .ellipsisConversionSequence],
        GtCS envBD.toEnv v w → GtCS envBD.toEnv w u → GtCS envBD.toEnv v u)) := by
  rw [gtCS_strict_iff envBD argD toB toConstB .ellipsisConversionSequence produced_toB produced_toConstB (.inl rfl)]
  rintro ⟨hclash, -⟩
  exact hclash toB (by simp) toConstB (by simp) ⟨none, none, _, _, rfl, rfl, trivial, .conversion convClash_toB⟩

/-- `f(B *)` and `f(const B *)` are each better than the other. -/
theorem gtCS_toB_toConstB :
    Produced envBD argD toB ∧ Produced envBD argD toConstB ∧ GtCS envBD.toEnv toB toConstB ∧
      GtCS envBD.toEnv toConstB toB :=
  ⟨produced_toB, produced_toConstB,
    .standard (.conversions (.rank (.inr ⟨by decide, convClash_toB.gtConv⟩))),
    .standard (.conversions (.rank (.inr ⟨by decide, convClash_toB.symm.gtConv⟩)))⟩

end CSemantics.Cpp
