/-
  Qualification conversions.

  The qualifiers of `const char *const *` are read off level by level, from the outside in.  A conversion may
  add qualifiers below the top, and where it changes a level all levels between the top and that one must
  become `const`.  `<=QualSig` computes this in two passes, the first for the last level that differs.

      T1   int *      *      *             <=QualSig  compares level by level
      T2   int * const*      *
      T3   int * const* const*             cvCombinedType(T1, T2):  const above the difference

  Signatures are sequences of levels, ordered as in `MultiLevel`; the type that two types combine to is their
  least upper bound there (`qualificationConversion`), whichever comes first.
-/
import CSemantics.Cpp.Typing
import CSemantics.Lib.MultiLevel

namespace CSemantics.Cpp

open MultiLevel

/-! ## Combined types -/

/-- `Const()`, as qualifiers. -/
def justConst : Quals := ⟨true, false, false, false⟩

/-- The qualifiers of level `k`: those of both types, and `const` above level `j`. -/
def combinedQuals (j k : Int) (q q' : Quals) : Quals :=
  if k < j then (q.plus q').plus justConst else q.plus q'

/-- `#cvCombinedType(T, L, J, K)`; nothing where no rule applies. -/
def cvCombinedFrom (j : Int) : CPPType → List Quals → Int → Option CPPType
  | .t q m (.pointerType T), q' :: L, k => do
    return .t (combinedQuals j k q q') m (.pointerType (← cvCombinedFrom j T L (k + 1)))
  | .t q m (.memberPointerType C T), q' :: L, k => do
    return .t (combinedQuals j k q q') m (.memberPointerType C (← cvCombinedFrom j T L (k + 1)))
  | .t q m (.arrayType T n), q' :: L, k => do
    return .t (combinedQuals j k q q') m (.arrayType (← cvCombinedFrom j T L (k + 1)) n)
  | .t q m (.incompleteArrayType T), q' :: L, k => do
    return .t (combinedQuals j k q q') m (.incompleteArrayType (← cvCombinedFrom j T L (k + 1)))
  | .t q m st, q' :: _, k => some (.t (combinedQuals j k q q') m st)
  | _, [], _ => none

def cvCombinedType (T1 T2 : CPPType) : Option CPPType := do
  let sig1 := cvQualificationSignature T1
  let sig2 := cvQualificationSignature T2
  return utype (← cvCombinedFrom (getDifferentCVOffset sig1 sig2 0 0) T1 sig2 0)

/-! ## Conversions -/

/-- `T1` converts to `T2`, similar types. -/
def QualConverts (T1 T2 : CPPType) : Prop :=
  isSimilar T1 T2 = true ∧ leQualSig (cvQualificationSignature T1) (cvQualificationSignature T2) = true

/-- The rules of `convertType` for qualification conversions, from `T1` to `T2`.  Pointers to members compare the
    signatures of what they point to. -/
inductive QualificationRule : CPPType → CPPType → Prop
  | pointer {q1 m1 T1 q2 m2 T2} (h : isSimilar (.t q1 m1 (.pointerType T1)) (.t q2 m2 (.pointerType T2)) = true)
      (hle : leQualSig (cvQualificationSignature (.t q1 m1 (.pointerType T1)))
        (cvQualificationSignature (.t q2 m2 (.pointerType T2))) = true) :
      QualificationRule (.t q1 m1 (.pointerType T1)) (.t q2 m2 (.pointerType T2))
  | memberPointer {q1 m1 X1 T1 q2 m2 X2 T2} (hX : eqType X1 X2 = true) (h : isSimilar T1 T2 = true)
      (hle : leQualSig (cvQualificationSignature T1) (cvQualificationSignature T2) = true) :
      QualificationRule (.t q1 m1 (.memberPointerType X1 T1)) (.t q2 m2 (.memberPointerType X2 T2))

/-- Both types convert to `T3`, and `T3` to all that both convert to. -/
def IsLeastConversion (R : CPPType → CPPType → Prop) (T1 T2 T3 : CPPType) : Prop :=
  R T1 T3 ∧ R T2 T3 ∧ ∀ T, R T1 T → R T2 T → R T3 T

/-! ## The order of qualifiers -/

instance : SemilatticeSup Quals where
  le q q' := q.const ≤ q'.const ∧ q.volatile ≤ q'.volatile ∧ q.restrict ≤ q'.restrict ∧ q.atomic ≤ q'.atomic
  le_refl _ := ⟨le_refl _, le_refl _, le_refl _, le_refl _⟩
  le_trans _ _ _ h h' :=
    ⟨h.1.trans h'.1, h.2.1.trans h'.2.1, h.2.2.1.trans h'.2.2.1, h.2.2.2.trans h'.2.2.2⟩
  le_antisymm q q' h h' := by
    cases q
    cases q'
    simp only [Quals.mk.injEq]
    exact ⟨le_antisymm h.1 h'.1, le_antisymm h.2.1 h'.2.1, le_antisymm h.2.2.1 h'.2.2.1,
      le_antisymm h.2.2.2 h'.2.2.2⟩
  sup := Quals.plus
  le_sup_left _ _ := ⟨Bool.left_le_or _ _, Bool.left_le_or _ _, Bool.left_le_or _ _, Bool.left_le_or _ _⟩
  le_sup_right _ _ := ⟨Bool.right_le_or _ _, Bool.right_le_or _ _, Bool.right_le_or _ _, Bool.right_le_or _ _⟩
  sup_le _ _ _ h h' :=
    ⟨Bool.or_le h.1 h'.1, Bool.or_le h.2.1 h'.2.1, Bool.or_le h.2.2.1 h'.2.2.1, Bool.or_le h.2.2.2 h'.2.2.2⟩

theorem sup_eq_plus (q q' : Quals) : q ⊔ q' = q.plus q' := rfl

theorem leQuals_iff {q q' : Quals} : leQuals q q' = true ↔ q ≤ q' := by
  obtain ⟨c, v, r, a⟩ := q
  obtain ⟨c', v', r', a'⟩ := q'
  change _ ↔ c ≤ c' ∧ v ≤ v' ∧ r ≤ r' ∧ a ≤ a'
  revert c v r a c' v' r' a'
  decide

theorem justConst_le_iff {q : Quals} : justConst ≤ q ↔ q.const = true := by
  obtain ⟨c, v, r, a⟩ := q
  change true ≤ c ∧ false ≤ v ∧ false ≤ r ∧ false ≤ a ↔ c = true
  revert c v r a
  decide

/-! ## Signatures level by level -/

/-- A signature as a sequence of levels. -/
def levels (L : List Quals) (k : ℕ) : Quals := L.getD k noQuals

section Signatures

variable {L1 L2 : List Quals} {q q' : Quals} {i k : ℕ} {j : Int}

@[simp] theorem levels_cons_zero (q : Quals) (L : List Quals) : levels (q :: L) 0 = q := rfl

@[simp] theorem levels_cons_succ (q : Quals) (L : List Quals) (k : ℕ) : levels (q :: L) (k + 1) = levels L k := rfl

theorem levels_of_length_le (h : L1.length ≤ k) : levels L1 k = noQuals := by
  rw [levels, List.getD_eq_getElem?_getD, List.getElem?_eq_none h]
  rfl

theorem lt_length_of_levels_ne (hlen : L1.length = L2.length) (h : levels L1 k ≠ levels L2 k) : k < L1.length := by
  by_contra hge
  push Not at hge
  rw [levels_of_length_le hge, levels_of_length_le (hlen ▸ hge)] at h
  exact h rfl

/-- **The first pass** finds the last difference. -/
theorem lt_getDifferentCVOffset_iff (hlen : L1.length = L2.length) {idx res : ℕ} (hres : res ≤ idx) :
    (k : Int) < getDifferentCVOffset L1 L2 idx res ↔ k < res ∨ ∃ j, levels L1 j ≠ levels L2 j ∧ k < idx + j := by
  induction L1 generalizing L2 idx res with
  | nil =>
    obtain rfl := List.length_eq_zero_iff.mp hlen.symm
    rw [getDifferentCVOffset]
    · simp
    · simp
  | cons q1 L1 ih =>
    obtain ⟨q2, L2, rfl⟩ := List.exists_cons_of_length_eq_add_one hlen.symm
    have hlen' : L1.length = L2.length := by simpa using hlen
    rw [getDifferentCVOffset]
    have hsplit : (∃ j, levels (q1 :: L1) j ≠ levels (q2 :: L2) j ∧ k < idx + j) ↔
        (q1 ≠ q2 ∧ k < idx) ∨ ∃ j, levels L1 j ≠ levels L2 j ∧ k < idx + 1 + j := by
      constructor
      · rintro ⟨j, hj, hk⟩
        cases j with
        | zero => exact .inl ⟨hj, hk⟩
        | succ j => exact .inr ⟨j, hj, by omega⟩
      · rintro (⟨hq, hk⟩ | ⟨j, hj, hk⟩)
        · exact ⟨0, hq, hk⟩
        · exact ⟨j + 1, hj, by omega⟩
    rw [hsplit]
    by_cases hq : q1 = q2
    · rw [if_pos hq]
      have h := ih hlen' (show res ≤ idx + 1 by omega)
      push_cast at h
      rw [h]
      simp [hq]
    · rw [if_neg hq]
      have h := ih hlen' (show idx ≤ idx + 1 by omega)
      push_cast at h
      rw [h]
      constructor
      · rintro (hk | hj)
        · exact .inr (.inl ⟨hq, hk⟩)
        · exact .inr (.inr hj)
      · rintro (hk | ⟨-, hk⟩ | hj)
        · exact .inl (by omega)
        · exact .inl hk
        · exact .inr hj

/-- **The second pass** compares, and asks for `const` above level `j`. -/
theorem computeLeQualSig_iff (hlen : L1.length = L2.length) :
    computeLeQualSig L1 L2 j k = true ↔
      ∀ i < L1.length, k + i = 0 ∨
        (levels L1 i ≤ levels L2 i ∧ (j ≤ (k + i : ℕ) ∨ justConst ≤ levels L2 i)) := by
  induction L1 generalizing L2 k with
  | nil =>
    obtain rfl := List.length_eq_zero_iff.mp hlen.symm
    simp [computeLeQualSig]
  | cons q1 L1 ih =>
    obtain ⟨q2, L2, rfl⟩ := List.exists_cons_of_length_eq_add_one hlen.symm
    have h := ih (k := k + 1) (show L1.length = L2.length by simpa using hlen)
    push_cast at h
    rw [computeLeQualSig, Bool.and_eq_true, h]
    have hfirst : ((k : Int) == 0 || (leQuals q1 q2 && (decide (j ≤ (k : Int)) || q2.const))) = true ↔
        k = 0 ∨ (q1 ≤ q2 ∧ (j ≤ (k : Int) ∨ justConst ≤ q2)) := by
      simp [leQuals_iff, justConst_le_iff]
    rw [hfirst]
    constructor
    · rintro ⟨h0, hrest⟩ i hi
      cases i with
      | zero => simpa using h0
      | succ i =>
        have := hrest i (by simpa using hi)
        simp only [levels_cons_succ]
        rw [show k + (i + 1) = k + 1 + i by omega]
        push_cast at this ⊢
        exact this
    · intro hall
      refine ⟨by simpa using hall 0 (by simp), fun i hi => ?_⟩
      have := hall (i + 1) (by simpa using hi)
      simp only [levels_cons_succ] at this
      rw [show k + (i + 1) = k + 1 + i by omega] at this
      push_cast at this ⊢
      exact this

/-- **`<=QualSig`** is the order of levels. -/
theorem leQualSig_iff (hlen : L1.length = L2.length) :
    leQualSig L1 L2 = true ↔ LevelLE justConst (levels L1) (levels L2) := by
  have hoff := fun k => lt_getDifferentCVOffset_iff (k := k) hlen (le_refl 0)
  have hpass := computeLeQualSig_iff (j := getDifferentCVOffset L1 L2 0 0) (k := 0) hlen
  simp only [Nat.cast_zero, Nat.zero_add, Nat.not_lt_zero, false_or] at hoff hpass
  rw [leQualSig, hpass]
  constructor
  · intro h
    constructor
    · intro k hk
      by_cases hkl : k < L1.length
      · obtain h0 | h := h k hkl
        · omega
        · exact h.1
      · rw [levels_of_length_le (by omega), levels_of_length_le (by omega)]
    · intro j k hj hk hkj
      obtain h0 | ⟨-, hbelow | hconst⟩ := h k (hkj.trans (lt_length_of_levels_ne hlen hj))
      · omega
      · have := (hoff k).mpr ⟨j, hj, hkj⟩
        omega
      · exact hconst
  · intro h i _
    by_cases hi : i = 0
    · exact .inl hi
    · refine .inr ⟨h.1 i (by omega), ?_⟩
      by_cases hlast : (i : Int) < getDifferentCVOffset L1 L2 0 0
      · obtain ⟨j, hj, hij⟩ := (hoff i).mp hlast
        exact .inr (h.2 j i hj (by omega) hij)
      · exact .inl (by omega)

end Signatures

/-! ## Similar types -/

theorem isSimilar_refl (T : CPPType) : isSimilar T T = true := isSimilar_of_stripType rfl

theorem isSimilar_symm {T1 T2 : CPPType} (h : isSimilar T1 T2 = true) : isSimilar T2 T1 = true := by
  induction T1, T2 using isSimilar.induct with
  | case1 q1 m1 T1 q2 m2 T2 ih =>
    rw [isSimilar] at h ⊢
    exact ih h
  | case2 q1 m1 C1 T1 q2 m2 C2 T2 ih =>
    rw [isSimilar, Bool.and_eq_true, eqType_iff] at h ⊢
    exact ⟨h.1.symm, ih h.2⟩
  | case3 q1 m1 T1 n1 q2 m2 T2 n2 ih =>
    rw [isSimilar, Bool.and_eq_true, decide_eq_true_eq] at h ⊢
    exact ⟨h.1.symm, ih h.2⟩
  | case4 q1 m1 T1 q2 m2 T2 ih =>
    rw [isSimilar] at h ⊢
    exact ih h
  | case5 T1 T2 h1 h2 h3 h4 =>
    rw [isSimilar] at h
    · have hleaf : isLeaf T2 = true := by
        rw [← isLeaf_stripType_utype, ← eqType_iff.mp h, isLeaf_stripType_utype,
          isLeaf_of_eqType_utype h h1 h2 h3 h4]
      rw [isSimilar_of_isLeaf hleaf, eqType_iff]
      exact (eqType_iff.mp h).symm
    · exact h1
    · exact h2
    · exact h3
    · exact h4

theorem signature_of_isLeaf {T : CPPType} (h : isLeaf T = true) : cvQualificationSignature T = [getQuals T] := by
  obtain ⟨q, m, st⟩ := T
  cases st <;> first | rfl | simp [isLeaf, CPPType.simpleType] at h

/-- Similar types have as many levels. -/
theorem length_signature_of_isSimilar {T1 T2 : CPPType} (h : isSimilar T1 T2 = true) :
    (cvQualificationSignature T1).length = (cvQualificationSignature T2).length := by
  induction T1, T2 using isSimilar.induct with
  | case1 q1 m1 T1 q2 m2 T2 ih =>
    rw [isSimilar] at h
    rw [cvQualificationSignature, cvQualificationSignature, List.length_cons, List.length_cons, ih h]
  | case2 q1 m1 C1 T1 q2 m2 C2 T2 ih =>
    rw [isSimilar, Bool.and_eq_true] at h
    rw [cvQualificationSignature, cvQualificationSignature, List.length_cons, List.length_cons, ih h.2]
  | case3 q1 m1 T1 n1 q2 m2 T2 n2 ih =>
    rw [isSimilar, Bool.and_eq_true] at h
    rw [cvQualificationSignature, cvQualificationSignature, List.length_cons, List.length_cons, ih h.2]
  | case4 q1 m1 T1 q2 m2 T2 ih =>
    rw [isSimilar] at h
    rw [cvQualificationSignature, cvQualificationSignature, List.length_cons, List.length_cons, ih h]
  | case5 T1 T2 h1 h2 h3 h4 =>
    rw [isSimilar] at h
    · have hleaf := isLeaf_of_eqType_utype h h1 h2 h3 h4
      have hleaf' : isLeaf T2 = true := by
        rw [← isLeaf_stripType_utype, ← eqType_iff.mp h, isLeaf_stripType_utype, hleaf]
      rw [signature_of_isLeaf hleaf, signature_of_isLeaf hleaf']
      rfl
    · exact h1
    · exact h2
    · exact h3
    · exact h4

theorem isSimilar_utype (T : CPPType) : isSimilar T (utype T) = true := by
  obtain ⟨q, m, st⟩ := T
  cases st with
  | pointerType T => exact isSimilar_refl T
  | memberPointerType C T =>
    rw [utype, isSimilar, Bool.and_eq_true, eqType_iff]
    exact ⟨rfl, isSimilar_refl T⟩
  | arrayType T n =>
    rw [utype, isSimilar, Bool.and_eq_true, decide_eq_true_eq]
    exact ⟨rfl, isSimilar_refl T⟩
  | incompleteArrayType T => exact isSimilar_refl T
  | _ => exact eqType_iff.mpr rfl

/-! ## The combined type -/

section Combined

variable {j : Int} {k : ℕ} {T1 T2 : CPPType} {L L1 L2 : List Quals}

/-- The signature of a combined type. -/
def combinedSignature (j : Int) : List Quals → List Quals → Int → List Quals
  | q :: L1, q' :: L2, k => combinedQuals j k q q' :: combinedSignature j L1 L2 (k + 1)
  | _, _, _ => []

theorem levels_combinedSignature (hlen : L1.length = L2.length) {i : ℕ} (hi : i < L1.length) :
    levels (combinedSignature j L1 L2 k) i = combinedQuals j (k + i : ℕ) (levels L1 i) (levels L2 i) := by
  induction L1 generalizing L2 i k with
  | nil => cases hi
  | cons q1 L1 ih =>
    obtain ⟨q2, L2, rfl⟩ := List.exists_cons_of_length_eq_add_one hlen.symm
    rw [combinedSignature]
    cases i with
    | zero => rfl
    | succ i =>
      have h := ih (k := k + 1) (show L1.length = L2.length by simpa using hlen) (i := i) (by simpa using hi)
      push_cast at h
      simp only [levels_cons_succ]
      rw [h]
      congr 1
      push_cast
      omega

theorem length_combinedSignature (hlen : L1.length = L2.length) (k : Int) :
    (combinedSignature j L1 L2 k).length = L1.length := by
  induction L1 generalizing L2 k with
  | nil => rfl
  | cons q1 L1 ih =>
    obtain ⟨q2, L2, rfl⟩ := List.exists_cons_of_length_eq_add_one hlen.symm
    rw [combinedSignature, List.length_cons, List.length_cons, ih (by simpa using hlen)]

/-- **Combining** gives a similar type. -/
theorem exists_cvCombinedFrom {T : CPPType} (k : Int) (hlen : (cvQualificationSignature T).length = L.length) :
    ∃ T', cvCombinedFrom j T L k = some T' ∧ isSimilar T T' = true ∧
      cvQualificationSignature T' = combinedSignature j (cvQualificationSignature T) L k := by
  induction T using cvQualificationSignature.induct generalizing L k with
  | case1 q m T ih =>
    rw [cvQualificationSignature] at hlen
    obtain ⟨q', L, rfl⟩ := List.exists_cons_of_length_eq_add_one hlen.symm
    obtain ⟨T', hT', hsim, hsig⟩ := ih (k + 1) (by simpa using hlen)
    refine ⟨.t (combinedQuals j k q q') m (.pointerType T'), ?_, hsim, ?_⟩
    · rw [cvCombinedFrom, hT']
      rfl
    · rw [cvQualificationSignature, hsig, cvQualificationSignature, combinedSignature]
  | case2 q m C T ih =>
    rw [cvQualificationSignature] at hlen
    obtain ⟨q', L, rfl⟩ := List.exists_cons_of_length_eq_add_one hlen.symm
    obtain ⟨T', hT', hsim, hsig⟩ := ih (k + 1) (by simpa using hlen)
    refine ⟨.t (combinedQuals j k q q') m (.memberPointerType C T'), ?_, ?_, ?_⟩
    · rw [cvCombinedFrom, hT']
      rfl
    · rw [isSimilar, Bool.and_eq_true, eqType_iff]
      exact ⟨rfl, hsim⟩
    · rw [cvQualificationSignature, hsig, cvQualificationSignature, combinedSignature]
  | case3 q m T n ih =>
    rw [cvQualificationSignature] at hlen
    obtain ⟨q', L, rfl⟩ := List.exists_cons_of_length_eq_add_one hlen.symm
    obtain ⟨T', hT', hsim, hsig⟩ := ih (k + 1) (by simpa using hlen)
    refine ⟨.t (combinedQuals j k q q') m (.arrayType T' n), ?_, ?_, ?_⟩
    · rw [cvCombinedFrom, hT']
      rfl
    · rw [isSimilar, Bool.and_eq_true, decide_eq_true_eq]
      exact ⟨rfl, hsim⟩
    · rw [cvQualificationSignature, hsig, cvQualificationSignature, combinedSignature]
  | case4 q m T ih =>
    rw [cvQualificationSignature] at hlen
    obtain ⟨q', L, rfl⟩ := List.exists_cons_of_length_eq_add_one hlen.symm
    obtain ⟨T', hT', hsim, hsig⟩ := ih (k + 1) (by simpa using hlen)
    refine ⟨.t (combinedQuals j k q q') m (.incompleteArrayType T'), ?_, hsim, ?_⟩
    · rw [cvCombinedFrom, hT']
      rfl
    · rw [cvQualificationSignature, hsig, cvQualificationSignature, combinedSignature]
  | case5 q m st h1 h2 h3 h4 =>
    have hleaf : isLeaf (.t q m st) = true := by
      cases st with
      | pointerType T => exact absurd rfl (h1 T)
      | memberPointerType C T => exact absurd rfl (h2 C T)
      | arrayType T n => exact absurd rfl (h3 T n)
      | incompleteArrayType T => exact absurd rfl (h4 T)
      | _ => rfl
    rw [signature_of_isLeaf hleaf] at hlen ⊢
    obtain ⟨q', L, rfl⟩ := List.exists_cons_of_length_eq_add_one hlen.symm
    have hleaf' : isLeaf (.t (combinedQuals j k q q') m st) = true := hleaf
    refine ⟨.t (combinedQuals j k q q') m st, ?_, ?_, ?_⟩
    · rw [cvCombinedFrom]
      · exact h1
      · exact h2
      · exact h3
      · exact h4
    · rw [isSimilar_of_isLeaf hleaf]
      exact eqType_iff.mpr rfl
    · rw [signature_of_isLeaf hleaf']
      rfl

theorem combinedQuals_of_lt {j k : Int} (h : k < j) (q q' : Quals) : combinedQuals j k q q' = q ⊔ q' ⊔ justConst := by
  rw [combinedQuals, if_pos h]
  rfl

theorem combinedQuals_of_le {j k : Int} (h : j ≤ k) (q q' : Quals) : combinedQuals j k q q' = q ⊔ q' := by
  rw [combinedQuals, if_neg (not_lt.mpr h)]
  rfl

/-- **The combined type** is the two types joined, level by level. -/
theorem exists_cvCombinedType (h : isSimilar T1 T2 = true) :
    ∃ T3, cvCombinedType T1 T2 = some T3 ∧ isSimilar T1 T3 = true ∧
      Joined justConst (levels (cvQualificationSignature T1)) (levels (cvQualificationSignature T2))
        (levels (cvQualificationSignature T3)) := by
  have hlen := length_signature_of_isSimilar h
  obtain ⟨T3, hT3, hsim, hsig⟩ :=
    exists_cvCombinedFrom (j := getDifferentCVOffset (cvQualificationSignature T1) (cvQualificationSignature T2) 0 0)
      0 hlen
  refine ⟨utype T3, ?_, isSimilar_trans hsim (isSimilar_utype T3), ?_⟩
  · rw [cvCombinedType]
    simp only [hT3]
    rfl
  · intro k hk
    have hbelow : levels (cvQualificationSignature (utype T3)) k = levels (cvQualificationSignature T3) k := by
      obtain ⟨i, rfl⟩ := Nat.exists_eq_succ_of_ne_zero hk.ne'
      obtain ⟨q, m, st⟩ := T3
      rw [utype, cvQualificationSignature_eq, cvQualificationSignature_eq]
      rfl
    have hoff := lt_getDifferentCVOffset_iff (k := k) hlen (le_refl 0)
    simp only [Nat.cast_zero, Nat.not_lt_zero, false_or, Nat.zero_add] at hoff
    rw [hbelow, hsig]
    by_cases hkl : k < (cvQualificationSignature T1).length
    · have hlevel := levels_combinedSignature (k := 0)
        (j := getDifferentCVOffset (cvQualificationSignature T1) (cvQualificationSignature T2) 0 0) hlen hkl
      rw [Nat.cast_zero, Nat.zero_add] at hlevel
      rw [hlevel]
      constructor
      · rintro ⟨j, hj, hne⟩
        exact combinedQuals_of_lt (hoff.mpr ⟨j, hne, hj⟩) _ _
      · intro heq
        refine combinedQuals_of_le ?_ _ _
        by_contra hlt
        push Not at hlt
        obtain ⟨j, hne, hj⟩ := hoff.mp hlt
        exact hne (heq j hj)
    · push Not at hkl
      have hkl2 := hlen.symm.trans_le hkl
      have hkl3 := (length_combinedSignature
        (j := getDifferentCVOffset (cvQualificationSignature T1) (cvQualificationSignature T2) 0 0) hlen 0).trans_le hkl
      rw [levels_of_length_le hkl, levels_of_length_le hkl2, levels_of_length_le hkl3]
      constructor
      · rintro ⟨j, hj, hne⟩
        exact absurd (lt_length_of_levels_ne hlen hne) (by omega)
      · intro _
        rfl

end Combined

/-! ## Least conversions -/

theorem qualConverts_iff {T1 T2 : CPPType} :
    QualConverts T1 T2 ↔ isSimilar T1 T2 = true ∧
      LevelLE justConst (levels (cvQualificationSignature T1)) (levels (cvQualificationSignature T2)) := by
  constructor
  · rintro ⟨h, hle⟩
    exact ⟨h, (leQualSig_iff (length_signature_of_isSimilar h)).mp hle⟩
  · rintro ⟨h, hle⟩
    exact ⟨h, (leQualSig_iff (length_signature_of_isSimilar h)).mpr hle⟩

theorem isLeastConversion_of_joined {T1 T2 T3 : CPPType} (h12 : isSimilar T1 T2 = true) (h13 : isSimilar T1 T3 = true)
    (hjoined : Joined justConst (levels (cvQualificationSignature T1)) (levels (cvQualificationSignature T2))
      (levels (cvQualificationSignature T3))) :
    IsLeastConversion QualConverts T1 T2 T3 := by
  have h23 := isSimilar_trans (isSimilar_symm h12) h13
  refine ⟨qualConverts_iff.mpr ⟨h13, hjoined.left⟩, qualConverts_iff.mpr ⟨h23, hjoined.right⟩, fun T h1 h2 => ?_⟩
  obtain ⟨hsim1, hle1⟩ := qualConverts_iff.mp h1
  obtain ⟨-, hle2⟩ := qualConverts_iff.mp h2
  exact qualConverts_iff.mpr ⟨isSimilar_trans (isSimilar_symm h13) hsim1, hjoined.least hle1 hle2⟩

/-- `convertType` has a rule for these. -/
def CPPType.isQualifiable (T : CPPType) : Bool := isCPPPointerType T || isCPPMemberPointerType T

/-- **The rules** have the same least conversions. -/
theorem isLeastConversion_rule {T1 T2 T3 : CPPType} (hq : T1.isQualifiable = true) (h12 : isSimilar T1 T2 = true)
    (h13 : isSimilar T1 T3 = true)
    (hjoined : Joined justConst (levels (cvQualificationSignature T1)) (levels (cvQualificationSignature T2))
      (levels (cvQualificationSignature T3))) :
    IsLeastConversion QualificationRule T1 T2 T3 := by
  obtain ⟨q1, m1, st⟩ := T1
  cases st with
  | pointerType P1 =>
    obtain ⟨q2, m2, P2, rfl, -⟩ := isSimilar_pointerType h12
    obtain ⟨q3, m3, P3, rfl, -⟩ := isSimilar_pointerType h13
    obtain ⟨⟨hsim1, hle1⟩, ⟨hsim2, hle2⟩, hleast⟩ := isLeastConversion_of_joined h12 h13 hjoined
    refine ⟨.pointer hsim1 hle1, .pointer hsim2 hle2, fun T h1 h2 => ?_⟩
    cases h1 with
    | pointer hsim1 hle1 =>
      cases h2 with
      | pointer hsim2 hle2 =>
        obtain ⟨hsim, hle⟩ := hleast _ ⟨hsim1, hle1⟩ ⟨hsim2, hle2⟩
        exact .pointer hsim hle
  | memberPointerType C1 P1 =>
    obtain ⟨q2, m2, C2, P2, rfl, hC12, hP12⟩ := isSimilar_memberPointerType h12
    obtain ⟨q3, m3, C3, P3, rfl, hC13, hP13⟩ := isSimilar_memberPointerType h13
    -- the rule leaves the first level out, and looks at what the pointers point to
    have hpointees : Joined justConst (levels (cvQualificationSignature P1)) (levels (cvQualificationSignature P2))
        (levels (cvQualificationSignature P3)) := hjoined.tail
    have hC23 : eqType C2 C3 = true :=
      eqType_iff.mpr ((eqType_iff.mp hC12).symm.trans (eqType_iff.mp hC13))
    obtain ⟨⟨hsim1, hle1⟩, ⟨hsim2, hle2⟩, hleast⟩ := isLeastConversion_of_joined hP12 hP13 hpointees
    refine ⟨.memberPointer hC13 hsim1 hle1, .memberPointer hC23 hsim2 hle2, fun T h1 h2 => ?_⟩
    cases h1 with
    | memberPointer hX hsim1 hle1 =>
      cases h2 with
      | memberPointer _ hsim2 hle2 =>
        obtain ⟨hsim, hle⟩ := hleast _ ⟨hsim1, hle1⟩ ⟨hsim2, hle2⟩
        exact .memberPointer (eqType_iff.mpr ((eqType_iff.mp hC13).symm.trans (eqType_iff.mp hX))) hsim hle
  | _ => cases hq

/-- **Qualification conversions.**  `<=QualSig` is a preorder, and the order that allows a conversion; similar
    types form classes; and what two similar types combine to is the least type that both convert to, also by the
    rules of `convertType` where these apply. -/
theorem qualificationConversion :
    (∀ Qs, leQualSig Qs Qs = true) ∧
    (∀ Qs1 Qs2 Qs3, Qs1.length = Qs2.length → Qs2.length = Qs3.length →
      leQualSig Qs1 Qs2 = true → leQualSig Qs2 Qs3 = true → leQualSig Qs1 Qs3 = true) ∧
    (∀ Qs1 Qs2, Qs1.length = Qs2.length →
      (leQualSig Qs1 Qs2 = true ↔ LevelLE justConst (levels Qs1) (levels Qs2))) ∧
    Equivalence (fun T1 T2 => isSimilar T1 T2 = true) ∧
    ∀ T1 T2, isSimilar T1 T2 = true →
      ∃ T3, cvCombinedType T1 T2 = some T3 ∧ IsLeastConversion QualConverts T1 T2 T3 ∧
        (T1.isQualifiable = true → IsLeastConversion QualificationRule T1 T2 T3) ∧
      ∃ T3', cvCombinedType T2 T1 = some T3' ∧ IsLeastConversion QualConverts T1 T2 T3' ∧
        (T1.isQualifiable = true → IsLeastConversion QualificationRule T1 T2 T3') := by
  refine ⟨fun Qs => (leQualSig_iff rfl).mpr (.refl _ _), ?_, fun _ _ hlen => leQualSig_iff hlen,
    ⟨isSimilar_refl, isSimilar_symm, isSimilar_trans⟩, fun T1 T2 h => ?_⟩
  · intro Qs1 Qs2 Qs3 h12 h23 hle hle'
    rw [leQualSig_iff h12] at hle
    rw [leQualSig_iff h23] at hle'
    exact (leQualSig_iff (h12.trans h23)).mpr (hle.trans hle')
  · obtain ⟨T3, hT3, hsim, hjoined⟩ := exists_cvCombinedType h
    obtain ⟨T3', hT3', hsim', hjoined'⟩ := exists_cvCombinedType (isSimilar_symm h)
    have hsim1 := isSimilar_trans h hsim'
    refine ⟨T3, hT3, isLeastConversion_of_joined h hsim hjoined, fun hq => isLeastConversion_rule hq h hsim hjoined,
      T3', hT3', isLeastConversion_of_joined h hsim1 hjoined'.symm,
      fun hq => isLeastConversion_rule hq h hsim1 hjoined'.symm⟩

end CSemantics.Cpp
