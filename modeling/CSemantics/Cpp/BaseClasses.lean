/-
  Base classes, and where their subobjects are.

  `isBaseClassOf` searches the base classes with a stack, and finds a class at any depth.  The offsets are
  collected in two maps: what is PROCESSED, and what is FRESH; any fresh class may be processed next, and its
  direct base classes become fresh.  A class that would then be in the fresh map twice makes it no map at all:

      struct X {};   struct L : X {};   struct R : X {};   struct D : B, L, R {};

  `D` has two subobjects of type `X`, and there is no offset for any of its base classes then, not even for `B`.
-/
import CSemantics.Lib.Inevitable
import CSemantics.Lib.PathSum

namespace CSemantics.Cpp

open CSemantics.PathSum (IsPath UniquePath Unambiguous total)

/-! ## The classes -/

/-- What is read of a class: its direct base classes, and the offsets that its environment has for them. -/
structure BaseInfo (κ : Type) where
  baseClasses : List κ
  cenv : κ → Option Int

/-- The classes of a translation unit, laid out and without virtual base classes. -/
structure BaseTable (κ : Type) where
  getClassInfo : κ → BaseInfo κ
  wf : WellFounded fun B D => B ∈ (getClassInfo D).baseClasses
  nodup : ∀ D, (getClassInfo D).baseClasses.Nodup
  laidOut : ∀ D, ∀ B ∈ (getClassInfo D).baseClasses, ((getClassInfo D).cenv B).isSome

namespace BaseTable

variable {κ : Type} (T : BaseTable κ)

/-- `isDirectBaseClassOf(B, D)` -/
def IsDirectBaseClassOf (B D : κ) : Prop := B ∈ (T.getClassInfo D).baseClasses

/-- The direct base classes with their offsets. -/
def directBases (D : κ) : List (κ × Int) :=
  (T.getClassInfo D).baseClasses.map fun B => (B, ((T.getClassInfo D).cenv B).getD 0)

variable {T} {B D : κ} {o : Int}

theorem map_fst_directBases (D : κ) : (T.directBases D).map Prod.fst = (T.getClassInfo D).baseClasses := by
  simp [directBases, Function.comp_def]

theorem edge_iff : PathSum.Edge T.directBases D B ↔ T.IsDirectBaseClassOf B D := by
  rw [PathSum.Edge, map_fst_directBases, IsDirectBaseClassOf]

theorem wf_directBases (T : BaseTable κ) : WellFounded fun B D => PathSum.Edge T.directBases D B :=
  Subrelation.wf (fun h => edge_iff.mp h) T.wf

variable (T)

/-! ## Is it a base class? -/

/-- The number of paths up from a class. -/
noncomputable def weight (D : κ) : Nat := PathSum.weight T.wf_directBases D

variable {T}

theorem weight_eq (D : κ) : T.weight D = 1 + ((T.getClassInfo D).baseClasses.map T.weight).sum := by
  rw [weight, PathSum.weight_eq, directBases, List.map_map]
  rfl

variable (T)

/-- A class of its own, or a base class at any depth. -/
def IsBaseOrSelf (B D : κ) : Prop := Relation.ReflTransGen (fun D B => T.IsDirectBaseClassOf B D) D B

variable {T}

theorem isBaseOrSelf_iff : T.IsBaseOrSelf B D ↔ ∃ p, IsPath T.directBases D p B := by
  rw [PathSum.exists_isPath_iff, IsBaseOrSelf]
  have hedge : PathSum.Edge T.directBases = fun D B => T.IsDirectBaseClassOf B D := by
    funext D B
    exact propext edge_iff
  rw [hedge]

theorem isBaseOrSelf_iff_of_ne (h : D ≠ B) :
    T.IsBaseOrSelf B D ↔ ∃ C ∈ (T.getClassInfo D).baseClasses, T.IsBaseOrSelf B C := by
  rw [IsBaseOrSelf, Relation.ReflTransGen.cases_head_iff]
  simp only [h, false_or]
  rfl

variable [DecidableEq κ] (T)

/-- `#isBaseClassOf(B, Stack)` -/
def isBaseClassOfAny (B : κ) : List κ → Bool
  | [] => false
  | D :: Ds => if D = B then true else isBaseClassOfAny B ((T.getClassInfo D).baseClasses ++ Ds)
termination_by Ds => (Ds.map T.weight).sum
decreasing_by
  rw [List.map_append, List.sum_append, List.map_cons, List.sum_cons, weight_eq D]
  omega

def isBaseClassOf (B D : κ) : Bool := T.isBaseClassOfAny B [D]

variable {T}

/-- The search finds a class that is a base class of one on the stack. -/
theorem isBaseClassOfAny_iff (B : κ) (Ds : List κ) :
    T.isBaseClassOfAny B Ds = true ↔ ∃ D ∈ Ds, T.IsBaseOrSelf B D := by
  induction Ds using isBaseClassOfAny.induct T B with
  | case1 => simp [isBaseClassOfAny]
  | case2 Ds =>
    rw [isBaseClassOfAny, if_pos rfl]
    exact iff_of_true rfl ⟨B, by simp, .refl⟩
  | case3 D Ds hne ih =>
    rw [isBaseClassOfAny, if_neg hne, ih]
    simp only [List.mem_append, List.mem_cons, or_and_right, exists_or, exists_eq_left, isBaseOrSelf_iff_of_ne hne]

theorem isBaseClassOf_iff (B D : κ) : T.isBaseClassOf B D = true ↔ T.IsBaseOrSelf B D := by
  simp [isBaseClassOf, isBaseClassOfAny_iff]

/-! ## The offsets -/

/-- `#getDirectBaseClassOffsets(M, Bases, CurrentOffset, ClassEnv)` -/
def getDirectBaseClassOffsetsInto (currentOffset : Int) (cenv : κ → Option Int) :
    List (κ × Int) → List κ → Option (List (κ × Int))
  | M, [] => some M
  | M, B :: BCS =>
    match cenv B with
    | some offset =>
      if B ∈ M.map Prod.fst then none
      else getDirectBaseClassOffsetsInto currentOffset cenv (M ++ [(B, currentOffset + offset)]) BCS
    | none => none

def getDirectBaseClassOffsets (currentOffset : Int) (info : BaseInfo κ) : Option (List (κ × Int)) :=
  getDirectBaseClassOffsetsInto currentOffset info.cenv [] info.baseClasses

/-- The two maps of `#getAllBaseClassOffsets2`.  The fresh one is a list of entries, which is a map only if no class
    is in it twice. -/
structure OffsetsState (κ : Type) where
  processed : κ → Option Int
  fresh : List (κ × Int)

variable (T)

/-- A map matches with any of its entries first. -/
inductive OffsetsStep : OffsetsState κ → OffsetsState κ → Prop
  | process {M : κ → Option Int} {l₁ l₂ bases : List (κ × Int)} {D : κ} {currentOffset : Int}
      (hmap : ((l₁ ++ (D, currentOffset) :: l₂).map Prod.fst).Nodup)
      (hbases : getDirectBaseClassOffsets currentOffset (T.getClassInfo D) = some bases) :
      OffsetsStep ⟨M, l₁ ++ (D, currentOffset) :: l₂⟩ ⟨Function.update M D (some currentOffset), l₁ ++ l₂ ++ bases⟩

/-- `getBaseClassOffset(B, D)` is `o`, however the maps are matched. -/
def BaseClassOffset (B D : κ) (o : Int) : Prop :=
  Inevitably T.OffsetsStep (fun s => s.fresh = [] ∧ s.processed B = some o) ⟨fun _ => none, [(D, 0)]⟩

variable {T}

theorem getDirectBaseClassOffsetsInto_eq (o : Int) (cenv : κ → Option Int) (M : List (κ × Int)) (BCS : List κ)
    (hnodup : (M.map Prod.fst ++ BCS).Nodup) (hcenv : ∀ B ∈ BCS, (cenv B).isSome) :
    getDirectBaseClassOffsetsInto o cenv M BCS = some (M ++ BCS.map fun B => (B, o + (cenv B).getD 0)) := by
  induction BCS generalizing M with
  | nil => simp [getDirectBaseClassOffsetsInto]
  | cons B BCS ih =>
    obtain ⟨offset, hB⟩ := Option.isSome_iff_exists.mp (hcenv B (by simp))
    have hnew : B ∉ M.map Prod.fst := fun h => (List.nodup_append.mp hnodup).2.2 B h B (by simp) rfl
    rw [getDirectBaseClassOffsetsInto, hB]
    simp only [if_neg hnew]
    rw [ih (M ++ [(B, o + offset)]) (by simpa using hnodup) fun B' hB' => hcenv B' (by simp [hB'])]
    simp [hB]

/-- The direct base classes, moved by where the class is. -/
theorem getDirectBaseClassOffsets_eq (o : Int) (D : κ) :
    getDirectBaseClassOffsets o (T.getClassInfo D) = some ((T.directBases D).map fun e => (e.1, o + e.2)) := by
  rw [getDirectBaseClassOffsets,
    getDirectBaseClassOffsetsInto_eq o _ [] _ (by simpa using T.nodup D) (T.laidOut D)]
  simp [directBases, Function.comp_def]

/-- The maps after a fresh class is processed, where `rest` is fresh too. -/
def OffsetsState.process (T : BaseTable κ) (s : OffsetsState κ) (D : κ) (o : Int) (rest : List (κ × Int)) :
    OffsetsState κ :=
  ⟨Function.update s.processed D (some o), rest ++ (T.directBases D).map fun e => (e.1, o + e.2)⟩

/-- What a step does: it processes a fresh class. -/
theorem offsetsStep_cases {s t : OffsetsState κ} (h : T.OffsetsStep s t) :
    (s.fresh.map Prod.fst).Nodup ∧ ∃ D o rest, s.fresh.Perm ((D, o) :: rest) ∧ t = s.process T D o rest := by
  cases h with
  | process hmap hbases =>
    rw [getDirectBaseClassOffsets_eq, Option.some.injEq] at hbases
    subst hbases
    exact ⟨hmap, _, _, _, List.perm_middle, rfl⟩

/-- Any fresh class may be processed. -/
theorem exists_offsetsStep {s : OffsetsState κ} (hmap : (s.fresh.map Prod.fst).Nodup) {D : κ} {o : Int}
    (hD : (D, o) ∈ s.fresh) : ∃ rest, s.fresh.Perm ((D, o) :: rest) ∧ T.OffsetsStep s (s.process T D o rest) := by
  obtain ⟨M, fresh⟩ := s
  obtain ⟨l₁, l₂, rfl⟩ := List.append_of_mem hD
  exact ⟨l₁ ++ l₂, List.perm_middle, .process hmap (getDirectBaseClassOffsets_eq o D)⟩

/-! ## One path to each class -/

/-- What holds of the two maps when there is one path from `D` to each of its base classes. -/
structure OffsetsInv (T : BaseTable κ) (D : κ) (s : OffsetsState κ) : Prop where
  nodup : (s.fresh.map Prod.fst).Nodup
  /-- An entry has the length of a path, and the class before it on the path is processed. -/
  seen : ∀ C o, s.processed C = some o ∨ (C, o) ∈ s.fresh → ∃ p, IsPath T.directBases D p C ∧ total p = o ∧
    ∀ q e B, p = q ++ [e] → IsPath T.directBases D q B → (s.processed B).isSome
  disjoint : ∀ e ∈ s.fresh, s.processed e.1 = none
  closed : ∀ C, (s.processed C).isSome → ∀ e ∈ T.directBases C, (s.processed e.1).isSome ∨ e.1 ∈ s.fresh.map Prod.fst
  root : (s.processed D).isSome ∨ D ∈ s.fresh.map Prod.fst

omit [DecidableEq κ] in
theorem offsetsInv_start (D : κ) : OffsetsInv T D ⟨fun _ => none, [(D, 0)]⟩ where
  nodup := by simp
  seen := by
    intro C o h
    obtain ⟨rfl, rfl⟩ : C = D ∧ o = 0 := by simpa using h
    exact ⟨[], rfl, rfl, fun q e B h => by simp at h⟩
  disjoint := by simp
  closed := by simp
  root := by simp

omit [DecidableEq κ] in
/-- A class whose direct base classes become fresh: they were not seen before. -/
theorem OffsetsInv.unseen {s : OffsetsState κ} (hs : OffsetsInv T D s) (hu : Unambiguous T.directBases D) {C : κ}
    {o : Int} (hC : (C, o) ∈ s.fresh) {e : κ × Int} (he : e ∈ T.directBases C) :
    s.processed e.1 = none ∧ e.1 ∉ s.fresh.map Prod.fst := by
  obtain ⟨p, hp, -, -⟩ := hs.seen C o (.inr hC)
  have hlast : IsPath T.directBases D (p ++ [e]) e.1 := PathSum.isPath_append.mpr ⟨C, hp, he, rfl⟩
  -- the only path to it leads through `C`, which is not processed yet
  have hfalse : ∀ o', s.processed e.1 = some o' ∨ (e.1, o') ∈ s.fresh → False := by
    intro o' h
    obtain ⟨p', hp', -, hparent⟩ := hs.seen e.1 o' h
    have hprocessed := hparent p e C (hu _ _ _ hp' hlast) hp
    rw [hs.disjoint _ hC] at hprocessed
    cases hprocessed
  constructor
  · cases h : s.processed e.1 with
    | none => rfl
    | some o' => exact (hfalse o' (.inl h)).elim
  · intro h
    obtain ⟨⟨C', o'⟩, he', rfl⟩ := List.mem_map.mp h
    exact hfalse o' (.inr he')

theorem isSome_process (s : OffsetsState κ) (C : κ) (o : Int) (rest : List (κ × Int)) {B : κ}
    (hB : (s.processed B).isSome) : ((s.process T C o rest).processed B).isSome := by
  by_cases hBC : B = C
  · simp [OffsetsState.process, hBC]
  · simpa only [OffsetsState.process, Function.update_of_ne hBC] using hB

/-- What is fresh is processed, or stays fresh. -/
theorem isSome_process_or_fresh {s : OffsetsState κ} {C : κ} {o : Int} {rest : List (κ × Int)}
    (hperm : s.fresh.Perm ((C, o) :: rest)) {B : κ} (hB : B ∈ s.fresh.map Prod.fst) :
    ((s.process T C o rest).processed B).isSome ∨ B ∈ (s.process T C o rest).fresh.map Prod.fst := by
  rw [(hperm.map Prod.fst).mem_iff, List.map_cons, List.mem_cons] at hB
  rcases hB with rfl | hB
  · exact .inl (by simp [OffsetsState.process])
  · refine .inr ?_
    rw [OffsetsState.process, List.map_append, List.mem_append]
    exact .inl hB

theorem OffsetsInv.process {s : OffsetsState κ} (hs : OffsetsInv T D s) (hu : Unambiguous T.directBases D) {C : κ}
    {o : Int} {rest : List (κ × Int)} (hperm : s.fresh.Perm ((C, o) :: rest)) : OffsetsInv T D (s.process T C o rest) := by
  have hC : (C, o) ∈ s.fresh := hperm.mem_iff.mpr (by simp)
  have hmem : ∀ e ∈ rest, e ∈ s.fresh := fun e he => hperm.mem_iff.mpr (by simp [he])
  have hkeys := (hperm.map Prod.fst).nodup_iff.mp hs.nodup
  rw [List.map_cons, List.nodup_cons] at hkeys
  obtain ⟨p, hp, hlen, hparent⟩ := hs.seen C o (.inr hC)
  refine ⟨?nodup, ?seen, ?disjoint, ?closed, ?root⟩
  case nodup =>
    simp only [OffsetsState.process, List.map_append, List.map_map, Function.comp_def]
    refine List.nodup_append.mpr ⟨hkeys.2, ?_, ?_⟩
    · exact map_fst_directBases C ▸ T.nodup C
    · -- a direct base class was not fresh before
      rintro B hB _ hB' rfl
      obtain ⟨e, he, rfl⟩ := List.mem_map.mp hB'
      obtain ⟨e', he', heq⟩ := List.mem_map.mp hB
      exact (hs.unseen hu hC he).2 (heq ▸ List.mem_map_of_mem (hmem e' he'))
  case seen =>
    have hold : ∀ B o', s.processed B = some o' ∨ (B, o') ∈ s.fresh → ∃ p, IsPath T.directBases D p B ∧ total p = o' ∧
        ∀ q e B', p = q ++ [e] → IsPath T.directBases D q B' →
          ((s.process T C o rest).processed B').isSome := by
      intro B o' h
      obtain ⟨p, hp, hlen, hparent⟩ := hs.seen B o' h
      exact ⟨p, hp, hlen, fun q e B' hq hB' => isSome_process s C o rest (hparent q e B' hq hB')⟩
    intro B o' h
    simp only [OffsetsState.process, List.mem_append, List.mem_map] at h
    rcases h with h | h | ⟨e, he, heq⟩
    · by_cases hBC : B = C
      · subst hBC
        rw [Function.update_self, Option.some.injEq] at h
        exact hold B o' (.inr (h ▸ hC))
      · rw [Function.update_of_ne hBC] at h
        exact hold B o' (.inl h)
    · exact hold B o' (.inr (hmem _ h))
    · -- a direct base class of `C`
      obtain ⟨rfl, rfl⟩ := Prod.mk.inj heq
      refine ⟨p ++ [e], PathSum.isPath_append.mpr ⟨C, hp, he, rfl⟩, by simp [hlen], ?_⟩
      intro q e' B' hq hB'
      obtain ⟨rfl, -⟩ := List.append_inj' hq rfl
      obtain rfl := hp.end_eq hB'
      simp [OffsetsState.process]
  case disjoint =>
    intro e he
    simp only [OffsetsState.process, List.mem_append, List.mem_map] at he ⊢
    have hne : e.1 ≠ C ∧ s.processed e.1 = none := by
      rcases he with he | ⟨e', he', rfl⟩
      · exact ⟨fun h => hkeys.1 (List.mem_map.mpr ⟨e, he, h⟩), hs.disjoint e (hmem e he)⟩
      · refine ⟨fun h => (hs.unseen hu hC he').2 (h ▸ List.mem_map_of_mem hC), (hs.unseen hu hC he').1⟩
    rw [Function.update_of_ne hne.1, hne.2]
  case closed =>
    intro B hB e he
    by_cases hBC : B = C
    · subst hBC
      refine .inr ?_
      simp only [OffsetsState.process, List.map_append, List.mem_append, List.map_map, Function.comp_def]
      exact .inr (List.mem_map_of_mem he)
    · simp only [OffsetsState.process, Function.update_of_ne hBC] at hB
      rcases hs.closed B hB e he with h | h
      · exact .inl (isSome_process s C o rest h)
      · exact isSome_process_or_fresh hperm h
  case root =>
    rcases hs.root with h | h
    · exact .inl (isSome_process s C o rest h)
    · exact isSome_process_or_fresh hperm h

/-- The weight of what is fresh becomes smaller. -/
theorem sum_weight_process (s : OffsetsState κ) {C : κ} {o : Int} {rest : List (κ × Int)}
    (hperm : s.fresh.Perm ((C, o) :: rest)) :
    ((s.process T C o rest).fresh.map fun e => T.weight e.1).sum < (s.fresh.map fun e => T.weight e.1).sum := by
  rw [(hperm.map fun e => T.weight e.1).sum_eq]
  simp only [OffsetsState.process, List.map_append, List.sum_append, List.map_cons, List.sum_cons, weight_eq C,
    ← map_fst_directBases C, List.map_map, Function.comp_def]
  omega

/-- **With one path to each base class**, the offsets are the lengths of the paths. -/
theorem baseClassOffset_of_path (hu : Unambiguous T.directBases D) {p : List (κ × Int)}
    (hp : IsPath T.directBases D p B) : T.BaseClassOffset B D (total p) := by
  refine Inevitably.of_index
    (fun n s => OffsetsInv T D s ∧ (s.fresh.map fun e => T.weight e.1).sum = n) ?_ ⟨offsetsInv_start D, rfl⟩
  rintro n s ⟨hs, rfl⟩
  rcases List.eq_nil_or_concat s.fresh with hnil | ⟨init, ⟨C, o⟩, hfresh⟩
  · -- what is processed is closed, so `B` is in it, and no other path leads there
    refine .inl ⟨hnil, ?_⟩
    have hall : ∀ q C, IsPath T.directBases D q C → (s.processed C).isSome := by
      intro q
      induction q using List.reverseRecOn with
      | nil =>
        rintro C rfl
        simpa [hnil] using hs.root
      | append_singleton q e ih =>
        intro C hC
        obtain ⟨C', hq, he, rfl⟩ := PathSum.isPath_append.mp hC
        simpa [hnil] using hs.closed C' (ih C' hq) e he
    obtain ⟨o, ho⟩ := Option.isSome_iff_exists.mp (hall p B hp)
    obtain ⟨q, hq, hlen, -⟩ := hs.seen B o (.inl ho)
    rw [ho, ← hlen, hu B q p hq hp]
  · refine .inr ⟨?_, ?_⟩
    · obtain ⟨rest, -, hstep⟩ := exists_offsetsStep hs.nodup (D := C) (o := o) (by simp [hfresh])
      exact ⟨_, hstep⟩
    · intro t ht
      obtain ⟨-, C, o, rest, hperm, rfl⟩ := offsetsStep_cases ht
      exact ⟨_, sum_weight_process s hperm, hs.process hu hperm, rfl⟩

/-! ## Two paths to a class -/

/-- Two fresh classes, or one, from which two paths lead to `X`. -/
def Forked (T : BaseTable κ) (X : κ) (s : OffsetsState κ) : Prop :=
  ∃ C₁ o₁ C₂ o₂ p₁ p₂, (C₁, o₁) ∈ s.fresh ∧ (C₂, o₂) ∈ s.fresh ∧ IsPath T.directBases C₁ p₁ X ∧
    IsPath T.directBases C₂ p₂ X ∧ (C₁, p₁) ≠ (C₂, p₂)

omit [DecidableEq κ] in
theorem Forked.symm {X : κ} {s : OffsetsState κ} (h : Forked T X s) :
    ∃ C₁ o₁ C₂ o₂ p₁ p₂, C₁ ≠ X ∧ (C₁, o₁) ∈ s.fresh ∧ (C₂, o₂) ∈ s.fresh ∧ IsPath T.directBases C₁ p₁ X ∧
      IsPath T.directBases C₂ p₂ X ∧ (C₁, p₁) ≠ (C₂, p₂) := by
  obtain ⟨C₁, o₁, C₂, o₂, p₁, p₂, h₁, h₂, hp₁, hp₂, hne⟩ := h
  by_cases hC₁ : C₁ = X
  · refine ⟨C₂, o₂, C₁, o₁, p₂, p₁, ?_, h₂, h₁, hp₂, hp₁, hne.symm⟩
    -- there is one path from `X` to itself
    rintro rfl
    subst hC₁
    rw [hp₁.eq_nil T.wf_directBases, hp₂.eq_nil T.wf_directBases] at hne
    exact hne rfl
  · exact ⟨C₁, o₁, C₂, o₂, p₁, p₂, hC₁, h₁, h₂, hp₁, hp₂, hne⟩

/-- **A class on one of the paths may be processed**, and then `X` is still ahead on two paths, or a class is in the
    map twice. -/
theorem Forked.step {X : κ} {s : OffsetsState κ} (h : Forked T X s) (hmap : (s.fresh.map Prod.fst).Nodup) :
    ∃ t, T.OffsetsStep s t ∧ (Forked T X t ∨ ¬(t.fresh.map Prod.fst).Nodup) := by
  obtain ⟨C₁, o₁, C₂, o₂, p₁, p₂, hC₁, h₁, h₂, hp₁, hp₂, hne⟩ := h.symm
  cases p₁ with
  | nil => exact absurd hp₁ hC₁
  | cons e p₁ =>
    obtain ⟨rest, hperm, hstep⟩ := exists_offsetsStep hmap h₁
    refine ⟨_, hstep, ?_⟩
    have hfresh : ∀ e ∈ T.directBases C₁, (e.1, o₁ + e.2) ∈ (s.process T C₁ o₁ rest).fresh := by
      intro e he
      rw [OffsetsState.process, List.mem_append]
      exact .inr (List.mem_map.mpr ⟨e, he, rfl⟩)
    by_cases hC : C₂ = C₁
    · -- both paths begin here
      subst hC
      cases p₂ with
      | nil => exact absurd hp₂ hC₁
      | cons e' p₂ =>
        refine .inl ⟨e.1, _, e'.1, _, p₁, p₂, hfresh e hp₁.1, hfresh e' hp₂.1, hp₁.2, hp₂.2, ?_⟩
        intro heq
        obtain ⟨hB, rfl⟩ := Prod.mk.inj heq
        have hinj := List.inj_on_of_nodup_map (map_fst_directBases C₂ ▸ T.nodup C₂) hp₁.1 hp₂.1 hB
        exact hne (by rw [hinj])
    · have hrest : (C₂, o₂) ∈ rest := by
        have := hperm.mem_iff.mp h₂
        simpa [hC] using this
      have hold : (C₂, o₂) ∈ (s.process T C₁ o₁ rest).fresh := List.mem_append.mpr (.inl hrest)
      by_cases heq : (e.1, p₁) = (C₂, p₂)
      · refine .inr fun hnodup => ?_
        rw [OffsetsState.process, List.map_append, List.nodup_append] at hnodup
        obtain ⟨rfl, -⟩ := Prod.mk.inj heq
        refine hnodup.2.2 e.1 (List.mem_map.mpr ⟨_, hrest, rfl⟩) e.1 ?_ rfl
        rw [List.map_map]
        exact List.mem_map.mpr ⟨e, hp₁.1, rfl⟩
      · exact .inl ⟨e.1, _, C₂, o₂, p₁, p₂, hfresh e hp₁.1, hold, hp₁.2, hp₂, heq⟩

theorem not_inevitably_of_forked {X : κ} {s : OffsetsState κ} (h : Forked T X s ∨ ¬(s.fresh.map Prod.fst).Nodup) :
    ¬Inevitably T.OffsetsStep (fun s => s.fresh = [] ∧ s.processed B = some o) s := by
  intro hin
  induction hin with
  | now hdone =>
    rcases h with ⟨C₁, o₁, -, -, -, -, h₁, -⟩ | h
    · rw [hdone.1] at h₁
      cases h₁
    · exact h (by simp [hdone.1])
  | next hex _ ih =>
    obtain ⟨t, ht⟩ := hex
    have hmap := (offsetsStep_cases ht).1
    rcases h with h | h
    · obtain ⟨u, hu, hforked⟩ := h.step hmap
      exact ih u hu hforked
    · exact h hmap

/-- **With two paths to a base class**, no offset comes out in every order. -/
theorem not_baseClassOffset (h : ¬Unambiguous T.directBases D) : ¬T.BaseClassOffset B D o := by
  simp only [Unambiguous, not_forall] at h
  obtain ⟨X, p, q, hp, hq, hne⟩ := h
  exact not_inevitably_of_forked
    (.inl ⟨D, 0, D, 0, p, q, by simp, by simp, hp, hq, fun h => hne (Prod.mk.inj h).2⟩)

/-! ## What the offsets are for -/

/-- Only one offset comes out. -/
theorem BaseClassOffset.unique {o o' : Int} (h : T.BaseClassOffset B D o) (h' : T.BaseClassOffset B D o') : o = o' := by
  obtain ⟨t, hrun, hnil, ho⟩ := h.exists_reach
  have hend : ∀ s, s.fresh = [] → ∀ t, ¬T.OffsetsStep s t := by
    intro s hs t ht
    obtain ⟨-, C, o, rest, hperm, -⟩ := offsetsStep_cases ht
    rw [hs] at hperm
    exact List.cons_ne_nil _ _ hperm.symm.eq_nil
  obtain ⟨-, ho'⟩ := Inevitably.at_end (fun s t hs => hend s hs.1 t) h' hrun (hend t hnil)
  exact Option.some.inj (ho.symm.trans ho')

/-- The base classes of `D` are found at any depth.  To each that there is one path to, the offset is the sum of the
    offsets along the path, and offsets compose. -/
structure OffsetsFollowPaths (T : BaseTable κ) (D : κ) : Prop where
  isBaseClassOf : ∀ B, T.isBaseClassOf B D = true ↔ T.IsBaseOrSelf B D
  offset : ∀ B p, IsPath T.directBases D p B → UniquePath T.directBases D B → T.BaseClassOffset B D (total p)
  compose : ∀ A B, T.IsBaseOrSelf B D → T.IsBaseOrSelf A B → UniquePath T.directBases D A →
    ∃ oA oB, T.BaseClassOffset A B oA ∧ T.BaseClassOffset B D oB ∧ T.BaseClassOffset A D (oA + oB)

/-- **No class is a base class twice**: that is when the offsets follow the paths. -/
theorem offsetsFollowPaths_iff (T : BaseTable κ) (D : κ) :
    OffsetsFollowPaths T D ↔ Unambiguous T.directBases D := by
  constructor
  · intro h
    by_contra hu
    -- there is one path from `D` to itself
    have hself : UniquePath T.directBases D D := ⟨[], rfl, fun p hp => hp.eq_nil T.wf_directBases⟩
    exact not_baseClassOffset hu (h.offset D [] rfl hself)
  · intro hu
    refine ⟨fun B => isBaseClassOf_iff B D, fun B p hp _ => baseClassOffset_of_path hu hp, ?_⟩
    intro A B hB hA _
    obtain ⟨p, hp⟩ := isBaseOrSelf_iff.mp hB
    obtain ⟨q, hq⟩ := isBaseOrSelf_iff.mp hA
    have hpq := baseClassOffset_of_path hu (PathSum.isPath_append.mpr ⟨B, hp, hq⟩)
    rw [PathSum.total_append, add_comm] at hpq
    exact ⟨total q, total p, baseClassOffset_of_path (hu.of_path hp) hq, baseClassOffset_of_path hu hp, hpq⟩

/-- `struct X { int x; };   struct L : X {};   struct R : X {};   struct B { int b; };   struct D : B, L, R {};` -/
inductive SharedClass
  | X | L | R | B | D
  deriving DecidableEq

def sharedInfo : SharedClass → BaseInfo SharedClass
  | .X | .B => ⟨[], fun _ => none⟩
  | .L | .R => ⟨[.X], fun C => if C = .X then some 0 else none⟩
  | .D => ⟨[.B, .L, .R], fun C => match C with | .B => some 0 | .L => some 4 | .R => some 8 | _ => none⟩

def sharedBase : BaseTable SharedClass where
  getClassInfo := sharedInfo
  wf := by
    -- a base class is lower
    let rank : SharedClass → Nat := fun C => match C with | .X | .B => 0 | .L | .R => 1 | .D => 2
    refine Subrelation.wf (r := fun C C' => rank C < rank C') ?_ (InvImage.wf rank wellFounded_lt)
    intro C C'
    cases C <;> cases C' <;> decide
  nodup := by
    intro C
    cases C <;> decide
  laidOut := by
    intro C
    cases C <;> decide

/-- `B` is a base class of `D` along one path, at offset 0, but that is not what comes out in every order. -/
theorem base_offset_stuck :
    IsPath sharedBase.directBases .D [(.B, 0)] .B ∧ UniquePath sharedBase.directBases .D .B ∧
      ¬sharedBase.BaseClassOffset .B .D 0 := by
  have hB : IsPath sharedBase.directBases .D [(.B, 0)] .B := ⟨by decide, rfl⟩
  refine ⟨hB, ⟨_, hB, fun p hp => ?_⟩, not_baseClassOffset fun hu => ?_⟩
  · -- the other direct base classes have only `X` above them
    have hback : ∀ q C, C = .X ∨ C = .L ∨ C = .R → ¬IsPath sharedBase.directBases C q .B := by
      intro q
      induction q with
      | nil => rintro C (rfl | rfl | rfl) h <;> cases h
      | cons e q ih =>
        rintro C hC ⟨he, hq⟩
        have hX : e.1 = .X := by
          rcases hC with rfl | rfl | rfl
          · cases he
          · exact congrArg Prod.fst (List.mem_singleton.mp he)
          · exact congrArg Prod.fst (List.mem_singleton.mp he)
        exact ih e.1 (.inl hX) hq
    match p, hp with
    | (C, o) :: p, ⟨he, hq⟩ =>
      have he : (C, o) ∈ [(SharedClass.B, (0 : Int)), (.L, 4), (.R, 8)] := he
      simp only [List.mem_cons, Prod.mk.injEq, List.not_mem_nil, or_false] at he
      rcases he with ⟨rfl, rfl⟩ | ⟨rfl, -⟩ | ⟨rfl, -⟩
      · rw [IsPath.eq_nil sharedBase.wf_directBases hq]
      · exact absurd hq (hback p _ (by simp))
      · exact absurd hq (hback p _ (by simp))
  · have hpaths := hu .X [(.L, 4), (.X, 0)] [(.R, 8), (.X, 0)] ⟨by decide, by decide, rfl⟩ ⟨by decide, by decide, rfl⟩
    exact absurd hpaths (by decide)

end BaseTable

end CSemantics.Cpp
