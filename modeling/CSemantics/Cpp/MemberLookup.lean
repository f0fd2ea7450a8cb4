/-
  Member lookup in a class hierarchy.

  A class that declares the name is what the lookup finds there.  In any other class the lookup sets of its base
  classes are merged, from left to right, and what was found in base classes of where something else was found
  is hidden.  The merge asks `isDirectBaseClassOf` for that, and knows only of types and of maps of
  functions and variables when they are found twice:

      struct A { int x; };         struct B : A {};   struct C : B { int x; };   struct D : A, C {};
      struct A { enum { X }; };    struct B : A {};   struct C : A {};           struct D : B, C {};

  `D::x` is hidden in `A` but `A` is no DIRECT base class of `C`; `D::X` is one enumerator, found twice.  Both come
  out ambiguous.
-/
import CSemantics.Cpp.Typing
import CSemantics.Lib.Dominance

namespace CSemantics.Cpp

/-! ## Lookup sets -/

inductive LookupCategory
  | type | namespace | variable | function
  deriving DecidableEq

inductive Tag
  | classKey (k : ClassKey)
  | Enum | Typename | NoTag
  deriving DecidableEq

/-- What is looked up: only an elaborated type specifier has a tag, and it looks for types. -/
structure Query where
  x : CId
  tag : Tag
  mask : Finset LookupCategory
  typeOnly : tag ≠ .NoTag → .variable ∉ mask ∧ .function ∉ mask

/-- `prv(CPPValue, Trace, CPPType)` -/
structure PRVal (υ τ : Type) where
  v : υ
  tr : τ
  t : CPPType

/-- The entry of a name in an environment: for each type, stripped, the type and what it names. -/
abbrev Entry (ε : Type) := List (CPPType × CPPType × ε)

/-- The declarations of a lookup set. -/
inductive Declarations (ε υ τ : Type)
  | map (M : Entry ε)
  | type (T : CPPType)
  | value (V : PRVal υ τ)
  | ambiguous

/-- `C :: X` -/
structure Member where
  scope : Class
  x : CId
  deriving DecidableEq

/-- `notFound(X)`, and `classSet(K, QualId, Set)`. -/
inductive LookupSet (ε υ τ : Type)
  | notFound (x : CId)
  | classSet (K : Declarations ε υ τ) (Q : Member) (S : Finset Class)

variable {ε υ τ : Type}

/-- `envMask`, of an entry. -/
def envMask (M : Entry ε) (mask : Finset LookupCategory) : Bool :=
  if M.any fun e => isCPPFunctionType e.2.1 then .function ∈ mask else .variable ∈ mask

def Entry.keys (M : Entry ε) : Finset CPPType := (M.map Prod.fst).toFinset

/-! ## Classes -/

/-- The cells of a class that the lookup reads. -/
structure ClassInfo (ε : Type) where
  baseClasses : List Class
  cenv : CId → Option (Entry ε)
  ctypes : CId → Option CPPType
  cenums : CId → Option Enum

structure EnumInfo (υ τ : Type) where
  enumType : CPPType
  enumerators : CId → Option (PRVal υ τ)

/-- The classes of a translation unit, without virtual base classes.  An unscoped enumerator enters its class when it
    enters its enumeration. -/
structure Hierarchy (ε υ τ : Type) where
  classInfo : Class → ClassInfo ε
  enumInfo : Enum → EnumInfo υ τ
  wf : WellFounded fun B D => B ∈ (classInfo D).baseClasses
  nodup : ∀ C, (classInfo C).baseClasses.Nodup
  entered : ∀ C X E, (classInfo C).cenums X = some E → ((enumInfo E).enumerators X).isSome
  /-- The enumeration whose scope is the current one, if it is one. -/
  currTrScope : Option Enum

variable (H : Hierarchy ε υ τ) (q : Query)

def Hierarchy.isDirectBaseClassOf (B D : Class) : Bool := B ∈ (H.classInfo D).baseClasses

/-- `lookupEnumerator`, of an enumeration in a class. -/
def Hierarchy.lookupEnumerator (E : Enum) (C : Class) : LookupSet ε υ τ :=
  match (H.enumInfo E).enumerators q.x with
  | some V =>
    let V' := if H.currTrScope = some E then V else ⟨V.v, V.tr, (H.enumInfo E).enumType⟩
    .classSet (.value V') ⟨C, q.x⟩ {C}
  | none => .notFound q.x

/-! ## The merge -/

/-- `#isIgnoredClassSet` -/
def Hierarchy.isIgnoredClass (B : Class) (S : Finset Class) : Bool := ∃ D ∈ S, H.isDirectBaseClassOf B D

def Hierarchy.isIgnoredClassSet (F S : Finset Class) : Bool := ∀ B ∈ F, H.isIgnoredClass B S

/-- Both sets are of types, or of maps, and say the same. -/
def sameDeclarations : Declarations ε υ τ → Declarations ε υ τ → Bool
  | .type T1, .type T2 => eqType T1 T2
  | .map M1, .map M2 => M1.keys = M2.keys
  | _, _ => false

def Hierarchy.mergeClassSet : LookupSet ε υ τ → LookupSet ε υ τ → LookupSet ε υ τ
  | E, .notFound _ => E
  | .notFound _, E => E
  | .classSet K1 X1 C, .classSet K2 X2 B =>
    if H.isIgnoredClassSet B C then .classSet K1 X1 C
    else if H.isIgnoredClassSet C B then .classSet K2 X2 B
    else if X1 = X2 ∧ sameDeclarations K1 K2 then .classSet K1 X1 (B ∪ C)
    else .classSet .ambiguous X1 (C ∪ B)

/-! ## The lookup -/

/-- What the class declares itself: the rules for `<cenv>`, `<ctypes>` and `<cenums>`. -/
def Hierarchy.lookupOwn (C : Class) : Option (LookupSet ε υ τ) :=
  (((H.classInfo C).cenv q.x).bind fun M =>
    if q.tag = .NoTag ∧ envMask M q.mask then some (.classSet (.map M) ⟨C, q.x⟩ {C}) else none).or <|
  (((H.classInfo C).ctypes q.x).bind fun T =>
    if .type ∈ q.mask then some (.classSet (.type T) ⟨C, q.x⟩ {C}) else none).or <|
  ((H.classInfo C).cenums q.x).bind fun E =>
    if q.tag = .NoTag ∧ .variable ∈ q.mask then some (H.lookupEnumerator q E C) else none

/-- `#lookupMember`, in the body of the class. -/
def Hierarchy.lookupMember : Class → LookupSet ε υ τ :=
  H.wf.fix fun C find =>
    match H.lookupOwn q C with
    | some s => s
    | none => (H.classInfo C).baseClasses.attach.foldl (fun r B => H.mergeClassSet r (find B.1 B.2)) (.notFound q.x)

def Hierarchy.lookupMemberInBaseClasses (Bs : List Class) : LookupSet ε υ τ :=
  Bs.foldl (fun r B => H.mergeClassSet r (H.lookupMember q B)) (.notFound q.x)

/-- `#lookupMember` in a class that does not declare the name: its base classes, or nothing. -/
def Hierarchy.lookupUndeclared (isBody : Bool) (Bs : List Class) : LookupSet ε υ τ :=
  if isBody then H.lookupMemberInBaseClasses q Bs else .notFound q.x

/-! ## What the lookup is for -/

/-- What was found, and where, whichever way the lookup set was merged. -/
inductive Outcome (ε υ τ : Type)
  | notFound
  | found (K : Declarations ε υ τ) (Q : Member)
  | ambiguous

def LookupSet.outcome : LookupSet ε υ τ → Outcome ε υ τ
  | .notFound _ => .notFound
  | .classSet .ambiguous _ _ => .ambiguous
  | .classSet K Q _ => .found K Q

def Hierarchy.Declares (C : Class) : Prop := (H.lookupOwn q C).isSome

instance (C : Class) : Decidable (H.Declares q C) := inferInstanceAs (Decidable (_ = true))

/-- Direct or indirect. -/
def Hierarchy.IsBaseClassOf : Class → Class → Prop :=
  Relation.TransGen fun B D => B ∈ (H.classInfo D).baseClasses

/-- The classes that the lookup in `C` finds the name in. -/
def Hierarchy.FoundIn (C A : Class) : Prop :=
  Dominance.Reach (fun D => (H.classInfo D).baseClasses) (H.Declares q) C A

/-- The merge of what is found in the base classes: sets are hidden at any depth, and equal sets are one. -/
noncomputable def Hierarchy.merged (Bs : List Class) : Dominance.Found Class :=
  Dominance.lookupBases H.IsBaseClassOf (fun D => (H.classInfo D).baseClasses) (H.Declares q) H.wf Bs

def Hierarchy.outcomeOf : Dominance.Found Class → Outcome ε υ τ
  | .nothing => .notFound
  | .one C => ((H.lookupOwn q C).map LookupSet.outcome).getD .notFound
  | .ambiguous _ => .ambiguous

/-- The same classes, with their base classes in another order. -/
structure Hierarchy.Reorders (H' H : Hierarchy ε υ τ) : Prop where
  baseClasses : ∀ C, (H'.classInfo C).baseClasses.Perm (H.classInfo C).baseClasses
  cenv : ∀ C, (H'.classInfo C).cenv = (H.classInfo C).cenv
  ctypes : ∀ C, (H'.classInfo C).ctypes = (H.classInfo C).ctypes
  cenums : ∀ C, (H'.classInfo C).cenums = (H.classInfo C).cenums
  enumInfo : H'.enumInfo = H.enumInfo
  currTrScope : H'.currTrScope = H.currTrScope

/-- In a class with any base classes that does not declare the name, the lookup gives the merge of what they have,
    in whatever order base classes are listed. -/
def Hierarchy.LooksUpMembers (isBody : Bool) : Prop :=
  ∀ H' : Hierarchy ε υ τ, H'.Reorders H → ∀ Bs Bs' : List Class, Bs.Nodup → Bs'.Perm Bs →
    (H'.lookupUndeclared q isBody Bs').outcome = H.outcomeOf q (H.merged q Bs)

/-! ## When it is right -/

/-- The class declares the name as an enumerator. -/
def Hierarchy.DeclaresEnumerator (A : Class) : Prop :=
  ∃ V Q S, H.lookupOwn q A = some (.classSet (.value V) Q S)

/-- A class that declares the name has every base class that does as a direct one. -/
def Hierarchy.HidesDirectly : Prop :=
  ∀ A C, H.Declares q A → H.Declares q C → H.IsBaseClassOf A C → A ∈ (H.classInfo C).baseClasses

/-- No class inherits an enumerator of the name: in another class, an enumerator is hidden or ambiguous. -/
def Hierarchy.InheritsNoEnumerator : Prop :=
  ∀ A C, H.DeclaresEnumerator q A → ¬ H.Declares q C → ¬ Dominance.Top H.IsBaseClassOf {B | H.FoundIn q C B} A

/-! ## Lookup sets as results -/

variable {H q}

instance : IsStrictOrder Class H.IsBaseClassOf where
  irrefl := fun C h => H.wf.transGen.irrefl.irrefl C h
  trans := fun _ _ _ => Relation.TransGen.trans

theorem lookupEnumerator_eq {E : Enum} {C : Class} (h : ((H.enumInfo E).enumerators q.x).isSome) :
    ∃ V, H.lookupEnumerator q E C = .classSet (.value V) ⟨C, q.x⟩ {C} := by
  obtain ⟨V, hV⟩ := Option.isSome_iff_exists.mp h
  rw [Hierarchy.lookupEnumerator, hV]
  exact ⟨_, rfl⟩

/-- **What a class declares itself** is found there, and is not ambiguous. -/
theorem lookupOwn_eq_some {C : Class} {s : LookupSet ε υ τ} (h : H.lookupOwn q C = some s) :
    ∃ K, K ≠ .ambiguous ∧ s = .classSet K ⟨C, q.x⟩ {C} := by
  unfold Hierarchy.lookupOwn at h
  rw [Option.or_eq_some_iff, Option.or_eq_some_iff] at h
  simp only [Option.bind_eq_some_iff] at h
  rcases h with ⟨M, -, h⟩ | ⟨-, ⟨T, -, h⟩ | ⟨-, E, hE, h⟩⟩
  · split_ifs at h with hM
    injection h with h
    exact ⟨.map M, by simp, h.symm⟩
  · split_ifs at h with hT
    injection h with h
    exact ⟨.type T, by simp, h.symm⟩
  · split_ifs at h with hV
    injection h with h
    obtain ⟨V, hV⟩ := lookupEnumerator_eq (C := C) (H.entered C q.x E hE)
    exact ⟨.value V, by simp, h.symm.trans hV⟩

/-- The rule for the base classes applies where none of the others does. -/
theorem lookupOwn_eq_none_iff {C : Class} : H.lookupOwn q C = none ↔
    (∀ M, (H.classInfo C).cenv q.x = some M → envMask M q.mask = false) ∧
    (∀ T, (H.classInfo C).ctypes q.x = some T → .type ∉ q.mask) ∧
    (∀ E, (H.classInfo C).cenums q.x = some E → .variable ∉ q.mask) := by
  have hmask : ∀ M : Entry ε, q.tag ≠ .NoTag → envMask M q.mask = false := by
    intro M hq
    obtain ⟨hv, hf⟩ := q.typeOnly hq
    simp [envMask, hv, hf]
  unfold Hierarchy.lookupOwn
  rw [Option.or_eq_none_iff, Option.or_eq_none_iff]
  simp only [Option.bind_eq_none_iff]
  refine and_congr (forall₂_congr fun M _ => ?_)
    (and_congr (forall₂_congr fun T _ => ?_) (forall₂_congr fun E _ => ?_))
  · by_cases hq : q.tag = .NoTag
    · simp [hq]
    · simp [hq, hmask M hq]
  · simp
  · by_cases hq : q.tag = .NoTag
    · simp [hq]
    · simp [hq, (q.typeOnly hq).1]

/-- A lookup set of the code is a result of the merge. -/
inductive Stands (H : Hierarchy ε υ τ) (q : Query) : LookupSet ε υ τ → Dominance.Found Class → Prop
  | notFound (x : CId) : Stands H q (.notFound x) .nothing
  | own {A : Class} {s : LookupSet ε υ τ} (h : H.lookupOwn q A = some s) : Stands H q s (.one A)
  | ambiguous {Q : Member} {S : Finset Class} (hS : S.Nonempty) (hdecl : ∀ A ∈ S, H.Declares q A) :
      Stands H q (.classSet .ambiguous Q S) (.ambiguous S)

variable {s t : LookupSet ε υ τ} {r u : Dominance.Found Class}

theorem Stands.outcome_eq (h : Stands H q s r) : s.outcome = H.outcomeOf q r := by
  cases h with
  | notFound x => rfl
  | own h => rw [Hierarchy.outcomeOf, h]; rfl
  | ambiguous hS hdecl => rfl

theorem Stands.of_classSet {K : Declarations ε υ τ} {X : Member} {C : Finset Class}
    (h : Stands H q (.classSet K X C) r) :
    r.set = C ∧ C.Nonempty ∧ ∀ A ∈ C, H.Declares q A := by
  cases h with
  | @own A _ h =>
    obtain ⟨K', -, heq⟩ := lookupOwn_eq_some h
    injection heq with _ _ hC
    subst hC
    refine ⟨rfl, Finset.singleton_nonempty A, ?_⟩
    intro A' hA'
    obtain rfl := Finset.mem_singleton.mp hA'
    exact Option.isSome_iff_exists.mpr ⟨_, h⟩
  | ambiguous hS hdecl => exact ⟨rfl, hS, hdecl⟩

/-- Where hiding is direct, the two ways to ask for it agree. -/
theorem isIgnoredClassSet_iff {F G : Finset Class}
    (hdir : ∀ b ∈ F, ∀ d ∈ G, H.IsBaseClassOf b d → b ∈ (H.classInfo d).baseClasses) :
    H.isIgnoredClassSet F G = true ↔ Dominance.Hidden H.IsBaseClassOf F G := by
  simp only [Hierarchy.isIgnoredClassSet, Hierarchy.isIgnoredClass, Hierarchy.isDirectBaseClassOf, decide_eq_true_eq,
    Dominance.Hidden]
  refine forall₂_congr fun b hb => exists_congr fun d => and_congr_right fun hd => ?_
  exact ⟨fun h => .single h, hdir b hb d hd⟩

theorem sameDeclarations_self {K : Declarations ε υ τ} (hK : K ≠ .ambiguous) (hV : ∀ V, K ≠ .value V) :
    sameDeclarations K K = true := by
  cases K with
  | map M => simp [sameDeclarations]
  | type T => simp [sameDeclarations, eqType]
  | value V => exact absurd rfl (hV V)
  | ambiguous => exact absurd rfl hK

/-- Two lookup sets are the same to the code exactly when they are one class, but for enumerators. -/
theorem Stands.same_iff {K1 K2 : Declarations ε υ τ} {X1 X2 : Member} {C B : Finset Class}
    (hs : Stands H q (.classSet K1 X1 C) r) (ht : Stands H q (.classSet K2 X2 B) u)
    (henum : ∀ A, r = .one A → u = .one A → ¬ H.DeclaresEnumerator q A) :
    (X1 = X2 ∧ sameDeclarations K1 K2 = true) ↔ (r = u ∧ ∃ A, r = .one A) := by
  cases hs with
  | ambiguous _ _ => simp [sameDeclarations]
  | @own A _ h =>
    obtain ⟨K, hK, heq⟩ := lookupOwn_eq_some h
    injection heq with hK1 hX1 hC
    cases ht with
    | ambiguous _ _ => cases K1 <;> simp [sameDeclarations]
    | @own A' _ h' =>
      obtain ⟨K', hK', heq'⟩ := lookupOwn_eq_some h'
      injection heq' with hK2 hX2 hB
      constructor
      · rintro ⟨hX, -⟩
        rw [hX1, hX2] at hX
        injection hX with hA _
        exact ⟨congrArg _ hA, A, rfl⟩
      · rintro ⟨hA, -⟩
        injection hA with hA
        subst hA
        have hsame := Option.some_injective _ (h.symm.trans h')
        injection hsame with hK12 hX12 _
        refine ⟨hX12, ?_⟩
        rw [← hK12, hK1]
        refine sameDeclarations_self hK fun V hV => henum A rfl rfl ⟨V, X1, C, ?_⟩
        rw [h, hK1, hV]

theorem mergeClassSet_classSet (K1 K2 : Declarations ε υ τ) (X1 X2 : Member) (C B : Finset Class) :
    H.mergeClassSet (.classSet K1 X1 C) (.classSet K2 X2 B) =
      if H.isIgnoredClassSet B C then .classSet K1 X1 C
      else if H.isIgnoredClassSet C B then .classSet K2 X2 B
      else if X1 = X2 ∧ sameDeclarations K1 K2 then .classSet K1 X1 (B ∪ C)
      else .classSet .ambiguous X1 (C ∪ B) := rfl

/-- **The merge of the code is the merge**, where hiding is direct and no enumerator meets itself. -/
theorem Stands.merge (hdir : H.HidesDirectly q) (hs : Stands H q s r) (ht : Stands H q t u)
    (henum : ∀ A, r = .one A → u = .one A → ¬ H.DeclaresEnumerator q A) :
    Stands H q (H.mergeClassSet s t) (Dominance.merge H.IsBaseClassOf r u) := by
  match s, t, hs, ht with
  | s, .notFound x, hs, ht =>
    have hu : u = .nothing := by
      cases ht with
      | notFound _ => rfl
      | own h =>
        obtain ⟨K, -, heq⟩ := lookupOwn_eq_some h
        cases heq
    rw [hu, Dominance.merge_nothing, Hierarchy.mergeClassSet]
    exact hs
  | .notFound x, .classSet K2 X2 B, hs, ht =>
    have hr : r = .nothing := by
      cases hs with
      | notFound _ => rfl
      | own h =>
        obtain ⟨K, -, heq⟩ := lookupOwn_eq_some h
        cases heq
    obtain ⟨hB, hne, -⟩ := ht.of_classSet
    rw [hr, Dominance.nothing_merge (by rw [hB]; exact hne)]
    exact ht
  | .classSet K1 X1 C, .classSet K2 X2 B, hs, ht =>
    obtain ⟨hC, hCne, hCdecl⟩ := hs.of_classSet
    obtain ⟨hB, -, hBdecl⟩ := ht.of_classSet
    have hBC := isIgnoredClassSet_iff (F := B) (G := C) fun b hb d hd => hdir b d (hBdecl b hb) (hCdecl d hd)
    have hCB := isIgnoredClassSet_iff (F := C) (G := B) fun b hb d hd => hdir b d (hCdecl b hb) (hBdecl d hd)
    have hsame := hs.same_iff ht henum
    rw [mergeClassSet_classSet, Dominance.merge, hC, hB]
    by_cases h₁ : Dominance.Hidden H.IsBaseClassOf B C
    · rw [if_pos (hBC.mpr h₁), if_pos h₁]
      exact hs
    rw [if_neg (mt hBC.mp h₁), if_neg h₁]
    by_cases h₂ : Dominance.Hidden H.IsBaseClassOf C B
    · rw [if_pos (hCB.mpr h₂), if_pos h₂]
      exact ht
    rw [if_neg (mt hCB.mp h₂), if_neg h₂]
    by_cases h₃ : r = u ∧ ∃ A, r = .one A
    · rw [if_pos (hsame.mpr h₃), if_pos h₃]
      obtain ⟨rfl, A, rfl⟩ := h₃
      obtain rfl : C = B := hC.symm.trans hB
      rw [Finset.union_self]
      exact hs
    · rw [if_neg (mt hsame.mp h₃), if_neg h₃]
      refine .ambiguous (hCne.mono Finset.subset_union_left) ?_
      intro A hA
      exact (Finset.mem_union.mp hA).elim (hCdecl A) (hBdecl A)

/-- The merge of the code is some result. -/
theorem Stands.exists_merge (hs : Stands H q s r) (ht : Stands H q t u) :
    ∃ w, Stands H q (H.mergeClassSet s t) w := by
  match s, t, hs, ht with
  | s, .notFound x, hs, _ => exact ⟨r, by rw [Hierarchy.mergeClassSet]; exact hs⟩
  | .notFound x, .classSet K2 X2 B, _, ht => exact ⟨u, ht⟩
  | .classSet K1 X1 C, .classSet K2 X2 B, hs, ht =>
    obtain ⟨-, hCne, hCdecl⟩ := hs.of_classSet
    obtain ⟨-, -, hBdecl⟩ := ht.of_classSet
    rw [mergeClassSet_classSet]
    split_ifs with h₁ h₂ h₃
    · exact ⟨r, hs⟩
    · exact ⟨u, ht⟩
    · -- both are the declarations of one class
      obtain ⟨hX, hK⟩ := h₃
      cases hs with
      | ambiguous _ _ => simp [sameDeclarations] at hK
      | @own A _ h =>
        cases ht with
        | ambiguous _ _ => cases K1 <;> simp [sameDeclarations] at hK
        | @own A' _ h' =>
          obtain ⟨_, -, heq⟩ := lookupOwn_eq_some h
          obtain ⟨_, -, heq'⟩ := lookupOwn_eq_some h'
          injection heq with _ hX1 hC
          injection heq' with _ hX2 hB
          rw [hX1, hX2] at hX
          injection hX with hA _
          refine ⟨.one A, .own ?_⟩
          rw [hC, hB, ← hA, Finset.union_self, h, hC]
    · refine ⟨_, .ambiguous (hCne.mono Finset.subset_union_left) ?_⟩
      intro A hA
      exact (Finset.mem_union.mp hA).elim (hCdecl A) (hBdecl A)

/-! ## Lookups as results -/

theorem lookupMember_of_own {C : Class} (h : H.lookupOwn q C = some s) : H.lookupMember q C = s := by
  rw [Hierarchy.lookupMember, WellFounded.fix_eq, h]

theorem lookupMember_of_none {C : Class} (h : H.lookupOwn q C = none) :
    H.lookupMember q C = H.lookupMemberInBaseClasses q (H.classInfo C).baseClasses := by
  rw [Hierarchy.lookupMember, WellFounded.fix_eq, h]
  exact List.foldl_attach (f := fun r B => H.mergeClassSet r (H.lookupMember q B))

/-- Whatever the code finds is nothing, what a class declares, or an ambiguity. -/
theorem exists_stands_lookupMember (C : Class) : ∃ r, Stands H q (H.lookupMember q C) r := by
  induction C using H.wf.induction with
  | _ C ih =>
    cases h : H.lookupOwn q C with
    | some s => exact ⟨.one C, by rw [lookupMember_of_own h]; exact .own h⟩
    | none =>
      rw [lookupMember_of_none h, Hierarchy.lookupMemberInBaseClasses]
      have hfold : ∀ Bs : List Class, (∀ B ∈ Bs, B ∈ (H.classInfo C).baseClasses) → ∀ s r, Stands H q s r →
          ∃ w, Stands H q (Bs.foldl (fun r B => H.mergeClassSet r (H.lookupMember q B)) s) w := by
        intro Bs
        induction Bs with
        | nil => exact fun _ s r hs => ⟨r, hs⟩
        | cons B Bs ihBs =>
          intro hBs s r hs
          obtain ⟨u, hu⟩ := ih B (hBs B List.mem_cons_self)
          obtain ⟨w, hw⟩ := hs.exists_merge hu
          exact ihBs (fun B' hB' => hBs B' (List.mem_cons_of_mem _ hB')) _ w hw
      exact hfold _ (fun _ h => h) _ _ (.notFound q.x)

/-- The lookup that the merge is for, in a class. -/
noncomputable abbrev Hierarchy.found (H : Hierarchy ε υ τ) (q : Query) (C : Class) : Dominance.Found Class :=
  Dominance.lookup H.IsBaseClassOf (fun D => (H.classInfo D).baseClasses) (H.Declares q) H.wf C

theorem found_eq_one_iff {A C : Class} :
    H.found q C = .one A ↔ Dominance.Top H.IsBaseClassOf {B | H.FoundIn q C B} A :=
  (Dominance.represents_lookup C).eq_one_iff

theorem merged_eq_one_iff {A : Class} {Bs : List Class} :
    H.merged q Bs = .one A ↔ Dominance.Top H.IsBaseClassOf {D | ∃ B ∈ Bs, H.FoundIn q B D} A :=
  (Dominance.represents_lookupBases Bs).eq_one_iff

/-- An enumerator that tops what several base classes have, and is found in one of them, is declared there. -/
theorem declared_of_top {A B : Class} {Bs : List Class} (hinh : H.InheritsNoEnumerator q)
    (hA : H.DeclaresEnumerator q A) (htop : Dominance.Top H.IsBaseClassOf {D | ∃ B ∈ Bs, H.FoundIn q B D} A)
    (hB : B ∈ Bs) (hf : H.FoundIn q B A) : A = B := by
  by_cases hd : H.Declares q B
  · exact (Dominance.reach_of_declares hd).mp hf
  · exact absurd ⟨hf, fun D hD => htop.above D ⟨B, hB, hD⟩⟩ (hinh A B hA hd)

/-- **Merging base classes**: the code keeps step with the merge. -/
theorem stands_bases {Bs : List Class} (hdir : H.HidesDirectly q) (hinh : H.InheritsNoEnumerator q) (hnd : Bs.Nodup)
    (h : ∀ B ∈ Bs, Stands H q (H.lookupMember q B) (H.found q B)) :
    Stands H q (H.lookupMemberInBaseClasses q Bs) (H.merged q Bs) := by
  induction Bs using List.reverseRecOn with
  | nil => exact .notFound q.x
  | append_singleton Bs B ih =>
    obtain ⟨hndBs, -, hdisj⟩ := List.nodup_append.mp hnd
    have hBs := ih hndBs fun B' hB' => h B' (List.mem_append_left _ hB')
    have hB := h B (by simp)
    have hmerge := hBs.merge hdir hB ?_
    · unfold Hierarchy.lookupMemberInBaseClasses Hierarchy.merged Dominance.lookupBases
      rw [List.foldl_append, List.foldl_append]
      exact hmerge
    · -- an enumerator found again would be declared by two of the base classes
      intro A h₁ h₂ hA
      have htop := merged_eq_one_iff.mp h₁
      obtain ⟨B', hB', hf'⟩ := htop.mem
      have hA' := declared_of_top hinh hA htop hB' hf'
      have htopB : Dominance.Top H.IsBaseClassOf {D | ∃ C ∈ [B], H.FoundIn q C D} A := by
        simpa using found_eq_one_iff.mp h₂
      have hAB := declared_of_top hinh hA htopB (List.mem_singleton_self B) (found_eq_one_iff.mp h₂).mem
      exact hdisj B' hB' B (List.mem_singleton_self B) (hA'.symm.trans hAB)

/-- **The lookup of the code is the merge**, where hiding is direct and no enumerator is inherited. -/
theorem stands_lookupMember (hdir : H.HidesDirectly q) (hinh : H.InheritsNoEnumerator q) (C : Class) :
    Stands H q (H.lookupMember q C) (H.found q C) := by
  induction C using H.wf.induction with
  | _ C ih =>
    cases h : H.lookupOwn q C with
    | some s =>
      have hd : H.Declares q C := Option.isSome_iff_exists.mpr ⟨s, h⟩
      rw [lookupMember_of_own h, Hierarchy.found, Dominance.lookup_of_declares hd]
      exact .own h
    | none =>
      have hd : ¬ H.Declares q C := by
        rw [Hierarchy.Declares, h]
        simp
      rw [lookupMember_of_none h, Hierarchy.found, Dominance.lookup_of_not_declares hd]
      exact stands_bases hdir hinh (H.nodup C) ih

/-! ## The order of base classes -/

section Reorders

variable {H' : Hierarchy ε υ τ}

theorem Hierarchy.Reorders.rfl : H.Reorders H where
  baseClasses := fun _ => .refl _
  cenv := fun _ => .refl _
  ctypes := fun _ => .refl _
  cenums := fun _ => .refl _
  enumInfo := .refl _
  currTrScope := .refl _

variable (h : H'.Reorders H)

include h

theorem Hierarchy.Reorders.mem_iff {B C : Class} :
    B ∈ (H'.classInfo C).baseClasses ↔ B ∈ (H.classInfo C).baseClasses :=
  (h.baseClasses C).mem_iff

theorem Hierarchy.Reorders.lookupOwn_eq (C : Class) : H'.lookupOwn q C = H.lookupOwn q C := by
  have henum : ∀ E, H'.lookupEnumerator q E C = H.lookupEnumerator q E C := by
    intro E
    unfold Hierarchy.lookupEnumerator
    rw [h.enumInfo, h.currTrScope]
  unfold Hierarchy.lookupOwn
  rw [h.cenv C, h.ctypes C, h.cenums C]
  simp only [henum]

theorem Hierarchy.Reorders.declares_eq : H'.Declares q = H.Declares q := by
  funext C
  rw [Hierarchy.Declares, Hierarchy.Declares, h.lookupOwn_eq]

theorem Hierarchy.Reorders.isBaseClassOf_eq : H'.IsBaseClassOf = H.IsBaseClassOf := by
  have hdirect : (fun B D => B ∈ (H'.classInfo D).baseClasses) = fun B D => B ∈ (H.classInfo D).baseClasses := by
    funext B D
    exact propext h.mem_iff
  unfold Hierarchy.IsBaseClassOf
  rw [hdirect]

theorem Hierarchy.Reorders.foundIn_iff {C A : Class} : H'.FoundIn q C A ↔ H.FoundIn q C A := by
  unfold Hierarchy.FoundIn
  rw [h.declares_eq]
  constructor
  · intro hr
    induction hr with
    | here hd => exact .here hd
    | base hn hB _ ih => exact .base hn (h.mem_iff.mp hB) ih
  · intro hr
    induction hr with
    | here hd => exact .here hd
    | base hn hB _ ih => exact .base hn (h.mem_iff.mpr hB) ih

theorem Hierarchy.Reorders.hidesDirectly (hdir : H.HidesDirectly q) : H'.HidesDirectly q := by
  unfold Hierarchy.HidesDirectly
  rw [h.declares_eq, h.isBaseClassOf_eq]
  exact fun A C hA hC hAC => h.mem_iff.mpr (hdir A C hA hC hAC)

theorem Hierarchy.Reorders.inheritsNoEnumerator (hinh : H.InheritsNoEnumerator q) : H'.InheritsNoEnumerator q := by
  unfold Hierarchy.InheritsNoEnumerator Hierarchy.DeclaresEnumerator
  rw [h.declares_eq, h.isBaseClassOf_eq]
  simp only [h.lookupOwn_eq, h.foundIn_iff]
  exact hinh

/-- **The merge does not depend on the order** of base classes, at any depth. -/
theorem Hierarchy.Reorders.outcome_merged {Bs Bs' : List Class} (hBs : Bs'.Perm Bs) :
    H'.outcomeOf q (H'.merged q Bs') = H.outcomeOf q (H.merged q Bs) := by
  have h₁ : Dominance.Represents H'.IsBaseClassOf (H'.merged q Bs') {A | ∃ B ∈ Bs', H'.FoundIn q B A} :=
    Dominance.represents_lookupBases Bs'
  have h₂ : Dominance.Represents H.IsBaseClassOf (H.merged q Bs) {A | ∃ B ∈ Bs, H.FoundIn q B A} :=
    Dominance.represents_lookupBases Bs
  have hset : {A | ∃ B ∈ Bs', H'.FoundIn q B A} = {A | ∃ B ∈ Bs, H.FoundIn q B A} := by
    ext A
    exact exists_congr fun B => and_congr hBs.mem_iff h.foundIn_iff
  rw [hset, h.isBaseClassOf_eq] at h₁
  rcases h₁.agree h₂ with ⟨h₁, h₂⟩ | ⟨A, h₁, h₂⟩ | ⟨F, G, h₁, h₂⟩
  · rw [h₁, h₂]
    exact .refl _
  · rw [h₁, h₂, Hierarchy.outcomeOf, Hierarchy.outcomeOf, h.lookupOwn_eq]
  · rw [h₁, h₂]
    exact .refl _

end Reorders

/-! ## What goes wrong otherwise -/

theorem Hierarchy.Declares.exists_own {C : Class} (h : H.Declares q C) :
    ∃ K, K ≠ .ambiguous ∧ H.lookupOwn q C = some (.classSet K ⟨C, q.x⟩ {C}) := by
  obtain ⟨s, hs⟩ := Option.isSome_iff_exists.mp h
  obtain ⟨K, hK, rfl⟩ := lookupOwn_eq_some hs
  exact ⟨K, hK, hs⟩

theorem outcome_classSet {K : Declarations ε υ τ} {X : Member} {S : Finset Class} (hK : K ≠ .ambiguous) :
    (LookupSet.classSet K X S).outcome = .found K X := by
  cases K with
  | ambiguous => exact absurd rfl hK
  | map M => rfl
  | type T => rfl
  | value V => rfl

@[simp] theorem isIgnoredClassSet_singleton {B C : Class} :
    H.isIgnoredClassSet {B} {C} = true ↔ B ∈ (H.classInfo C).baseClasses := by
  simp [Hierarchy.isIgnoredClassSet, Hierarchy.isIgnoredClass, Hierarchy.isDirectBaseClassOf]

/-- A class that declares the name hides it in its base classes, -/
theorem merged_hidden {A C : Class} (hA : H.Declares q A) (hC : H.Declares q C) (h : H.IsBaseClassOf A C) :
    H.merged q [C, A] = .one C := by
  refine merged_eq_one_iff.mpr ⟨⟨C, by simp, .here hC⟩, ?_⟩
  rintro D ⟨B, hB, hD⟩
  rcases List.mem_cons.mp hB with rfl | hB
  · exact .inl ((Dominance.reach_of_declares hC).mp hD)
  · obtain rfl := List.mem_singleton.mp hB
    obtain rfl := (Dominance.reach_of_declares hA).mp hD
    exact .inr h

/-- but to the code the name is ambiguous when the base class is an indirect one. -/
theorem lookup_indirect {A C : Class} (hA : H.Declares q A) (hC : H.Declares q C) (h : H.IsBaseClassOf A C)
    (hn : A ∉ (H.classInfo C).baseClasses) : (H.lookupMemberInBaseClasses q [C, A]).outcome = .ambiguous := by
  obtain ⟨K, -, hK⟩ := hC.exists_own
  obtain ⟨K', -, hK'⟩ := hA.exists_own
  have hback : C ∉ (H.classInfo A).baseClasses := fun hCA => asymm h (Relation.TransGen.single hCA)
  have hne : C ≠ A := by
    rintro rfl
    exact irrefl C h
  rw [Hierarchy.lookupMemberInBaseClasses, List.foldl_cons, List.foldl_cons, List.foldl_nil, lookupMember_of_own hK,
    lookupMember_of_own hK']
  show (H.mergeClassSet (.classSet K ⟨C, q.x⟩ {C}) (.classSet K' ⟨A, q.x⟩ {A})).outcome = .ambiguous
  rw [mergeClassSet_classSet, if_neg (by simpa using hn), if_neg (by simpa using hback), if_neg (by simp [hne])]
  rfl

/-- An enumerator that meets itself is ambiguous to the code. -/
theorem merge_enumerator {V : PRVal υ τ} {A : Class} {X : Member} :
    (H.mergeClassSet (.classSet (.value V) X {A}) (.classSet (.value V) X {A})).outcome = .ambiguous := by
  have hirrefl : A ∉ (H.classInfo A).baseClasses := fun h => irrefl (r := H.IsBaseClassOf) A (.single h)
  rw [mergeClassSet_classSet, if_neg (by simpa using hirrefl), if_neg (by simpa using hirrefl),
    if_neg (by simp [sameDeclarations])]
  rfl

variable {isBody : Bool}

theorem Hierarchy.LooksUpMembers.outcome (h : H.LooksUpMembers q isBody) {Bs : List Class} (hnd : Bs.Nodup) :
    (H.lookupUndeclared q isBody Bs).outcome = H.outcomeOf q (H.merged q Bs) :=
  h H .rfl Bs Bs hnd (.refl _)

theorem outcomeOf_one {K : Declarations ε υ τ} {A : Class} {X : Member} {S : Finset Class} (hK : K ≠ .ambiguous)
    (h : H.lookupOwn q A = some (.classSet K X S)) : H.outcomeOf q (.one A) = .found K X := by
  rw [Hierarchy.outcomeOf, h]
  exact outcome_classSet hK

theorem Hierarchy.LooksUpMembers.inBody {A : Class} (h : H.LooksUpMembers q isBody) (hA : H.Declares q A) :
    isBody = true := by
  obtain ⟨K, hK, hown⟩ := hA.exists_own
  cases isBody with
  | true => rfl
  | false =>
    have hA' := h.outcome (List.nodup_singleton A)
    have hone : H.merged q [A] = .one A := by
      refine merged_eq_one_iff.mpr ⟨⟨A, by simp, .here hA⟩, ?_⟩
      rintro D ⟨B, hB, hD⟩
      obtain rfl := List.mem_singleton.mp hB
      exact .inl ((Dominance.reach_of_declares hA).mp hD)
    rw [hone, outcomeOf_one hK hown] at hA'
    cases hA'

theorem Hierarchy.LooksUpMembers.hidesDirectly (h : H.LooksUpMembers q true) : H.HidesDirectly q := by
  intro A C hA hC hAC
  by_contra hn
  obtain ⟨K, hK, hown⟩ := hC.exists_own
  have hne : C ≠ A := by
    rintro rfl
    exact irrefl C hAC
  have hout := h.outcome (show [C, A].Nodup by simpa using hne)
  rw [merged_hidden hA hC hAC, outcomeOf_one hK hown, Hierarchy.lookupUndeclared, if_pos rfl,
    lookup_indirect hA hC hAC hn] at hout
  cases hout

/-- What the code finds has the class it is found in. -/
theorem lookupMember_of_outcome {K : Declarations ε υ τ} {X : Member} {C : Class}
    (h : (H.lookupMember q C).outcome = .found K X) : H.lookupMember q C = .classSet K X {X.scope} := by
  obtain ⟨r, hr⟩ := exists_stands_lookupMember (H := H) (q := q) C
  generalize H.lookupMember q C = s at h hr
  cases hr with
  | notFound x => cases h
  | own hown =>
    obtain ⟨K', hK', rfl⟩ := lookupOwn_eq_some hown
    rw [outcome_classSet hK'] at h
    injection h with hK hX
    rw [hK, ← hX]
  | ambiguous _ _ => cases h

theorem Hierarchy.LooksUpMembers.inheritsNoEnumerator (h : H.LooksUpMembers q true) : H.InheritsNoEnumerator q := by
  intro A C hA hC htop
  obtain ⟨V, Q, S, hown⟩ := hA
  obtain ⟨K, hK, heq⟩ := lookupOwn_eq_some hown
  injection heq with hV hQ hS
  subst hQ hS
  have hA : H.Declares q A := Option.isSome_iff_exists.mpr ⟨_, hown⟩
  have hne : C ≠ A := by
    rintro rfl
    exact hC hA
  -- with `C` as the only base class, the code finds the enumerator
  have hone : H.merged q [C] = .one A := by
    refine merged_eq_one_iff.mpr ?_
    simpa using htop
  have hfound := h.outcome (List.nodup_singleton C)
  rw [hone, outcomeOf_one (by simp) hown, Hierarchy.lookupUndeclared, if_pos rfl] at hfound
  have hC' : H.lookupMember q C = .classSet (.value V) ⟨A, q.x⟩ {A} := by
    refine lookupMember_of_outcome ?_
    show (H.lookupMember q C).outcome = _
    rw [← hfound, Hierarchy.lookupMemberInBaseClasses, List.foldl_cons, List.foldl_nil]
    cases H.lookupMember q C <;> rfl
  -- and with `A` as another one, it should still find it
  have htwo : H.merged q [C, A] = .one A := by
    refine merged_eq_one_iff.mpr ⟨⟨A, by simp, .here hA⟩, ?_⟩
    rintro D ⟨B, hB, hD⟩
    rcases List.mem_cons.mp hB with rfl | hB
    · exact htop.above D hD
    · obtain rfl := List.mem_singleton.mp hB
      exact .inl ((Dominance.reach_of_declares hA).mp hD)
  have hout := h.outcome (show [C, A].Nodup by simpa using hne)
  rw [htwo, outcomeOf_one (by simp) hown, Hierarchy.lookupUndeclared, if_pos rfl,
    Hierarchy.lookupMemberInBaseClasses, List.foldl_cons, List.foldl_cons, List.foldl_nil, hC',
    lookupMember_of_own hown] at hout
  cases hout.symm.trans merge_enumerator

/-- Where no class declares the name, nothing is found. -/
theorem outcome_merged_of_none (h : ∀ C, ¬ H.Declares q C) (Bs : List Class) :
    H.outcomeOf q (H.merged q Bs) = .notFound := by
  have hrep : Dominance.Represents H.IsBaseClassOf (H.merged q Bs) {A | ∃ B ∈ Bs, H.FoundIn q B A} :=
    Dominance.represents_lookupBases Bs
  have hnothing : H.merged q Bs = .nothing := by
    refine hrep.eq_nothing_iff.mpr ?_
    ext A
    constructor
    · rintro ⟨B, -, hA⟩
      exact absurd hA.last_declares (h A)
    · exact fun hA => absurd hA (Set.notMem_empty A)
  rw [hnothing]
  rfl

theorem looksUpMembers_inBody (hdir : H.HidesDirectly q) (hinh : H.InheritsNoEnumerator q) :
    H.LooksUpMembers q true := by
  intro H' h Bs Bs' hnd hBs
  have hdir' := h.hidesDirectly hdir
  have hinh' := h.inheritsNoEnumerator hinh
  have hstands := stands_bases hdir' hinh' (hBs.nodup_iff.mpr hnd) fun B _ => stands_lookupMember hdir' hinh' B
  rw [Hierarchy.lookupUndeclared, if_pos rfl, hstands.outcome_eq]
  exact h.outcome_merged hBs

def structNamed (name : String) : Class := .mk (.namespace []) .Struct (.Identifier name) .nil

/-- `int x;` -/
def intMember : Entry Unit := [(CPPSimpleIntegerType.int.type, CPPSimpleIntegerType.int.type, ())]

/-- How many classes are below. -/
def depth (D : Class) : Nat := if D = structNamed "C" then 2 else if D = structNamed "B" then 1 else 0

/-- `struct A { int x; }; struct B : A {}; struct C : B { int x; };` -/
def hiddenAtDepthTwo : Hierarchy Unit Unit Unit where
  classInfo D :=
    ⟨if D = structNamed "B" then [structNamed "A"] else if D = structNamed "C" then [structNamed "B"] else [],
      fun X => if X = .Identifier "x" ∧ (D = structNamed "A" ∨ D = structNamed "C") then some intMember else none,
      fun _ => none, fun _ => none⟩
  enumInfo _ := ⟨CPPSimpleIntegerType.int.type, fun _ => none⟩
  wf := by
    refine Subrelation.wf ?_ (measure depth).wf
    intro B D hB
    show depth B < depth D
    split_ifs at hB with h₁ h₂
    · obtain rfl := List.mem_singleton.mp hB
      subst h₁
      decide
    · obtain rfl := List.mem_singleton.mp hB
      subst h₂
      decide
    · exact absurd hB List.not_mem_nil
  nodup := by
    intro D
    dsimp only
    split_ifs <;> simp
  entered := by simp
  currTrScope := none

def lookupX : Query := ⟨.Identifier "x", .NoTag, {.type, .namespace, .variable, .function}, by simp⟩

end CSemantics.Cpp
