/-
  The namespaces that belong to the arguments of a call.

  The types of the arguments are looked through one after the other: a class has the namespaces of its base classes and
  of its template arguments, a pointer or array those of what it is made of.  The set for a class is closed under inline
  namespaces by crossing off one namespace after the other, in any order.

  There are rules for a class or enumeration whose qualifier is a NAMESPACE, and for no pointer to member, function or
  template argument that is no type, so a call with anything else has no set at all:

      struct A { struct B {}; };   f(A::B())        g(&A::x)        void h();   k(h)

  The rule for inline namespaces asks for a namespace inside another, which the global one is not.
-/
import CSemantics.Cpp.ImplicitConversion
import CSemantics.Cpp.NamespaceLookup

namespace CSemantics.Cpp

/-! ## The program -/

/-- What is read of classes and namespaces. -/
structure AdlEnv where
  /-- `<base-classes>`; a class that is not complete has none -/
  baseClasses : Class → List Class
  wf : WellFounded fun B D => B ∈ baseClasses D
  /-- There is a template argument that is no type. -/
  hasNonTypeArgs : Class → Bool
  /-- the namespaces with a cell -/
  namespaces : Finset Namespace
  isInline : Namespace → Bool
  inlineNamespaces : Namespace → Finset Namespace
  /-- the namespace that a block is in -/
  blockNamespace : Scope → Namespace

namespace AdlEnv

variable (env : AdlEnv)

/-! ## Inline namespaces -/

/-- The set, and the cells that are left. -/
structure Closing where
  set : Finset Namespace
  cells : Finset Namespace

/-- `SetItem(N) .Set`, for a namespace inside `N` that is inline. -/
def enclosing (N : Namespace) : Finset Namespace :=
  match N with
  | _ :: P => if env.isInline N then {P} else ∅
  | [] => ∅

/-- `#getAssociatedNamespaces`: a namespace of the set that still has its cell. -/
inductive ClosingStep : Closing → Closing → Prop
  | add {S B : Finset Namespace} {N : Namespace} (hmem : N ∈ S) (hcell : N ∈ B) (hnested : N ≠ []) :
      ClosingStep ⟨S, B⟩ ⟨S ∪ env.enclosing N ∪ env.inlineNamespaces N, B.erase N⟩

/-- `#getAssociatedNamespaces(S₀, B)` is `S`. -/
def Closes (S₀ S : Finset Namespace) : Prop :=
  ∃ B, Relation.ReflTransGen env.ClosingStep ⟨S₀, env.namespaces⟩ ⟨S, B⟩ ∧ ∀ t, ¬env.ClosingStep ⟨S, B⟩ t

/-! ## Classes -/

/-- `getInnermostNamespace(classScope(C, _))` -/
def classNamespace : Class → Option Namespace
  | .mk (.namespace N) _ _ _ => some N
  | _ => none

/-- `getInnermostNamespaces(getAssociatedClasses(L))` -/
inductive ClassNamespaces : List Class → List Namespace → Prop
  | nil : ClassNamespaces [] []
  | cons {C N L Ns Ns'} (hC : classNamespace C = some N) (hbases : ClassNamespaces (env.baseClasses C) Ns)
      (hrest : ClassNamespaces L Ns') : ClassNamespaces (C :: L) (N :: Ns ++ Ns')

/-- The types of a list. -/
def typesOf : CPPTypes → Option (List CPPType)
  | .nil => some []
  | .cons T Ts => (typesOf Ts).map (T :: ·)
  | _ => none

/-- `getTemplateArgTypes` -/
def getTemplateArgTypes : Class → Option (List CPPType)
  | .mk q tag x Ts => if env.hasNonTypeArgs (.mk q tag x Ts) then none else typesOf Ts

/-! ## Types -/

/-- `cppFundamentalType` -/
def isFundamental (T : CPPType) : Bool := isCPPIntegerType T || isCPPFloatingType T || isCPPVoidType T || isCPPNullPtrTType T

/-- The namespace of an enumeration: `N :: X`. -/
def enumNamespace (T : CPPType) : Option Namespace :=
  match T.simpleType with
  | .scopedEnum (.enum (.namespace N) _) _ => some N
  | .unscopedEnum (.enum (.namespace N) _) _ _ => some N
  | _ => none

/-- The type of an argument, or a list of initializers. -/
inductive Arg
  | type (T : CPPType)
  | initList

/-- `getAssociatedNamespaces(L, B)` is the set. -/
inductive GetAssociatedNamespaces : List Arg → Finset Namespace → Prop
  | fundamental {T L S} (hT : isFundamental T) (h : GetAssociatedNamespaces L S) :
      GetAssociatedNamespaces (.type T :: L) S
  | noType {q m L S} (h : GetAssociatedNamespaces L S) : GetAssociatedNamespaces (.type (.t q m .noType) :: L) S
  | classType {q m C Ts Ns L S S'} (hargs : env.getTemplateArgTypes C = some Ts)
      (hclasses : env.ClassNamespaces [C] Ns) (h : GetAssociatedNamespaces (Ts.map .type ++ L) S)
      (hclose : env.Closes Ns.toFinset S') : GetAssociatedNamespaces (.type (.t q m (.classType C)) :: L) (S ∪ S')
  | enum {T N L S S'} (hT : enumNamespace T = some N) (h : GetAssociatedNamespaces L S) (hclose : env.Closes {N} S') :
      GetAssociatedNamespaces (.type T :: L) (S ∪ S')
  | inner {T L S} (hT : isCPPPointerType T ∨ isCPPArrayType T)
      (h : GetAssociatedNamespaces (.type (innerType T) :: L) S) : GetAssociatedNamespaces (.type T :: L) S
  | initList {L S} (h : GetAssociatedNamespaces L S) : GetAssociatedNamespaces (.initList :: L) S
  | nil : GetAssociatedNamespaces [] ∅

/-! ## The namespaces that are meant -/

/-- The innermost namespace around something with this qualifier. -/
def innermost : ClassQualifier → Namespace
  | .namespace N => N
  | .localQual B => env.blockNamespace B
  | .inClass (.mk q _ _ _) => innermost q

def innermostOfClass : Class → Namespace
  | .mk q _ _ _ => env.innermost q

def innermostOfEnum : Enum → Namespace
  | .enum q _ => env.innermost q

/-- `B` is `D`, or a base class of it. -/
def IsBaseOrSelf (B D : Class) : Prop := Relation.ReflTransGen (fun D B => B ∈ env.baseClasses D) D B

/-- The types among the arguments of a template. -/
def templateTypes : Class → List CPPType
  | .mk _ _ _ Ts => go Ts
where
  go : CPPTypes → List CPPType
    | .cons T Ts => T :: go Ts
    | .implicitObjectParameter _ Ts => go Ts
    | _ => []

/-- The types of a function: of its result, and of its parameters. -/
def functionTypes : CPPType → List CPPType
  | .t _ _ (.functionType ret Ps _ _ _) => ret :: templateTypes.go Ps
  | _ => []

/-- `N` belongs to the type, before inline namespaces are looked at. -/
inductive Associated : CPPType → Namespace → Prop
  | classType {q m C D} (h : env.IsBaseOrSelf D C) : Associated (.t q m (.classType C)) (env.innermostOfClass D)
  | templateArg {q m C T N} (hT : T ∈ templateTypes C) (h : Associated T N) : Associated (.t q m (.classType C)) N
  | scopedEnum {q m E T} : Associated (.t q m (.scopedEnum E T)) (env.innermostOfEnum E)
  | unscopedEnum {q m E T b} : Associated (.t q m (.unscopedEnum E T b)) (env.innermostOfEnum E)
  | inner {T N} (hT : isCPPPointerType T ∨ isCPPArrayType T) (h : Associated (innerType T) N) : Associated T N
  | memberPointerClass {q m C T N} (h : Associated C N) : Associated (.t q m (.memberPointerType C T)) N
  | memberPointerType {q m C T N} (h : Associated T N) : Associated (.t q m (.memberPointerType C T)) N
  | functionType {T T' N} (hT : T' ∈ functionTypes T) (h : Associated T' N) : Associated T N

/-- An inline namespace and the one around it belong together. -/
def InlineStep (N M : Namespace) : Prop :=
  N ∈ env.namespaces ∧ (M ∈ env.enclosing N ∨ M ∈ env.inlineNamespaces N)

/-- **The associated namespaces** of the arguments. -/
def IsAssociated (L : List Arg) (N : Namespace) : Prop :=
  ∃ T N₀, .type T ∈ L ∧ env.Associated T N₀ ∧ Relation.ReflTransGen env.InlineStep N₀ N

/-! ## Where they differ -/

/-- The rules cover the type. -/
inductive Covered : CPPType → Prop
  | fundamental {T} (hT : isFundamental T) : Covered T
  | noType {q m} : Covered (.t q m .noType)
  /-- A class of a namespace, all of its base classes too, and a template with types for arguments. -/
  | classType {q m C Ts} (hclasses : ∀ D, env.IsBaseOrSelf D C → (classNamespace D).isSome)
      (hargs : env.getTemplateArgTypes C = some Ts) (h : ∀ T ∈ Ts, Covered T) : Covered (.t q m (.classType C))
  | enum {T} (hT : (enumNamespace T).isSome) : Covered T
  | inner {T} (hT : isCPPPointerType T ∨ isCPPArrayType T) (h : Covered (innerType T)) : Covered T

def Arg.Covered : Arg → Prop
  | .type T => env.Covered T
  | .initList => True

/-- A step from a namespace that is not the global one. -/
def NestedStep (N M : Namespace) : Prop := N ≠ [] ∧ env.InlineStep N M

/-- Associated, without the inline namespaces of the global one. -/
def IsAssociatedNested (L : List Arg) (N : Namespace) : Prop :=
  ∃ T N₀, .type T ∈ L ∧ env.Associated T N₀ ∧ Relation.ReflTransGen env.NestedStep N₀ N

/-- The inline namespaces of the global one are not missing: it does not belong to the arguments, or they belong to them
    anyway. -/
def GlobalCovered (L : List Arg) : Prop :=
  env.IsAssociatedNested L [] → [] ∈ env.namespaces → ∀ M ∈ env.inlineNamespaces [], env.IsAssociatedNested L M

variable {env}

/-! ## The closure -/

/-- What holds of the set and the cells that are left. -/
structure ClosingInv (env : AdlEnv) (S₀ : Finset Namespace) (s : Closing) : Prop where
  start : S₀ ⊆ s.set
  sound : ∀ N ∈ s.set, ∃ N₀ ∈ S₀, Relation.ReflTransGen env.NestedStep N₀ N
  cells : s.cells ⊆ env.namespaces
  closed : ∀ N ∈ env.namespaces, N ∉ s.cells → ∀ M, env.NestedStep N M → M ∈ s.set

theorem closingInv_start (S₀ : Finset Namespace) : ClosingInv env S₀ ⟨S₀, env.namespaces⟩ where
  start := subset_rfl
  sound N hN := ⟨N, hN, .refl⟩
  cells := subset_rfl
  closed _ hN hnot := absurd hN hnot

theorem ClosingInv.step {S₀ : Finset Namespace} {s t : Closing} (hs : ClosingInv env S₀ s) (h : env.ClosingStep s t) :
    ClosingInv env S₀ t := by
  cases h with
  | @add S B N hmem hcell hnested =>
    have hmono : S ⊆ S ∪ env.enclosing N ∪ env.inlineNamespaces N :=
      Finset.subset_union_left.trans Finset.subset_union_left
    refine ⟨hs.start.trans hmono, ?_, (Finset.erase_subset _ _).trans hs.cells, ?_⟩
    · intro M hM
      simp only [Finset.mem_union] at hM
      obtain ⟨N₀, hN₀, hreach⟩ := hs.sound N hmem
      rcases hM with (hM | hM) | hM
      · exact hs.sound M hM
      · exact ⟨N₀, hN₀, hreach.tail ⟨hnested, hs.cells hcell, .inl hM⟩⟩
      · exact ⟨N₀, hN₀, hreach.tail ⟨hnested, hs.cells hcell, .inr hM⟩⟩
    · intro N' hN' hnot M hM
      by_cases heq : N' = N
      · subst heq
        simp only [Finset.mem_union]
        rcases hM.2.2 with hM | hM
        · exact .inl (.inr hM)
        · exact .inr hM
      · exact hmono (hs.closed N' hN' (fun hB => hnot (Finset.mem_erase.mpr ⟨heq, hB⟩)) M hM)

theorem ClosingInv.run {S₀ : Finset Namespace} {s t : Closing} (hs : ClosingInv env S₀ s)
    (h : Relation.ReflTransGen env.ClosingStep s t) : ClosingInv env S₀ t := by
  induction h with
  | refl => exact hs
  | tail _ hstep ih => exact ih.step hstep

/-- **The closure**, in whatever order cells are crossed off. -/
theorem Closes.mem_iff {S₀ S : Finset Namespace} (h : env.Closes S₀ S) (N : Namespace) :
    N ∈ S ↔ ∃ N₀ ∈ S₀, Relation.ReflTransGen env.NestedStep N₀ N := by
  obtain ⟨B, hrun, hend⟩ := h
  have hinv := (closingInv_start S₀).run hrun
  constructor
  · exact hinv.sound N
  · rintro ⟨N₀, hN₀, hreach⟩
    induction hreach with
    | refl => exact hinv.start hN₀
    | @tail M M' _ hstep ih =>
      refine hinv.closed M hstep.2.1 (fun hcell => ?_) M' hstep
      exact hend _ (.add ih hcell hstep.1)

/-- The cells run out. -/
theorem exists_closes (S₀ : Finset Namespace) : ∃ S, env.Closes S₀ S := by
  have hruns : ∀ n (s : Closing), s.cells.card = n →
      ∃ t, Relation.ReflTransGen env.ClosingStep s t ∧ ∀ u, ¬env.ClosingStep t u := by
    intro n
    induction n with
    | zero =>
      intro s hs
      refine ⟨s, .refl, fun u hu => ?_⟩
      cases hu with
      | add _ hcell _ => exact Finset.card_ne_zero_of_mem hcell hs
    | succ n ih =>
      intro s hs
      by_cases hstep : ∃ u, env.ClosingStep s u
      · obtain ⟨u, hu⟩ := hstep
        have hcard : u.cells.card = n := by
          cases hu with
          | add _ hcell _ => exact (Finset.card_erase_of_mem hcell).trans (by rw [hs, Nat.add_sub_cancel])
        obtain ⟨t, ht, hend⟩ := ih u hcard
        exact ⟨t, .head hu ht, hend⟩
      · exact ⟨s, .refl, not_exists.mp hstep⟩
  obtain ⟨⟨S, B⟩, hrun, hend⟩ := hruns _ ⟨S₀, env.namespaces⟩ rfl
  exact ⟨S, B, hrun, hend⟩

/-! ## Classes and their base classes -/

theorem isBaseOrSelf_iff {B D : Class} : env.IsBaseOrSelf B D ↔ B = D ∨ ∃ C ∈ env.baseClasses D, env.IsBaseOrSelf B C := by
  rw [IsBaseOrSelf, Relation.ReflTransGen.cases_head_iff]
  constructor
  · rintro (rfl | ⟨C, hC, h⟩)
    · exact .inl rfl
    · exact .inr ⟨C, hC, h⟩
  · rintro (rfl | ⟨C, hC, h⟩)
    · exact .inl rfl
    · exact .inr ⟨C, hC, h⟩

theorem ClassNamespaces.mem_iff {L : List Class} {Ns : List Namespace} (h : env.ClassNamespaces L Ns) (N : Namespace) :
    N ∈ Ns ↔ ∃ C ∈ L, ∃ D, env.IsBaseOrSelf D C ∧ classNamespace D = some N := by
  induction h with
  | nil => simp
  | @cons C N' L Ns Ns' hC _ _ ih ih' =>
    rw [List.mem_append, List.mem_cons, ih, ih']
    simp only [List.exists_mem_cons_iff, isBaseOrSelf_iff (D := C), or_and_right, exists_or, exists_eq_left, hC,
      Option.some.injEq]
    constructor
    · rintro ((rfl | ⟨B, hB, D, hD, hN⟩) | h)
      · exact .inl (.inl rfl)
      · exact .inl (.inr ⟨D, ⟨B, hB, hD⟩, hN⟩)
      · exact .inr h
    · rintro ((rfl | ⟨D, ⟨B, hB, hD⟩, hN⟩) | h)
      · exact .inl (.inl rfl)
      · exact .inl (.inr ⟨B, hB, D, hD, hN⟩)
      · exact .inr h

/-- All base classes are classes of a namespace. -/
theorem ClassNamespaces.isSome {L : List Class} {Ns : List Namespace} (h : env.ClassNamespaces L Ns) {C D : Class}
    (hC : C ∈ L) (hD : env.IsBaseOrSelf D C) : (classNamespace D).isSome := by
  induction h generalizing C D with
  | nil => cases hC
  | @cons C' N' L Ns Ns' hC' _ _ ih ih' =>
    rcases List.mem_cons.mp hC with rfl | hC
    · rcases isBaseOrSelf_iff.mp hD with rfl | ⟨B, hB, hD⟩
      · rw [hC']
        rfl
      · exact ih hB hD
    · exact ih' hC hD

theorem exists_classNamespaces {L : List Class}
    (h : ∀ C ∈ L, ∀ D, env.IsBaseOrSelf D C → (classNamespace D).isSome) : ∃ Ns, env.ClassNamespaces L Ns := by
  -- a list, when the base classes of each have their namespaces
  have hlist : ∀ L : List Class, (∀ C ∈ L, (classNamespace C).isSome ∧ ∃ Ns, env.ClassNamespaces (env.baseClasses C) Ns) →
      ∃ Ns, env.ClassNamespaces L Ns := by
    intro L hL
    induction L with
    | nil => exact ⟨[], .nil⟩
    | cons C L ih =>
      obtain ⟨hC, Ns, hNs⟩ := hL C (by simp)
      obtain ⟨N, hN⟩ := Option.isSome_iff_exists.mp hC
      obtain ⟨Ns', hNs'⟩ := ih fun C hC => hL C (by simp [hC])
      exact ⟨_, .cons hN hNs hNs'⟩
  have hbases : ∀ C, (∀ D, env.IsBaseOrSelf D C → (classNamespace D).isSome) →
      ∃ Ns, env.ClassNamespaces (env.baseClasses C) Ns := by
    intro C
    induction C using env.wf.induction with
    | _ C ih =>
      intro hC
      refine hlist _ fun B hB => ⟨hC B (isBaseOrSelf_iff.mpr (.inr ⟨B, hB, .refl⟩)), ih B hB fun D hD => ?_⟩
      exact hC D (isBaseOrSelf_iff.mpr (.inr ⟨B, hB, hD⟩))
  exact hlist L fun C hC => ⟨h C hC C .refl, hbases C (h C hC)⟩

/-! ## The types one by one -/

theorem innermostOfClass_eq {C : Class} {N : Namespace} (h : classNamespace C = some N) : env.innermostOfClass C = N := by
  obtain ⟨q, tag, x, Ts⟩ := C
  cases q <;> first | exact Option.some.inj h | cases h

theorem templateTypes_eq {C : Class} {Ts : List CPPType} (h : env.getTemplateArgTypes C = some Ts) : templateTypes C = Ts := by
  obtain ⟨q, tag, x, args⟩ := C
  have hgo : ∀ (args : CPPTypes) (Ts : List CPPType), typesOf args = some Ts → templateTypes.go args = Ts := by
    intro args
    induction args using typesOf.induct with
    | case1 => simp [typesOf, templateTypes.go]
    | case2 T args ih =>
      intro Ts h
      rw [typesOf, Option.map_eq_some_iff] at h
      obtain ⟨Ts', h', rfl⟩ := h
      rw [templateTypes.go, ih Ts' h']
    | case3 args h1 h2 =>
      intro Ts h
      rw [typesOf] at h
      · cases h
      · exact h1
      · exact h2
  rw [getTemplateArgTypes] at h
  split at h
  · cases h
  · exact hgo args Ts h

/-- Only a pointer, an array or a function has parts of any kind. -/
theorem not_associated_plain {T : CPPType} (hinner : isCPPPointerType T = false ∧ isCPPArrayType T = false)
    (hfunction : functionTypes T = [])
    (hclass : ∀ C, T.simpleType ≠ .classType C) (hmember : ∀ C T', T.simpleType ≠ .memberPointerType C T')
    (henum : ∀ E T', T.simpleType ≠ .scopedEnum E T') (henum' : ∀ E T' b, T.simpleType ≠ .unscopedEnum E T' b)
    (N : Namespace) : ¬env.Associated T N := by
  intro h
  cases h with
  | classType h => exact hclass _ rfl
  | templateArg hT h => exact hclass _ rfl
  | scopedEnum => exact henum _ _ rfl
  | unscopedEnum => exact henum' _ _ _ rfl
  | inner hT _ =>
    rw [hinner.1, hinner.2] at hT
    simp at hT
  | memberPointerClass h => exact hmember _ _ rfl
  | memberPointerType h => exact hmember _ _ rfl
  | functionType hT _ =>
    rw [hfunction] at hT
    cases hT

theorem not_associated_fundamental {T : CPPType} (hT : isFundamental T = true) (N : Namespace) : ¬env.Associated T N := by
  obtain ⟨q, m, st⟩ := T
  refine not_associated_plain ?_ ?_ ?_ ?_ ?_ ?_ N
  all_goals
    cases st <;> simp_all [isFundamental, isCPPIntegerType, isCPPFloatingType, isCPPVoidType, isCPPNullPtrTType,
      CPPType.simpleType, isCPPPointerType, isCPPArrayType, functionTypes]

theorem not_associated_noType {q : Quals} {m : Finset String} (N : Namespace) :
    ¬env.Associated (.t q m .noType) N :=
  not_associated_plain ⟨rfl, rfl⟩ rfl (by simp [CPPType.simpleType]) (by simp [CPPType.simpleType])
    (by simp [CPPType.simpleType]) (by simp [CPPType.simpleType]) N

theorem associated_classType_iff {q : Quals} {m : Finset String} {C : Class} {N : Namespace} :
    env.Associated (.t q m (.classType C)) N ↔
      (∃ D, env.IsBaseOrSelf D C ∧ env.innermostOfClass D = N) ∨ ∃ T ∈ templateTypes C, env.Associated T N := by
  constructor
  · intro h
    cases h with
    | classType h => exact .inl ⟨_, h, rfl⟩
    | templateArg hT h => exact .inr ⟨_, hT, h⟩
    | inner hT _ => rcases hT with hT | hT <;> cases hT
    | functionType hT _ => cases hT
  · rintro (⟨D, hD, rfl⟩ | ⟨T, hT, h⟩)
    · exact .classType hD
    · exact .templateArg hT h

theorem associated_enum_iff {T : CPPType} {N N' : Namespace} (hT : enumNamespace T = some N') :
    env.Associated T N ↔ N = N' := by
  obtain ⟨q, m, st⟩ := T
  have henum : (∃ x T', st = .scopedEnum (.enum (.namespace N') x) T') ∨
      ∃ x T' b, st = .unscopedEnum (.enum (.namespace N') x) T' b := by
    unfold enumNamespace at hT
    split at hT
    · rename_i N x T' hst
      obtain rfl := Option.some.inj hT
      exact .inl ⟨x, T', hst⟩
    · rename_i N x T' b hst
      obtain rfl := Option.some.inj hT
      exact .inr ⟨x, T', b, hst⟩
    · cases hT
  rcases henum with ⟨x, T', rfl⟩ | ⟨x, T', b, rfl⟩
  · constructor
    · intro h
      cases h with
      | scopedEnum => rfl
      | inner hP _ => rcases hP with hP | hP <;> cases hP
      | functionType hF _ => cases hF
    · rintro rfl
      exact .scopedEnum
  · constructor
    · intro h
      cases h with
      | unscopedEnum => rfl
      | inner hP _ => rcases hP with hP | hP <;> cases hP
      | functionType hF _ => cases hF
    · rintro rfl
      exact .unscopedEnum

theorem associated_inner_iff {T : CPPType} {N : Namespace} (hT : isCPPPointerType T = true ∨ isCPPArrayType T = true) :
    env.Associated T N ↔ env.Associated (innerType T) N := by
  constructor
  · intro h
    cases h with
    | inner _ h => exact h
    | functionType hF _ =>
      obtain ⟨q, m, st⟩ := T
      rcases hT with hT | hT <;> cases st <;> first | cases hT; done | cases hF
    | _ => rcases hT with hT | hT <;> cases hT
  · exact .inner hT

/-! ## The list -/

/-- What the first argument adds. -/
theorem isAssociatedNested_cons {T : CPPType} {L : List Arg} {N : Namespace} :
    env.IsAssociatedNested (.type T :: L) N ↔
      (∃ N₀, env.Associated T N₀ ∧ Relation.ReflTransGen env.NestedStep N₀ N) ∨ env.IsAssociatedNested L N := by
  constructor
  · rintro ⟨T', N₀, hT', h, hreach⟩
    rcases List.mem_cons.mp hT' with heq | hT'
    · cases heq
      exact .inl ⟨N₀, h, hreach⟩
    · exact .inr ⟨T', N₀, hT', h, hreach⟩
  · rintro (⟨N₀, h, hreach⟩ | ⟨T', N₀, hT', h, hreach⟩)
    · exact ⟨T, N₀, by simp, h, hreach⟩
    · exact ⟨T', N₀, by simp [hT'], h, hreach⟩

theorem isAssociatedNested_types {Ts : List CPPType} {L : List Arg} {N : Namespace} :
    env.IsAssociatedNested (Ts.map .type ++ L) N ↔
      (∃ T ∈ Ts, ∃ N₀, env.Associated T N₀ ∧ Relation.ReflTransGen env.NestedStep N₀ N) ∨ env.IsAssociatedNested L N := by
  induction Ts with
  | nil => simp
  | cons T Ts ih => rw [List.map_cons, List.cons_append, isAssociatedNested_cons, ih]; simp [or_assoc]

theorem isAssociatedNested_initList {L : List Arg} {N : Namespace} :
    env.IsAssociatedNested (.initList :: L) N ↔ env.IsAssociatedNested L N := by
  simp [IsAssociatedNested]

/-- **The set of a call**, where there is one. -/
theorem GetAssociatedNamespaces.mem_iff {L : List Arg} {S : Finset Namespace} (h : env.GetAssociatedNamespaces L S)
    (N : Namespace) : N ∈ S ↔ env.IsAssociatedNested L N := by
  induction h with
  | nil => simp [IsAssociatedNested]
  | initList _ ih => rw [ih, isAssociatedNested_initList]
  | fundamental hT _ ih => simp [ih, isAssociatedNested_cons, not_associated_fundamental hT]
  | noType _ ih => simp [ih, isAssociatedNested_cons, not_associated_noType]
  | inner hT _ ih => simp only [ih, isAssociatedNested_cons, associated_inner_iff hT]
  | enum hT _ hclose ih =>
    rw [Finset.mem_union, ih, hclose.mem_iff, isAssociatedNested_cons, or_comm]
    simp [associated_enum_iff hT]
  | @classType q m C Ts Ns L S S' hargs hclasses _ hclose ih =>
    have hspaces : (∃ N₀ ∈ Ns.toFinset, Relation.ReflTransGen env.NestedStep N₀ N) ↔
        ∃ D, env.IsBaseOrSelf D C ∧ Relation.ReflTransGen env.NestedStep (env.innermostOfClass D) N := by
      constructor
      · rintro ⟨N₀, hN₀, hreach⟩
        obtain ⟨C', hC', D, hD, hN⟩ := (hclasses.mem_iff N₀).mp (List.mem_toFinset.mp hN₀)
        obtain rfl := List.mem_singleton.mp hC'
        exact ⟨D, hD, innermostOfClass_eq hN ▸ hreach⟩
      · rintro ⟨D, hD, hreach⟩
        obtain ⟨N₀, hN₀⟩ := Option.isSome_iff_exists.mp (hclasses.isSome (by simp) hD)
        refine ⟨N₀, List.mem_toFinset.mpr ((hclasses.mem_iff N₀).mpr ⟨C, by simp, D, hD, hN₀⟩), ?_⟩
        have hroot : env.innermostOfClass D = N₀ := innermostOfClass_eq hN₀
        exact hroot ▸ hreach
    rw [Finset.mem_union, ih, hclose.mem_iff, hspaces, isAssociatedNested_types, isAssociatedNested_cons]
    simp only [associated_classType_iff, templateTypes_eq hargs]
    constructor
    · rintro ((⟨T, hT, N₀, h, hreach⟩ | h) | ⟨D, hD, hreach⟩)
      · exact .inl ⟨N₀, .inr ⟨T, hT, h⟩, hreach⟩
      · exact .inr h
      · exact .inl ⟨_, .inl ⟨D, hD, rfl⟩, hreach⟩
    · rintro (⟨N₀, ⟨D, hD, rfl⟩ | ⟨T, hT, h⟩, hreach⟩ | h)
      · exact .inr ⟨D, hD, hreach⟩
      · exact .inl (.inl ⟨T, hT, N₀, h, hreach⟩)
      · exact .inl (.inr h)

theorem GetAssociatedNamespaces.covered {L : List Arg} {S : Finset Namespace} (h : env.GetAssociatedNamespaces L S) :
    ∀ a ∈ L, a.Covered env := by
  induction h with
  | nil => simp
  | initList _ ih => exact List.forall_mem_cons.mpr ⟨trivial, ih⟩
  | fundamental hT _ ih => exact List.forall_mem_cons.mpr ⟨Covered.fundamental hT, ih⟩
  | noType _ ih => exact List.forall_mem_cons.mpr ⟨Covered.noType, ih⟩
  | inner hT _ ih =>
    rw [List.forall_mem_cons] at ih ⊢
    exact ⟨Covered.inner hT ih.1, ih.2⟩
  | enum hT _ _ ih => exact List.forall_mem_cons.mpr ⟨Covered.enum (by rw [hT]; rfl), ih⟩
  | classType hargs hclasses _ _ ih =>
    simp only [List.forall_mem_append, List.forall_mem_map] at ih
    exact List.forall_mem_cons.mpr ⟨Covered.classType (fun D hD => hclasses.isSome (by simp) hD) hargs ih.1, ih.2⟩

/-- One covered type more. -/
theorem Covered.exists_cons {T : CPPType} (hT : env.Covered T) {L : List Arg} {S : Finset Namespace}
    (h : env.GetAssociatedNamespaces L S) : ∃ S', env.GetAssociatedNamespaces (.type T :: L) S' := by
  induction hT generalizing L S with
  | fundamental hT => exact ⟨S, .fundamental hT h⟩
  | noType => exact ⟨S, .noType h⟩
  | enum hT =>
    obtain ⟨N, hN⟩ := Option.isSome_iff_exists.mp hT
    obtain ⟨S', hS'⟩ := @exists_closes env {N}
    exact ⟨_, .enum hN h hS'⟩
  | inner hT _ ih =>
    obtain ⟨S', hS'⟩ := ih h
    exact ⟨S', .inner hT hS'⟩
  | @classType q m C Ts hclasses hargs _ ih =>
    have hlist : ∀ Ts' : List CPPType, (∀ T ∈ Ts', T ∈ Ts) →
        ∃ S', env.GetAssociatedNamespaces (Ts'.map .type ++ L) S' := by
      intro Ts' hTs'
      induction Ts' with
      | nil => exact ⟨S, h⟩
      | cons T Ts' ih' =>
        obtain ⟨S', hS'⟩ := ih' fun T hT => hTs' T (by simp [hT])
        exact ih T (hTs' T (by simp)) hS'
    obtain ⟨S', hS'⟩ := hlist Ts fun T hT => hT
    obtain ⟨Ns, hNs⟩ := exists_classNamespaces (L := [C]) (by simpa using hclasses)
    obtain ⟨S'', hS''⟩ := @exists_closes env Ns.toFinset
    exact ⟨_, .classType hargs hNs hS' hS''⟩

theorem exists_getAssociatedNamespaces_iff {L : List Arg} :
    (∃ S, env.GetAssociatedNamespaces L S) ↔ ∀ a ∈ L, a.Covered env := by
  constructor
  · rintro ⟨S, h⟩
    exact h.covered
  · intro h
    induction L with
    | nil => exact ⟨∅, .nil⟩
    | cons a L ih =>
      rw [List.forall_mem_cons] at h
      obtain ⟨S, hS⟩ := ih h.2
      cases a with
      | type T => exact Covered.exists_cons h.1 hS
      | initList => exact ⟨S, .initList hS⟩

/-! ## The comparison -/

/-- Only inline namespaces of the global one can be missing. -/
theorem globalCovered_iff {L : List Arg} :
    env.GlobalCovered L ↔ ∀ N, env.IsAssociatedNested L N ↔ env.IsAssociated L N := by
  constructor
  · intro hglobal N
    constructor
    · rintro ⟨T, N₀, hT, h, hreach⟩
      exact ⟨T, N₀, hT, h, hreach.lift id fun _ _ h => h.2⟩
    · rintro ⟨T, N₀, hT, h, hreach⟩
      induction hreach with
      | refl => exact ⟨T, N₀, hT, h, .refl⟩
      | @tail M M' _ hstep ih =>
        by_cases hM : M = []
        · subst hM
          rcases hstep.2 with hM' | hM'
          · cases hM'
          · exact hglobal ih hstep.1 M' hM'
        · obtain ⟨T', N₁, hT', h', hreach'⟩ := ih
          exact ⟨T', N₁, hT', h', hreach'.tail ⟨hM, hstep⟩⟩
  · intro h hnil hcell M hM
    obtain ⟨T, N₀, hT, hassoc, hreach⟩ := (h []).mp hnil
    exact (h M).mpr ⟨T, N₀, hT, hassoc, hreach.tail ⟨hcell, .inr hM⟩⟩

/-- **A call has a set, and the right one**, when the rules cover the types of its arguments and the inline namespaces of
    the global one are not missing. -/
theorem getAssociatedNamespaces_iff (env : AdlEnv) (L : List Arg) :
    ((∃ S, env.GetAssociatedNamespaces L S) ∧
      ∀ S, env.GetAssociatedNamespaces L S → ∀ N, N ∈ S ↔ env.IsAssociated L N) ↔
    (∀ a ∈ L, a.Covered env) ∧ env.GlobalCovered L := by
  rw [exists_getAssociatedNamespaces_iff, globalCovered_iff]
  refine and_congr_right fun hcovered => ?_
  obtain ⟨S, hS⟩ := exists_getAssociatedNamespaces_iff.mpr hcovered
  constructor
  · intro h N
    rw [← hS.mem_iff, h S hS]
  · intro h S' hS' N
    rw [hS'.mem_iff, h N]

/-- `struct A { struct B {}; };`, without anything else. -/
def nestedClass : AdlEnv where
  baseClasses _ := []
  wf := ⟨fun _ => ⟨_, fun _ h => by cases h⟩⟩
  hasNonTypeArgs _ := false
  namespaces := {[]}
  isInline _ := false
  inlineNamespaces _ := ∅
  blockNamespace _ := []

/-- `A::B` -/
def classB : Class := .mk (.inClass (.mk (.namespace []) .Struct (.Identifier "A") .nil)) .Struct (.Identifier "B") .nil

/-- `f(A::B())`: the global namespace belongs to the argument, and there is no set. -/
theorem nested_class_stuck :
    nestedClass.IsAssociated [.type (CPPSimpleType.classType classB).type] [] ∧
      ¬∃ S, nestedClass.GetAssociatedNamespaces [.type (CPPSimpleType.classType classB).type] S := by
  refine ⟨⟨(CPPSimpleType.classType classB).type, [], by simp, .classType (D := classB) .refl, .refl⟩, ?_⟩
  rw [exists_getAssociatedNamespaces_iff]
  intro h
  have hB : nestedClass.Covered (CPPSimpleType.classType classB).type := h (.type _) (by simp)
  cases hB with
  | classType hclasses _ _ => exact absurd (hclasses classB .refl) (by decide)
  | fundamental hT => cases hT
  | enum hT => cases hT
  | inner hT _ => rcases hT with hT | hT <;> cases hT

end AdlEnv

end CSemantics.Cpp
