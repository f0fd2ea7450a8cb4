/-
  Lookup of a name in namespaces.

  A qualified name is looked up in a namespace and its inline namespaces, and if it is not there, in the namespaces that
  these nominate, in the same way.  What is found on different ways is put together by `cSetUnion`, which has a rule for
  two maps of the SAME namespace and none for anything else.  And nobody remembers where the lookup has been:

      namespace A { using namespace B; }   namespace B { using namespace A; }     A::x

  An unqualified name is looked up level by level, outwards.  A directive counts at the innermost level that encloses
  what it nominates.  But only the directives of the levels themselves count, not those of what they nominate:

      namespace A { int x; }   namespace B { using namespace A; }   using namespace B;     x

  Templates and the unnamed namespace are left out.
-/
import CSemantics.Cpp.MemberLookup
import CSemantics.Lib.Referral

namespace CSemantics.Cpp

/-! ## Namespaces -/

/-- `N :: Namespace(X)` is `X :: N`, and the global namespace is `[]`. -/
abbrev Namespace := List CId

/-- What a lookup finds. -/
inductive NameRef (ε υ τ : Type)
  | notFound
  /-- `cSet(M, N :: X)` -/
  | cSet (M : Entry ε) (N : Namespace)
  | nsRef (N : Namespace)
  | type (T : CPPType)
  | value (V : PRVal υ τ)

/-- The cells of a namespace that the lookup reads. -/
structure NamespaceInfo (ε : Type) where
  nenv : CId → Option (Entry ε)
  ntypes : CId → Option CPPType
  nenums : CId → Option Enum
  nestedNamespaces : CId → Option Namespace
  inlineNamespaces : List Namespace
  nusingNamespaces : List Namespace

/-- The namespaces of a translation unit, in a block with its own directives.  The cells of maps and sets have no
    element twice, and only finitely many namespaces have any directive. -/
structure Namespaces (ε υ τ : Type) where
  ns : Namespace → NamespaceInfo ε
  enumInfo : Enum → EnumInfo υ τ
  currTrScope : Option Enum
  /-- `<using-namespaces>` -/
  usingNamespaces : List Namespace
  keys : ∀ N X M, (ns N).nenv X = some M → (M.map Prod.fst).Nodup
  inline : ∀ N, (ns N).inlineNamespaces.Nodup
  nusing : ∀ N, (ns N).nusingNamespaces.Nodup
  finite : {N | (ns N).inlineNamespaces ≠ [] ∨ (ns N).nusingNamespaces ≠ []}.Finite

variable {ε υ τ : Type} (P : Namespaces ε υ τ) (q : Query)

/-! ## The lookup -/

/-- `R orIfNotFound E` -/
def orIfNotFound (R E : Option (NameRef ε υ τ)) : Option (NameRef ε υ τ) :=
  R.bind fun
    | .notFound => E
    | R => some R

/-- Concatenation of maps, which may share what they say the same about. -/
def concatEntries [DecidableEq ε] (M1 M2 : Entry ε) : Option (Entry ε) :=
  if ∀ e ∈ M1, ∀ e' ∈ M2, e.1 = e'.1 → e = e' then some (M1 ++ M2.filter fun e => e.1 ∉ M1.map Prod.fst) else none

def cSetUnion [DecidableEq ε] : NameRef ε υ τ → NameRef ε υ τ → Option (NameRef ε υ τ)
  | .notFound, E => some E
  | E, .notFound => some E
  | .cSet M1 N1, .cSet M2 N2 => if N1 = N2 then (concatEntries M1 M2).map (.cSet · N1) else none
  | _, _ => none

namespace Namespaces

/-- `lookupEnumerator`, of an enumeration in a namespace. -/
def lookupEnumerator (E : Enum) : NameRef ε υ τ :=
  match (P.enumInfo E).enumerators q.x with
  | some V => .value (if P.currTrScope = some E then V else ⟨V.v, V.tr, (P.enumInfo E).enumType⟩)
  | none => .notFound

/-- `nameLookupInNamespace`.  Where more than one rule applies it is the first of them. -/
def nameLookupInNamespace (N : Namespace) : NameRef ε υ τ :=
  let info := P.ns N
  Option.getD (
    ((info.nenums q.x).bind fun E =>
      if q.tag = .NoTag ∧ .variable ∈ q.mask then some (P.lookupEnumerator q E) else none).or <|
    ((info.nenv q.x).bind fun M => if q.tag = .NoTag ∧ envMask M q.mask then some (.cSet M N) else none).or <|
    ((info.nestedNamespaces q.x).bind fun NS =>
      if q.tag = .NoTag ∧ .namespace ∈ q.mask then some (.nsRef NS) else none).or <|
    (info.ntypes q.x).bind fun T => if .type ∈ q.mask then some (.type T) else none) .notFound

def nameLookupInNamespaces [DecidableEq ε] (S : List Namespace) : Option (NameRef ε υ τ) :=
  S.foldlM (fun R N => cSetUnion (P.nameLookupInNamespace q N) R) .notFound

/-- `SetItem(N) InlineS` -/
def withInline (N : Namespace) : List Namespace := (P.ns N).inlineNamespaces.insert N

/-- The namespaces that `nameLookupInUsingDirectives` collects. -/
def usingS (N : Namespace) : List Namespace :=
  (P.withInline N).foldl (fun usingS M => (P.ns M).nusingNamespaces ∪ usingS) []

/-- `nameLookupInNamespaceScope`, with at most `n` calls inside each other. -/
def nameLookupInNamespaceScope [DecidableEq ε] : ℕ → Namespace → Option (NameRef ε υ τ)
  | 0, _ => none
  | n + 1, N =>
    orIfNotFound (P.nameLookupInNamespaces q (P.withInline N))
      ((P.usingS N).foldlM (fun R M => do cSetUnion (← nameLookupInNamespaceScope n M) R) .notFound)

/-- `enclosesNamespace` -/
def enclosesNamespace (N : Namespace) : Namespace → Bool
  | [] => false
  | _ :: M => N = M || enclosesNamespace N M

def getUsingNamespaces (S : List Namespace) (N : Namespace) : List Namespace := S.filter (enclosesNamespace N)

/-- What the lookup gets the using-namespaces of at one level. -/
def directives (N : Namespace) (OldUsingDirectives : List Namespace) : List Namespace :=
  P.usingNamespaces ∪ (P.ns N).nusingNamespaces ∪ OldUsingDirectives

/-- `nameLookupInFullNamespace` -/
def nameLookupInFullNamespace [DecidableEq ε] : Namespace → List Namespace → Option (NameRef ε υ τ)
  | [], Old => P.nameLookupInNamespaces q ((getUsingNamespaces (P.directives [] Old) []).insert [])
  | X :: N, Old =>
    orIfNotFound
      (P.nameLookupInNamespaces q ((getUsingNamespaces (P.directives (X :: N) Old) (X :: N)).insert (X :: N)))
      (nameLookupInFullNamespace N
        ((Old ∪ (P.ns (X :: N)).nusingNamespaces).filter
          (· ∉ getUsingNamespaces (P.directives (X :: N) Old) (X :: N))))

/-! ## What the lookup is for -/

def Declares (N : Namespace) : Prop := P.nameLookupInNamespace q N ≠ .notFound

instance : DecidablePred (P.Declares q) := fun N =>
  match h : P.nameLookupInNamespace q N with
  | .notFound => .isFalse fun hN => hN h
  | .cSet _ _ | .nsRef _ | .type _ | .value _ => .isTrue fun hN => by rw [h] at hN; cases hN

end Namespaces

/-- One thing that a name is declared as. -/
inductive Declared (ε υ τ : Type)
  | entry (N : Namespace) (e : CPPType × CPPType × ε)
  | namespace (N : Namespace)
  | type (T : CPPType)
  | enumerator (V : PRVal υ τ)

def NameRef.declared : NameRef ε υ τ → Set (Declared ε υ τ)
  | .notFound => ∅
  | .cSet M N => {d | ∃ e ∈ M, d = .entry N e}
  | .nsRef N => {.namespace N}
  | .type T => {.type T}
  | .value V => {.enumerator V}

namespace Namespaces

/-- What the name is declared as in any of the namespaces. -/
def declarationsIn (S : Set Namespace) : Set (Declared ε υ τ) := {d | ∃ M ∈ S, d ∈ (P.nameLookupInNamespace q M).declared}

/-- The namespaces where a name qualified by `N` is declared: there and in the inline namespaces, or else where
    the directives in these lead to. -/
inductive QualifiedIn : Namespace → Namespace → Prop
  | own {N M : Namespace} (h : M ∈ P.withInline N) (hM : P.Declares q M) : QualifiedIn N M
  | directive {N U V M : Namespace} (hN : ∀ M ∈ P.withInline N, ¬ P.Declares q M) (hU : U ∈ P.withInline N)
      (hV : V ∈ (P.ns U).nusingNamespaces) (hM : QualifiedIn V M) : QualifiedIn N M

/-- **Qualified lookup**: it ends, with the declarations in these namespaces. -/
def QualifiedLookup [DecidableEq ε] (N : Namespace) : Prop :=
  ∃ n R, P.nameLookupInNamespaceScope q n N = some R ∧ R.declared = P.declarationsIn q {M | P.QualifiedIn q N M}

/-- `V` is nominated in `U`. -/
def Nominates (U V : Namespace) : Prop := V ∈ (P.ns U).nusingNamespaces

/-- The directives of a scope `A` for a lookup from `N`: those of the namespace, and in `N` those of the block. -/
def ownDirectives (N A : Namespace) : Set Namespace :=
  {U | P.Nominates A U ∨ (A = N ∧ U ∈ P.usingNamespaces)}

/-- The directives of a scope with those of what they nominate, which also count as its own. -/
def allDirectives (N A : Namespace) : Set Namespace :=
  {V | ∃ U ∈ P.ownDirectives N A, Relation.ReflTransGen P.Nominates U V}

/-- `B` is the nearest namespace that encloses `U` and is `A` or encloses `A`. -/
structure Nearest (A U B : Namespace) : Prop where
  suffix : B <:+ A
  encloses : enclosesNamespace B U = true
  innermost : ∀ C, C <:+ A → enclosesNamespace C U = true → C <:+ B

/-- With the directives `dirs` of each scope, an unqualified lookup from `N` sees what is in `M` as members of `B`. -/
def Seen (dirs : Namespace → Set Namespace) (N B M : Namespace) : Prop :=
  M = B ∨ ∃ A, A <:+ N ∧ M ∈ dirs A ∧ Nearest A M B

/-- The name is declared in `M`, which is seen at `B`, and it is seen nowhere further in. -/
structure SeenFirst (dirs : Namespace → Set Namespace) (N B M : Namespace) : Prop where
  suffix : B <:+ N
  seen : Seen dirs N B M
  declares : P.Declares q M
  first : ∀ C, C <:+ N → B <:+ C → C ≠ B → ∀ M', Seen dirs N C M' → ¬ P.Declares q M'

/-- The namespaces where an unqualified lookup from `N` finds the name, with the directives `dirs` of each scope. -/
def UnqualifiedIn (dirs : Namespace → Set Namespace) (N : Namespace) : Set Namespace :=
  {M | ∃ B, P.SeenFirst q dirs N B M}

/-- **Unqualified lookup**: it ends, with the declarations in these namespaces. -/
def UnqualifiedLookup [DecidableEq ε] (N : Namespace) : Prop :=
  ∃ R, P.nameLookupInFullNamespace q N [] = some R ∧
    R.declared = P.declarationsIn q (P.UnqualifiedIn q (P.allDirectives N) N)

/-- A name that unqualified lookup can find: with the directives of the scopes alone it is seen in one namespace
    at most, as the same that it is seen as with all directives. -/
structure UnqualifiedOrderly (N : Namespace) : Prop where
  oneNamespace : (P.UnqualifiedIn q (P.ownDirectives N) N).Subsingleton
  noMore : P.declarationsIn q (P.UnqualifiedIn q (P.allDirectives N) N) =
    P.declarationsIn q (P.UnqualifiedIn q (P.ownDirectives N) N)

/-- The name is not in `N`, and `V` is asked next. -/
def PassesOn (N V : Namespace) : Prop :=
  (∀ M ∈ P.withInline N, ¬ P.Declares q M) ∧ ∃ U ∈ P.withInline N, V ∈ (P.ns U).nusingNamespaces

/-- There are two ways from `N` to `M`. -/
def TwoWays (N M : Namespace) : Prop :=
  ∃ V W W', Relation.ReflTransGen (P.PassesOn q) N V ∧ P.PassesOn q V W ∧ P.PassesOn q V W' ∧ W ≠ W' ∧
    P.QualifiedIn q W M ∧ P.QualifiedIn q W' M

/-- A name that qualified lookup can find: the directives do not come back, one namespace at most declares the name,
    and there is one way to it, or the name is a function or variable. -/
structure QualifiedOrderly (N : Namespace) : Prop where
  noCircle : ∀ V, Relation.ReflTransGen (P.PassesOn q) N V → ¬ Relation.TransGen (P.PassesOn q) V V
  oneNamespace : ∀ M M', P.QualifiedIn q N M → P.QualifiedIn q N M' → M = M'
  oneWay : ∀ M, P.QualifiedIn q N M → P.TwoWays q N M → ∃ E M', P.nameLookupInNamespace q M = .cSet E M'

variable {P q}

/-! ## The way of a qualified name -/

theorem mem_withInline {N M : Namespace} : M ∈ P.withInline N ↔ M = N ∨ M ∈ (P.ns N).inlineNamespaces :=
  List.mem_insert_iff

theorem nodup_withInline (N : Namespace) : (P.withInline N).Nodup := (P.inline N).insert

theorem mem_usingS {N V : Namespace} : V ∈ P.usingS N ↔ ∃ U ∈ P.withInline N, V ∈ (P.ns U).nusingNamespaces := by
  have hfold : ∀ (l S : List Namespace), V ∈ l.foldl (fun S M => (P.ns M).nusingNamespaces ∪ S) S ↔
      V ∈ S ∨ ∃ U ∈ l, V ∈ (P.ns U).nusingNamespaces := by
    intro l
    induction l with
    | nil => simp
    | cons M l ih =>
      intro S
      rw [List.foldl_cons, ih, List.mem_union_iff]
      simp only [List.mem_cons, exists_eq_or_imp]
      tauto
  rw [usingS, hfold]
  simp

theorem nodup_usingS (N : Namespace) : (P.usingS N).Nodup := by
  have hfold : ∀ (l S : List Namespace), S.Nodup → (l.foldl (fun S M => (P.ns M).nusingNamespaces ∪ S) S).Nodup := by
    intro l
    induction l with
    | nil => exact fun S h => h
    | cons M l ih => exact fun S h => ih _ (h.union _)
  exact hfold _ _ List.nodup_nil

/-- The namespaces with the name where a qualified lookup looks first. -/
def own (P : Namespaces ε υ τ) (q : Query) (N : Namespace) : List Namespace := (P.withInline N).filter (P.Declares q)

theorem own_eq_nil_iff {N : Namespace} : P.own q N = [] ↔ ∀ M ∈ P.withInline N, ¬ P.Declares q M := by
  simp [own, List.filter_eq_nil_iff]

theorem mem_own_iff {N M : Namespace} : M ∈ P.own q N ↔ M ∈ P.withInline N ∧ P.Declares q M := by
  simp [own, List.mem_filter]

theorem passes_iff {N V : Namespace} : Referral.Passes (P.own q) P.usingS N V ↔ P.PassesOn q N V :=
  and_congr own_eq_nil_iff mem_usingS

theorem answers_iff {N M : Namespace} : Referral.Answers (P.own q) P.usingS N M ↔ P.QualifiedIn q N M := by
  constructor
  · intro h
    induction h with
    | own h =>
      obtain ⟨hM, hD⟩ := mem_own_iff.mp h
      exact .own hM hD
    | next h _ ih =>
      obtain ⟨hN, U, hU, hV⟩ := passes_iff.mp h
      exact .directive hN hU hV ih
  · intro h
    induction h with
    | own hM hD => exact .own (mem_own_iff.mpr ⟨hM, hD⟩)
    | directive hN hU hV _ ih => exact .next (passes_iff.mpr ⟨hN, _, hU, hV⟩) ih

theorem forked_iff {N M : Namespace} : Referral.Forked (P.own q) P.usingS N M ↔ P.TwoWays q N M := by
  have hpasses : Referral.Passes (P.own q) P.usingS = P.PassesOn q := by
    funext N V
    exact propext passes_iff
  simp only [Referral.Forked, TwoWays, hpasses, answers_iff]

/-- Only a namespace with inline namespaces or directives can pass a name on. -/
theorem finite_passesOn : {N | ∃ V, P.PassesOn q N V}.Finite := by
  refine P.finite.subset ?_
  rintro N ⟨V, -, U, hU, hV⟩
  rcases mem_withInline.mp hU with rfl | hU
  · exact .inr (List.ne_nil_of_mem hV)
  · exact .inl (List.ne_nil_of_mem hU)

/-! ## The union -/

theorem eq_some_of_getD {o : Option (NameRef ε υ τ)} {E : Entry ε} {M : Namespace}
    (h : o.getD .notFound = .cSet E M) : o = some (.cSet E M) := by
  cases o with
  | none => cases h
  | some R => exact congrArg some h

theorem nameLookupInNamespace_cSet {N M : Namespace} {E : Entry ε} (h : P.nameLookupInNamespace q N = .cSet E M) :
    M = N ∧ (P.ns N).nenv q.x = some E := by
  have ho := eq_some_of_getD h
  rcases Option.or_eq_some_iff.mp ho with ho | ⟨-, ho⟩
  · obtain ⟨F, -, hF⟩ := Option.bind_eq_some_iff.mp ho
    unfold lookupEnumerator at hF
    split at hF
    · split at hF <;> cases Option.some.inj hF
    · cases hF
  rcases Option.or_eq_some_iff.mp ho with ho | ⟨-, ho⟩
  · obtain ⟨E', hE', h⟩ := Option.bind_eq_some_iff.mp ho
    split at h
    · cases Option.some.inj h
      exact ⟨rfl, hE'⟩
    · cases h
  rcases Option.or_eq_some_iff.mp ho with ho | ⟨-, ho⟩
  all_goals
    obtain ⟨T, -, h⟩ := Option.bind_eq_some_iff.mp ho
    split at h <;> cases h

theorem orIfNotFound_eq_some_iff {A B : Option (NameRef ε υ τ)} {R : NameRef ε υ τ} :
    orIfNotFound A B = some R ↔ (A = some .notFound ∧ B = some R) ∨ (A = some R ∧ R ≠ .notFound) := by
  cases A with
  | none => exact iff_of_false (fun h => nomatch h) (by simp)
  | some A =>
    by_cases hA : A = .notFound
    · rw [hA]
      refine ⟨fun h => .inl ⟨rfl, h⟩, ?_⟩
      rintro (⟨-, h⟩ | ⟨h, hR⟩)
      · exact h
      · exact absurd (Option.some.inj h).symm hR
    · have hsome : orIfNotFound (some A) B = some A := by
        cases A with
        | notFound => exact absurd rfl hA
        | _ => rfl
      rw [hsome]
      refine ⟨fun h => .inr ⟨h, Option.some.inj h ▸ hA⟩, ?_⟩
      rintro (⟨h, -⟩ | ⟨h, -⟩)
      · exact absurd (Option.some.inj h) hA
      · exact h

variable [DecidableEq ε]

theorem concatEntries_self {M : Entry ε} (h : (M.map Prod.fst).Nodup) : concatEntries M M = some M := by
  have hkeys : ∀ e ∈ M, ∀ e' ∈ M, e.1 = e'.1 → e = e' := fun e he e' he' hee' =>
    List.inj_on_of_nodup_map h he he' hee'
  have hfilter : (M.filter fun e => e.1 ∉ M.map Prod.fst) = [] := by
    refine List.filter_eq_nil_iff.mpr fun e he => ?_
    simpa using ⟨e.2.1, e.2.2, he⟩
  rw [concatEntries, if_pos hkeys, hfilter, List.append_nil]

/-- Two results can be put together only if they are one map. -/
theorem lawfulUnion : Referral.LawfulUnion (P.nameLookupInNamespace q) .notFound cSetUnion
    fun M => ∃ E M', P.nameLookupInNamespace q M = .cSet E M' where
  nothing_union _ := rfl
  union_nothing R := by cases R <;> rfl
  union_look := by
    intro a b ha hb w
    cases hA : P.nameLookupInNamespace q a with
    | notFound => exact absurd hA ha
    | cSet E N =>
      obtain ⟨rfl, hE⟩ := nameLookupInNamespace_cSet hA
      cases hB : P.nameLookupInNamespace q b with
      | notFound => exact absurd hB hb
      | cSet F M =>
        obtain ⟨rfl, hF⟩ := nameLookupInNamespace_cSet hB
        by_cases hab : N = M
        · subst hab
          rw [hE] at hF
          cases Option.some.inj hF
          simp [cSetUnion, concatEntries_self (P.keys N q.x E hE), eq_comm]
        · simp [cSetUnion, hab]
      | _ =>
        refine iff_of_false (fun h => nomatch h) ?_
        rintro ⟨rfl, -⟩
        rw [hA] at hB
        cases hB
    | _ =>
      refine iff_of_false ?_ ?_
      · cases hB : P.nameLookupInNamespace q b with
        | notFound => exact absurd hB hb
        | _ => exact fun h => nomatch h
      · rintro ⟨-, ⟨E, M', h⟩, -⟩
        cases h

/-- What is found in some namespaces is what those say that declare the name. -/
theorem nameLookupInNamespaces_iff {S : List Namespace} {R : NameRef ε υ τ} :
    P.nameLookupInNamespaces q S = some R ↔
      Referral.Agree (P.nameLookupInNamespace q) .notFound
        (fun M => ∃ E M', P.nameLookupInNamespace q M = .cSet E M') (S.filter (P.Declares q)) R :=
  lawfulUnion.foldlM_look_iff fun N => decide_eq_true_iff (p := P.Declares q N)

/-! ## Qualified lookup -/

/-- The lookup is a question that is passed on. -/
theorem nameLookupInNamespaceScope_iff {n : ℕ} {N : Namespace} {R : NameRef ε υ τ} :
    P.nameLookupInNamespaceScope q n N = some R ↔
      ∃ Ms, Referral.Gathers (P.own q) P.usingS n N Ms ∧
        Referral.Agree (P.nameLookupInNamespace q) .notFound
          (fun M => ∃ E M', P.nameLookupInNamespace q M = .cSet E M') Ms R := by
  induction n generalizing N R with
  | zero =>
    refine iff_of_false (fun h => nomatch h) ?_
    rintro ⟨Ms, h, -⟩
    exact h
  | succ n ih =>
    have hnext : ∀ R, (P.usingS N).foldlM
        (fun R M => do cSetUnion (← P.nameLookupInNamespaceScope q n M) R) .notFound = some R ↔
          ∃ Mss, List.Forall₂ (Referral.Gathers (P.own q) P.usingS n) (P.usingS N) Mss ∧
            Referral.Agree (P.nameLookupInNamespace q) .notFound
              (fun M => ∃ E M', P.nameLookupInNamespace q M = .cSet E M') Mss.flatten R :=
      fun R => lawfulUnion.foldlM_iff (fun _ _ _ => ih) Referral.agree_nil
    rw [nameLookupInNamespaceScope, orIfNotFound_eq_some_iff, nameLookupInNamespaces_iff,
      nameLookupInNamespaces_iff, hnext]
    constructor
    · rintro (⟨hown, Mss, hMss, hR⟩ | ⟨hown, hR⟩)
      · exact ⟨_, .inr ⟨hown.eq_nothing_iff.mp rfl, Mss, hMss, rfl⟩, hR⟩
      · exact ⟨_, .inl ⟨fun h => hR (hown.eq_nothing_iff.mpr h), rfl⟩, hown⟩
    · rintro ⟨Ms, ⟨hown, rfl⟩ | ⟨hown, Mss, hMss, rfl⟩, hR⟩
      · exact .inr ⟨hR, fun h => hown (hR.eq_nothing_iff.mp h)⟩
      · refine .inl ⟨?_, Mss, hMss, hR⟩
        change Referral.Agree _ _ _ (P.own q N) _
        rw [hown]
        exact Referral.agree_nil

omit [DecidableEq ε] in
theorem declarationsIn_singleton (M : Namespace) :
    P.declarationsIn q {M} = (P.nameLookupInNamespace q M).declared := by
  ext d
  simp [declarationsIn]

/-- **Qualified lookup is right** exactly for the names that are found in one place, on one way. -/
theorem qualifiedLookup_iff {N : Namespace} : P.QualifiedLookup q N ↔ P.QualifiedOrderly q N := by
  have hown : ∀ N, (P.own q N).Nodup := fun N => (nodup_withInline N).filter _
  have hlook : ∀ N, ∀ M ∈ P.own q N, P.nameLookupInNamespace q M ≠ .notFound := fun N M hM => (mem_own_iff.mp hM).2
  have hpasses : Referral.Passes (P.own q) P.usingS = P.PassesOn q := by
    funext N V
    exact propext passes_iff
  have hlookup : ∀ R, (∃ n, P.nameLookupInNamespaceScope q n N = some R) ↔
      (∀ V, Relation.ReflTransGen (P.PassesOn q) N V → ¬ Relation.TransGen (P.PassesOn q) V V) ∧
        (((∀ M, ¬ P.QualifiedIn q N M) ∧ R = .notFound) ∨
          ∃ M, (∀ M', P.QualifiedIn q N M' ↔ M' = M) ∧
            (P.TwoWays q N M → ∃ E M', P.nameLookupInNamespace q M = .cSet E M') ∧
              R = P.nameLookupInNamespace q M) := by
    intro R
    simp only [nameLookupInNamespaceScope_iff]
    rw [Referral.exists_gathers_agree_iff hown nodup_usingS hlook, hpasses,
      Referral.acc_iff_of_finite finite_passesOn]
    simp only [answers_iff, forked_iff]
  constructor
  · rintro ⟨n, R, hR, -⟩
    obtain ⟨hcircle, ⟨hnone, -⟩ | ⟨M, hM, hways, -⟩⟩ := (hlookup R).mp ⟨n, hR⟩
    · exact ⟨hcircle, fun M _ hM => absurd hM (hnone M), fun M hM => absurd hM (hnone M)⟩
    · refine ⟨hcircle, fun M' M'' h h' => ?_, fun M' h => ?_⟩
      · rw [(hM M').mp h, (hM M'').mp h']
      · rw [(hM M').mp h]
        exact hways
  · rintro ⟨hcircle, hone, hways⟩
    by_cases hsome : ∃ M, P.QualifiedIn q N M
    · obtain ⟨M, hM⟩ := hsome
      have hall : ∀ M', P.QualifiedIn q N M' ↔ M' = M := fun M' => ⟨fun h => hone M' M h hM, fun h => h ▸ hM⟩
      obtain ⟨n, hn⟩ := (hlookup _).mpr ⟨hcircle, .inr ⟨M, hall, hways M hM, rfl⟩⟩
      refine ⟨n, _, hn, ?_⟩
      have hset : {M | P.QualifiedIn q N M} = {M} := Set.ext hall
      rw [hset, declarationsIn_singleton]
    · have hnone : ∀ M, ¬ P.QualifiedIn q N M := fun M hM => hsome ⟨M, hM⟩
      obtain ⟨n, hn⟩ := (hlookup .notFound).mpr ⟨hcircle, .inl ⟨hnone, rfl⟩⟩
      refine ⟨n, _, hn, (Set.eq_empty_iff_forall_notMem.mpr ?_).symm⟩
      rintro d ⟨M, hM, -⟩
      exact hnone M hM

/-! ## Unqualified lookup -/

omit [DecidableEq ε] in
theorem enclosesNamespace_iff {N M : Namespace} : enclosesNamespace N M = true ↔ N <:+ M ∧ N ≠ M := by
  induction M with
  | nil =>
    refine iff_of_false (fun h => nomatch h) ?_
    rintro ⟨h, hne⟩
    exact hne (List.suffix_nil.mp h)
  | cons X M ih =>
    rw [enclosesNamespace, Bool.or_eq_true, decide_eq_true_iff, ih, List.suffix_cons_iff]
    constructor
    · rintro (rfl | ⟨h, -⟩)
      · exact ⟨.inr List.suffix_rfl, fun h => List.cons_ne_self X N h.symm⟩
      · refine ⟨.inr h, fun hN => ?_⟩
        have := h.length_le
        rw [hN, List.length_cons] at this
        omega
    · rintro ⟨rfl | h, hne⟩
      · exact absurd rfl hne
      · by_cases hNM : N = M
        · exact .inl hNM
        · exact .inr ⟨h, hNM⟩

/-- Where some namespace encloses both, one is the nearest. -/
theorem exists_nearest {A U C : Namespace} (hC : C <:+ A) (h : enclosesNamespace C U = true) : ∃ B, Nearest A U B := by
  induction A with
  | nil =>
    obtain rfl := List.suffix_nil.mp hC
    exact ⟨[], List.suffix_rfl, h, fun C hC _ => hC⟩
  | cons X A ih =>
    by_cases hA : enclosesNamespace (X :: A) U = true
    · exact ⟨X :: A, List.suffix_rfl, hA, fun C hC _ => hC⟩
    · have hout : ∀ C, C <:+ X :: A → enclosesNamespace C U = true → C <:+ A := by
        intro C hC hCU
        rcases List.suffix_cons_iff.mp hC with rfl | hC
        · exact absurd hCU hA
        · exact hC
      obtain ⟨B, hB⟩ := ih (hout C hC h)
      exact ⟨B, hB.suffix.trans (List.suffix_cons X A), hB.encloses,
        fun C hC hCU => hB.innermost C (hout C hC hCU) hCU⟩

/-- The directives that the lookup has kept when it gets to `L`: those of the levels further in that enclose not
    what is nominated. -/
def Kept (P : Namespaces ε υ τ) (N L : Namespace) (Old : List Namespace) : Prop :=
  ∀ U, U ∈ Old ↔ ∃ A, A <:+ N ∧ L <:+ A ∧ A ≠ L ∧ P.Nominates A U ∧
    ∀ C, C <:+ A → L <:+ C → C ≠ L → enclosesNamespace C U = false

/-- What is looked into at one level. -/
def visible (P : Namespaces ε υ τ) (L : Namespace) (Old : List Namespace) : List Namespace :=
  (getUsingNamespaces (P.directives L Old) L).insert L

omit [DecidableEq ε] in
theorem mem_visible {L M : Namespace} {Old : List Namespace} :
    M ∈ P.visible L Old ↔
      M = L ∨ ((M ∈ P.usingNamespaces ∨ P.Nominates L M ∨ M ∈ Old) ∧ enclosesNamespace L M = true) := by
  rw [visible, List.mem_insert_iff, getUsingNamespaces, List.mem_filter, directives, List.mem_union_iff,
    List.mem_union_iff, or_assoc]
  rfl

omit [DecidableEq ε] in
/-- Where nothing has been found yet, the level has what is seen at it. -/
theorem mem_visible_iff_seen {N L M : Namespace} {Old : List Namespace} (hL : L <:+ N) (hkept : P.Kept N L Old)
    (hinner : ∀ C, C <:+ N → L <:+ C → C ≠ L → ∀ M', Seen (P.ownDirectives N) N C M' → ¬ P.Declares q M')
    (hM : P.Declares q M) : M ∈ P.visible L Old ↔ Seen (P.ownDirectives N) N L M := by
  rw [mem_visible]
  constructor
  · rintro (rfl | ⟨hU | hU | hU, henc⟩)
    · exact .inl rfl
    · -- a directive of the block: what it nominates would have been found further in
      obtain ⟨B, hB⟩ := exists_nearest hL henc
      have hLB := hB.innermost L hL henc
      have hseen : Seen (P.ownDirectives N) N B M := .inr ⟨N, List.suffix_rfl, .inr ⟨rfl, hU⟩, hB⟩
      by_cases hBL : B = L
      · exact hBL ▸ hseen
      · exact absurd hM (hinner B hB.suffix hLB hBL M hseen)
    · exact .inr ⟨L, hL, .inl hU, List.suffix_rfl, henc, fun C hC _ => hC⟩
    · obtain ⟨A, hA, hLA, -, hAU, hnot⟩ := (hkept M).mp hU
      refine .inr ⟨A, hA, .inl hAU, hLA, henc, fun C hC hCM => ?_⟩
      rcases List.suffix_or_suffix_of_suffix hC hLA with h | h
      · exact h
      · by_cases hCL : C = L
        · rw [hCL]
        · have hfalse := hnot C hC h hCL
          rw [hCM] at hfalse
          cases hfalse
  · rintro (rfl | ⟨A, hA, hdir, hnear⟩)
    · exact .inl rfl
    · refine .inr ⟨?_, hnear.encloses⟩
      rcases hdir with hAM | ⟨-, hM⟩
      · by_cases hAL : A = L
        · exact .inr (.inl (hAL ▸ hAM))
        · refine .inr (.inr ((hkept M).mpr ⟨A, hA, hnear.suffix, hAL, hAM, fun C hC hLC hCL => ?_⟩))
          by_contra hCM
          have hCL' := hnear.innermost C hC (by simpa using hCM)
          exact hCL (hCL'.eq_of_length_le hLC.length_le)
      · exact .inl hM

omit [DecidableEq ε] in
/-- Where the name is found at a level, that is where it is seen first. -/
theorem unqualifiedIn_eq {N L M₀ : Namespace} {Old : List Namespace} (hL : L <:+ N) (hkept : P.Kept N L Old)
    (hinner : ∀ C, C <:+ N → L <:+ C → C ≠ L → ∀ M', Seen (P.ownDirectives N) N C M' → ¬ P.Declares q M')
    (hM₀ : M₀ ∈ P.visible L Old) (hdecl : P.Declares q M₀) (M : Namespace) :
    M ∈ P.UnqualifiedIn q (P.ownDirectives N) N ↔ M ∈ P.visible L Old ∧ P.Declares q M := by
  constructor
  · rintro ⟨B, hB⟩
    refine ⟨?_, hB.declares⟩
    by_cases hBL : B = L
    · exact (mem_visible_iff_seen hL hkept hinner hB.declares).mpr (hBL ▸ hB.seen)
    · rcases List.suffix_or_suffix_of_suffix hB.suffix hL with h | h
      · have hseen := (mem_visible_iff_seen hL hkept hinner hdecl).mp hM₀
        exact absurd hdecl (hB.first L hL h (Ne.symm hBL) M₀ hseen)
      · exact absurd hB.declares (hinner B hB.suffix h hBL M hB.seen)
  · rintro ⟨hM, hMdecl⟩
    exact ⟨L, hL, (mem_visible_iff_seen hL hkept hinner hMdecl).mp hM, hMdecl, hinner⟩

omit [DecidableEq ε] in
theorem nodup_visible {L : Namespace} {Old : List Namespace} (hOld : Old.Nodup) : (P.visible L Old).Nodup :=
  ((hOld.union _).filter _).insert

/-- A level gives what the one namespace says that has the name. -/
theorem nameLookupInNamespaces_nodup {S : List Namespace} (hS : S.Nodup) {R : NameRef ε υ τ} :
    P.nameLookupInNamespaces q S = some R ↔
      ((∀ M ∈ S, ¬ P.Declares q M) ∧ R = .notFound) ∨
        ∃ M, (∀ M', M' ∈ S ∧ P.Declares q M' ↔ M' = M) ∧ R = P.nameLookupInNamespace q M := by
  rw [nameLookupInNamespaces_iff, Referral.agree_iff_of_nodup (hS.filter _)]
  refine or_congr (and_congr_left' ?_) ?_
  · simp [List.filter_eq_nil_iff]
  · constructor
    · rintro ⟨M, hM, -, rfl⟩
      refine ⟨M, fun M' => ?_, rfl⟩
      rw [← List.mem_singleton, ← hM, List.mem_filter, decide_eq_true_iff]
    · rintro ⟨M, hM, rfl⟩
      obtain ⟨hMS, hdecl⟩ := (hM M).mpr rfl
      refine ⟨M, ?_, hdecl, rfl⟩
      refine ((List.perm_ext_iff_of_nodup (hS.filter _) (List.nodup_singleton M)).mpr fun M' => ?_).eq_singleton
      rw [List.mem_filter, decide_eq_true_iff, hM, List.mem_singleton]

omit [DecidableEq ε] in
/-- Where a level has not got the name, the next level out goes on with what is kept. -/
theorem kept_cons {N L : Namespace} {X : CId} {Old : List Namespace} (hL : X :: L <:+ N)
    (hkept : P.Kept N (X :: L) Old) :
    P.Kept N L ((Old ∪ (P.ns (X :: L)).nusingNamespaces).filter
      (· ∉ getUsingNamespaces (P.directives (X :: L) Old) (X :: L))) := by
  have hstep : ∀ {C}, C <:+ N → (L <:+ C ∧ C ≠ L ↔ X :: L <:+ C) := by
    intro C hC
    constructor
    · rintro ⟨h, hne⟩
      rcases List.suffix_or_suffix_of_suffix hC hL with h' | h'
      · rcases List.suffix_cons_iff.mp h' with rfl | h'
        · exact List.suffix_rfl
        · exact absurd (h'.eq_of_length_le h.length_le) hne
      · exact h'
    · intro h
      refine ⟨(List.suffix_cons X L).trans h, fun hCL => ?_⟩
      have := h.length_le
      rw [hCL, List.length_cons] at this
      omega
  intro U
  have hmem : U ∈ (Old ∪ (P.ns (X :: L)).nusingNamespaces).filter
      (· ∉ getUsingNamespaces (P.directives (X :: L) Old) (X :: L)) ↔
        (U ∈ Old ∨ P.Nominates (X :: L) U) ∧ enclosesNamespace (X :: L) U = false := by
    rw [List.mem_filter, List.mem_union_iff, decide_eq_true_iff, getUsingNamespaces, List.mem_filter, directives,
      List.mem_union_iff, List.mem_union_iff]
    change (U ∈ Old ∨ P.Nominates (X :: L) U) ∧
      ¬ (((U ∈ P.usingNamespaces ∨ P.Nominates (X :: L) U) ∨ U ∈ Old) ∧ _) ↔ _
    rw [← Bool.not_eq_true]
    tauto
  rw [hmem]
  constructor
  · rintro ⟨hU | hU, henc⟩
    · obtain ⟨A, hA, hLA, hne, hAU, hnot⟩ := (hkept U).mp hU
      obtain ⟨hLA', hne'⟩ := (hstep hA).mpr hLA
      refine ⟨A, hA, hLA', hne', hAU, fun C hC hLC hCL => ?_⟩
      by_cases hCX : C = X :: L
      · rw [hCX, henc]
      · exact hnot C hC ((hstep (hC.trans hA)).mp ⟨hLC, hCL⟩) hCX
    · obtain ⟨hLA', hne'⟩ := (hstep hL).mpr List.suffix_rfl
      refine ⟨X :: L, hL, hLA', hne', hU, fun C hC hLC hCL => ?_⟩
      have hC' := (hstep (hC.trans hL)).mp ⟨hLC, hCL⟩
      rw [hC.eq_of_length_le hC'.length_le, henc]
  · rintro ⟨A, hA, hLA, hne, hAU, hnot⟩
    have hXA := (hstep hA).mp ⟨hLA, hne⟩
    obtain ⟨hLX, hneX⟩ := (hstep hL).mpr List.suffix_rfl
    refine ⟨?_, hnot _ hXA hLX hneX⟩
    by_cases hAX : A = X :: L
    · exact .inr (hAX ▸ hAU)
    · refine .inl ((hkept U).mpr ⟨A, hA, hXA, hAX, hAU, fun C hC hXC hCX => ?_⟩)
      obtain ⟨hLC, hCL⟩ := (hstep (hC.trans hA)).mpr hXC
      exact hnot C hC hLC hCL

/-- A level that has the name decides the lookup. -/
theorem nameLookupInNamespaces_visible {N L M₀ : Namespace} {Old : List Namespace} (hL : L <:+ N) (hOld : Old.Nodup)
    (hkept : P.Kept N L Old)
    (hinner : ∀ C, C <:+ N → L <:+ C → C ≠ L → ∀ M', Seen (P.ownDirectives N) N C M' → ¬ P.Declares q M')
    (hM₀ : M₀ ∈ P.visible L Old) (hdecl : P.Declares q M₀) {R : NameRef ε υ τ} :
    P.nameLookupInNamespaces q (P.visible L Old) = some R ↔
      ∃ M, (∀ M', M' ∈ P.UnqualifiedIn q (P.ownDirectives N) N ↔ M' = M) ∧ R = P.nameLookupInNamespace q M := by
  rw [nameLookupInNamespaces_nodup (nodup_visible hOld)]
  simp only [unqualifiedIn_eq hL hkept hinner hM₀ hdecl]
  refine or_iff_right ?_
  rintro ⟨h, -⟩
  exact h M₀ hM₀ hdecl

theorem nameLookupInNamespaces_of_none {S : List Namespace} (hS : S.Nodup) (h : ∀ M ∈ S, ¬ P.Declares q M) :
    P.nameLookupInNamespaces q S = some .notFound :=
  (nameLookupInNamespaces_nodup hS).mpr (.inl ⟨h, rfl⟩)

/-- **The lookup finds** what is seen first with the directives of the scopes alone, if that is one namespace. -/
theorem nameLookupInFullNamespace_iff {N L : Namespace} {Old : List Namespace} (hL : L <:+ N)
    (hOld : Old.Nodup) (hkept : P.Kept N L Old)
    (hinner : ∀ C, C <:+ N → L <:+ C → C ≠ L → ∀ M', Seen (P.ownDirectives N) N C M' → ¬ P.Declares q M')
    {R : NameRef ε υ τ} :
    P.nameLookupInFullNamespace q L Old = some R ↔
      ((∀ M, M ∉ P.UnqualifiedIn q (P.ownDirectives N) N) ∧ R = .notFound) ∨
        ∃ M, (∀ M', M' ∈ P.UnqualifiedIn q (P.ownDirectives N) N ↔ M' = M) ∧ R = P.nameLookupInNamespace q M := by
  induction L generalizing Old with
  | nil =>
    change P.nameLookupInNamespaces q (P.visible [] Old) = some R ↔ _
    by_cases hhit : ∃ M₀ ∈ P.visible [] Old, P.Declares q M₀
    · obtain ⟨M₀, hM₀, hdecl⟩ := hhit
      rw [nameLookupInNamespaces_visible hL hOld hkept hinner hM₀ hdecl]
      refine (or_iff_right ?_).symm
      rintro ⟨h, -⟩
      exact h M₀ ((unqualifiedIn_eq hL hkept hinner hM₀ hdecl M₀).mpr ⟨hM₀, hdecl⟩)
    · have hmiss : ∀ M ∈ P.visible [] Old, ¬ P.Declares q M := fun M hM hdecl => hhit ⟨M, hM, hdecl⟩
      have hempty : ∀ M, M ∉ P.UnqualifiedIn q (P.ownDirectives N) N := by
        rintro M ⟨B, hB⟩
        by_cases hBL : B = []
        · exact hmiss M ((mem_visible_iff_seen hL hkept hinner hB.declares).mpr (hBL ▸ hB.seen)) hB.declares
        · exact hinner B hB.suffix B.nil_suffix hBL M hB.seen hB.declares
      rw [nameLookupInNamespaces_of_none (nodup_visible hOld) hmiss, Option.some_inj]
      constructor
      · exact fun h => .inl ⟨hempty, h.symm⟩
      · rintro (⟨-, h⟩ | ⟨M, hM, -⟩)
        · exact h.symm
        · exact absurd ((hM M).mpr rfl) (hempty M)
  | cons X L ih =>
    change orIfNotFound (P.nameLookupInNamespaces q (P.visible (X :: L) Old)) (P.nameLookupInFullNamespace q L _) =
      some R ↔ _
    rw [orIfNotFound_eq_some_iff]
    by_cases hhit : ∃ M₀ ∈ P.visible (X :: L) Old, P.Declares q M₀
    · obtain ⟨M₀, hM₀, hdecl⟩ := hhit
      have hin := (unqualifiedIn_eq hL hkept hinner hM₀ hdecl M₀).mpr ⟨hM₀, hdecl⟩
      have hfound : ∀ {M}, (∀ M', M' ∈ P.UnqualifiedIn q (P.ownDirectives N) N ↔ M' = M) →
          P.nameLookupInNamespace q M ≠ .notFound := fun hM => (hM M₀).mp hin ▸ hdecl
      simp only [nameLookupInNamespaces_visible hL hOld hkept hinner hM₀ hdecl]
      constructor
      · rintro (⟨⟨M, hM, h⟩, -⟩ | ⟨h, -⟩)
        · exact absurd h.symm (hfound hM)
        · exact .inr h
      · rintro (⟨h, -⟩ | ⟨M, hM, rfl⟩)
        · exact absurd hin (h M₀)
        · exact .inr ⟨⟨M, hM, rfl⟩, hfound hM⟩
    · have hmiss : ∀ M ∈ P.visible (X :: L) Old, ¬ P.Declares q M := fun M hM hdecl => hhit ⟨M, hM, hdecl⟩
      have hinner' : ∀ C, C <:+ N → L <:+ C → C ≠ L → ∀ M', Seen (P.ownDirectives N) N C M' → ¬ P.Declares q M' := by
        intro C hC hLC hCL M' hseen hdecl
        by_cases hCX : C = X :: L
        · exact hmiss M' ((mem_visible_iff_seen hL hkept hinner hdecl).mpr (hCX ▸ hseen)) hdecl
        · rcases List.suffix_or_suffix_of_suffix hC hL with h | h
          · rcases List.suffix_cons_iff.mp h with h | h
            · exact hCX h
            · exact hCL (h.eq_of_length_le hLC.length_le)
          · exact hinner C hC h hCX M' hseen hdecl
      rw [nameLookupInNamespaces_of_none (nodup_visible hOld) hmiss, Option.some_inj]
      have hnext := ih ((List.suffix_cons X L).trans hL) (((P.nusing (X :: L)).union _).filter _) (kept_cons hL hkept)
        hinner'
      constructor
      · rintro (⟨-, h⟩ | ⟨h, hR⟩)
        · exact hnext.mp h
        · exact absurd (Option.some.inj h).symm hR
      · exact fun h => .inl ⟨rfl, hnext.mpr h⟩

/-- **Unqualified lookup is right** exactly for the names that the directives of the scopes alone make visible in one
    namespace, and all directives as the same. -/
theorem unqualifiedLookup_iff {N : Namespace} : P.UnqualifiedLookup q N ↔ P.UnqualifiedOrderly q N := by
  have hlookup : ∀ R, P.nameLookupInFullNamespace q N [] = some R ↔
      ((∀ M, M ∉ P.UnqualifiedIn q (P.ownDirectives N) N) ∧ R = .notFound) ∨
        ∃ M, (∀ M', M' ∈ P.UnqualifiedIn q (P.ownDirectives N) N ↔ M' = M) ∧ R = P.nameLookupInNamespace q M := by
    intro R
    refine nameLookupInFullNamespace_iff List.suffix_rfl List.nodup_nil (fun U => ?_) fun C hC hNC hne => ?_
    · refine iff_of_false (fun h => nomatch h) ?_
      rintro ⟨A, hA, hNA, hne, -⟩
      exact hne (hA.eq_of_length_le hNA.length_le)
    · exact absurd (hC.eq_of_length_le hNC.length_le) hne
  have hdeclared : ∀ R, P.nameLookupInFullNamespace q N [] = some R →
      R.declared = P.declarationsIn q (P.UnqualifiedIn q (P.ownDirectives N) N) := by
    intro R hR
    rcases (hlookup R).mp hR with ⟨hnone, rfl⟩ | ⟨M, hM, rfl⟩
    · refine (Set.eq_empty_iff_forall_notMem.mpr ?_).symm
      rintro d ⟨M, hM, -⟩
      exact hnone M hM
    · have hset : P.UnqualifiedIn q (P.ownDirectives N) N = {M} := Set.ext hM
      rw [hset, declarationsIn_singleton]
  constructor
  · rintro ⟨R, hR, hdecl⟩
    refine ⟨?_, by rw [← hdecl, hdeclared R hR]⟩
    rcases (hlookup R).mp hR with ⟨hnone, -⟩ | ⟨M, hM, -⟩
    · exact fun M hM => absurd hM (hnone M)
    · intro M' hM' M'' hM''
      rw [(hM M').mp hM', (hM M'').mp hM'']
  · rintro ⟨hone, hmore⟩
    have hend : ∃ R, P.nameLookupInFullNamespace q N [] = some R := by
      by_cases hsome : ∃ M, M ∈ P.UnqualifiedIn q (P.ownDirectives N) N
      · obtain ⟨M, hM⟩ := hsome
        exact ⟨_, (hlookup _).mpr (.inr ⟨M, fun M' => ⟨fun h => hone h hM, fun h => h ▸ hM⟩, rfl⟩)⟩
      · exact ⟨_, (hlookup _).mpr (.inl ⟨fun M hM => hsome ⟨M, hM⟩, rfl⟩)⟩
    obtain ⟨R, hR⟩ := hend
    exact ⟨R, hR, by rw [hmore, hdeclared R hR]⟩

/-- `namespace A` -/
def namespaceA : Namespace := [.Identifier "A"]

/-- `namespace B` -/
def namespaceB : Namespace := [.Identifier "B"]

/-- `namespace A { using namespace B; }  namespace B { using namespace A; }` -/
def circle : Namespaces Unit Unit Unit where
  ns N :=
    { nenv := fun _ => none
      ntypes := fun _ => none
      nenums := fun _ => none
      nestedNamespaces := fun _ => none
      inlineNamespaces := []
      nusingNamespaces :=
        if N = namespaceA then [namespaceB] else if N = namespaceB then [namespaceA] else [] }
  enumInfo _ := ⟨CPPSimpleType.void.type, fun _ => none⟩
  currTrScope := none
  usingNamespaces := []
  keys _ _ _ h := nomatch h
  inline _ := List.nodup_nil
  nusing N := by
    change (if N = namespaceA then [namespaceB] else if N = namespaceB then [namespaceA] else []).Nodup
    split
    · exact List.nodup_singleton _
    · split
      · exact List.nodup_singleton _
      · exact List.nodup_nil
  finite := by
    refine (Set.toFinite {namespaceA, namespaceB}).subset ?_
    rintro N (h | h)
    · exact absurd rfl h
    · by_contra hN
      obtain ⟨hA, hB⟩ := not_or.mp hN
      have hB' : N ≠ namespaceB := hB
      exact h (by rw [if_neg hA, if_neg hB'])

/-- `A::x`, with `x` nowhere declared. -/
def queryX : Query where
  x := .Identifier "x"
  tag := .NoTag
  mask := {.type, .namespace, .variable, .function}
  typeOnly h := absurd rfl h

end Namespaces

end CSemantics.Cpp
