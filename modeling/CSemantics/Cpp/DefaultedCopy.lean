/-
  Arrays in a defaulted copy constructor.

  A member of array type is initialised by a braced list of the elements of the source, dimension by dimension.  The
  list is written from the LAST element to the first, and it is read from the first:

      struct S { int a[2]; };      S(const S &other) : a{other.a[1], other.a[0]} {}

  Each dimension is mirrored, so the copy is right only where there is nothing to mirror.
-/
import CSemantics.Cpp.ConversionSequences

namespace CSemantics.Cpp

/-! ## The initializer -/

/-- `other . X`, `E[I]` and `StaticCast(T, E)` -/
inductive CopyExpr
  | member (X : CId)
  | elem (E : CopyExpr) (I : Int)
  | staticCast (T : CPPType) (E : CopyExpr)

/-- An expression, or `BraceInit(L)`. -/
inductive CopyInit
  | expr (E : CopyExpr)
  | brace (L : List CopyInit)

/-- `copyOrMoveInitializeArrayMember`, where `f` is for the element with this index. -/
def copyOrMoveInitializeArrayMember (f : Int → Option CopyInit) : Nat → Option (List CopyInit)
  | 0 => some []
  | N + 1 => (f N).bind fun i => (copyOrMoveInitializeArrayMember f N).map (i :: ·)

/-- An array of unknown length has no rule, and a negative length neither. -/
def copyOrMoveInitializeMember : CPPType → CopyExpr → Option CopyInit
  | .t _ _ (.arrayType T N), E =>
    if 0 ≤ N then
      (copyOrMoveInitializeArrayMember (fun I => copyOrMoveInitializeMember T (E.elem I)) N.toNat).map .brace
    else none
  | .t _ _ (.incompleteArrayType _), _ => none
  | .t _ _ (.dynamicArrayType _), _ => none
  | .t q m (.rvRefType T), E => some (.expr (.staticCast (.t q m (.rvRefType T)) E))
  | _, E => some (.expr E)

/-- `addQuals` -/
def addQuals : Quals → CPPType → CPPType
  | q', .t q m st => .t (q.plus q') m st

/-! ## The initialization -/

/-- The member that is initialised, and its elements. -/
inductive Dest
  | member (X : CId)
  | elem (base : Dest) (I : Int)

/-- What the initialization asks, and what it does with objects that are no arrays when they are not initialised by
    an expression. -/
structure InitEnv extends OverloadEnv where
  /-- `<is-aggregate>` -/
  isAggregateClass : Class → Bool
  isBaseClassOf : Class → Class → Bool
  isBaseClassOf_iff : ∀ B D, isBaseClassOf B D = true ↔ toEnv.IsBaseClassOf B D
  /-- The two types are handed to `computeConversionSequence` in this order. -/
  canBeImplicitlyConvertedTo : CPPType → ValueCategory → CPPType → Bool
  canBeImplicitlyConvertedTo_iff : ∀ From C To, canBeImplicitlyConvertedTo From C To = true ↔
    ∃ S, ComputeConversionSequence toOverloadEnv From (.exp To C) false false true S ∧ S ≠ .cannotConvert
  canConvertWithStandardConversion : CPPType → CPPType → ValueCategory → Bool
  canConvertWithStandardConversion_iff : ∀ P A C, canConvertWithStandardConversion P A C = true ↔
    ∃ S, ComputeSCS toEnv P A C false S ∧ S ≠ .cannotConvert
  initOther : CPPType → Dest → CopyInit → Option (List (Dest × CopyExpr) × List CopyInit)

/-- `typeof`, where `S` is the type of `other . X`. -/
def typeofCopy (S : CPPType) : CopyExpr → CPPType
  | .member _ => S
  | .elem E _ => innerType (typeofCopy S E)
  | .staticCast T _ => T

def catofCopy : CopyExpr → ValueCategory
  | .member _ | .elem _ _ => .lvalue
  | .staticCast _ _ => .xvalue

namespace InitEnv

variable (env : InitEnv) (S : CPPType)

def isAggregateType (T : CPPType) : Bool :=
  isCPPArrayType T || match T.simpleType with | .classType C => env.isAggregateClass C | _ => false

/-- `braceElisionYes`: the initializer is not for this element, but for the first in it. -/
def braceElision (T : CPPType) : CopyInit → Bool
  | .brace _ => false
  | .expr E => env.isAggregateType T && !env.canBeImplicitlyConvertedTo (typeofCopy S E) (catofCopy E) T

/-- Initializers that an inner array has left go to the array around it, if it has none. -/
def resume (rest L : List CopyInit) : Option (List CopyInit) :=
  match rest, L with
  | [], L => some L
  | rest, [] => some rest
  | _, _ => none

/-- `arrayInit`, with `k` elements from `I` on to initialise by `init`: what each expression initialises, and the
    initializers that are left. -/
def arrayInit (init : Dest → CopyInit → Option (List (Dest × CopyExpr) × List CopyInit)) (T : CPPType) (base : Dest) :
    Nat → Int → List CopyInit → Option (List (Dest × CopyExpr) × List CopyInit)
  | 0, _, L => some ([], L)
  | k + 1, I, [] => do
    let (res, rest) ← init (base.elem I) (.brace [])
    let (res', L') ← arrayInit init T base k (I + 1) rest
    some (res ++ res', L')
  | k + 1, I, i :: L =>
    if env.braceElision S T i then do
      let (res, rest) ← init (base.elem I) (.brace (i :: L))
      let (res', L') ← arrayInit init T base k (I + 1) rest
      some (res ++ res', L')
    else do
      let (res, rest) ← init (base.elem I) i
      let L ← resume rest L
      let (res', L') ← arrayInit init T base k (I + 1) L
      some (res ++ res', L')

/-- `#figureInit`, by an expression. -/
def initExpr (T : CPPType) (base : Dest) (E : CopyExpr) : Option (List (Dest × CopyExpr) × List CopyInit) :=
  match T.simpleType, (typeofCopy S E).simpleType with
  | .classType B, .classType D => if env.isBaseClassOf B D then some ([(base, E)], []) else none
  | _, _ =>
    if isCPPClassType T || isCPPClassType (typeofCopy S E) || isCPPArrayType T then none
    else if isCPPRefType T then env.initOther T base (.expr E)
    else if env.canConvertWithStandardConversion T (typeofCopy S E) (catofCopy E) then some ([(base, E)], [])
    else none

/-- `#figureInit` -/
def figureInit : CPPType → Dest → CopyInit → Option (List (Dest × CopyExpr) × List CopyInit)
  | .t _ _ (.arrayType T N), base, .brace L =>
    if 0 ≤ N then env.arrayInit S (figureInit T) T base N.toNat 0 L else none
  | T, base, .expr E => env.initExpr S T base E
  | T, base, .brace L => env.initOther T base (.brace L)

end InitEnv

/-! ## What the copy does -/

/-- An array with these lengths, of elements that are objects. -/
inductive IsArrayOf : CPPType → List Nat → Prop
  | element {T : CPPType} (harray : isCPPArrayType T = false) (href : isCPPRefType T = false)
      (hfunction : isCPPFunctionType T = false) : IsArrayOf T []
  | array {q : Quals} {m : Finset String} {T : CPPType} {n : Nat} {ns : List Nat} (h : IsArrayOf T ns) :
      IsArrayOf (.t q m (.arrayType T n)) (n :: ns)

/-- `a[i1]...[ik]` -/
def elemAt {α : Type} (elem : α → Int → α) : α → List Nat → α
  | a, [] => a
  | a, i :: ix => elemAt elem (elem a i) ix

/-- An index for each dimension. -/
def InRange (ns ix : List Nat) : Prop := List.Forall₂ (fun n i => i < n) ns ix

/-- The last element becomes the first one, in each dimension. -/
def mirror (ns ix : List Nat) : List Nat := List.zipWith (fun n i => n - 1 - i) ns ix

/-- What is initialised by what. -/
def copies : List Nat → Dest → CopyExpr → List (Dest × CopyExpr)
  | [], base, E => [(base, E)]
  | n :: ns, base, E =>
    (List.range n).flatMap fun i : Nat => copies ns (base.elem i) (E.elem ((n - 1 - i : Nat) : Int))

theorem mem_copies {ns : List Nat} {base : Dest} {E : CopyExpr} {c : Dest × CopyExpr} :
    c ∈ copies ns base E ↔
      ∃ ix, InRange ns ix ∧ c = (elemAt Dest.elem base ix, elemAt CopyExpr.elem E (mirror ns ix)) := by
  induction ns generalizing base E with
  | nil =>
    constructor
    · intro h
      exact ⟨[], .nil, List.mem_singleton.mp h⟩
    · rintro ⟨ix, hix, rfl⟩
      cases hix
      exact List.mem_singleton.mpr rfl
  | cons n ns ih =>
    simp only [copies, List.mem_flatMap, List.mem_range, ih]
    constructor
    · rintro ⟨i, hi, ix, hix, rfl⟩
      exact ⟨i :: ix, .cons hi hix, rfl⟩
    · rintro ⟨ix, hix, rfl⟩
      cases hix with
      | cons hi hix => exact ⟨_, hi, _, hix, rfl⟩

/-- Different indices, different elements. -/
theorem elemAt_injective {α : Type} {elem : α → Int → α}
    (helem : ∀ a b i j, elem a i = elem b j → a = b ∧ i = j) {ix jx : List Nat} (hlen : ix.length = jx.length) {a b : α}
    (h : elemAt elem a ix = elemAt elem b jx) : a = b ∧ ix = jx := by
  induction ix generalizing jx a b with
  | nil =>
    obtain rfl := List.length_eq_zero_iff.mp hlen.symm
    exact ⟨h, rfl⟩
  | cons i ix ih =>
    match jx, hlen with
    | j :: jx, hlen =>
      obtain ⟨hab, rfl⟩ := ih (Nat.succ.inj hlen) h
      obtain ⟨rfl, hij⟩ := helem _ _ _ _ hab
      exact ⟨rfl, by rw [Int.ofNat.inj hij]⟩

theorem length_mirror {ns ix : List Nat} (h : InRange ns ix) : (mirror ns ix).length = ix.length := by
  rw [mirror, List.length_zipWith, List.Forall₂.length_eq h, Nat.min_self]

/-- Nothing changes places: an array without elements, or with one. -/
theorem mirror_eq_iff (ns : List Nat) :
    (∀ ix, InRange ns ix → mirror ns ix = ix) ↔ 0 ∈ ns ∨ ∀ n ∈ ns, n ≤ 1 := by
  constructor
  · intro h
    by_cases hzero : 0 ∈ ns
    · exact .inl hzero
    · -- the element with all indices 0 is the last one as well
      have hfirst : ∀ ns : List Nat, 0 ∉ ns → InRange ns (List.replicate ns.length 0) ∧
          (mirror ns (List.replicate ns.length 0) = List.replicate ns.length 0 → ∀ n ∈ ns, n ≤ 1) := by
        intro ns hns
        induction ns with
        | nil => exact ⟨.nil, by simp⟩
        | cons m ns ih =>
          rw [List.mem_cons, not_or] at hns
          obtain ⟨hrange, hle⟩ := ih hns.2
          refine ⟨.cons (by omega) hrange, fun hmirror => ?_⟩
          simp only [mirror, List.length_cons, List.replicate_succ, List.zipWith_cons_cons, List.cons.injEq] at hmirror
          exact List.forall_mem_cons.mpr ⟨by omega, hle hmirror.2⟩
      exact .inr ((hfirst ns hzero).2 (h _ (hfirst ns hzero).1))
  · rintro (hzero | hone) ix hix
    · have hfalse : False := by
        induction hix with
        | nil => cases hzero
        | cons hi _ ih =>
          rcases List.mem_cons.mp hzero with rfl | hzero
          · omega
          · exact ih hzero
      exact hfalse.elim
    · induction hix with
      | nil => rfl
      | cons hi _ ih =>
        rw [List.forall_mem_cons] at hone
        simp only [mirror, List.zipWith_cons_cons, List.cons.injEq] at ih ⊢
        exact ⟨by omega, ih hone.2⟩

/-! ## The copy of a member -/

theorem copyOrMoveInitializeArrayMember_eq {f : Int → Option CopyInit} {g : Nat → CopyInit}
    (hf : ∀ i : Nat, f i = some (g i)) (N : Nat) :
    copyOrMoveInitializeArrayMember f N = some ((List.range N).reverse.map g) := by
  induction N with
  | zero => rfl
  | succ N ih => rw [copyOrMoveInitializeArrayMember, hf, ih, List.range_succ]; simp

namespace InitEnv

variable {env : InitEnv} {S : CPPType}

/-- The elements are initialised from the first, by the list from its head. -/
theorem arrayInit_eq {init : Dest → CopyInit → Option (List (Dest × CopyExpr) × List CopyInit)} {T : CPPType}
    {base : Dest} {g : Nat → CopyInit} {r : Dest → Nat → List (Dest × CopyExpr)}
    (hinit : ∀ b i, init b (g i) = some (r b i, [])) (helide : ∀ i, env.braceElision S T (g i) = false) (k I : Nat) :
    env.arrayInit S init T base k I ((List.range k).reverse.map g) =
      some ((List.range k).flatMap fun j : Nat => r (base.elem ((I + j : Nat) : Int)) (k - 1 - j), []) := by
  induction k generalizing I with
  | zero => rfl
  | succ k ih =>
    have hlist : (List.range (k + 1)).reverse.map g = g k :: (List.range k).reverse.map g := by
      rw [List.range_succ]
      simp
    rw [hlist, arrayInit, if_neg (by simp [helide]), hinit]
    have hnext : ((I : Int) + 1) = ((I + 1 : Nat) : Int) := by omega
    simp only [resume, hnext, ih, Option.bind_eq_bind, Option.bind_some]
    rw [List.range_succ_eq_map, List.flatMap_cons, List.flatMap_map]
    congr 2
    refine congrArg (_ ++ ·) (List.flatMap_congr fun j _ => ?_)
    rw [show I + 1 + j = I + j.succ by omega, show k - 1 - j = k + 1 - 1 - j.succ by omega]

/-- An lvalue converts to its own type. -/
theorem exists_computeSCS_self (env : Env) {T : CPPType} (harray : isCPPArrayType T = false)
    (hfunction : isCPPFunctionType T = false) (B : Bool) :
    ∃ C3, ComputeSCS env T T .lvalue B (.standardConversionSequence .lvalueConversion .identity C3 false T) := by
  have hfirst : firstConversion T .lvalue = some (.lvalueConversion, prvalType T) := by
    simp [firstConversion, harray, hfunction]
  have hprval : utype (prvalType T) = utype T := by
    unfold prvalType
    split
    · rfl
    · exact utype_utype T
  have heq : eqType (utype T) (utype (prvalType T)) = true := by
    rw [hprval]
    exact eqType_refl _
  have hidentity : SCS2Rule env T (prvalType T) B .identity (prvalType T) :=
    .identity (isSimilar_of_stripType (eqType_iff.mp heq))
  have hrule := ComputeSCS2.rule (C := .lvalueConversion) hidentity
  rw [computeSCS3_of_le _ _ (leQualSig_of_eqType heq)] at hrule
  refine ⟨thirdConversion T (prvalType T), ?_⟩
  rwa [ComputeSCS, hfirst]

/-- An object of a class converts to the class: it is no list of initializers for its members. -/
theorem canBeImplicitlyConvertedTo_self {T : CPPType} (hclass : isCPPClassType T = true) :
    env.canBeImplicitlyConvertedTo T .lvalue T = true := by
  obtain ⟨q, m, st⟩ := T
  obtain ⟨X, hX⟩ := exists_classType hclass
  obtain rfl : st = .classType X := hX
  obtain ⟨C3, hscs⟩ := exists_computeSCS_self env.toEnv (T := utype (.t q m (.classType X))) rfl rfl true
  have hconv : ComputeConversionSequence env.toOverloadEnv (.t q m (.classType X)) (.exp (.t q m (.classType X)) .lvalue)
      false false true (.standardConversionSequence .lvalueConversion .identity C3 false (.t q m (.classType X))) := by
    rw [ComputeConversionSequence, if_pos rfl]
    exact .value rfl (.inr (.inl (eqType_refl _))) hscs
  exact (env.canBeImplicitlyConvertedTo_iff _ _ _).mpr ⟨_, hconv, fun h => by cases h⟩

theorem canConvertWithStandardConversion_self {T : CPPType} (harray : isCPPArrayType T = false)
    (hfunction : isCPPFunctionType T = false) : env.canConvertWithStandardConversion T T .lvalue = true := by
  obtain ⟨C3, hscs⟩ := exists_computeSCS_self env.toEnv harray hfunction false
  exact (env.canConvertWithStandardConversion_iff _ _ _).mpr ⟨_, hscs, fun h => by cases h⟩

/-- What the initializer for `E` does to an object of type `T`. -/
structure Mirrors (env : InitEnv) (S T : CPPType) (ns : List Nat) (E : CopyExpr) (i : CopyInit) : Prop where
  initializer : copyOrMoveInitializeMember T E = some i
  figureInit : ∀ base, env.figureInit S T base i = some (copies ns base E, [])
  noElision : env.braceElision S T i = false

/-- One object that is no array. -/
theorem mirrors_element {T : CPPType} {E : CopyExpr} (harray : isCPPArrayType T = false) (href : isCPPRefType T = false)
    (hfunction : isCPPFunctionType T = false) (htype : typeofCopy S E = T) (hcat : catofCopy E = .lvalue) :
    Mirrors env S T [] E (.expr E) := by
  obtain ⟨q, m, st⟩ := T
  have hbase : ∀ C, env.isBaseClassOf C C = true := fun C => (env.isBaseClassOf_iff C C).mpr .refl
  have hexpr : ∀ base, env.initExpr S (.t q m st) base E = some ([(base, E)], []) := by
    intro base
    unfold initExpr
    rw [htype, hcat]
    cases hclass : isCPPClassType (.t q m st) with
    | true =>
      obtain ⟨X, hX⟩ := exists_classType hclass
      simp [hX, hbase]
    | false =>
      have hstandard : env.canConvertWithStandardConversion (.t q m st) (.t q m st) .lvalue = true :=
        canConvertWithStandardConversion_self harray hfunction
      split
      · rename_i B D hB _
        simp [isCPPClassType, hB] at hclass
      · simp [harray, href, hstandard]
  have hnoElision : env.braceElision S (.t q m st) (.expr E) = false := by
    simp only [braceElision, htype, hcat]
    cases hclass : isCPPClassType (.t q m st) with
    | true => simp [canBeImplicitlyConvertedTo_self hclass]
    | false =>
      have haggregate : env.isAggregateType (.t q m st) = false := by
        rw [isAggregateType, harray, Bool.false_or]
        cases st <;> first | rfl | cases hclass
      rw [haggregate, Bool.false_and]
  refine ⟨?_, fun base => ?_, hnoElision⟩
  · cases st with
    | arrayType T n => exact Bool.noConfusion (show true = false from harray)
    | incompleteArrayType T => exact Bool.noConfusion (show true = false from harray)
    | dynamicArrayType T => exact Bool.noConfusion (show true = false from harray)
    | rvRefType T => exact Bool.noConfusion (show true = false from href)
    | _ => rfl
  · rw [copies, ← hexpr base]
    cases st <;> rfl

/-- An array, if that is how its elements are initialised. -/
theorem mirrors_array {q : Quals} {m : Finset String} {T : CPPType} {n : Nat} {ns : List Nat} {E : CopyExpr}
    (h : ∀ I : Int, ∃ i, Mirrors env S T ns (E.elem I) i) :
    ∃ i, Mirrors env S (.t q m (.arrayType T n)) (n :: ns) E i := by
  choose g hg using h
  refine ⟨.brace ((List.range n).reverse.map fun i : Nat => g i), ?_, fun base => ?_, rfl⟩
  · rw [copyOrMoveInitializeMember, if_pos (by omega), Int.toNat_natCast,
      copyOrMoveInitializeArrayMember_eq fun i => (hg i).initializer]
    rfl
  · rw [InitEnv.figureInit, if_pos (by omega), Int.toNat_natCast]
    have hall := @arrayInit_eq env S (env.figureInit S T) T base (fun i : Nat => g i) (fun b i => copies ns b (E.elem i))
      (fun b i => (hg i).figureInit b) (fun i => (hg i).noElision) n 0
    simpa [copies] using hall

/-- **The elements are mirrored**, in each dimension. -/
theorem exists_mirrors {T : CPPType} {ns : List Nat} (h : IsArrayOf T ns) {E : CopyExpr} (htype : typeofCopy S E = T)
    (hcat : catofCopy E = .lvalue) : ∃ i, Mirrors env S T ns E i := by
  induction h generalizing E with
  | element harray href hfunction => exact ⟨_, mirrors_element harray href hfunction htype hcat⟩
  | @array q m T n ns _ ih =>
    refine mirrors_array fun I => ih ?_ rfl
    rw [typeofCopy, htype]
    rfl

end InitEnv

/-- The defaulted copy constructor of a class with the member `X` of type `T`, where `other` has the qualifiers `q`,
    initialises each element of `X` by the element of `other . X` with the same indices, and by nothing else. -/
def CopiesElements (env : InitEnv) (q : Quals) (X : CId) (T : CPPType) (ns : List Nat) : Prop :=
  ∃ i res, copyOrMoveInitializeMember T (.member X) = some i ∧
    env.figureInit (addQuals q T) T (.member X) i = some (res, []) ∧
    ∀ ix, InRange ns ix → ∀ E, (elemAt Dest.elem (.member X) ix, E) ∈ res ↔ E = elemAt CopyExpr.elem (.member X) ix

theorem copiesElements_iff_mirror (env : InitEnv) (q : Quals) (X : CId) {T : CPPType} {n : Nat} {ns : List Nat}
    (h : IsArrayOf T (n :: ns)) :
    CopiesElements env q X T (n :: ns) ↔ ∀ ix, InRange (n :: ns) ix → mirror (n :: ns) ix = ix := by
  have hmirrors : ∃ i, InitEnv.Mirrors env (addQuals q T) T (n :: ns) (.member X) i := by
    cases h with
    | array h => exact InitEnv.mirrors_array fun I => InitEnv.exists_mirrors h rfl rfl
  obtain ⟨i, hi⟩ := hmirrors
  have hmem : ∀ ix, InRange (n :: ns) ix → ∀ E,
      (elemAt Dest.elem (.member X) ix, E) ∈ copies (n :: ns) (.member X) (.member X) ↔
        E = elemAt CopyExpr.elem (.member X) (mirror (n :: ns) ix) := by
    intro ix hix E
    rw [mem_copies]
    constructor
    · rintro ⟨jx, hjx, heq⟩
      have hlen : ix.length = jx.length := (List.Forall₂.length_eq hix).symm.trans (List.Forall₂.length_eq hjx)
      obtain ⟨-, rfl⟩ := elemAt_injective (by rintro a b i j ⟨⟩; exact ⟨rfl, rfl⟩) hlen (Prod.mk.inj heq).1
      exact (Prod.mk.inj heq).2
    · rintro rfl
      exact ⟨ix, hix, rfl⟩
  constructor
  · rintro ⟨i', res, hi', hres, hcopies⟩ ix hix
    obtain rfl : i = i' := Option.some.inj (hi.initializer.symm.trans hi')
    obtain ⟨rfl, -⟩ := Prod.mk.inj (Option.some.inj ((hi.figureInit _).symm.trans hres))
    have heq := (hmem ix hix _).mp ((hcopies ix hix _).mpr rfl)
    exact (elemAt_injective (by rintro a b i j ⟨⟩; exact ⟨rfl, rfl⟩) (length_mirror hix) heq.symm).2
  · intro hmirror
    refine ⟨i, _, hi.initializer, hi.figureInit _, fun ix hix E => ?_⟩
    rw [hmem ix hix, hmirror ix hix]

/-- **The copy is right** for arrays with one element at most. -/
theorem copiesElements_iff (env : InitEnv) (q : Quals) (X : CId) {T : CPPType} {n : Nat} {ns : List Nat}
    (h : IsArrayOf T (n :: ns)) : CopiesElements env q X T (n :: ns) ↔ 0 ∈ n :: ns ∨ ∀ m ∈ n :: ns, m ≤ 1 :=
  (copiesElements_iff_mirror env q X h).trans (mirror_eq_iff (n :: ns))

/-- The classes of `envPA`, and nothing else. -/
noncomputable def plainInit : InitEnv where
  toOverloadEnv := envPA [] []
  isAggregateClass _ := false
  isBaseClassOf B D := @decide _ (Classical.propDecidable ((envPA [] []).toEnv.IsBaseClassOf B D))
  isBaseClassOf_iff _ _ := @decide_eq_true_iff _ (Classical.propDecidable _)
  canBeImplicitlyConvertedTo From C To := @decide (∃ S, ComputeConversionSequence (envPA [] []) From (.exp To C) false
    false true S ∧ S ≠ .cannotConvert) (Classical.propDecidable _)
  canBeImplicitlyConvertedTo_iff _ _ _ := @decide_eq_true_iff _ (Classical.propDecidable _)
  canConvertWithStandardConversion P A C := @decide (∃ S, ComputeSCS (envPA [] []).toEnv P A C false S ∧
    S ≠ .cannotConvert) (Classical.propDecidable _)
  canConvertWithStandardConversion_iff _ _ _ := @decide_eq_true_iff _ (Classical.propDecidable _)
  initOther _ _ _ := none

/-- `int [n]` -/
def intArray (n : Nat) : CPPType := (CPPSimpleType.arrayType intType n).type

theorem isArrayOf_intArray (n : Nat) : IsArrayOf (intArray n) [n] := .array (.element rfl rfl rfl)

/-- `struct S { int a[1]; };` -/
theorem copiesElements_one : CopiesElements plainInit noQuals (.Identifier "a") (intArray 1) [1] :=
  (copiesElements_iff plainInit noQuals _ (isArrayOf_intArray 1)).mpr (.inr (by decide))

/-- `struct S { int a[2]; };` -/
theorem int_array_reversed : ¬CopiesElements plainInit noQuals (.Identifier "a") (intArray 2) [2] := by
  rw [copiesElements_iff_mirror plainInit noQuals _ (isArrayOf_intArray 2)]
  intro h
  exact absurd (h [0] (.cons (by decide) .nil)) (by decide)

end CSemantics.Cpp
