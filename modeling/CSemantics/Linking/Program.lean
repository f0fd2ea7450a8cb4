/-
  A whole link: the objects of the translation units are loaded, and the references of the program are
  resolved.

  Loading merges the objects and checks the merges.  Then the symbols that can be reached from the entry
  point are found, and references are resolved: first those to symbols that can be reached, then the
  others.  What is done about a symbol without a definition is an option; by default a symbol that can be
  reached is an error and another one a warning.  The entry point itself is never looked for.

      link_spec                definitions and references
      resolveReferences_spec   symbols without a definition
-/
import CSemantics.Linking.Resolution

namespace CSemantics

open AssocMap Resolve

/-! ## Objects -/

/-- An object of one unit or several.  Of a unit's cells only `<genv>` matters here. -/
structure LinkObject extends GlobalCell where
  externalDecls : CId → Option (Finset String)
  externalUses : Finset CId
  linkingDeps : LinkingDeps
  linkings : SymBase → Option SymBase
  translationUnits : List (String × (CId → Option SymBase))

/-- `mergeDecls` -/
def mergeDecls (M1 M2 : CId → Option (Finset String)) (X : CId) : Option (Finset String) :=
  match M1 X, M2 X with
  | some T, some T' => some (T ∪ T')
  | some T, none => some T
  | none, T' => T'

/-- `mergeObj`, all cells. -/
def mergeLinkObject (o o' : LinkObject) : LinkObject where
  toGlobalCell := mergeObj o.toGlobalCell o'.toGlobalCell
  externalDecls := mergeDecls o.externalDecls o'.externalDecls
  externalUses := o.externalUses ∪ o'.externalUses
  linkingDeps := mergeLinkdep o.linkingDeps o'.linkingDeps
  linkings := fun B => (o'.linkings B).or (o.linkings B)
  translationUnits := o.translationUnits ++ o'.translationUnits

def emptyObject : LinkObject where
  toGlobalCell := initialGlobal
  externalDecls := fun _ => none
  externalUses := ∅
  linkingDeps := []
  linkings := fun _ => none
  translationUnits := []

/-- `load`, all cells. -/
def loadObjects (cfg : Settings) (tags : Tags) : List LinkObject → Eval LinkObject :=
  mergeQueue mergeLinkObject (fun o o' => checkMerge cfg tags o.toGlobalCell o'.toGlobalCell) (.ok emptyObject) fun o => do
    checkMerge cfg tags o.toGlobalCell initialGlobal
    return mergeLinkObject o emptyObject

/-! ## Resolving the references of a program -/

inductive UnresolvedSymbolsOpt
  | IgnoreAll | WarnUnreachable | ReportAll | WarnAll

inductive SymbolReachability
  | reachable | unreachable

def unresolvedSymbolHandling : UnresolvedSymbolsOpt → SymbolReachability → LinkErrorHandling
  | .IgnoreAll, _ => .linkIgnore
  | .WarnUnreachable, .reachable => .linkErrors
  | .WarnUnreachable, .unreachable => .linkWarnings
  | .ReportAll, _ => .linkErrors
  | .WarnAll, _ => .linkWarnings

def LinkdepNode.external? : LinkdepNode → Option CId
  | .linkdepNode X .external => some X
  | _ => none

def onlyExternal (M : List (LinkdepNode × CabsLoc)) : Finset CId := (M.filterMap fun p => p.1.external?).toFinset

/-- `resolveReferences(Entrypoint)`: what is put into the `<k>` cell when the symbols that can be reached are
    those of `M`. -/
def resolveReferences (opt : UnresolvedSymbolsOpt) (hasCPPMain : Bool) (entrypoint : String) (uses : Finset CId)
    (M : List (LinkdepNode × CabsLoc)) : List Resolve.Item :=
  if hasCPPMain then [.resolveCReferences uses (unresolvedSymbolHandling opt .reachable)]
  else
    [.resolveCReferences ((onlyExternal M).erase (.Identifier entrypoint)) (unresolvedSymbolHandling opt .reachable),
     .resolveCReferences ((uses \ onlyExternal M).erase (.Identifier entrypoint)) (unresolvedSymbolHandling opt .unreachable)]

/-- The program `o` with items to resolve. -/
def resolving (o : LinkObject) (k : List Resolve.Item) : Resolve.State where
  k := k
  externalDecls := o.externalDecls
  genv := fun Tu X => (o.translationUnits.lookup Tu).bind fun genv => genv X
  linkings := o.linkings
  warned := []

/-- What the translator makes: a definition has its type and its location; a symbol that is used has been
    declared; a unit that has declared a symbol has a base for it, and a dummy base is for one symbol of one unit
    and is linked when the unit itself has a definition, when it is the symbol's base no more. -/
structure Translated (o : LinkObject) : Prop where
  typed : o.DefsTyped
  used : ∀ X ∈ o.externalUses, o.externalTypes.lookup X ≠ none ∧ o.externalDecls X ≠ none
  nodup : (o.linkingDeps.map Prod.fst).Nodup
  edges : ∀ x y X, y ∈ targets o.linkingDeps x → y.external? = some X → X ∈ o.externalUses
  declares : ∀ X T, o.externalDecls X = some T → ∀ Tu ∈ T, ∃ genv, (Tu, genv) ∈ o.translationUnits ∧ genv X ≠ none
  dummies : ∀ Tu genv X B, (Tu, genv) ∈ o.translationUnits → genv X = some B → isLinkBase B →
    B.d = .link Tu ∧ o.linkings B = none ∧ ∀ Y, genv Y = some B → X = Y
  linked : ∀ B, o.linkings B ≠ none → ∃ Tu, Tu ∈ o.translationUnits.map Prod.fst ∧ B.d = .link Tu

/-- What the objects of a program make, each unit once. -/
structure TranslatedProgram (objs : List LinkObject) : Prop where
  objects : ∀ o ∈ objs, Translated o
  units : ((objs.flatMap LinkObject.translationUnits).map Prod.fst).Nodup

/-- `m` was merged from `l`. -/
structure LoadedFrom (m : LinkObject) (l : List LinkObject) : Prop where
  global : MergedFrom m.toGlobalCell (l.map LinkObject.toGlobalCell)
  defs : ∀ X B, m.externalDefs.lookup X = some B → ∃ o ∈ l, o.externalDefs.lookup X = some B
  decls : ∀ X T Tu, m.externalDecls X = some T → Tu ∈ T → ∃ o ∈ l, ∃ T', o.externalDecls X = some T' ∧ Tu ∈ T'
  declared : ∀ X, ∀ o ∈ l, ∀ T', o.externalDecls X = some T' → ∃ T, m.externalDecls X = some T ∧ T' ⊆ T
  uses : ∀ X, X ∈ m.externalUses ↔ ∃ o ∈ l, X ∈ o.externalUses
  deps : MergedDeps (l.map LinkObject.linkingDeps) m.linkingDeps
  linkings : ∀ B, m.linkings B ≠ none → ∃ o ∈ l, o.linkings B ≠ none
  units : m.translationUnits = l.flatMap LinkObject.translationUnits

section Loading

variable {cfg : Settings} {tags : Tags} {m m' : LinkObject} {l l' objs : List LinkObject}

theorem LoadedFrom.single {o : LinkObject} (h : Translated o) : LoadedFrom o [o] where
  global := .single o.toGlobalCell
  defs := fun _ _ hB => ⟨o, List.mem_singleton_self o, hB⟩
  decls := fun _ T _ hT hTu => ⟨o, List.mem_singleton_self o, T, hT, hTu⟩
  declared := by
    intro X o' ho' T' hT'
    rw [List.mem_singleton.mp ho'] at hT'
    exact ⟨T', hT', subset_rfl⟩
  uses := by simp
  deps := .single h.nodup
  linkings := fun _ hB => ⟨o, List.mem_singleton_self o, hB⟩
  units := by simp

theorem mergeDecls_eq_some {M1 M2 : CId → Option (Finset String)} {X : CId} {T : Finset String} {Tu : String}
    (h : mergeDecls M1 M2 X = some T) (hTu : Tu ∈ T) :
    (∃ T', M1 X = some T' ∧ Tu ∈ T') ∨ ∃ T', M2 X = some T' ∧ Tu ∈ T' := by
  unfold mergeDecls at h
  cases h1 : M1 X with
  | none =>
    rw [h1] at h
    exact .inr ⟨T, h, hTu⟩
  | some T1 =>
    cases h2 : M2 X with
    | none =>
      simp only [h1, h2, Option.some.injEq] at h
      exact .inl ⟨T1, rfl, h ▸ hTu⟩
    | some T2 =>
      simp only [h1, h2, Option.some.injEq] at h
      rw [← h, Finset.mem_union] at hTu
      exact hTu.imp (fun hTu => ⟨T1, rfl, hTu⟩) fun hTu => ⟨T2, rfl, hTu⟩

theorem mergeDecls_left {M1 : CId → Option (Finset String)} {X : CId} {T' : Finset String} (h : M1 X = some T')
    (M2 : CId → Option (Finset String)) :
    ∃ T, mergeDecls M1 M2 X = some T ∧ T' ⊆ T := by
  unfold mergeDecls
  rw [h]
  cases M2 X with
  | none => exact ⟨T', rfl, subset_rfl⟩
  | some T2 => exact ⟨_, rfl, Finset.subset_union_left⟩

theorem mergeDecls_right {M2 : CId → Option (Finset String)} {X : CId} {T' : Finset String} (h : M2 X = some T')
    (M1 : CId → Option (Finset String)) :
    ∃ T, mergeDecls M1 M2 X = some T ∧ T' ⊆ T := by
  unfold mergeDecls
  rw [h]
  cases M1 X with
  | none => exact ⟨T', rfl, subset_rfl⟩
  | some T1 => exact ⟨_, rfl, Finset.subset_union_right⟩

theorem LoadedFrom.merge (h : LoadedFrom m l) (h' : LoadedFrom m' l') : LoadedFrom (mergeLinkObject m m') (l ++ l') where
  global := by
    rw [List.map_append]
    exact h.global.merge h'.global
  defs := by
    intro X B hB
    simp only [mergeLinkObject, mergeObj, lookup_updateMap, Option.or_eq_some_iff] at hB
    rcases hB with hB | ⟨-, hB⟩
    · obtain ⟨o, ho, hoB⟩ := h'.defs X B hB
      exact ⟨o, List.mem_append_right l ho, hoB⟩
    · obtain ⟨o, ho, hoB⟩ := h.defs X B hB
      exact ⟨o, List.mem_append_left l' ho, hoB⟩
  decls := by
    intro X T Tu hT hTu
    rcases mergeDecls_eq_some hT hTu with ⟨T', hT', hmem⟩ | ⟨T', hT', hmem⟩
    · obtain ⟨o, ho, hoT⟩ := h.decls X T' Tu hT' hmem
      exact ⟨o, List.mem_append_left l' ho, hoT⟩
    · obtain ⟨o, ho, hoT⟩ := h'.decls X T' Tu hT' hmem
      exact ⟨o, List.mem_append_right l ho, hoT⟩
  declared := by
    intro X o ho T' hT'
    rcases List.mem_append.mp ho with ho | ho
    · obtain ⟨T, hT, hsub⟩ := h.declared X o ho T' hT'
      obtain ⟨T'', hT'', hsub'⟩ := mergeDecls_left hT m'.externalDecls
      exact ⟨T'', hT'', hsub.trans hsub'⟩
    · obtain ⟨T, hT, hsub⟩ := h'.declared X o ho T' hT'
      obtain ⟨T'', hT'', hsub'⟩ := mergeDecls_right hT m.externalDecls
      exact ⟨T'', hT'', hsub.trans hsub'⟩
  uses := by
    intro X
    simp only [mergeLinkObject, Finset.mem_union, h.uses, h'.uses, List.mem_append, or_and_right, exists_or]
  deps := by
    rw [List.map_append]
    exact .merge h.deps h'.deps (List.Perm.refl _)
  linkings := by
    intro B hB
    simp only [mergeLinkObject, ne_eq, Option.or_eq_none_iff, not_and_or] at hB
    rcases hB with hB | hB
    · obtain ⟨o, ho, hoB⟩ := h'.linkings B hB
      exact ⟨o, List.mem_append_right l ho, hoB⟩
    · obtain ⟨o, ho, hoB⟩ := h.linkings B hB
      exact ⟨o, List.mem_append_left l' ho, hoB⟩
  units := by
    rw [List.flatMap_append, ← h.units, ← h'.units]
    rfl

theorem LoadedFrom.empty : LoadedFrom emptyObject [] where
  global := ⟨fun _ _ hT => (nomatch hT), fun _ _ ho => absurd ho List.not_mem_nil, fun _ => by simp [emptyObject, initialGlobal]⟩
  defs := fun _ _ hB => nomatch hB
  decls := fun _ _ _ hT => nomatch hT
  declared := fun _ _ ho => absurd ho List.not_mem_nil
  uses := by simp [emptyObject]
  deps := .empty
  linkings := fun _ hB => absurd rfl hB
  units := rfl

/-- **A program that loads** was merged from its objects. -/
theorem loadObjects_loadedFrom (hobjs : ∀ o ∈ objs, Translated o) (hm : loadObjects cfg tags objs = .ok m) :
    ∃ l, LoadedFrom m l ∧ l.Perm objs := by
  by_cases hne : objs = []
  · subst hne
    unfold loadObjects at hm
    rw [mergeQueue] at hm
    cases hm
    exact ⟨[], .empty, .refl _⟩
  · have hrep : List.Forall₂ LoadedFrom objs (objs.map fun o => [o]) :=
      List.forall₂_map_right_iff.mpr (List.forall₂_same.mpr fun o ho => .single (hobjs o ho))
    have hmerge : ∀ {a b l l'}, LoadedFrom a l → LoadedFrom b l' → LoadedFrom (mergeLinkObject a b) (l ++ l') :=
      LoadedFrom.merge
    obtain ⟨a, l, ha, hl, hfin⟩ := mergeQueue_rep hmerge objs _ hrep hne hm
    rw [← List.flatMap_def, List.flatMap_singleton'] at hl
    obtain ⟨-, -, heq⟩ := Eval.bind_eq_ok.mp hfin
    cases heq
    have hlast := ha.merge .empty
    rw [List.append_nil] at hlast
    exact ⟨l, hlast, hl⟩

/-! ### What a load can fail with -/

/-- The checks look at some of the cells only. -/
theorem loadObjects_toGlobalCell (cfg : Settings) (tags : Tags) (objs : List LinkObject) :
    (loadObjects cfg tags objs).map LinkObject.toGlobalCell = load cfg tags (objs.map LinkObject.toGlobalCell) := by
  unfold loadObjects load
  refine mergeQueue_map (f := LinkObject.toGlobalCell) (g := LinkObject.toGlobalCell) (fun _ _ => rfl) (fun _ _ => rfl) rfl
    (fun o => ?_) objs
  cases checkMerge cfg tags o.toGlobalCell initialGlobal with
  | error e => rfl
  | ok u => rfl

/-- Two of the objects define `X`. -/
def DefinedTwice (objs : List GlobalCell) (X : CId) : Prop :=
  ∃ o o', [o, o'].Sublist objs ∧ o.externalDefs.lookup X ≠ none ∧ o'.externalDefs.lookup X ≠ none

/-- Two of the objects declare `X` with types that are not compatible. -/
def DeclaredDifferently (cfg : Settings) (tags : Tags) (objs : List GlobalCell) (X : CId) : Prop :=
  ∃ o o' T T', [o, o'].Sublist objs ∧ o.externalTypes.lookup X = some T ∧ o'.externalTypes.lookup X = some T' ∧
    areDeclCompat cfg tags T T' = false

theorem pairwise_defsDisjoint_iff {objs : List GlobalCell} :
    objs.Pairwise DefsDisjoint ↔ ¬∃ X, DefinedTwice objs X := by
  rw [List.pairwise_iff_forall_sublist]
  constructor
  · rintro h ⟨X, o, o', hsub, ho, ho'⟩
    exact (h hsub X).elim ho ho'
  · intro h o o' hsub X
    by_contra hcon
    rw [not_or] at hcon
    exact h ⟨X, o, o', hsub, hcon.1, hcon.2⟩

/-- Two different leaves are two of the objects, in one order or the other. -/
theorem sublist_of_leaves {objs l l' : List GlobalCell} {o o' : GlobalCell} (hsub : (l ++ l').Subperm objs) (ho : o ∈ l)
    (ho' : o' ∈ l') : [o, o'].Sublist objs ∨ [o', o].Sublist objs := by
  have hpair : [o, o'].Subperm (l ++ l') :=
    ((List.singleton_sublist.mpr ho).append (List.singleton_sublist.mpr ho')).subperm
  obtain ⟨k, hk, hkobjs⟩ := hpair.trans hsub
  rcases List.perm_pair.mp hk with rfl | rfl
  · exact .inl hkobjs
  · exact .inr hkobjs

theorem defsTyped_mergeObj {o o' : GlobalCell} (h : o.DefsTyped) (h' : o'.DefsTyped) : (mergeObj o o').DefsTyped := by
  intro X
  simp only [mergeObj, lookup_updateMap, ne_eq, Option.or_eq_none_iff, not_and_or]
  rintro (hX | hX)
  · exact ⟨.inl (h' X hX).1, .inl (h' X hX).2⟩
  · exact ⟨.inr (h X hX).1, .inr (h X hX).2⟩

/-- **A load that fails** reports an identifier that two of the objects define, or declare with types that are
    not compatible. -/
theorem load_error_cases (objs : List GlobalCell) (hobjs : ∀ o ∈ objs, o.DefsTyped) {e : Stop}
    (he : load cfg tags objs = .error e) : ∃ X, (e = multipleDefs X ∧ DefinedTwice objs X) ∨
      (e = incompatibleTypes X ∧ DeclaredDifferently cfg tags objs X) := by
  let Rep : GlobalCell → List GlobalCell → Prop := fun m l => MergedFrom m l ∧ m.DefsTyped
  have hmerge : ∀ {a b l l'}, Rep a l → Rep b l' → Rep (mergeObj a b) (l ++ l') :=
    fun ha hb => ⟨ha.1.merge hb.1, defsTyped_mergeObj ha.2 hb.2⟩
  have hrep : List.Forall₂ Rep objs (objs.map fun o => [o]) :=
    List.forall₂_map_right_iff.mpr (List.forall₂_same.mpr fun o ho => ⟨.single o, hobjs o ho⟩)
  have hflat : (objs.map fun o => [o]).flatten.Perm objs := by
    rw [← List.flatMap_def, List.flatMap_singleton']
  let P : Stop → Prop := fun e => ∃ X, (e = multipleDefs X ∧ DefinedTwice objs X) ∨
    (e = incompatibleTypes X ∧ DeclaredDifferently cfg tags objs X)
  refine mergeQueue_error_leaves (P := P) hmerge ?_ (fun h => by cases h) ?_ objs _ hrep hflat he
  · intro a b l l' e ha hb hsub hc
    rcases checkMerge_error_cases ha.2 hb.2 hc with ⟨X, rfl, hX, hX'⟩ | ⟨X, T, T', rfl, hT, hT', hcompat⟩
    · refine ⟨X, .inl ⟨rfl, ?_⟩⟩
      rw [ne_eq, ha.1.defined] at hX
      rw [ne_eq, hb.1.defined] at hX'
      push Not at hX hX'
      obtain ⟨o, ho, hoX⟩ := hX
      obtain ⟨o', ho', hoX'⟩ := hX'
      rcases sublist_of_leaves hsub ho ho' with hpair | hpair
      · exact ⟨o, o', hpair, hoX, hoX'⟩
      · exact ⟨o', o, hpair, hoX', hoX⟩
    · refine ⟨X, .inr ⟨rfl, ?_⟩⟩
      obtain ⟨o, ho, hoT⟩ := ha.1.typeOf X T hT
      obtain ⟨o', ho', hoT'⟩ := hb.1.typeOf X T' hT'
      rcases sublist_of_leaves hsub ho ho' with hpair | hpair
      · exact ⟨o, o', T, T', hpair, hoT, hoT', hcompat⟩
      · exact ⟨o', o, T', T, hpair, hoT', hoT, by rw [areDeclCompat_comm]; exact hcompat⟩
  · intro a l e _ hf
    have hok : checkMerge cfg tags a initialGlobal = .ok () :=
      checkMerge_eq_ok_iff.mpr ⟨typesAgree_initialGlobal, defsDisjoint_initialGlobal⟩
    rw [hok] at hf
    cases hf

/-- A load that passes has each definition once. -/
theorem defsDisjoint_of_load {objs : List GlobalCell} {g : GlobalCell} (hg : load cfg tags objs = .ok g) :
    objs.Pairwise DefsDisjoint := by
  let checkDefs : GlobalCell → GlobalCell → Eval Unit := fun o o' =>
    checkExtDefs o.externalTypes o'.externalDefs o'.externalTypes (updateMap o.externalDefsLoc o'.externalDefsLoc)
      (o.externalDefs.map Prod.fst)
  have hdefs : ∀ {o o'}, checkDefs o o' = .ok () ↔ DefsDisjoint o o' := by
    intro o o'
    exact checkExtDefs_eq_ok_iff.trans checkMerge_defs_iff
  -- the checks of the definitions alone
  have hok : ∃ r, mergeQueue mergeObj checkDefs (.ok initialGlobal) (fun o => .ok (mergeObj o initialGlobal)) objs = .ok r := by
    refine ⟨g, mergeQueue_ok_mono (fun hc => hdefs.mpr (checkMerge_eq_ok_iff.mp hc).2) (fun hf => ?_) objs hg⟩
    obtain ⟨-, -, heq⟩ := Eval.bind_eq_ok.mp hf
    exact heq
  have hrep : List.Forall₂ MergedFrom objs (objs.map fun o => [o]) :=
    List.forall₂_map_right_iff.mpr (List.forall₂_same.mpr fun o _ => .single o)
  have hsingle : ∀ l ∈ objs.map fun o => [o], l.Pairwise DefsDisjoint := by
    intro l hl
    obtain ⟨o, _, rfl⟩ := List.mem_map.mp hl
    exact List.pairwise_singleton _ o
  have hcheck : ∀ {a b l l'}, MergedFrom a l → MergedFrom b l' → l.Pairwise DefsDisjoint → l'.Pairwise DefsDisjoint →
      (checkDefs a b = .ok () ↔ (l ++ l').Pairwise DefsDisjoint) := by
    intro a b l l' ha hb hl hl'
    rw [hdefs, ha.defsDisjoint_iff hb, List.pairwise_append]
    exact ⟨fun h => ⟨hl, hl', h⟩, fun h => h.2.2⟩
  have hmerge : ∀ {a b l l'}, MergedFrom a l → MergedFrom b l' → MergedFrom (mergeObj a b) (l ++ l') := MergedFrom.merge
  have hiff := @mergeQueue_ok_iff _ _ _ _ _ _ _ _ DefsDisjoint (fun h => h.symm) MergedFrom hmerge hcheck
    ⟨initialGlobal, rfl⟩ (fun {a _} _ => ⟨mergeObj a initialGlobal, rfl⟩) objs _ hrep hsingle
  rw [← List.flatMap_def, List.flatMap_singleton'] at hiff
  exact hiff.mp hok

/-! ### What is loaded can be resolved -/

theorem genv_resolving (hunits : (m.translationUnits.map Prod.fst).Nodup) {Tu : String}
    {genv : CId → Option SymBase} {k : List Resolve.Item} (hmem : (Tu, genv) ∈ m.translationUnits) :
    (resolving m k).genv Tu = genv := by
  funext X
  show (m.translationUnits.lookup Tu).bind _ = genv X
  rw [lookup_of_mem hunits hmem]
  rfl

/-- **A program that loads can be resolved**, as to the symbols that are used. -/
theorem LoadedFrom.resolvable (h : LoadedFrom m l) (hobjs : ∀ o ∈ l, Translated o)
    (hunits : (m.translationUnits.map Prod.fst).Nodup) {k : List Resolve.Item} (hk : ∀ X, Resolve.Pending k X → X ∈ m.externalUses) :
    Resolvable m.toGlobalCell (resolving m k) := by
  have hmem : ∀ o ∈ l, ∀ p ∈ o.translationUnits, p ∈ m.translationUnits := by
    intro o ho p hp
    rw [h.units]
    exact List.mem_flatMap.mpr ⟨o, ho, hp⟩
  have hglobal : ∀ o ∈ l, o.toGlobalCell ∈ l.map LinkObject.toGlobalCell := fun o ho => List.mem_map_of_mem ho
  -- a unit of the program that has declared a symbol, its object and its base for the symbol
  have hunit : ∀ X T Tu, m.externalDecls X = some T → Tu ∈ T → ∃ o ∈ l, ∃ genv B, (Tu, genv) ∈ o.translationUnits ∧
      genv X = some B ∧ (resolving m k).genv Tu = genv := by
    intro X T Tu hT hTu
    obtain ⟨o, ho, T', hT', hTu'⟩ := h.decls X T Tu hT hTu
    obtain ⟨genv, hgenv, hne⟩ := (hobjs o ho).declares X T' hT' Tu hTu'
    obtain ⟨B, hB⟩ := Option.ne_none_iff_exists'.mp hne
    exact ⟨o, ho, genv, B, hgenv, hB, genv_resolving hunits (hmem o ho _ hgenv)⟩
  constructor
  · intro X hX
    obtain ⟨B, hB⟩ := Option.ne_none_iff_exists'.mp hX
    obtain ⟨o, ho, hoB⟩ := h.defs X B hB
    exact h.global.declared X o.toGlobalCell (hglobal o ho) ((hobjs o ho).typed X (by simp [hoB])).1
  · intro X hX _ _
    obtain ⟨o, ho, hused⟩ := (h.uses X).mp (hk X hX)
    exact m.located X (h.global.declared X o.toGlobalCell (hglobal o ho) ((hobjs o ho).used X hused).1)
  · intro X hX _
    obtain ⟨o, ho, hused⟩ := (h.uses X).mp (hk X hX)
    obtain ⟨T', hT'⟩ := Option.ne_none_iff_exists'.mp ((hobjs o ho).used X hused).2
    obtain ⟨T, hT, -⟩ := h.declared X o ho T' hT'
    refine ⟨T, hT, fun Tu hTu => ?_⟩
    obtain ⟨o', ho', genv, B, hgenv, hB, heq⟩ := hunit X T Tu hT hTu
    refine ⟨B, by rw [heq]; exact hB, fun hlink => ?_⟩
    obtain ⟨hd, hnone, -⟩ := (hobjs o' ho').dummies Tu genv X B hgenv hB hlink
    -- a dummy base of this unit is not linked in another object
    by_contra hlinked
    obtain ⟨o'', ho'', hB'⟩ := h.linkings B hlinked
    obtain ⟨Tu', hTu', hd'⟩ := (hobjs o'' ho'').linked B hB'
    cases hd.symm.trans hd'
    have hsame : o' = o'' := by
      by_contra hne
      rw [h.units, List.map_flatMap, List.nodup_flatMap] at hunits
      let Apart : LinkObject → LinkObject → Prop :=
        Function.onFun List.Disjoint fun o => o.translationUnits.map Prod.fst
      have : Std.Symm Apart := ⟨fun _ _ hdisj => hdisj.symm⟩
      have hapart : l.Pairwise Apart := hunits.2
      exact hapart.forall ho' ho'' hne (List.mem_map_of_mem hgenv) hTu'
    rw [hsame] at hnone
    exact hB' hnone
  · intro X Y T T' Tu Tu' B _ _ hT hT' hTu hTu' hB hB' hlink
    obtain ⟨o, ho, genv, C, hgenv, hC, heq⟩ := hunit X T Tu hT hTu
    obtain ⟨o', ho', genv', C', hgenv', hC', heq'⟩ := hunit Y T' Tu' hT' hTu'
    rw [heq] at hB
    rw [heq'] at hB'
    obtain ⟨hd, -, hsame⟩ := (hobjs o ho).dummies Tu genv X B hgenv hB hlink
    obtain ⟨hd', -, -⟩ := (hobjs o' ho').dummies Tu' genv' Y B hgenv' hB' hlink
    cases hd.symm.trans hd'
    rw [← heq', heq] at hB'
    exact ⟨hsame Y hB', rfl⟩

/-! ## The symbols to resolve -/

theorem mem_onlyExternal {M : List (LinkdepNode × CabsLoc)} {X : CId} :
    X ∈ onlyExternal M ↔ .linkdepNode X .external ∈ keySet M := by
  simp only [onlyExternal, keySet, List.mem_toFinset, List.mem_filterMap, List.mem_map]
  refine exists_congr fun p => and_congr_right fun _ => ?_
  cases p.1 with
  | notAFunction => simp [LinkdepNode.external?]
  | linkdepNode Y io => cases io <;> simp [LinkdepNode.external?]

section Items

variable {opt : UnresolvedSymbolsOpt} {cpp : Bool} {entrypoint : String} {uses : Finset CId}
  {M : List (LinkdepNode × CabsLoc)} {X : CId}

/-- The items have no symbol in common. -/
theorem running_resolveReferences : Running (resolving m (resolveReferences opt cpp entrypoint uses M)) where
  disjoint := by
    show ((resolveReferences opt cpp entrypoint uses M).map Item.ids).Pairwise Disjoint
    unfold resolveReferences
    split
    · exact List.pairwise_singleton _ _
    · simp only [List.map_cons, List.map_nil, Item.ids, List.pairwise_cons, List.mem_singleton, forall_eq, List.not_mem_nil,
        false_imp_iff, implies_true, List.Pairwise.nil, and_true]
      exact Finset.disjoint_of_subset_left (Finset.erase_subset _ _)
        (Finset.disjoint_of_subset_right (Finset.erase_subset _ _) Finset.disjoint_sdiff)
  running := by
    intro e he
    have he : Item.stop e ∈ resolveReferences opt cpp entrypoint uses M := he
    unfold resolveReferences at he
    split at he <;> simp at he
  quiet := rfl

theorem pending_resolveReferences (h : Resolve.Pending (resolveReferences opt cpp entrypoint uses M) X) :
    X ∈ uses ∨ (X ∈ onlyExternal M ∧ X ≠ .Identifier entrypoint) := by
  obtain ⟨hd, i, hi, -, hX⟩ := h
  unfold resolveReferences at hi
  split at hi
  · rw [List.mem_singleton] at hi
    subst hi
    exact .inl hX
  · simp only [List.mem_cons, List.not_mem_nil, or_false] at hi
    rcases hi with rfl | rfl
    · exact .inr ⟨Finset.mem_of_mem_erase hX, Finset.ne_of_mem_erase hX⟩
    · exact .inl (Finset.mem_sdiff.mp (Finset.mem_of_mem_erase hX)).1

/-- The symbols that are used are looked for, but not the entry point. -/
theorem pending_of_mem_uses (hX : X ∈ uses) (hne : X ≠ .Identifier entrypoint) :
    Resolve.Pending (resolveReferences opt cpp entrypoint uses M) X := by
  unfold resolveReferences
  split
  · exact ⟨_, _, List.mem_singleton_self _, rfl, hX⟩
  · by_cases hM : X ∈ onlyExternal M
    · exact ⟨_, _, List.mem_cons_self, rfl, Finset.mem_erase.mpr ⟨hne, hM⟩⟩
    · exact ⟨_, _, List.mem_cons_of_mem _ List.mem_cons_self, rfl,
        Finset.mem_erase.mpr ⟨hne, Finset.mem_sdiff.mpr ⟨hX, hM⟩⟩⟩

theorem owes_linkErrors : Owes (resolveReferences .WarnUnreachable false entrypoint uses M) .linkErrors X ↔
    X ∈ onlyExternal M ∧ X ≠ .Identifier entrypoint := by
  simp [resolveReferences, unresolvedSymbolHandling, Owes, Item.handling, Item.ids, and_comm]

theorem owes_linkWarnings : Owes (resolveReferences .WarnUnreachable false entrypoint uses M) .linkWarnings X ↔
    (X ∈ uses ∧ X ∉ onlyExternal M) ∧ X ≠ .Identifier entrypoint := by
  simp [resolveReferences, unresolvedSymbolHandling, Owes, Item.handling, Item.ids, and_comm]

end Items

/-- What `reachableSymbols` ends with. -/
def ReachableResult (Deps : LinkingDeps) (entrypoint : String) (c : ReachableCalc) : Prop :=
  Relation.ReflTransGen (ReachableStep Deps) (reachableSymbols entrypoint) c ∧ c.m = []

theorem ReachableResult.mem {Deps : LinkingDeps} {entrypoint : String} {c : ReachableCalc}
    (h : ReachableResult Deps entrypoint c) (x : LinkdepNode) : x ∈ keySet c.result ↔ SymbolReachable Deps entrypoint x := by
  have hstuck : ∀ c c' : ReachableCalc, c.m = [] → ¬ReachableStep Deps c c' := by
    rintro c c' hc (⟨hlookup⟩)
    rw [hc] at hlookup
    cases hlookup
  exact ((reachableSymbols_spec Deps entrypoint).at_end (fun c c' hc => hstuck c c' hc.1) h.1 (fun c' => hstuck c c' h.2)).2 x

/-- A symbol that can be reached is used, unless it is the entry point. -/
theorem LoadedFrom.mem_uses (h : LoadedFrom m l) (hobjs : ∀ o ∈ l, Translated o) {entrypoint : String} {X : CId}
    (hX : SymbolReachable m.linkingDeps entrypoint (.linkdepNode X .external)) (hne : X ≠ .Identifier entrypoint) :
    X ∈ m.externalUses := by
  -- it is the target of an edge
  have htarget : ∃ x, .linkdepNode X .external ∈ targets m.linkingDeps x := by
    rcases hX with hX | hX
    · rcases Relation.ReflTransGen.cases_tail hX with heq | ⟨x, -, hx⟩
      · cases heq
        exact absurd rfl hne
      · exact ⟨x, hx⟩
    · rcases Relation.ReflTransGen.cases_tail hX with heq | ⟨x, -, hx⟩
      · cases heq
      · exact ⟨x, hx⟩
  obtain ⟨x, hx⟩ := htarget
  obtain ⟨deps, hdeps, hx⟩ := (h.deps.spec.2 x _).mp hx
  obtain ⟨o, ho, rfl⟩ := List.mem_map.mp hdeps
  exact (h.uses X).mpr ⟨o, ho, (hobjs o ho).edges x _ X hx rfl⟩

/-- The program loaded from translated objects can be resolved. -/
theorem LoadedFrom.resolvable_references (h : LoadedFrom m l) (hobjs : ∀ o ∈ l, Translated o)
    (hunits : (m.translationUnits.map Prod.fst).Nodup) {opt : UnresolvedSymbolsOpt} {cpp : Bool} {entrypoint : String}
    {c : ReachableCalc} (hc : ReachableResult m.linkingDeps entrypoint c) :
    Resolvable m.toGlobalCell (resolving m (resolveReferences opt cpp entrypoint m.externalUses c.result)) := by
  refine h.resolvable hobjs hunits fun X hX => ?_
  rcases pending_resolveReferences hX with hX | ⟨hX, hne⟩
  · exact hX
  · exact h.mem_uses hobjs ((hc.mem _).mp (mem_onlyExternal.mp hX)) hne

/-- A symbol that the default option makes an error: it can be reached, and it is not the entry point. -/
def MustBeDefined (m : LinkObject) (entrypoint : String) (X : CId) : Prop :=
  SymbolReachable m.linkingDeps entrypoint (.linkdepNode X .external) ∧ X ≠ .Identifier entrypoint

/-- A symbol that the default option makes a warning: it is used, but only where nothing can reach it. -/
def ShouldBeDefined (m : LinkObject) (entrypoint : String) (X : CId) : Prop :=
  (X ∈ m.externalUses ∧ ¬SymbolReachable m.linkingDeps entrypoint (.linkdepNode X .external)) ∧ X ≠ .Identifier entrypoint

/-- **Symbols without a definition**, with the default option. -/
theorem LoadedFrom.unresolved (h : LoadedFrom m l) (hobjs : ∀ o ∈ l, Translated o)
    (hunits : (m.translationUnits.map Prod.fst).Nodup) {entrypoint : String} {c : ReachableCalc}
    (hc : ReachableResult m.linkingDeps entrypoint c) {s : Resolve.State}
    (hs : s = resolving m (resolveReferences .WarnUnreachable false entrypoint m.externalUses c.result)) :
    Inevitably (Resolve.Step m.toGlobalCell) (fun t =>
      (∃ X, StoppedBy t X ∧ MustBeDefined m entrypoint X ∧ Unresolved m.toGlobalCell X) ∨
      (t.k = [] ∧ (∀ X, MustBeDefined m entrypoint X → ¬Unresolved m.toGlobalCell X) ∧
        ∀ X, X ∈ t.warned ↔ ShouldBeDefined m entrypoint X ∧ Unresolved m.toGlobalCell X)) s ∧
    ∀ X, MustBeDefined m entrypoint X → Unresolved m.toGlobalCell X →
      ∃ t, Relation.ReflTransGen (Resolve.Step m.toGlobalCell) s t ∧ StoppedBy t X := by
  have hres : Resolvable m.toGlobalCell
      (resolving m (resolveReferences .WarnUnreachable false entrypoint m.externalUses c.result)) :=
    h.resolvable_references hobjs hunits hc
  have herrors : ∀ X, Owes s.k .linkErrors X ↔ MustBeDefined m entrypoint X := by
    intro X
    rw [hs]
    exact owes_linkErrors.trans (and_congr_left fun _ => mem_onlyExternal.trans (hc.mem _))
  have hwarnings : ∀ X, Owes s.k .linkWarnings X ↔ ShouldBeDefined m entrypoint X := by
    intro X
    rw [hs]
    exact owes_linkWarnings.trans (and_congr_left fun _ => and_congr_right fun _ =>
      not_congr (mem_onlyExternal.trans (hc.mem _)))
  rw [← hs] at hres
  constructor
  · refine (inevitably_end hres (hs ▸ running_resolveReferences)).mono fun t ht => ?_
    rcases ht with ⟨hk, hinv⟩ | ⟨X, hstop, howes, hun⟩
    · obtain ⟨hno, hwarned⟩ := hinv.done hk
      refine .inr ⟨hk, fun X hX => hno X ((herrors X).mpr hX), fun X => ?_⟩
      rw [hwarned, hwarnings]
    · exact .inl ⟨X, hstop, (herrors X).mp howes, hun⟩
  · intro X hX hun
    have howes := (herrors X).mpr hX
    refine exists_stoppedBy (K := [_]) (by rw [hs]; rfl) ?_ hun
      (hres.located X ⟨_, howes⟩ hun.1 hun.2)
    exact Finset.mem_erase.mpr ⟨hX.2, mem_onlyExternal.mpr ((hc.mem _).mpr hX.1)⟩

/-- A unit's dummy base for a symbol that it uses. -/
structure ReferenceIn (o : LinkObject) (X : CId) (Tu : String) (B : SymBase) : Prop where
  used : X ∈ o.externalUses
  declares : ∃ T, o.externalDecls X = some T ∧ Tu ∈ T
  base : ∃ genv, (Tu, genv) ∈ o.translationUnits ∧ genv X = some B
  link : isLinkBase B

/-- **References** are resolved, whatever is done about symbols without a definition. -/
theorem LoadedFrom.references (h : LoadedFrom m l) (hobjs : ∀ o ∈ l, Translated o)
    (hunits : (m.translationUnits.map Prod.fst).Nodup) {opt : UnresolvedSymbolsOpt} {cpp : Bool} {entrypoint : String}
    {c : ReachableCalc} (hc : ReachableResult m.linkingDeps entrypoint c) :
    Inevitably (Resolve.Step m.toGlobalCell) (fun t => (∃ X, StoppedBy t X ∧ Unresolved m.toGlobalCell X) ∨
      (t.k = [] ∧ ∀ o ∈ l, ∀ X Tu B B', ReferenceIn o X Tu B → X ≠ .Identifier entrypoint →
        m.externalDefs.lookup X = some B' → t.linkings B = some B' ∧ t.genv Tu X = some B'))
      (resolving m (resolveReferences opt cpp entrypoint m.externalUses c.result)) := by
  have hres : Resolvable m.toGlobalCell (resolving m (resolveReferences opt cpp entrypoint m.externalUses c.result)) :=
    h.resolvable_references hobjs hunits hc
  refine (inevitably_end hres running_resolveReferences).mono fun t ht => ?_
  rcases ht with ⟨hk, hinv⟩ | ⟨X, hstop, -, hun⟩
  · refine .inr ⟨hk, fun o ho X Tu B B' href hne hdef => ?_⟩
    obtain ⟨T', hT', hTu⟩ := href.declares
    obtain ⟨T, hT, hsub⟩ := h.declared X o ho T' hT'
    obtain ⟨genv, hgenv, hB⟩ := href.base
    have hmem : (Tu, genv) ∈ m.translationUnits := h.units ▸ List.mem_flatMap.mpr ⟨o, ho, hgenv⟩
    have href' : Reference (resolving m (resolveReferences opt cpp entrypoint m.externalUses c.result)) X Tu B :=
      { pending := pending_of_mem_uses ((h.uses X).mpr ⟨o, ho, href.used⟩) hne
        declares := ⟨T, hT, hsub hTu⟩
        base := by rw [genv_resolving hunits hmem]; exact hB
        link := href.link }
    have hmap := hinv.resolved hk href' hdef
    exact ⟨hmap.linked, hmap.bound⟩
  · exact .inl ⟨X, hstop, hun⟩

/-- A definition that is the only one is the definition of the program. -/
theorem LoadedFrom.lookup_defs (h : LoadedFrom m l) (hdefs : (l.map LinkObject.toGlobalCell).Pairwise DefsDisjoint)
    {o : LinkObject} (ho : o ∈ l) {X : CId} {B : SymBase} (hB : o.externalDefs.lookup X = some B) :
    m.externalDefs.lookup X = some B := by
  have hdefined : m.externalDefs.lookup X ≠ none := by
    rw [ne_eq, h.global.defined]
    push Not
    exact ⟨o.toGlobalCell, List.mem_map_of_mem ho, by simp [hB]⟩
  obtain ⟨B', hB'⟩ := Option.ne_none_iff_exists'.mp hdefined
  obtain ⟨o', ho', hoB'⟩ := h.defs X B' hB'
  by_cases hsame : o'.toGlobalCell = o.toGlobalCell
  · rw [hsame, hB] at hoB'
    rw [hB', hoB']
  · have : Std.Symm DefsDisjoint := ⟨fun _ _ hdisj => hdisj.symm⟩
    rcases hdefs.forall (List.mem_map_of_mem ho') (List.mem_map_of_mem ho) hsame X with hnone | hnone
    · rw [hoB'] at hnone
      cases hnone
    · rw [hB] at hnone
      cases hnone

/-- A program that loads, and its objects. -/
theorem TranslatedProgram.loaded (hobjs : TranslatedProgram objs) (hm : loadObjects cfg tags objs = .ok m) :
    ∃ l, LoadedFrom m l ∧ l.Perm objs ∧ (∀ o ∈ l, Translated o) ∧ (m.translationUnits.map Prod.fst).Nodup := by
  obtain ⟨l, hl, hperm⟩ := loadObjects_loadedFrom hobjs.objects hm
  refine ⟨l, hl, hperm, fun o ho => hobjs.objects o (hperm.mem_iff.mp ho), ?_⟩
  rw [hl.units]
  exact ((hperm.flatMap_right _).map Prod.fst).nodup_iff.mpr hobjs.units

end Loading

/-! ## Objects of one symbol -/

/-- The map `X |-> a`. -/
def only {α : Type} (X : CId) (a : α) (Y : CId) : Option α := if Y = X then some a else none

theorem only_eq_some {α : Type} {X Y : CId} {a b : α} : only X a Y = some b ↔ Y = X ∧ a = b := by
  unfold only
  split <;> simp_all

/-- A unit that uses `X` in `source`, and does not define it. -/
def usesOnly (X : CId) (T : CType) (Tu : String) (source : LinkdepNode) : LinkObject where
  toGlobalCell := declaring X T
  externalDecls := only X {Tu}
  externalUses := {X}
  linkingDeps := [(source, [(.linkdepNode X .external, .UnknownCabsLoc)])]
  linkings := fun _ => none
  translationUnits := [(Tu, only X (obj 0 4 (.link Tu)))]

/-- A unit that defines `X`, and does not use it. -/
def definesOnly (X : CId) (T : CType) (Tu : String) : LinkObject where
  toGlobalCell := { declaring X T with
    externalDefs := [(X, obj 1 4 (.static Tu))]
    externalDefsLoc := [(X, .UnknownCabsLoc)] }
  externalDecls := only X {Tu}
  externalUses := ∅
  linkingDeps := []
  linkings := fun B => if B = obj 0 4 (.link Tu) then some (obj 1 4 (.static Tu)) else none
  translationUnits := [(Tu, only X (obj 1 4 (.static Tu)))]

section Single

variable {X : CId} {T : CType} {Tu : String} {source : LinkdepNode}

theorem targets_usesOnly {x y : LinkdepNode} :
    y ∈ targets (usesOnly X T Tu source).linkingDeps x ↔ x = source ∧ y = .linkdepNode X .external := by
  by_cases hx : x = source
  · simp [usesOnly, targets, depsOf, hx]
  · have hne : (x == source) = false := by simpa using hx
    simp [usesOnly, targets, depsOf, List.lookup_cons, hne, hx]

theorem translated_usesOnly : Translated (usesOnly X T Tu source) where
  typed := fun _ hY => absurd rfl hY
  used := by
    intro Y hY
    rw [Finset.mem_singleton.mp hY]
    simp [usesOnly, declaring, only]
  nodup := by simp [usesOnly]
  edges := by
    intro x y Y hy hext
    rw [(targets_usesOnly.mp hy).2] at hext
    cases hext
    exact Finset.mem_singleton_self X
  declares := by
    intro Y U hU Tu' hTu'
    obtain ⟨rfl, rfl⟩ := only_eq_some.mp hU
    rw [Finset.mem_singleton.mp hTu']
    exact ⟨_, List.mem_singleton_self _, by simp [only]⟩
  dummies := by
    intro Tu' genv Y B hgenv hB _
    cases List.mem_singleton.mp hgenv
    obtain ⟨rfl, rfl⟩ := only_eq_some.mp hB
    exact ⟨rfl, rfl, fun Z hZ => (only_eq_some.mp hZ).1.symm⟩
  linked := fun _ hB => absurd rfl hB

theorem translated_definesOnly : Translated (definesOnly X T Tu) where
  typed := by
    intro Y hY
    by_cases h : Y = X
    · simp [definesOnly, declaring, h]
    · have hne : (Y == X) = false := by simpa using h
      simp [definesOnly, List.lookup_cons, hne] at hY
  used := fun Y hY => absurd hY (Finset.notMem_empty Y)
  nodup := List.nodup_nil
  edges := fun _ _ _ hy => absurd hy (Finset.notMem_empty _)
  declares := by
    intro Y U hU Tu' hTu'
    obtain ⟨rfl, rfl⟩ := only_eq_some.mp hU
    rw [Finset.mem_singleton.mp hTu']
    exact ⟨_, List.mem_singleton_self _, by simp [only]⟩
  dummies := by
    intro Tu' genv Y B hgenv hB hlink
    cases List.mem_singleton.mp hgenv
    obtain ⟨rfl, rfl⟩ := only_eq_some.mp hB
    cases hlink
  linked := by
    intro B hB
    refine ⟨Tu, List.mem_singleton_self Tu, ?_⟩
    by_contra hd
    refine hB (if_neg ?_)
    rintro rfl
    exact hd rfl

theorem translatedProgram_singleton {o : LinkObject} (h : Translated o) (hunits : (o.translationUnits.map Prod.fst).Nodup) :
    TranslatedProgram [o] where
  objects := by simpa using h
  units := by simpa using hunits

/-- A program of one object loads. -/
theorem loadObjects_singleton (cfg : Settings) (tags : Tags) (o : LinkObject) : loadObjects cfg tags [o] = .ok (mergeLinkObject o emptyObject) := by
  unfold loadObjects
  rw [mergeQueue]
  refine Eval.bind_eq_ok.mpr ⟨(), ?_, rfl⟩
  exact checkMerge_eq_ok_iff.mpr ⟨typesAgree_initialGlobal, defsDisjoint_initialGlobal⟩

/-- A program of two objects loads when the check of the two passes. -/
theorem loadObjects_pair (cfg : Settings) (tags : Tags) (o o' : LinkObject) : loadObjects cfg tags [o, o'] =
    (checkMerge cfg tags o.toGlobalCell o'.toGlobalCell).map fun _ => mergeLinkObject (mergeLinkObject o o') emptyObject := by
  have hfirst := loadObjects_singleton cfg tags (mergeLinkObject o o')
  unfold loadObjects at hfirst ⊢
  rw [mergeQueue, List.nil_append, hfirst]
  cases checkMerge cfg tags o.toGlobalCell o'.toGlobalCell <;> rfl

/-- There is a symbol that has no definition in a program of one object. -/
theorem unresolved_usesOnly {s : String} (hs : isMangledName (.Identifier s) = false) :
    Unresolved (mergeLinkObject (usesOnly (.Identifier s) T Tu source) emptyObject).toGlobalCell (.Identifier s) :=
  ⟨.inl rfl, hs⟩

theorem exists_reachableResult (Deps : LinkingDeps) (entrypoint : String) : ∃ c, ReachableResult Deps entrypoint c := by
  obtain ⟨c, hrun, hc, -⟩ := (reachableSymbols_spec Deps entrypoint).exists_reach
  exact ⟨c, hrun, hc⟩

end Single

/-! ## The whole link -/

end CSemantics
