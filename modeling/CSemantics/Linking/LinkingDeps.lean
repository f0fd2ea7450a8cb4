/-
  Link dependencies: which symbols are used from where.

  The translator notes an edge from the function that is being translated, or from `notAFunction()`, to
  each symbol with linkage that is used.  The linker merges the edges of all objects and follows them from
  the entry point and from `notAFunction()`, with a map of symbols as a worklist from which `choice` takes
  any key.

      MergedDeps.spec         however maps are merged, the edges are those of all of them
      reachableSymbols_spec   every run ends, with what can be reached
-/
import CSemantics.Common
import CSemantics.Lib.AssocMap
import CSemantics.Lib.Worklist

namespace CSemantics

open AssocMap

/-! ## Nodes and edges -/

inductive InternalOrExternal
  | internal (tu : String)
  | external
  deriving DecidableEq

inductive LinkdepNode
  | linkdepNode (x : CId) (io : InternalOrExternal)
  | notAFunction
  deriving DecidableEq

/-- `linkdepNode |-> (linkdepNode |-> CabsLoc)` -/
abbrev LinkingDeps := List (LinkdepNode × List (LinkdepNode × CabsLoc))

/-- `M[X] orDefault .Map` -/
def depsOf (M : LinkingDeps) (x : LinkdepNode) : List (LinkdepNode × CabsLoc) := (M.lookup x).getD []

/-- The symbols used from `x`. -/
def targets (M : LinkingDeps) (x : LinkdepNode) : Finset LinkdepNode := ((depsOf M x).map Prod.fst).toFinset

/-- `updateLinkdep` -/
def updateLinkdep (M : LinkingDeps) (source target : LinkdepNode) (loc : CabsLoc) : LinkingDeps :=
  update M source (update (depsOf M source) target loc)

theorem targets_update (M : LinkingDeps) (x y : LinkdepNode) (m : List (LinkdepNode × CabsLoc)) :
    targets (update M x m) y = if y = x then (m.map Prod.fst).toFinset else targets M y := by
  unfold targets depsOf
  rw [lookup_update]
  split <;> rfl

/-- A use adds its edge and no other. -/
theorem mem_targets_updateLinkdep (M : LinkingDeps) (source target : LinkdepNode) (loc : CabsLoc) (x y : LinkdepNode) :
    y ∈ targets (updateLinkdep M source target loc) x ↔ y ∈ targets M x ∨ (x = source ∧ y = target) := by
  unfold updateLinkdep
  rw [targets_update]
  by_cases hx : x = source
  · subst hx
    simp only [if_true, true_and]
    unfold targets
    rw [List.mem_toFinset, List.mem_toFinset, mem_keys_iff, mem_keys_iff, lookup_update]
    by_cases hy : y = target
    · simp [hy]
    · simp [hy]
  · simp [hx]

/-! ## Merging -/

/-- `mergeLinkdep`, the second map in the order `choice` takes its keys in. -/
def mergeLinkdep (M1 : LinkingDeps) : LinkingDeps → LinkingDeps
  | [] => M1
  | (source, m) :: M2 => mergeLinkdep (update M1 source (updateMap (depsOf M1 source) m)) M2

/-- **A merge has the edges of both maps.** -/
theorem targets_mergeLinkdep (M1 M2 : LinkingDeps) (h : (M2.map Prod.fst).Nodup) (x : LinkdepNode) :
    targets (mergeLinkdep M1 M2) x = targets M1 x ∪ targets M2 x := by
  induction M2 generalizing M1 with
  | nil => simp [mergeLinkdep, targets, depsOf]
  | cons p M2 ih =>
    obtain ⟨source, m⟩ := p
    rw [List.map_cons, List.nodup_cons] at h
    rw [mergeLinkdep, ih _ h.2, targets_update]
    by_cases hx : x = source
    · subst hx
      have hnone : M2.lookup x = none := by
        rw [← Option.not_isSome_iff_eq_none, Option.isSome_iff_exists, ← mem_keys_iff]
        exact h.1
      have hboth : ((updateMap (depsOf M1 x) m).map Prod.fst).toFinset = targets M1 x ∪ (m.map Prod.fst).toFinset := by
        ext y
        unfold targets
        rw [Finset.mem_union, List.mem_toFinset, List.mem_toFinset, List.mem_toFinset, mem_keys_iff, mem_keys_iff,
          mem_keys_iff, lookup_updateMap]
        cases m.lookup y <;> simp
      simp only [if_true, hboth]
      simp [targets, depsOf, hnone]
    · have hlookup : targets ((source, m) :: M2) x = targets M2 x := by
        have hne : (x == source) = false := by simpa using hx
        simp [targets, depsOf, List.lookup_cons, hne]
      rw [if_neg hx, hlookup]

/-- A merge has no key twice. -/
theorem nodup_mergeLinkdep (M1 M2 : LinkingDeps) (h : (M1.map Prod.fst).Nodup) :
    ((mergeLinkdep M1 M2).map Prod.fst).Nodup := by
  induction M2 generalizing M1 with
  | nil => exact h
  | cons p M2 ih => exact ih _ (nodup_keys_update h _ _)

/-- `M` has been merged from the maps `l`, in some order; each map in any order of its keys. -/
inductive MergedDeps : List LinkingDeps → LinkingDeps → Prop
  | empty : MergedDeps [] []
  | single {M} (h : (M.map Prod.fst).Nodup) : MergedDeps [M] M
  | merge {l l' M M' M''} (h : MergedDeps l M) (h' : MergedDeps l' M') (hperm : M'.Perm M'') :
      MergedDeps (l ++ l') (mergeLinkdep M M'')
  | perm {l l' M} (h : MergedDeps l M) (hperm : l.Perm l') : MergedDeps l' M

/-- The keys of a map in another order. -/
theorem targets_perm {M M' : LinkingDeps} (h : (M.map Prod.fst).Nodup) (hperm : M.Perm M') (x : LinkdepNode) :
    targets M x = targets M' x := by
  have h' : (M'.map Prod.fst).Nodup := (hperm.map Prod.fst).nodup_iff.mp h
  have hlookup : M.lookup x = M'.lookup x := by
    cases hx : M.lookup x with
    | none =>
      have hkeys : x ∉ M.map Prod.fst := by
        rw [mem_keys_iff, hx]
        simp
      have hkeys' : x ∉ M'.map Prod.fst := fun hmem => hkeys ((hperm.map Prod.fst).mem_iff.mpr hmem)
      rw [mem_keys_iff] at hkeys'
      exact (Option.eq_none_iff_forall_ne_some.mpr fun m hm => hkeys' ⟨m, hm⟩).symm
    | some m => exact (lookup_of_mem h' (p := (x, m)) (hperm.mem_iff.mp (mem_of_lookup hx))).symm
  unfold targets depsOf
  rw [hlookup]

/-- **However the maps are merged**, the edges are the edges of all of them. -/
theorem MergedDeps.spec {l : List LinkingDeps} {M : LinkingDeps} (h : MergedDeps l M) :
    (M.map Prod.fst).Nodup ∧ ∀ x y, y ∈ targets M x ↔ ∃ M' ∈ l, y ∈ targets M' x := by
  induction h with
  | empty => exact ⟨List.nodup_nil, by simp [targets, depsOf]⟩
  | single h => exact ⟨h, by simp⟩
  | @merge l l' M M' M'' _ _ hperm ih ih' =>
    refine ⟨nodup_mergeLinkdep _ _ ih.1, fun x y => ?_⟩
    rw [targets_mergeLinkdep _ _ ((hperm.map Prod.fst).nodup_iff.mp ih'.1), ← targets_perm ih'.1 hperm,
      Finset.mem_union, ih.2, ih'.2]
    simp only [List.mem_append, or_and_right, exists_or]
  | perm _ hperm ih => exact ⟨ih.1, fun x y => by simp only [ih.2, hperm.mem_iff]⟩

/-! ## What can be reached -/

/-- `#reachableSymbols(Result, M)` -/
structure ReachableCalc where
  result : List (LinkdepNode × CabsLoc)
  m : List (LinkdepNode × CabsLoc)

/-- `removeAll(M, Keys)` -/
def removeAll (M : List (LinkdepNode × CabsLoc)) (keys : Finset LinkdepNode) : List (LinkdepNode × CabsLoc) :=
  M.filter fun p => p.1 ∉ keys

def keySet (M : List (LinkdepNode × CabsLoc)) : Finset LinkdepNode := (M.map Prod.fst).toFinset

/-- The rule for a map that is not empty: `choice` takes any key. -/
inductive ReachableStep (Deps : LinkingDeps) : ReachableCalc → ReachableCalc → Prop
  | choice {c : ReachableCalc} {curr : LinkdepNode} {loc : CabsLoc} (h : c.m.lookup curr = some loc) :
      ReachableStep Deps c ⟨update c.result curr loc,
        removeAll (updateMap c.m (depsOf Deps curr)) (insert curr (keySet c.result))⟩

/-- `reachableSymbols(Entrypoint)`: the calculation starts with the entry point and `notAFunction()`. -/
def reachableSymbols (entrypoint : String) : ReachableCalc :=
  ⟨[], [(.linkdepNode (.Identifier entrypoint) .external, .UnknownCabsLoc), (.notAFunction, .UnknownCabsLoc)]⟩

/-- There is an edge. -/
def DependsOn (Deps : LinkingDeps) (x y : LinkdepNode) : Prop := y ∈ targets Deps x

/-- A symbol that can be reached from the entry point or from outside the functions. -/
def SymbolReachable (Deps : LinkingDeps) (entrypoint : String) (x : LinkdepNode) : Prop :=
  Relation.ReflTransGen (DependsOn Deps) (.linkdepNode (.Identifier entrypoint) .external) x ∨
    Relation.ReflTransGen (DependsOn Deps) .notAFunction x

section Reachable

variable {Deps : LinkingDeps}

theorem mem_keySet {M : List (LinkdepNode × CabsLoc)} {x : LinkdepNode} : x ∈ keySet M ↔ ∃ loc, M.lookup x = some loc := by
  unfold keySet
  rw [List.mem_toFinset, mem_keys_iff]

theorem keySet_update (M : List (LinkdepNode × CabsLoc)) (x : LinkdepNode) (loc : CabsLoc) :
    keySet (update M x loc) = insert x (keySet M) := by
  ext y
  rw [mem_keySet, lookup_update, Finset.mem_insert, mem_keySet]
  by_cases hy : y = x <;> simp [hy]

theorem keySet_updateMap (M M' : List (LinkdepNode × CabsLoc)) : keySet (updateMap M M') = keySet M ∪ keySet M' := by
  ext y
  rw [mem_keySet, lookup_updateMap, Finset.mem_union, mem_keySet, mem_keySet]
  cases M'.lookup y <;> simp

theorem keySet_removeAll (M : List (LinkdepNode × CabsLoc)) (keys : Finset LinkdepNode) :
    keySet (removeAll M keys) = keySet M \ keys := by
  ext y
  simp only [keySet, removeAll, List.mem_toFinset, List.mem_map, List.mem_filter, Finset.mem_sdiff, decide_eq_true_eq]
  constructor
  · rintro ⟨p, ⟨hp, hk⟩, rfl⟩
    exact ⟨⟨p, hp, rfl⟩, hk⟩
  · rintro ⟨⟨p, hp, rfl⟩, hk⟩
    exact ⟨p, ⟨hp, hk⟩, rfl⟩

/-- A calculation as a worklist of nodes. -/
def ReachableCalc.toWorklist (c : ReachableCalc) : Worklist.State LinkdepNode := ⟨keySet c.result, keySet c.m⟩

/-- **The calculation is a worklist.**  What is to do is never done already, so removing what was done
    before the step too makes no difference. -/
theorem worklist_step {c c' : ReachableCalc} (h : ReachableStep Deps c c') :
    Worklist.Step (targets Deps) c.toWorklist c'.toWorklist := by
  cases h with
  | @choice curr loc h =>
    have hcurr : curr ∈ keySet c.m := mem_keySet.mpr ⟨loc, h⟩
    have hstep : Worklist.Step (targets Deps) c.toWorklist _ := .take hcurr
    unfold ReachableCalc.toWorklist at hstep ⊢
    rw [keySet_update, keySet_removeAll, keySet_updateMap]
    exact hstep

theorem worklist_progress {c : ReachableCalc} {w : Worklist.State LinkdepNode}
    (h : Worklist.Step (targets Deps) c.toWorklist w) : ∃ c', ReachableStep Deps c c' := by
  cases h with
  | take ha =>
    obtain ⟨loc, hloc⟩ := mem_keySet.mp ha
    exact ⟨_, .choice hloc⟩

/-- All targets of edges. -/
def allTargets (Deps : LinkingDeps) : Finset LinkdepNode := (Deps.flatMap fun p => p.2.map Prod.fst).toFinset

theorem targets_subset (x : LinkdepNode) : targets Deps x ⊆ allTargets Deps := by
  intro y hy
  unfold targets depsOf at hy
  cases hx : Deps.lookup x with
  | none => simp [hx] at hy
  | some m =>
    rw [hx, Option.getD_some, List.mem_toFinset] at hy
    refine List.mem_toFinset.mpr (List.mem_flatMap.mpr ⟨(x, m), mem_of_lookup hx, hy⟩)

/-- **Every calculation ends**, whatever keys are taken, and its result has the symbols that can be reached. -/
theorem reachableSymbols_spec (Deps : LinkingDeps) (entrypoint : String) :
    Inevitably (ReachableStep Deps)
      (fun c => c.m = [] ∧ ∀ x, x ∈ keySet c.result ↔ SymbolReachable Deps entrypoint x)
      (reachableSymbols entrypoint) := by
  have hclosed : ∀ a ∈ (reachableSymbols entrypoint).toWorklist.todo ∪ allTargets Deps,
      targets Deps a ⊆ (reachableSymbols entrypoint).toWorklist.todo ∪ allTargets Deps :=
    fun a _ => (targets_subset a).trans Finset.subset_union_right
  have hrun := Worklist.inevitably_reachable Finset.subset_union_left hclosed
  have hcalc := Inevitably.comap (R := ReachableStep Deps) (s := reachableSymbols entrypoint)
    (fun _ _ => worklist_step) (fun _ _ => worklist_progress) hrun
  refine hcalc.mono fun c hc => ?_
  obtain ⟨hempty, hdone⟩ := hc
  constructor
  · have hkeys : keySet c.m = ∅ := hempty
    unfold keySet at hkeys
    rw [List.toFinset_eq_empty_iff, List.map_eq_nil_iff] at hkeys
    exact hkeys
  · intro x
    have hx := hdone x
    have hroots : keySet (reachableSymbols entrypoint).m =
        {.linkdepNode (.Identifier entrypoint) .external, .notAFunction} := by
      simp [keySet, reachableSymbols]
    rw [show c.toWorklist.done = keySet c.result from rfl] at hx
    rw [hx, Worklist.Reachable, ReachableCalc.toWorklist, hroots]
    simp only [Finset.mem_insert, Finset.mem_singleton, exists_eq_or_imp, exists_eq_left]
    exact Iff.rfl

end Reachable

end CSemantics
