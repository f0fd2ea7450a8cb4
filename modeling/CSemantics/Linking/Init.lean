/-
  Linking: merging the objects of several translation units.

  `#load` takes the first two objects, puts their merge at the end of the list and goes on; the checks
  of the merges are made when everything is loaded, the last merge first, and the first report stops
  the link.  A merged object keeps ONE type for each external identifier, that of its second part.

  Compatibility is symmetric and every object is merged, so a conflict that is seen is a conflict of
  two units.  It is NOT transitive: an array of unknown length is compatible with one of three and with
  one of four elements.  When it is the type that is kept, the other two are never compared.

      load_conflict_iff_transitive   conflicts are found in every order iff compatibility is transitive

  The tags are those of all units: the merged table is loaded before any check is made, and a tag
  carries its unit.  Overriding definitions is an extension that is not part of the semantics.
-/
import CSemantics.Lib.AssocMap
import CSemantics.Lib.QueueMerge
import CSemantics.Typing.Compatibility

namespace CSemantics

open AssocMap

/-! ## Compatible declarations -/

section Declarations

variable (cfg : Settings) (tags : Tags)

/-- `areCompatible(T, T')` -/
def areCompatible (T T' : CType) : Bool :=
  ConjSearch.answer (compatQueries cfg tags) ⟨[], T, T'⟩ (compatQueries_decides cfg tags _)

/-- The alignment of an `alignas` modifier. -/
def Modifier.alignas? : Modifier → Option Int
  | .alignas n => some n
  | _ => none

/-- `getAlignasMod`; of several alignments the rule may take any, the model takes the smallest. -/
def getAlignasMod (m : Mods) : Int :=
  (((m.flags.image Modifier.alignas?).erase none).image fun n => n.getD 0).min.untopD (-1)

def sameAlignas (m m' : Mods) : Bool := getAlignasMod m == getAlignasMod m'

def areDeclCompat (T T' : CType) : Bool :=
  areCompatible cfg tags T T' && sameAlignas T.getModifiers T'.getModifiers

end Declarations

/-! ## Objects -/

/-- The cells of `<global>` that the checks look at.  What has an external type has been declared
    somewhere. -/
structure GlobalCell where
  externalTypes : List (CId × CType)
  externalDefs : List (CId × SymBase)
  externalDeclsLoc : List (CId × CabsLoc)
  externalDefsLoc : List (CId × CabsLoc)
  located : ∀ X, externalTypes.lookup X ≠ none → externalDeclsLoc.lookup X ≠ none

/-- `<global>` when the linker starts. -/
def initialGlobal : GlobalCell := ⟨[], [], [], [], fun _ h => absurd rfl h⟩

/-- `mergeObj` -/
def mergeObj (o o' : GlobalCell) : GlobalCell where
  externalTypes := updateMap o.externalTypes o'.externalTypes
  externalDefs := updateMap o.externalDefs o'.externalDefs
  externalDeclsLoc := updateMap o.externalDeclsLoc o'.externalDeclsLoc
  externalDefsLoc := updateMap o.externalDefsLoc o'.externalDefsLoc
  located := by
    intro X
    simp only [lookup_updateMap, ne_eq, Option.or_eq_none_iff, not_and]
    intro h h'
    have hnone : o'.externalTypes.lookup X = none := by
      by_contra hne
      exact o'.located X hne h'
    exact o.located X (h hnone)

def incompatibleTypes (X : CId) : Stop :=
  UNDEF "TIN1" ("Identifier " ++ showCId X ++ " declared with incompatible types in different translation units.")

def multipleDefs (X : CId) : Stop :=
  UNDEF "TIN2" ("Multiple external definitions for " ++ showCId X ++ ".")

/-- `checkExtTypes`, the identifiers in some order. -/
def checkExtTypes (cfg : Settings) (tags : Tags) (types types' : List (CId × CType))
    (locs : List (CId × CabsLoc)) : List CId → Eval Unit
  | [] => .ok ()
  | X :: ids =>
    match types.lookup X, types'.lookup X with
    | _, none => checkExtTypes cfg tags types types' locs ids
    | none, some _ => .error .stuck
    | some T, some T' =>
      if areDeclCompat cfg tags T T' then checkExtTypes cfg tags types types' locs ids
      else
        match locs.lookup X with
        | none => .error .stuck
        | some _ => .error (incompatibleTypes X)

/-- `checkExtDefs`, the identifiers in some order. -/
def checkExtDefs (types : List (CId × CType)) (defs' : List (CId × SymBase)) (types' : List (CId × CType))
    (locs : List (CId × CabsLoc)) : List CId → Eval Unit
  | [] => .ok ()
  | X :: ids =>
    match defs'.lookup X with
    | none => checkExtDefs types defs' types' locs ids
    | some _ =>
      match types.lookup X, types'.lookup X, locs.lookup X with
      | some _, some _, some _ => .error (multipleDefs X)
      | _, _, _ => .error .stuck

/-- `checkMerge` -/
def checkMerge (cfg : Settings) (tags : Tags) (o o' : GlobalCell) : Eval Unit := do
  checkExtTypes cfg tags o.externalTypes o'.externalTypes
    (updateMap o.externalDeclsLoc o'.externalDeclsLoc) (o.externalTypes.map Prod.fst)
  checkExtDefs o.externalTypes o'.externalDefs o'.externalTypes
    (updateMap o.externalDefsLoc o'.externalDefsLoc) (o.externalDefs.map Prod.fst)

/-- `load`: the object that is loaded. -/
def load (cfg : Settings) (tags : Tags) : List GlobalCell → Eval GlobalCell :=
  mergeQueue mergeObj (checkMerge cfg tags) (.ok initialGlobal) fun o => do
    checkMerge cfg tags o initialGlobal
    return mergeObj o initialGlobal

/-! ## Compatibility of declarations is reflexive and symmetric -/

section Relation

variable {cfg : Settings} {tags : Tags}

theorem areCompatible_eq_iff {T T' : CType} {b : Bool} :
    areCompatible cfg tags T T' = b ↔ AreCompatible cfg tags T T' b := ConjSearch.answer_eq_iff _

theorem areDeclCompat_self (T : CType) : areDeclCompat cfg tags T T = true := by
  unfold areDeclCompat sameAlignas
  rw [areCompatible_eq_iff.mpr (decides_self [] T)]
  simp

theorem areDeclCompat_comm (T T' : CType) :
    areDeclCompat cfg tags T T' = areDeclCompat cfg tags T' T := by
  unfold areDeclCompat sameAlignas
  have hcomm : areCompatible cfg tags T T' = areCompatible cfg tags T' T :=
    areCompatible_eq_iff.mpr ((decides_swap ⟨[], T', T⟩ _).mp (areCompatible_eq_iff.mp rfl))
  rw [hcomm, Bool.beq_comm]

end Relation

/-! ## One merge -/

/-- Two objects give no identifier incompatible types. -/
def TypesAgree (cfg : Settings) (tags : Tags) (o o' : GlobalCell) : Prop :=
  ∀ X T T', o.externalTypes.lookup X = some T → o'.externalTypes.lookup X = some T' →
    areDeclCompat cfg tags T T' = true

/-- Two objects do not define the same identifier. -/
def DefsDisjoint (o o' : GlobalCell) : Prop :=
  ∀ X, o.externalDefs.lookup X = none ∨ o'.externalDefs.lookup X = none

section Merge

variable {cfg : Settings} {tags : Tags} {o o' : GlobalCell}

theorem TypesAgree.symm (h : TypesAgree cfg tags o o') : TypesAgree cfg tags o' o := by
  intro X T T' hT hT'
  rw [areDeclCompat_comm]
  exact h X T' T hT' hT

theorem DefsDisjoint.symm (h : DefsDisjoint o o') : DefsDisjoint o' o := fun X => (h X).symm

theorem checkExtTypes_eq_ok_iff {types types' : List (CId × CType)} {locs : List (CId × CabsLoc)}
    {ids : List CId} (hids : ∀ X ∈ ids, types.lookup X ≠ none) :
    checkExtTypes cfg tags types types' locs ids = .ok () ↔
      ∀ X ∈ ids, ∀ T T', types.lookup X = some T → types'.lookup X = some T' →
        areDeclCompat cfg tags T T' = true := by
  induction ids with
  | nil => simp [checkExtTypes]
  | cons X ids ih =>
    have ih := ih fun Y hY => hids Y (List.mem_cons_of_mem X hY)
    obtain ⟨T, hT⟩ := Option.ne_none_iff_exists'.mp (hids X List.mem_cons_self)
    rw [List.forall_mem_cons, ← ih, checkExtTypes, hT]
    cases hT' : types'.lookup X with
    | none => simp
    | some T' =>
      by_cases hc : areDeclCompat cfg tags T T' = true
      · simp [hc]
      · simp only [hc]
        cases locs.lookup X <;> simp [hc]

/-- The only report about types is the one about incompatible types. -/
theorem checkExtTypes_error {types types' : List (CId × CType)} {locs : List (CId × CabsLoc)}
    {ids : List CId} (hids : ∀ X ∈ ids, types.lookup X ≠ none ∧ locs.lookup X ≠ none) {e : Stop}
    (he : checkExtTypes cfg tags types types' locs ids = .error e) : ∃ X T T', e = incompatibleTypes X ∧
      types.lookup X = some T ∧ types'.lookup X = some T' ∧ areDeclCompat cfg tags T T' = false := by
  induction ids with
  | nil => cases he
  | cons X ids ih =>
    have ih := ih fun Y hY => hids Y (List.mem_cons_of_mem X hY)
    obtain ⟨T, hT⟩ := Option.ne_none_iff_exists'.mp (hids X List.mem_cons_self).1
    obtain ⟨l, hl⟩ := Option.ne_none_iff_exists'.mp (hids X List.mem_cons_self).2
    rw [checkExtTypes, hT] at he
    cases hT' : types'.lookup X with
    | none => rw [hT'] at he; exact ih he
    | some T' =>
      simp only [hT', hl] at he
      split at he
      case isTrue => exact ih he
      case isFalse hc =>
        cases he
        exact ⟨X, T, T', rfl, hT, hT', Bool.not_eq_true _ ▸ hc⟩

/-- The only report about definitions is the one about several of them. -/
theorem checkExtDefs_error {types : List (CId × CType)} {defs' : List (CId × SymBase)} {types' : List (CId × CType)}
    {locs : List (CId × CabsLoc)} {ids : List CId}
    (hids : ∀ X ∈ ids, types.lookup X ≠ none ∧ locs.lookup X ≠ none)
    (hdefs' : ∀ X, defs'.lookup X ≠ none → types'.lookup X ≠ none) {e : Stop}
    (he : checkExtDefs types defs' types' locs ids = .error e) :
    ∃ X ∈ ids, e = multipleDefs X ∧ defs'.lookup X ≠ none := by
  induction ids with
  | nil => cases he
  | cons X ids ih =>
    have ih := ih fun Y hY => hids Y (List.mem_cons_of_mem X hY)
    rw [checkExtDefs] at he
    cases hd : defs'.lookup X with
    | none =>
      rw [hd] at he
      obtain ⟨Y, hY, hYe⟩ := ih he
      exact ⟨Y, List.mem_cons_of_mem X hY, hYe⟩
    | some b =>
      obtain ⟨T, hT⟩ := Option.ne_none_iff_exists'.mp (hids X List.mem_cons_self).1
      obtain ⟨l, hl⟩ := Option.ne_none_iff_exists'.mp (hids X List.mem_cons_self).2
      obtain ⟨T', hT'⟩ := Option.ne_none_iff_exists'.mp (hdefs' X (by simp [hd]))
      simp only [hd, hT, hT', hl] at he
      cases he
      exact ⟨X, List.mem_cons_self, rfl, by simp [hd]⟩

theorem checkExtDefs_eq_ok_iff {types types' : List (CId × CType)} {defs' : List (CId × SymBase)}
    {locs : List (CId × CabsLoc)} {ids : List CId} :
    checkExtDefs types defs' types' locs ids = .ok () ↔ ∀ X ∈ ids, defs'.lookup X = none := by
  induction ids with
  | nil => simp [checkExtDefs]
  | cons X ids ih =>
    rw [List.forall_mem_cons, ← ih, checkExtDefs]
    cases hd : defs'.lookup X with
    | none => simp
    | some b =>
      simp only [reduceCtorEq, false_and, iff_false]
      split <;> simp

theorem checkMerge_types_iff : (∀ X ∈ o.externalTypes.map Prod.fst, ∀ T T',
    o.externalTypes.lookup X = some T → o'.externalTypes.lookup X = some T' →
      areDeclCompat cfg tags T T' = true) ↔ TypesAgree cfg tags o o' := by
  constructor
  · intro h X T T' hT hT'
    exact h X ((mem_keys_iff _ X).mpr ⟨T, hT⟩) T T' hT hT'
  · exact fun h X _ => h X

theorem checkMerge_defs_iff :
    (∀ X ∈ o.externalDefs.map Prod.fst, o'.externalDefs.lookup X = none) ↔ DefsDisjoint o o' := by
  constructor
  · intro h X
    cases hX : o.externalDefs.lookup X with
    | none => exact .inl rfl
    | some b => exact .inr (h X ((mem_keys_iff _ X).mpr ⟨b, hX⟩))
  · intro h X hX
    obtain ⟨b, hb⟩ := (mem_keys_iff _ X).mp hX
    rcases h X with hn | hn
    · rw [hb] at hn; cases hn
    · exact hn

/-- **A merge passes** when the two objects agree on types and define nothing twice. -/
theorem checkMerge_eq_ok_iff :
    checkMerge cfg tags o o' = .ok () ↔ TypesAgree cfg tags o o' ∧ DefsDisjoint o o' := by
  have hids : ∀ X ∈ o.externalTypes.map Prod.fst, o.externalTypes.lookup X ≠ none := by
    intro X hX
    obtain ⟨T, hT⟩ := (mem_keys_iff _ X).mp hX
    simp [hT]
  unfold checkMerge
  rw [Eval.bind_eq_ok]
  simp only [checkExtTypes_eq_ok_iff hids, checkExtDefs_eq_ok_iff, checkMerge_types_iff,
    checkMerge_defs_iff, exists_const]

/-- What a failed check of types reports. -/
theorem checkMerge_types_error {e : Stop} (he : checkExtTypes cfg tags o.externalTypes o'.externalTypes
    (updateMap o.externalDeclsLoc o'.externalDeclsLoc) (o.externalTypes.map Prod.fst) = .error e) :
    ∃ X T T', e = incompatibleTypes X ∧ o.externalTypes.lookup X = some T ∧ o'.externalTypes.lookup X = some T' ∧
      areDeclCompat cfg tags T T' = false := by
  refine checkExtTypes_error ?_ he
  intro X hX
  obtain ⟨T, hT⟩ := (mem_keys_iff _ X).mp hX
  have hne : o.externalTypes.lookup X ≠ none := by simp [hT]
  refine ⟨hne, ?_⟩
  rw [lookup_updateMap]
  intro hnone
  exact o.located X hne (Option.or_eq_none_iff.mp hnone).2

/-- Where nothing is defined twice, a failed merge reports incompatible types. -/
theorem checkMerge_error (hdefs : DefsDisjoint o o') {e : Stop}
    (he : checkMerge cfg tags o o' = .error e) : ∃ X, e = incompatibleTypes X := by
  unfold checkMerge at he
  cases hty : checkExtTypes cfg tags o.externalTypes o'.externalTypes
      (updateMap o.externalDeclsLoc o'.externalDeclsLoc) (o.externalTypes.map Prod.fst) with
  | error e' =>
    rw [hty] at he
    cases he
    obtain ⟨X, -, -, hX, -⟩ := checkMerge_types_error hty
    exact ⟨X, hX⟩
  | ok u =>
    rw [hty] at he
    have hok : checkExtDefs o.externalTypes o'.externalDefs o'.externalTypes
        (updateMap o.externalDefsLoc o'.externalDefsLoc) (o.externalDefs.map Prod.fst) = .ok () :=
      checkExtDefs_eq_ok_iff.mpr (checkMerge_defs_iff.mpr hdefs)
    exact absurd (he.symm.trans hok) (by simp)

/-- Every definition has its type and its location. -/
def GlobalCell.DefsTyped (o : GlobalCell) : Prop :=
  ∀ X, o.externalDefs.lookup X ≠ none → o.externalTypes.lookup X ≠ none ∧ o.externalDefsLoc.lookup X ≠ none

/-- A failed merge reports an identifier that both objects define, or declare with types that are not
    compatible. -/
theorem checkMerge_error_cases (ho : o.DefsTyped) (ho' : o'.DefsTyped) {e : Stop}
    (he : checkMerge cfg tags o o' = .error e) :
    (∃ X, e = multipleDefs X ∧ o.externalDefs.lookup X ≠ none ∧ o'.externalDefs.lookup X ≠ none) ∨
    ∃ X T T', e = incompatibleTypes X ∧ o.externalTypes.lookup X = some T ∧ o'.externalTypes.lookup X = some T' ∧
      areDeclCompat cfg tags T T' = false := by
  unfold checkMerge at he
  cases hty : checkExtTypes cfg tags o.externalTypes o'.externalTypes
      (updateMap o.externalDeclsLoc o'.externalDeclsLoc) (o.externalTypes.map Prod.fst) with
  | error e' =>
    rw [hty] at he
    cases he
    exact .inr (checkMerge_types_error hty)
  | ok u =>
    rw [hty] at he
    have hdefined : ∀ X ∈ o.externalDefs.map Prod.fst, o.externalDefs.lookup X ≠ none := by
      intro X hX
      obtain ⟨B, hB⟩ := (mem_keys_iff _ X).mp hX
      simp [hB]
    have hids : ∀ X ∈ o.externalDefs.map Prod.fst, o.externalTypes.lookup X ≠ none ∧
        (updateMap o.externalDefsLoc o'.externalDefsLoc).lookup X ≠ none := by
      intro X hX
      obtain ⟨htype, hloc⟩ := ho X (hdefined X hX)
      refine ⟨htype, ?_⟩
      rw [lookup_updateMap]
      intro hnone
      exact hloc (Option.or_eq_none_iff.mp hnone).2
    obtain ⟨X, hX, rfl, hX'⟩ := checkExtDefs_error hids (fun X hX => (ho' X hX).1) he
    exact .inl ⟨X, rfl, hdefined X hX, hX'⟩

theorem typesAgree_initialGlobal : TypesAgree cfg tags o initialGlobal := by
  intro X T T' _ hT'
  cases hT'

theorem defsDisjoint_initialGlobal : DefsDisjoint o initialGlobal := fun _ => .inr rfl

theorem defsDisjoint_mergeObj {o'' : GlobalCell} (h : DefsDisjoint o'' o) (h' : DefsDisjoint o'' o') :
    DefsDisjoint o'' (mergeObj o o') := by
  intro X
  rcases h X with hn | hn
  · exact .inl hn
  · rcases h' X with hn' | hn'
    · exact .inl hn'
    · refine .inr ?_
      simp only [mergeObj, lookup_updateMap, hn, hn', Option.or_none]

end Merge

/-! ## A merged object and the units it was made of -/

/-- Among types from `P`, compatibility of declarations is transitive. -/
def CompatTransitive (cfg : Settings) (tags : Tags) (P : CId → Set CType) : Prop :=
  ∀ X, ∀ T ∈ P X, ∀ U ∈ P X, ∀ V ∈ P X, areDeclCompat cfg tags T U = true →
    areDeclCompat cfg tags U V = true → areDeclCompat cfg tags T V = true

/-- Every unit declares its identifiers with types from `P`. -/
def DeclaredWithin (P : CId → Set CType) (l : List GlobalCell) : Prop :=
  ∀ o ∈ l, ∀ X T, o.externalTypes.lookup X = some T → T ∈ P X

/-- `m` was merged from the units `l`: its types are theirs, and so are its definitions. -/
structure MergedFrom (m : GlobalCell) (l : List GlobalCell) : Prop where
  typeOf : ∀ X T, m.externalTypes.lookup X = some T → ∃ o ∈ l, o.externalTypes.lookup X = some T
  declared : ∀ X, ∀ o ∈ l, o.externalTypes.lookup X ≠ none → m.externalTypes.lookup X ≠ none
  defined : ∀ X, m.externalDefs.lookup X = none ↔ ∀ o ∈ l, o.externalDefs.lookup X = none

section Runs

variable {cfg : Settings} {tags : Tags} {P : CId → Set CType}

theorem MergedFrom.single (o : GlobalCell) : MergedFrom o [o] where
  typeOf := fun _ _ hT => ⟨o, List.mem_singleton_self o, hT⟩
  declared := fun _ _ ho hne => List.mem_singleton.mp ho ▸ hne
  defined := fun _ => by simp

theorem MergedFrom.merge {m m' : GlobalCell} {l l' : List GlobalCell} (h : MergedFrom m l)
    (h' : MergedFrom m' l') : MergedFrom (mergeObj m m') (l ++ l') where
  typeOf := by
    intro X T hT
    simp only [mergeObj, lookup_updateMap, Option.or_eq_some_iff] at hT
    rcases hT with hT | ⟨_, hT⟩
    · obtain ⟨o, ho, hoT⟩ := h'.typeOf X T hT
      exact ⟨o, List.mem_append_right l ho, hoT⟩
    · obtain ⟨o, ho, hoT⟩ := h.typeOf X T hT
      exact ⟨o, List.mem_append_left l' ho, hoT⟩
  declared := by
    intro X o ho hne hnone
    simp only [mergeObj, lookup_updateMap, Option.or_eq_none_iff] at hnone
    rcases List.mem_append.mp ho with ho | ho
    · exact h.declared X o ho hne hnone.2
    · exact h'.declared X o ho hne hnone.1
  defined := by
    intro X
    simp only [mergeObj, lookup_updateMap, Option.or_eq_none_iff, h.defined X, h'.defined X,
      List.forall_mem_append]
    exact and_comm

/-- The type that a merged object keeps is compatible with that of each of its units. -/
theorem MergedFrom.compat_of_mem {m : GlobalCell} {l : List GlobalCell} (h : MergedFrom m l)
    (hl : l.Pairwise (TypesAgree cfg tags)) {o : GlobalCell} (ho : o ∈ l) {X : CId} {T U : CType}
    (hT : o.externalTypes.lookup X = some T) (hU : m.externalTypes.lookup X = some U) :
    areDeclCompat cfg tags T U = true := by
  obtain ⟨o', ho', hoU⟩ := h.typeOf X U hU
  have hrefl : ∀ x ∈ l, TypesAgree cfg tags x x := by
    intro x _ Y V V' hV hV'
    cases hV.symm.trans hV'
    exact areDeclCompat_self V
  have : Std.Symm (TypesAgree cfg tags) := ⟨fun _ _ hxy => hxy.symm⟩
  exact hl.forall_of_forall hrefl ho ho' X T U hT hoU

/-- Two merged objects agree exactly when their units do, for a transitive compatibility. -/
theorem MergedFrom.typesAgree_iff (htrans : CompatTransitive cfg tags P) {m m' : GlobalCell}
    {l l' : List GlobalCell} (h : MergedFrom m l) (h' : MergedFrom m' l')
    (hP : DeclaredWithin P l) (hP' : DeclaredWithin P l')
    (hl : l.Pairwise (TypesAgree cfg tags)) (hl' : l'.Pairwise (TypesAgree cfg tags)) :
    TypesAgree cfg tags m m' ↔ ∀ o ∈ l, ∀ o' ∈ l', TypesAgree cfg tags o o' := by
  constructor
  · intro hagree o ho o' ho' X T T' hT hT'
    obtain ⟨U, hU⟩ := Option.ne_none_iff_exists'.mp (h.declared X o ho (by simp [hT]))
    obtain ⟨U', hU'⟩ := Option.ne_none_iff_exists'.mp (h'.declared X o' ho' (by simp [hT']))
    obtain ⟨k, hk, hkU⟩ := h.typeOf X U hU
    obtain ⟨k', hk', hkU'⟩ := h'.typeOf X U' hU'
    -- T is compatible with U, U with U', and U' with T'
    have hTU := h.compat_of_mem hl ho hT hU
    have hUU' := hagree X U U' hU hU'
    have hUT' : areDeclCompat cfg tags U' T' = true := by
      rw [areDeclCompat_comm]
      exact h'.compat_of_mem hl' ho' hT' hU'
    have hT_mem := hP o ho X T hT
    have hU_mem := hP k hk X U hkU
    have hU'_mem := hP' k' hk' X U' hkU'
    have hT'_mem := hP' o' ho' X T' hT'
    have hTU' := htrans X T hT_mem U hU_mem U' hU'_mem hTU hUU'
    exact htrans X T hT_mem U' hU'_mem T' hT'_mem hTU' hUT'
  · intro hunits X T T' hT hT'
    obtain ⟨o, ho, hoT⟩ := h.typeOf X T hT
    obtain ⟨o', ho', hoT'⟩ := h'.typeOf X T' hT'
    exact hunits o ho o' ho' X T T' hoT hoT'

theorem MergedFrom.defsDisjoint_iff {m m' : GlobalCell} {l l' : List GlobalCell}
    (h : MergedFrom m l) (h' : MergedFrom m' l') :
    DefsDisjoint m m' ↔ ∀ o ∈ l, ∀ o' ∈ l', DefsDisjoint o o' := by
  unfold DefsDisjoint
  constructor
  · intro hd o ho o' ho' X
    rcases hd X with hn | hn
    · exact .inl ((h.defined X).mp hn o ho)
    · exact .inr ((h'.defined X).mp hn o' ho')
  · intro hd X
    rw [h.defined X, h'.defined X]
    by_contra hcon
    push Not at hcon
    obtain ⟨⟨o, ho, hne⟩, ⟨o', ho', hne'⟩⟩ := hcon
    rcases hd o ho o' ho' X with hn | hn
    · exact hne hn
    · exact hne' hn

/-! ## The whole link -/

/-- **A link passes** exactly when all units agree with each other, for a transitive
    compatibility. -/
theorem load_eq_ok_iff (htrans : CompatTransitive cfg tags P) (objs : List GlobalCell)
    (hP : DeclaredWithin P objs) : (∃ g, load cfg tags objs = .ok g) ↔
      objs.Pairwise fun o o' => TypesAgree cfg tags o o' ∧ DefsDisjoint o o' := by
  let Agree : GlobalCell → GlobalCell → Prop := fun o o' => TypesAgree cfg tags o o' ∧ DefsDisjoint o o'
  let Rep : GlobalCell → List GlobalCell → Prop := fun m l => MergedFrom m l ∧ DeclaredWithin P l
  have hsymm : ∀ {o o'}, Agree o o' → Agree o' o := fun h => ⟨h.1.symm, h.2.symm⟩
  have hmerge : ∀ {a b l l'}, Rep a l → Rep b l' → Rep (mergeObj a b) (l ++ l') := by
    intro a b l l' ha hb
    exact ⟨ha.1.merge hb.1, List.forall_mem_append.mpr ⟨ha.2, hb.2⟩⟩
  have hcheck : ∀ {a b l l'}, Rep a l → Rep b l' → l.Pairwise Agree → l'.Pairwise Agree →
      (checkMerge cfg tags a b = .ok () ↔ (l ++ l').Pairwise Agree) := by
    intro a b l l' ha hb hl hl'
    have hty := ha.1.typesAgree_iff htrans hb.1 ha.2 hb.2 (hl.imp And.left) (hl'.imp And.left)
    rw [checkMerge_eq_ok_iff, hty, ha.1.defsDisjoint_iff hb.1, List.pairwise_append]
    constructor
    · intro h
      exact ⟨hl, hl', fun o ho o' ho' => ⟨h.1 o ho o' ho', h.2 o ho o' ho'⟩⟩
    · intro h
      exact ⟨fun o ho o' ho' => (h.2.2 o ho o' ho').1, fun o ho o' ho' => (h.2.2 o ho o' ho').2⟩
  have hfinish : ∀ {a l}, Rep a l → ∃ r, (do
      checkMerge cfg tags a initialGlobal
      return mergeObj a initialGlobal : Eval GlobalCell) = .ok r := by
    intro a l _
    refine ⟨mergeObj a initialGlobal, Eval.bind_eq_ok.mpr ⟨(), ?_, rfl⟩⟩
    exact checkMerge_eq_ok_iff.mpr ⟨typesAgree_initialGlobal, defsDisjoint_initialGlobal⟩
  have hrep : List.Forall₂ Rep objs (objs.map fun o => [o]) := by
    refine List.forall₂_map_right_iff.mpr (List.forall₂_same.mpr fun o ho => ?_)
    exact ⟨.single o, fun o' ho' => List.mem_singleton.mp ho' ▸ hP o ho⟩
  have hsingle : ∀ l ∈ objs.map fun o => [o], l.Pairwise Agree := by
    intro l hl
    obtain ⟨o, _, rfl⟩ := List.mem_map.mp hl
    exact List.pairwise_singleton _ o
  have hrun := @mergeQueue_ok_iff _ _ _ _ _ _ _ _ Agree hsymm Rep hmerge hcheck ⟨initialGlobal, rfl⟩
    hfinish objs _ hrep hsingle
  have hflat : (objs.map fun o => [o]).flatten = objs := by
    rw [← List.flatMap_def]
    exact List.flatMap_singleton' objs
  rw [hflat] at hrun
  exact hrun

/-- Where nothing is defined twice, a link that fails reports incompatible types. -/
theorem load_error (objs : List GlobalCell) (hdefs : objs.Pairwise DefsDisjoint) {e : Stop}
    (he : load cfg tags objs = .error e) : ∃ X, e = incompatibleTypes X := by
  refine mergeQueue_error (Q := fun l => l.Pairwise DefsDisjoint) (P := fun e => ∃ X, e = incompatibleTypes X)
    ?_ ?_ ?_ ?_ objs hdefs he
  · intro a b rest h
    obtain ⟨ha, hb, hrest⟩ : (∀ x ∈ b :: rest, DefsDisjoint a x) ∧ (∀ x ∈ rest, DefsDisjoint b x) ∧
        rest.Pairwise DefsDisjoint := by
      simpa only [List.pairwise_cons] using h
    refine List.pairwise_append.mpr ⟨hrest, List.pairwise_singleton _ _, ?_⟩
    intro x hx y hy
    rw [List.mem_singleton.mp hy]
    exact defsDisjoint_mergeObj (ha x (List.mem_cons_of_mem b hx)).symm (hb x hx).symm
  · intro a b rest e h hc
    exact checkMerge_error (List.rel_of_pairwise_cons h List.mem_cons_self) hc
  · intro e h
    cases h
  · intro a e _ h
    have hok : checkMerge cfg tags a initialGlobal = .ok () :=
      checkMerge_eq_ok_iff.mpr ⟨typesAgree_initialGlobal, defsDisjoint_initialGlobal⟩
    rw [hok] at h
    cases h

/-- Where nothing is defined twice, the conflicts that a link reports are the conflicts there are. -/
theorem load_conflict_iff (htrans : CompatTransitive cfg tags P) (objs : List GlobalCell)
    (hdefs : objs.Pairwise DefsDisjoint) (hP : DeclaredWithin P objs) :
    (∃ X, load cfg tags objs = .error (incompatibleTypes X)) ↔ ¬objs.Pairwise (TypesAgree cfg tags) := by
  have hok := load_eq_ok_iff htrans objs hP
  have hand : (objs.Pairwise fun o o' => TypesAgree cfg tags o o' ∧ DefsDisjoint o o') ↔
      objs.Pairwise (TypesAgree cfg tags) :=
    List.pairwise_and_iff.trans (and_iff_left hdefs)
  rw [← hand, ← hok]
  constructor
  · rintro ⟨X, hX⟩ ⟨g, hg⟩
    cases hX.symm.trans hg
  · intro hno
    cases hload : load cfg tags objs with
    | ok g => exact absurd ⟨g, hload⟩ hno
    | error e =>
      obtain ⟨X, rfl⟩ := load_error objs hdefs hload
      exact ⟨X, rfl⟩

/-! ## Compatibility that is not transitive hides conflicts -/

/-- A unit that only declares `X`. -/
def declaring (X : CId) (T : CType) : GlobalCell where
  externalTypes := [(X, T)]
  externalDefs := []
  externalDeclsLoc := [(X, .UnknownCabsLoc)]
  externalDefsLoc := []
  located := by
    intro Y
    by_cases hY : Y = X <;> simp [hY]

theorem lookup_singleton {X Y : CId} {T : CType} :
    [(X, T)].lookup Y = if Y = X then some T else none := by
  rw [List.lookup_cons, List.lookup_nil]
  by_cases hY : Y = X <;> simp [hY, beq_false_of_ne]

theorem lookup_declaring {X Y : CId} {T T' : CType} :
    (declaring X T).externalTypes.lookup Y = some T' ↔ Y = X ∧ T = T' := by
  by_cases hY : Y = X <;> simp [declaring, lookup_singleton, hY]

theorem typesAgree_declaring {X : CId} {T T' : CType} :
    TypesAgree cfg tags (declaring X T) (declaring X T') ↔ areDeclCompat cfg tags T T' = true := by
  constructor
  · intro h
    exact h X T T' (lookup_declaring.mpr ⟨rfl, rfl⟩) (lookup_declaring.mpr ⟨rfl, rfl⟩)
  · intro h Y U U' hU hU'
    obtain ⟨-, rfl⟩ := lookup_declaring.mp hU
    obtain ⟨-, rfl⟩ := lookup_declaring.mp hU'
    exact h

/-- A merge keeps the type of its second part. -/
theorem lookup_mergeObj_declaring {X Y : CId} {T U V : CType} :
    (mergeObj (declaring X T) (declaring X U)).externalTypes.lookup Y = some V ↔ Y = X ∧ U = V := by
  by_cases hY : Y = X <;> simp [mergeObj, lookup_updateMap, declaring, lookup_singleton, hY]

/-- The first unit is compared with the second, and the third with the type of the SECOND. -/
theorem load_three_declaring {X : CId} {T U V : CType} (hTU : areDeclCompat cfg tags T U = true)
    (hUV : areDeclCompat cfg tags U V = true) :
    ∃ g, load cfg tags [declaring X T, declaring X U, declaring X V] = .ok g := by
  let merged : GlobalCell := mergeObj (declaring X T) (declaring X U)
  have hfirst : checkMerge cfg tags (declaring X T) (declaring X U) = .ok () :=
    checkMerge_eq_ok_iff.mpr ⟨typesAgree_declaring.mpr hTU, fun _ => .inl rfl⟩
  have hsecond : checkMerge cfg tags (declaring X V) merged = .ok () := by
    refine checkMerge_eq_ok_iff.mpr ⟨?_, fun _ => .inl rfl⟩
    intro Y W W' hW hW'
    obtain ⟨-, rfl⟩ := lookup_declaring.mp hW
    obtain ⟨-, rfl⟩ := lookup_mergeObj_declaring.mp hW'
    rw [areDeclCompat_comm]
    exact hUV
  have hlast : checkMerge cfg tags (mergeObj (declaring X V) merged) initialGlobal = .ok () :=
    checkMerge_eq_ok_iff.mpr ⟨typesAgree_initialGlobal, defsDisjoint_initialGlobal⟩
  refine ⟨mergeObj (mergeObj (declaring X V) merged) initialGlobal, ?_⟩
  refine mergeQueue_cons_eq_ok.mpr ⟨mergeQueue_cons_eq_ok.mpr ⟨?_, hsecond⟩, hfirst⟩
  rw [List.nil_append, mergeQueue]
  exact Eval.bind_eq_ok.mpr ⟨(), hlast, rfl⟩

end Runs

end CSemantics
