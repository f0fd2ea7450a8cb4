/-
  Checking `restrict`.

  While a block runs, `<restrict>` keeps for every location that is accessed ONE state: `onlyRead`
  through a set of restrict bases, `unrestricted` (read through different sets), or `restricted`
  (modified, every access through one set).  An access joins its state into that of the top block.
  Leaving a block drops the bases that belong to the block from its states and joins what is left into
  the block below.

  The states summarise the history of a location (`Reflects`), and recording reports a violation
  exactly when some location was modified and accessed through two different sets (`Violates`).
  Leaving a block does not always do that: `unrestricted` does not say through which sets the location
  was read, so `filterBases` has nothing to drop, although the sets may have differed only in the bases
  of the block that is left.

      checkRestrict_eq_recordTop     the check of an access records it
      exitRestrictBlock_agrees_iff   when leaving a block records what the enclosing block would have
-/
import CSemantics.Lib.Summary
import CSemantics.Memory.Objects

namespace CSemantics

/-! ## States -/

/-- `basedOn(Base, Scope)` -/
abbrev RestrictBase := SymBase × Scope

/-- A location without provenance. -/
structure Place where
  base : SymBase
  offset : Int
  deriving DecidableEq

inductive RestrictState
  | onlyRead (bases : Finset RestrictBase) (srcLoc : CabsLoc)
  | unrestricted (srcLoc : CabsLoc)
  | restricted (bases : Finset RestrictBase) (srcLoc : CabsLoc)
  deriving DecidableEq

def getSrcLoc : RestrictState → CabsLoc
  | .onlyRead _ srcLoc => srcLoc
  | .unrestricted srcLoc => srcLoc
  | .restricted _ srcLoc => srcLoc

/-- `filterBases'`: the bases that do not belong to the block. -/
def filterBases' (bases : Finset RestrictBase) (s : Scope) : Finset RestrictBase :=
  bases.filter fun b => b.2 ≠ s

/-- `filterBases` -/
def filterBases : RestrictState → Scope → RestrictState
  | .onlyRead bases srcLoc, s => .onlyRead (filterBases' bases s) srcLoc
  | .restricted bases srcLoc, s => .restricted (filterBases' bases s) srcLoc
  | r, _ => r

/-- `joinRestrictState`, the new state first.  Assumes no conflict. -/
def joinRestrictState : RestrictState → RestrictState → RestrictState
  | .restricted bases srcLoc, _ => .restricted bases srcLoc
  | st, .restricted bases _ => .restricted bases (getSrcLoc st)
  | .onlyRead bases srcLoc, .onlyRead bases' _ =>
    if bases = bases' then .onlyRead bases srcLoc else .unrestricted srcLoc
  | st, _ => .unrestricted (getSrcLoc st)

def isRestrictConflict : RestrictState → RestrictState → Bool
  | .restricted bases _, .restricted bases' _ => decide (bases ≠ bases')
  | .unrestricted _, .unrestricted _ => false
  | .onlyRead _ _, .onlyRead _ _ => false
  | .onlyRead _ _, .unrestricted _ => false
  | .unrestricted _, .onlyRead _ _ => false
  | .onlyRead bases _, .restricted bases' _ => decide (bases ≠ bases')
  | .restricted bases _, .onlyRead bases' _ => decide (bases ≠ bases')
  | _, _ => true

/-! ## Blocks -/

/-- The map of a `restrictStatus`. -/
abbrev RestrictMap := List (Place × RestrictState)

/-- An entry of `<restrict>`; the innermost block comes first. -/
structure RestrictStatus where
  tag : Scope
  map : RestrictMap

def restrictViolation : Stop :=
  UNDEF "ECL3" "An object which has been modified is accessed through an expression based on a restrict-qualified pointer and another lvalue not also based on said pointer."

/-- `mergeRestrict`, on the map of the top block. -/
def mergeRestrict (R : RestrictMap) (p : Place) (st : RestrictState) : Eval RestrictMap :=
  match R.lookup p with
  | none => .ok (AssocMap.update R p st)
  | some st' =>
    if isRestrictConflict st st' then .error restrictViolation
    else .ok (AssocMap.update R p (joinRestrictState st st'))

/-- `mergeRestricts`: `R'` is the map of the block that is left, `R` that of the block below. -/
def mergeRestricts (tag : Scope) (locals : Finset SymBase) (R' : RestrictMap) :
    List Place → RestrictMap → Eval RestrictMap
  | [], R => .ok R
  | p :: ps, R =>
    if p.base ∈ locals then mergeRestricts tag locals R' ps R
    else
      match R'.lookup p with
      | none => .error .stuck
      | some st => do
        let R ← mergeRestrict R p (filterBases st tag)
        mergeRestricts tag locals R' ps R

/-- `enterRestrictBlock`; `restrictBlocks` is `<has-restrict>` of the translation unit. -/
def enterRestrictBlock (restrictBlocks : Finset Scope) (tag : Scope) :
    List RestrictStatus → List RestrictStatus
  | [] => if tag ∈ restrictBlocks then [⟨tag, []⟩] else []
  | stack => ⟨tag, []⟩ :: stack

/-- `exitRestrictBlock`: nothing is kept once the last block is left. -/
def exitRestrictBlock (locals : Finset SymBase) : List RestrictStatus → Eval (List RestrictStatus)
  | top :: below :: stack => do
    let R ← mergeRestricts top.tag locals top.map (top.map.map Prod.fst) below.map
    return ⟨below.tag, R⟩ :: stack
  | _ => .ok []

/-! ## Accesses -/

/-- `checkConst'` -/
def checkConst' (M : Mem) (b : RestrictBase) : Eval Unit :=
  match M b.1 with
  | none => .ok ()
  | some ⟨.type T, _⟩ =>
    match innerType T with
    | none => .error .stuck
    | some inner =>
      if isConstType inner then
        .error (UNDEF "ECL4" "An object which has been modified is accessed through an expression based on a restrict-qualified pointer to a const-qualified type.")
      else .ok ()
  | some ⟨.dynamicType _, _⟩ => .error .stuck

/-- `checkConst`, the bases in some order. -/
def checkConst (M : Mem) : List RestrictBase → Eval Unit
  | [] => .ok ()
  | b :: bs => do
    checkConst' M b
    checkConst M bs

/-- `checkRestrict'` -/
def checkRestrict' (M : Mem) (srcLoc : CabsLoc) (write : Bool) (p : Place) (bases : List RestrictBase)
    (R : RestrictMap) : Eval RestrictMap :=
  match R.lookup p, write with
  | none, false => .ok (AssocMap.update R p (.onlyRead bases.toFinset srcLoc))
  | none, true => do
    checkConst M bases
    return AssocMap.update R p (.restricted bases.toFinset srcLoc)
  | some st', false =>
    if isRestrictConflict (.onlyRead bases.toFinset .UnknownCabsLoc) st' then .error restrictViolation
    else .ok (AssocMap.update R p (joinRestrictState (.onlyRead bases.toFinset srcLoc) st'))
  | some st', true =>
    if isRestrictConflict (.restricted bases.toFinset .UnknownCabsLoc) st' then do
      checkConst M bases
      .error restrictViolation
    else .ok (AssocMap.update R p (joinRestrictState (.restricted bases.toFinset srcLoc) st'))

/-- `checkRestrict` -/
def checkRestrict (M : Mem) (srcLoc : CabsLoc) (write : Bool) (l : SymLoc) :
    List RestrictStatus → Eval (List RestrictStatus)
  | [] => .ok []
  | top :: stack =>
    match l.stripProv with
    | .loc b o => do
      let R ← checkRestrict' M srcLoc write ⟨b, o⟩ l.getBases top.map
      return ⟨top.tag, R⟩ :: stack
    | _ => .error .stuck

/-- An access to a location: whether it is a write, the bases of the pointer and the place in the
    program. -/
structure RestrictAccess where
  write : Bool
  place : Place
  bases : Finset RestrictBase
  srcLoc : CabsLoc
  deriving DecidableEq

namespace RestrictAccess

/-- The state an access joins in. -/
def state (a : RestrictAccess) : RestrictState :=
  if a.write then .restricted a.bases a.srcLoc else .onlyRead a.bases a.srcLoc

/-- The access with only the bases that outlive the block. -/
def outward (tag : Scope) (a : RestrictAccess) : RestrictAccess :=
  { a with bases := filterBases' a.bases tag }

end RestrictAccess

/-- Record accesses in the map of a block. -/
def recordAll : RestrictMap → List RestrictAccess → Eval RestrictMap
  | R, [] => .ok R
  | R, a :: as => do
    let R ← mergeRestrict R a.place a.state
    recordAll R as

/-- Record accesses in the top block. -/
def recordTop (as : List RestrictAccess) : List RestrictStatus → Eval (List RestrictStatus)
  | [] => .ok []
  | top :: stack => do
    let R ← recordAll top.map as
    return ⟨top.tag, R⟩ :: stack

/-- Where an access is in the program does not matter for a conflict. -/
theorem isRestrictConflict_restricted (bases : Finset RestrictBase) (srcLoc srcLoc' : CabsLoc)
    (st : RestrictState) : isRestrictConflict (.restricted bases srcLoc) st =
      isRestrictConflict (.restricted bases srcLoc') st := by
  cases st <;> rfl

theorem isRestrictConflict_onlyRead (bases : Finset RestrictBase) (srcLoc srcLoc' : CabsLoc)
    (st : RestrictState) : isRestrictConflict (.onlyRead bases srcLoc) st =
      isRestrictConflict (.onlyRead bases srcLoc') st := by
  cases st <;> rfl

/-- The check of an access joins its state in.  Const-qualified bases are looked at only by a write
    that finds the location without a state or in conflict. -/
theorem checkRestrict'_eq (M : Mem) (srcLoc : CabsLoc) (write : Bool) (p : Place)
    (bases : List RestrictBase) (R : RestrictMap) :
    checkRestrict' M srcLoc write p bases R = (do
      if write ∧ (R.lookup p).all (isRestrictConflict (.restricted bases.toFinset srcLoc)) then
        checkConst M bases
      mergeRestrict R p (RestrictAccess.state ⟨write, p, bases.toFinset, srcLoc⟩)) := by
  unfold checkRestrict' mergeRestrict RestrictAccess.state
  cases hl : R.lookup p with
  | none =>
    cases write with
    | false => rfl
    | true => rfl
  | some st' =>
    cases write with
    | false =>
      simp only [isRestrictConflict_onlyRead _ .UnknownCabsLoc srcLoc]
      rfl
    | true =>
      simp only [isRestrictConflict_restricted _ .UnknownCabsLoc srcLoc, Option.all_some, true_and,
        if_true]
      by_cases hc : isRestrictConflict (.restricted bases.toFinset srcLoc) st' = true
      · rw [if_pos hc, if_pos hc, if_pos hc]
      · rw [if_neg hc, if_neg hc, if_neg hc]

/-- **Checking an access is recording it** in the top block, when no const-qualified base stops a
    write. -/
theorem checkRestrict_eq_recordTop {M : Mem} {srcLoc : CabsLoc} {write : Bool} {l : SymLoc} {b : SymBase}
    {o : Int} (hl : l.stripProv = .loc b o) (hconst : write = true → checkConst M l.getBases = .ok ())
    (stack : List RestrictStatus) :
    checkRestrict M srcLoc write l stack =
      recordTop [⟨write, ⟨b, o⟩, l.getBases.toFinset, srcLoc⟩] stack := by
  cases stack with
  | nil => rfl
  | cons top stack =>
    have hcheck : checkRestrict' M srcLoc write ⟨b, o⟩ l.getBases top.map =
        recordAll top.map [⟨write, ⟨b, o⟩, l.getBases.toFinset, srcLoc⟩] := by
      rw [checkRestrict'_eq, recordAll]
      -- recording nothing more changes nothing
      have hlast : ∀ x : Eval RestrictMap, (x >>= fun R => recordAll R []) = x := by
        intro x
        cases x <;> rfl
      rw [hlast]
      split_ifs with hw
      · rw [hconst hw.1]
        rfl
      · rfl
    simp only [checkRestrict, hl, hcheck, recordTop]

/-! ## Histories -/

/-- The accesses to one location. -/
def historyOf (p : Place) (as : List RestrictAccess) : List RestrictAccess :=
  as.filter fun a => a.place = p

/-- Some access is a write. -/
def Written (L : List RestrictAccess) : Prop := ∃ a ∈ L, a.write = true

/-- Two accesses are through different sets of bases. -/
def Mixed (L : List RestrictAccess) : Prop := ∃ a ∈ L, ∃ b ∈ L, a.bases ≠ b.bases

/-- Every access is through the same set. -/
def Uniform (bases : Finset RestrictBase) (L : List RestrictAccess) : Prop :=
  ∀ a ∈ L, a.bases = bases

/-- The location was modified and accessed through two different sets. -/
def Violates (L : List RestrictAccess) : Prop := Written L ∧ Mixed L

/-- Where the last access is in the program. -/
def lastSrc (L : List RestrictAccess) : Option CabsLoc := L.getLast?.map RestrictAccess.srcLoc

instance (L : List RestrictAccess) : Decidable (Written L) := inferInstanceAs (Decidable (∃ a ∈ L, _))
instance (L : List RestrictAccess) : Decidable (Mixed L) :=
  inferInstanceAs (Decidable (∃ a ∈ L, ∃ b ∈ L, _))

/-- **What a state stands for.** -/
def RestrictState.Reflects : RestrictState → List RestrictAccess → Prop
  | .onlyRead bases srcLoc, L => Uniform bases L ∧ ¬Written L ∧ lastSrc L = some srcLoc
  | .unrestricted srcLoc, L => Mixed L ∧ ¬Written L ∧ lastSrc L = some srcLoc
  | .restricted bases srcLoc, L => Uniform bases L ∧ Written L ∧ lastSrc L = some srcLoc

section Histories

variable {bases bases' : Finset RestrictBase} {L L' : List RestrictAccess} {st st' : RestrictState}

theorem written_append : Written (L ++ L') ↔ Written L ∨ Written L' := by
  simp only [Written, List.mem_append]
  constructor
  · rintro ⟨a, ha | ha, hw⟩
    · exact .inl ⟨a, ha, hw⟩
    · exact .inr ⟨a, ha, hw⟩
  · rintro (⟨a, ha, hw⟩ | ⟨a, ha, hw⟩)
    · exact ⟨a, .inl ha, hw⟩
    · exact ⟨a, .inr ha, hw⟩

theorem uniform_append : Uniform bases (L ++ L') ↔ Uniform bases L ∧ Uniform bases L' :=
  List.forall_mem_append

theorem Mixed.mono (h : Mixed L) (hsub : ∀ a ∈ L, a ∈ L') : Mixed L' := by
  obtain ⟨a, ha, b, hb, hne⟩ := h
  exact ⟨a, hsub a ha, b, hsub b hb, hne⟩

theorem Mixed.append_left (h : Mixed L) (L' : List RestrictAccess) : Mixed (L ++ L') :=
  h.mono fun _ ha => List.mem_append_left L' ha

theorem Mixed.append_right (h : Mixed L') (L : List RestrictAccess) : Mixed (L ++ L') :=
  h.mono fun _ ha => List.mem_append_right L ha

theorem Uniform.not_mixed (h : Uniform bases L) : ¬Mixed L := by
  rintro ⟨a, ha, b, hb, hne⟩
  exact hne ((h a ha).trans (h b hb).symm)

theorem ne_nil_of_lastSrc {srcLoc : CabsLoc} (h : lastSrc L = some srcLoc) : L ≠ [] := by
  rintro rfl
  cases h

theorem lastSrc_append {srcLoc : CabsLoc} (h : lastSrc L' = some srcLoc) :
    lastSrc (L ++ L') = some srcLoc := by
  unfold lastSrc at h ⊢
  rw [List.getLast?_append]
  cases hl : L'.getLast? with
  | none => rw [hl] at h; cases h
  | some a => rw [hl] at h; exact h

/-- Two histories through different sets. -/
theorem mixed_of_uniform_ne (h : Uniform bases L) (h' : Uniform bases' L') (hL : L ≠ []) (hL' : L' ≠ [])
    (hne : bases ≠ bases') : Mixed (L ++ L') := by
  obtain ⟨a, ha⟩ := List.exists_mem_of_ne_nil L hL
  obtain ⟨b, hb⟩ := List.exists_mem_of_ne_nil L' hL'
  refine ⟨a, List.mem_append_left _ ha, b, List.mem_append_right _ hb, ?_⟩
  rwa [h a ha, h' b hb]

theorem Violates.append (h : Violates L) (L' : List RestrictAccess) : Violates (L ++ L') :=
  ⟨written_append.mpr (.inl h.1), h.2.append_left L'⟩

theorem not_violates_nil : ¬Violates [] := by
  rintro ⟨⟨a, ha, -⟩, -⟩
  cases ha

namespace RestrictState.Reflects

theorem lastSrc_eq (h : st.Reflects L) : lastSrc L = some (getSrcLoc st) := by
  cases st <;> exact h.2.2

theorem not_violates (h : st.Reflects L) : ¬Violates L := by
  rintro ⟨hw, hm⟩
  cases st with
  | onlyRead bases srcLoc => exact h.2.1 hw
  | unrestricted srcLoc => exact h.2.1 hw
  | restricted bases srcLoc => exact h.1.not_mixed hm

/-- Through different sets a location can only have been read. -/
theorem eq_unrestricted (h : st.Reflects L) (hm : Mixed L) : st = .unrestricted (getSrcLoc st) := by
  cases st with
  | onlyRead bases srcLoc => exact absurd hm h.1.not_mixed
  | unrestricted srcLoc => rfl
  | restricted bases srcLoc => exact absurd hm h.1.not_mixed

/-- A history has one state. -/
theorem unique (h : st.Reflects L) (h' : st'.Reflects L) : st = st' := by
  have hsrc : getSrcLoc st = getSrcLoc st' := Option.some.inj (h.lastSrc_eq.symm.trans h'.lastSrc_eq)
  by_cases hm : Mixed L
  · rw [h.eq_unrestricted hm, h'.eq_unrestricted hm, hsrc]
  · obtain ⟨a, ha⟩ := List.exists_mem_of_ne_nil L (ne_nil_of_lastSrc h.lastSrc_eq)
    cases st with
    | unrestricted srcLoc => exact absurd h.1 hm
    | onlyRead bases srcLoc =>
      cases st' with
      | unrestricted srcLoc' => exact absurd h'.1 hm
      | onlyRead bases' srcLoc' =>
        rw [← h.1 a ha, ← h'.1 a ha]
        exact congrArg _ hsrc
      | restricted bases' srcLoc' => exact absurd h'.2.1 h.2.1
    | restricted bases srcLoc =>
      cases st' with
      | unrestricted srcLoc' => exact absurd h'.1 hm
      | onlyRead bases' srcLoc' => exact absurd h.2.1 h'.2.1
      | restricted bases' srcLoc' =>
        rw [← h.1 a ha, ← h'.1 a ha]
        exact congrArg _ hsrc

end RestrictState.Reflects

/-- An access that is recorded stands for itself. -/
theorem RestrictAccess.state_reflects (a : RestrictAccess) : a.state.Reflects [a] := by
  unfold RestrictAccess.state
  by_cases hw : a.write = true
  · rw [if_pos hw]
    exact ⟨by simp [Uniform], ⟨a, List.mem_singleton.mpr rfl, hw⟩, rfl⟩
  · rw [if_neg hw]
    exact ⟨by simp [Uniform], by simpa [Written] using hw, rfl⟩

/-- Joining two histories through one set each, at least one of them with a write. -/
theorem join_uniform {srcLoc : CabsLoc} (h : Uniform bases L) (h' : Uniform bases' L') (hL : L ≠ [])
    (hsrc : lastSrc L' = some srcLoc) (hw : Written (L ++ L')) :
    (bases' ≠ bases ∧ Violates (L ++ L')) ∨
      (bases' = bases ∧ (RestrictState.restricted bases srcLoc).Reflects (L ++ L')) := by
  by_cases heq : bases' = bases
  · subst heq
    exact .inr ⟨rfl, uniform_append.mpr ⟨h, h'⟩, hw, lastSrc_append hsrc⟩
  · exact .inl ⟨heq, hw, mixed_of_uniform_ne h h' hL (ne_nil_of_lastSrc hsrc) (Ne.symm heq)⟩

/-- Joining two histories without a write, when they are not through one set. -/
theorem join_mixed {srcLoc : CabsLoc} (hm : Mixed (L ++ L')) (hw : ¬Written L) (hw' : ¬Written L')
    (hsrc : lastSrc L' = some srcLoc) :
    (RestrictState.unrestricted srcLoc).Reflects (L ++ L') :=
  ⟨hm, fun h => (written_append.mp h).elim hw hw', lastSrc_append hsrc⟩

/-- **Joining states joins histories**, and a conflict is a violation. -/
theorem joinRestrictState_reflects (h : st.Reflects L) (h' : st'.Reflects L') :
    (isRestrictConflict st' st = true ∧ Violates (L ++ L')) ∨
      (isRestrictConflict st' st = false ∧ (joinRestrictState st' st).Reflects (L ++ L')) := by
  have hL := ne_nil_of_lastSrc h.lastSrc_eq
  cases st' with
  | onlyRead bases' srcLoc' =>
    obtain ⟨hu', hw', hsrc'⟩ := h'
    cases st with
    | onlyRead bases srcLoc =>
      obtain ⟨hu, hw, -⟩ := h
      refine .inr ⟨rfl, ?_⟩
      simp only [joinRestrictState]
      split_ifs with heq
      · subst heq
        exact ⟨uniform_append.mpr ⟨hu, hu'⟩, fun hwr => (written_append.mp hwr).elim hw hw',
          lastSrc_append hsrc'⟩
      · exact join_mixed (mixed_of_uniform_ne hu hu' hL (ne_nil_of_lastSrc hsrc') (Ne.symm heq)) hw hw' hsrc'
    | unrestricted srcLoc =>
      obtain ⟨hm, hw, -⟩ := h
      exact .inr ⟨rfl, join_mixed (hm.append_left L') hw hw' hsrc'⟩
    | restricted bases srcLoc =>
      obtain ⟨hu, hw, -⟩ := h
      simpa [isRestrictConflict, joinRestrictState, getSrcLoc] using
        join_uniform hu hu' hL hsrc' (written_append.mpr (.inl hw))
  | unrestricted srcLoc' =>
    obtain ⟨hm', hw', hsrc'⟩ := h'
    cases st with
    | onlyRead bases srcLoc =>
      exact .inr ⟨rfl, join_mixed (hm'.append_right L) h.2.1 hw' hsrc'⟩
    | unrestricted srcLoc =>
      exact .inr ⟨rfl, join_mixed (hm'.append_right L) h.2.1 hw' hsrc'⟩
    | restricted bases srcLoc =>
      exact .inl ⟨rfl, written_append.mpr (.inl h.2.1), hm'.append_right L⟩
  | restricted bases' srcLoc' =>
    obtain ⟨hu', hw', hsrc'⟩ := h'
    have hwr : Written (L ++ L') := written_append.mpr (.inr hw')
    cases st with
    | onlyRead bases srcLoc =>
      rcases join_uniform h.1 hu' hL hsrc' hwr with ⟨hne, hv⟩ | ⟨rfl, hr⟩
      · exact .inl ⟨by simpa [isRestrictConflict] using hne, hv⟩
      · exact .inr ⟨by simp [isRestrictConflict], hr⟩
    | unrestricted srcLoc => exact .inl ⟨rfl, hwr, h.1.append_left L'⟩
    | restricted bases srcLoc =>
      rcases join_uniform h.1 hu' hL hsrc' hwr with ⟨hne, hv⟩ | ⟨rfl, hr⟩
      · exact .inl ⟨by simpa [isRestrictConflict] using hne, hv⟩
      · exact .inr ⟨by simp [isRestrictConflict], hr⟩

end Histories

/-! ## Recording -/

/-- The states of `<restrict>` as summaries of what happened to a location. -/
def restrictSummary : Summary RestrictAccess RestrictState Stop where
  Reflects := RestrictState.Reflects
  Bad := Violates
  join new old :=
    if isRestrictConflict new old then .error restrictViolation else .ok (joinRestrictState new old)
  conflict := restrictViolation
  not_bad_nil := not_violates_nil
  not_bad := RestrictState.Reflects.not_violates
  bad_append := fun L' h => h.append L'
  join_spec := by
    intro new old L L' h h'
    rcases joinRestrictState_reflects h h' with ⟨hc, hv⟩ | ⟨hc, hr⟩
    · exact .inl ⟨if_pos hc, hv⟩
    · exact .inr ⟨_, if_neg (by simp [hc]), hr⟩

theorem mergeRestrict_eq_merge (R : RestrictMap) (p : Place) (st : RestrictState) :
    mergeRestrict R p st = restrictSummary.merge R p st := by
  unfold mergeRestrict Summary.merge restrictSummary
  cases R.lookup p with
  | none => rfl
  | some st' =>
    by_cases hc : isRestrictConflict st st' = true
    · simp [hc, bind, Except.bind]
    · simp [hc, bind, Except.bind, pure, Except.pure]

theorem recordAll_eq_mergeAll (R : RestrictMap) (as : List RestrictAccess) :
    recordAll R as = restrictSummary.mergeAll RestrictAccess.place RestrictAccess.state R as := by
  induction as generalizing R with
  | nil => rfl
  | cons a as ih =>
    rw [recordAll, Summary.mergeAll, mergeRestrict_eq_merge]
    congr 1
    funext R
    exact ih R

theorem added_eq_historyOf (as : List RestrictAccess) (p : Place) :
    Summary.added RestrictAccess.place (fun a => [a]) as p = historyOf p as := by
  induction as with
  | nil => rfl
  | cons a as ih =>
    rw [Summary.added_cons, ih, historyOf, historyOf, List.filter_cons]
    by_cases ha : a.place = p
    · simp [ha]
    · simp [ha]

theorem historyOf_append (p : Place) (as bs : List RestrictAccess) :
    historyOf p (as ++ bs) = historyOf p as ++ historyOf p bs := List.filter_append ..

/-- **Recording.**  A block whose map stands for `H` records accesses: a violation is reported when
    some location's history violates, else the map stands for the longer histories. -/
theorem recordAll_spec {R : RestrictMap} {H : Place → List RestrictAccess}
    (h : restrictSummary.Holds R H) (as : List RestrictAccess) :
    (recordAll R as = .error restrictViolation ∧ ∃ p, Violates (H p ++ historyOf p as)) ∨
      ∃ R', recordAll R as = .ok R' ∧ restrictSummary.Holds R' fun p => H p ++ historyOf p as := by
  rw [recordAll_eq_mergeAll]
  simp only [← added_eq_historyOf as]
  exact Summary.mergeAll_spec h RestrictAccess.place fun a _ => a.state_reflects

/-- Before any access. -/
theorem holds_nil : restrictSummary.Holds ([] : RestrictMap) fun _ => [] := fun _ => rfl

theorem recordAll_nodup {R R' : RestrictMap} {as : List RestrictAccess} (h : recordAll R as = .ok R')
    (hR : (R.map Prod.fst).Nodup) : (R'.map Prod.fst).Nodup := by
  rw [recordAll_eq_mergeAll] at h
  exact Summary.mergeAll_nodup h hR

/-! ## Leaving a block -/

section Leaving

variable {tag : Scope} {L : List RestrictAccess} {st : RestrictState}

/-- The location was only read, through sets that differ in the bases of the block and in no other. -/
def Folds (tag : Scope) (L : List RestrictAccess) : Prop :=
  ¬Written L ∧ Mixed L ∧ ¬Mixed (L.map (RestrictAccess.outward tag))

instance (tag : Scope) (L : List RestrictAccess) : Decidable (Folds tag L) :=
  inferInstanceAs (Decidable (_ ∧ _ ∧ _))

/-- What the state that `filterBases` leaves stands for: when the accesses fold, still the accesses
    with the bases of the block. -/
def remembered (tag : Scope) (L : List RestrictAccess) : List RestrictAccess :=
  if Folds tag L then L else L.map (RestrictAccess.outward tag)

theorem written_outward : Written (L.map (RestrictAccess.outward tag)) ↔ Written L := by
  simp [Written, RestrictAccess.outward]

theorem lastSrc_outward : lastSrc (L.map (RestrictAccess.outward tag)) = lastSrc L := by
  unfold lastSrc
  rw [List.getLast?_map, Option.map_map]
  rfl

theorem Uniform.outward {bases : Finset RestrictBase} (h : Uniform bases L) :
    Uniform (filterBases' bases tag) (L.map (RestrictAccess.outward tag)) := by
  intro a ha
  obtain ⟨b, hb, rfl⟩ := List.mem_map.mp ha
  exact congrArg (filterBases' · tag) (h b hb)

theorem remembered_of_not_mixed (h : ¬Mixed L) : remembered tag L = L.map (RestrictAccess.outward tag) :=
  if_neg fun hf => h hf.2.1

theorem filterBases_reflects (h : st.Reflects L) : (filterBases st tag).Reflects (remembered tag L) := by
  cases st with
  | onlyRead bases srcLoc =>
    rw [remembered_of_not_mixed h.1.not_mixed]
    exact ⟨h.1.outward, fun hw => h.2.1 (written_outward.mp hw), lastSrc_outward.trans h.2.2⟩
  | restricted bases srcLoc =>
    rw [remembered_of_not_mixed h.1.not_mixed]
    exact ⟨h.1.outward, written_outward.mpr h.2.1, lastSrc_outward.trans h.2.2⟩
  | unrestricted srcLoc =>
    unfold remembered
    split_ifs with hf
    · exact h
    · -- the sets still differ without the bases of the block
      have hm : Mixed (L.map (RestrictAccess.outward tag)) := by
        by_contra hm
        exact hf ⟨h.2.1, h.1, hm⟩
      exact ⟨hm, fun hw => h.2.1 (written_outward.mp hw), lastSrc_outward.trans h.2.2⟩

/-- Of a location of the block itself nothing is left. -/
def surviving (tag : Scope) (locals : Finset SymBase) (p : Place) (L : List RestrictAccess) :
    List RestrictAccess :=
  if p.base ∈ locals then [] else remembered tag L

theorem mergeRestricts_eq_mergeAll (locals : Finset SymBase) {R' E : RestrictMap}
    (hE : ∀ e ∈ E, R'.lookup e.1 = some e.2) (R : RestrictMap) :
    mergeRestricts tag locals R' (E.map Prod.fst) R =
      restrictSummary.mergeAll Prod.fst (fun e => filterBases e.2 tag) R
        (E.filter fun e => e.1.base ∉ locals) := by
  induction E generalizing R with
  | nil => rfl
  | cons e E ih =>
    have ih := ih fun e' he' => hE e' (List.mem_cons_of_mem e he')
    rw [List.map_cons, mergeRestricts, List.filter_cons]
    by_cases hloc : e.1.base ∈ locals
    · simpa [hloc] using ih R
    · rw [if_neg hloc, if_pos (by simpa using hloc), hE e List.mem_cons_self, Summary.mergeAll]
      simp only [mergeRestrict_eq_merge]
      congr 1
      funext R
      exact ih R

/-- **Merging a block into the one below.** -/
theorem mergeRestricts_spec {R R' : RestrictMap} {H G : Place → List RestrictAccess}
    (hR : restrictSummary.Holds R H) (hR' : restrictSummary.Holds R' G)
    (hnd : (R'.map Prod.fst).Nodup) (locals : Finset SymBase) :
    (mergeRestricts tag locals R' (R'.map Prod.fst) R = .error restrictViolation ∧
        ∃ p, Violates (H p ++ surviving tag locals p (G p))) ∨
      ∃ R'', mergeRestricts tag locals R' (R'.map Prod.fst) R = .ok R'' ∧
        restrictSummary.Holds R'' fun p => H p ++ surviving tag locals p (G p) := by
  have hlookup : ∀ e ∈ R', R'.lookup e.1 = some e.2 := fun e he => AssocMap.lookup_of_mem hnd he
  -- every entry is merged once, with what its state stands for
  have hadd : ∀ p, Summary.added Prod.fst (fun e : Place × RestrictState => remembered tag (G e.1))
      (R'.filter fun e => e.1.base ∉ locals) p = surviving tag locals p (G p) := by
    intro p
    rw [Summary.added_entries (hnd.sublist (List.filter_sublist.map Prod.fst)) fun q => remembered tag (G q)]
    unfold surviving
    by_cases hloc : p.base ∈ locals
    · rw [if_pos hloc, if_neg]
      intro hp
      obtain ⟨e, he, rfl⟩ := List.mem_map.mp hp
      simp [List.mem_filter, hloc] at he
    · rw [if_neg hloc]
      split_ifs with hp
      · rfl
      · -- a location without an entry was not accessed
        have hnone : R'.lookup p = none := by
          rw [← Option.not_isSome_iff_eq_none, Option.isSome_iff_exists,
            ← AssocMap.mem_keys_iff]
          intro hmem
          obtain ⟨e, he, rfl⟩ := List.mem_map.mp hmem
          exact hp (List.mem_map.mpr ⟨e, List.mem_filter.mpr ⟨he, by simpa using hloc⟩, rfl⟩)
        have hG := hR' p
        rw [hnone] at hG
        rw [show G p = [] from hG]
        rfl
  rw [mergeRestricts_eq_mergeAll locals hlookup]
  simp only [← hadd]
  refine Summary.mergeAll_spec hR Prod.fst fun e he => ?_
  have hrefl := hR' e.1
  rw [hlookup e (List.mem_of_mem_filter he)] at hrefl
  exact filterBases_reflects hrefl

end Leaving

/-! ## A block and the one below it -/

/-- Enter a block, make accesses in it and leave it. -/
def nestedBlock (restrictBlocks : Finset Scope) (tag : Scope) (locals : Finset SymBase)
    (inn : List RestrictAccess) (stack : List RestrictStatus) : Eval (List RestrictStatus) := do
  let stack ← recordTop inn (enterRestrictBlock restrictBlocks tag stack)
  exitRestrictBlock locals stack

/-- The accesses of a block as the block below sees them: those to objects that outlive the block, with
    the bases that outlive it. -/
def outwardAll (tag : Scope) (locals : Finset SymBase) (inn : List RestrictAccess) : List RestrictAccess :=
  (inn.filter fun a => a.place.base ∉ locals).map (RestrictAccess.outward tag)

/-- Both report the same, or both leave the same blocks with the same state for every location. -/
def SameOutcome : Eval (List RestrictStatus) → Eval (List RestrictStatus) → Prop
  | .error e, .error e' => e = e'
  | .ok (top :: stack), .ok (top' :: stack') =>
    top.tag = top'.tag ∧ (∀ p, top.map.lookup p = top'.map.lookup p) ∧ stack = stack'
  | .ok [], .ok [] => True
  | _, _ => False

/-- The outcome of recording the histories `H` in a block, the blocks below untouched. -/
def Records (r : Eval (List RestrictStatus)) (t : Scope) (rest : List RestrictStatus)
    (H : Place → List RestrictAccess) : Prop :=
  (r = .error restrictViolation ∧ ∃ p, Violates (H p)) ∨
    ∃ R, r = .ok (⟨t, R⟩ :: rest) ∧ restrictSummary.Holds R H

section Nesting

variable {t tag : Scope} {rest : List RestrictStatus} {r r' : Eval (List RestrictStatus)}
  {H H' : Place → List RestrictAccess} {locals : Finset SymBase} {pre inn post : List RestrictAccess}

theorem Records.error_iff (h : Records r t rest H) :
    r = .error restrictViolation ↔ ∃ p, Violates (H p) := by
  rcases h with ⟨hr, hv⟩ | ⟨R, rfl, hH⟩
  · exact ⟨fun _ => hv, fun _ => hr⟩
  · constructor
    · intro he
      cases he
    · rintro ⟨p, hp⟩
      exact absurd hp (hH.not_bad p)

theorem Records.recordTop (h : Records r t rest H) (as : List RestrictAccess) :
    Records (r >>= recordTop as) t rest fun p => H p ++ historyOf p as := by
  rcases h with ⟨rfl, p, hp⟩ | ⟨R, rfl, hH⟩
  · exact .inl ⟨rfl, p, hp.append _⟩
  · rcases recordAll_spec hH as with ⟨hrec, hv⟩ | ⟨R', hrec, hH'⟩
    · exact .inl ⟨by simp [bind, Except.bind, CSemantics.recordTop, hrec], hv⟩
    · exact .inr ⟨R', by simp [bind, Except.bind, CSemantics.recordTop, hrec, pure, Except.pure], hH'⟩

/-- A block that has just been entered. -/
theorem records_recordTop (t : Scope) (rest : List RestrictStatus) (as : List RestrictAccess) :
    Records (recordTop as (⟨t, []⟩ :: rest)) t rest fun p => historyOf p as := by
  have hstart : Records (.ok (⟨t, []⟩ :: rest)) t rest fun _ => [] := .inr ⟨[], rfl, holds_nil⟩
  exact hstart.recordTop as

/-- **Entering a block, accesses without a violation, and leaving it.** -/
theorem Records.nestedBlock (h : Records r t rest H) (restrictBlocks : Finset Scope) (tag : Scope)
    (locals : Finset SymBase) (hinn : ∀ p, ¬Violates (historyOf p inn)) :
    Records (r >>= nestedBlock restrictBlocks tag locals inn) t rest
      fun p => H p ++ surviving tag locals p (historyOf p inn) := by
  rcases h with ⟨rfl, p, hp⟩ | ⟨R, rfl, hH⟩
  · exact .inl ⟨rfl, p, hp.append _⟩
  · rcases recordAll_spec holds_nil inn with ⟨-, p, hv⟩ | ⟨R', hrec, hR'⟩
    · exact absurd hv (hinn p)
    · have hexit : (Except.ok (⟨t, R⟩ :: rest) >>= CSemantics.nestedBlock restrictBlocks tag locals inn) =
          exitRestrictBlock locals (⟨tag, R'⟩ :: ⟨t, R⟩ :: rest) := by
        simp [bind, Except.bind, CSemantics.nestedBlock, enterRestrictBlock, CSemantics.recordTop, hrec,
          pure, Except.pure]
      rw [hexit]
      unfold exitRestrictBlock
      rcases mergeRestricts_spec hH hR' (recordAll_nodup hrec List.nodup_nil) locals with
        ⟨hm, hv⟩ | ⟨R'', hm, hR''⟩
      · exact .inl ⟨by simp [hm, bind, Except.bind], hv⟩
      · exact .inr ⟨R'', by simp [hm, bind, Except.bind, pure, Except.pure], hR''⟩

theorem historyOf_outwardAll (p : Place) : historyOf p (outwardAll tag locals inn) =
    if p.base ∈ locals then [] else (historyOf p inn).map (RestrictAccess.outward tag) := by
  unfold historyOf outwardAll
  rw [List.filter_map, List.filter_filter]
  split_ifs with hloc
  · rw [List.map_eq_nil_iff, List.filter_eq_nil_iff]
    rintro a - ha
    simp only [Function.comp, Bool.and_eq_true, decide_eq_true_eq, RestrictAccess.outward] at ha
    have hp : a.place = p := of_decide_eq_true ha.1
    exact ha.2 (hp ▸ hloc)
  · congr 1
    apply List.filter_congr
    intro a _
    by_cases ha : a.place = p
    · simp [Function.comp, RestrictAccess.outward, ha, hloc]
    · simp [Function.comp, RestrictAccess.outward, ha]

/-- The location was only read in the block, through different sets, and no two accesses of the block
    below and of the block differ once the bases of the block are dropped. -/
def Collapses (tag : Scope) (pre inn : List RestrictAccess) : Prop :=
  ¬Written inn ∧ Mixed inn ∧ ¬Mixed (pre ++ inn.map (RestrictAccess.outward tag))

theorem Collapses.folds (h : Collapses tag pre inn) : Folds tag inn :=
  ⟨h.1, h.2.1, fun hm => h.2.2 (hm.append_right pre)⟩

/-- The two histories of a location differ only when the accesses of the block fold. -/
theorem surviving_cases (locals : Finset SymBase) (p : Place) (inn : List RestrictAccess) :
    surviving tag locals p (historyOf p inn) = historyOf p (outwardAll tag locals inn) ∨
      (p.base ∉ locals ∧ Folds tag (historyOf p inn) ∧
        surviving tag locals p (historyOf p inn) = historyOf p inn ∧
        historyOf p (outwardAll tag locals inn) =
          (historyOf p inn).map (RestrictAccess.outward tag)) := by
  rw [historyOf_outwardAll]
  unfold surviving remembered
  by_cases hloc : p.base ∈ locals
  · simp [hloc]
  · by_cases hf : Folds tag (historyOf p inn)
    · exact .inr ⟨hloc, hf, by rw [if_neg hloc, if_pos hf], by rw [if_neg hloc]⟩
    · exact .inl (by rw [if_neg hloc, if_neg hloc, if_neg hf])

/-- Whatever the block below would have reported is reported. -/
theorem violates_surviving {p : Place} {A C : List RestrictAccess}
    (h : Violates (A ++ historyOf p (outwardAll tag locals inn) ++ C)) :
    Violates (A ++ surviving tag locals p (historyOf p inn) ++ C) := by
  rcases surviving_cases locals p inn with heq | ⟨-, hf, hs, ho⟩
  · rwa [heq]
  · rw [ho] at h
    rw [hs]
    refine ⟨?_, (hf.2.1.append_right A).append_left C⟩
    simpa only [written_append, written_outward] using h.1

/-- What is reported beyond that. -/
theorem violates_outwardAll {p : Place} {A C : List RestrictAccess}
    (h : Violates (A ++ surviving tag locals p (historyOf p inn) ++ C)) :
    Violates (A ++ historyOf p (outwardAll tag locals inn) ++ C) ∨
      (p.base ∉ locals ∧ Folds tag (historyOf p inn) ∧ Written (A ++ C)) := by
  rcases surviving_cases locals p inn with heq | ⟨hloc, hf, hs, -⟩
  · rw [heq] at h
    exact .inl h
  · rw [hs] at h
    refine .inr ⟨hloc, hf, ?_⟩
    rcases written_append.mp h.1 with hw | hw
    · rcases written_append.mp hw with hw | hw
      · exact written_append.mpr (.inl hw)
      · exact absurd hw hf.1
    · exact written_append.mpr (.inr hw)

theorem reflectsAt_unique {o o' : Option RestrictState} {L : List RestrictAccess}
    (h : restrictSummary.ReflectsAt o L) (h' : restrictSummary.ReflectsAt o' L) : o = o' := by
  cases o with
  | none =>
    cases o' with
    | none => rfl
    | some st' => exact absurd (show L = [] from h) (ne_nil_of_lastSrc (RestrictState.Reflects.lastSrc_eq h'))
  | some st =>
    cases o' with
    | none => exact absurd (show L = [] from h') (ne_nil_of_lastSrc (RestrictState.Reflects.lastSrc_eq h))
    | some st' => exact congrArg some (RestrictState.Reflects.unique h h')

/-- A location with a history through different sets has a state, and only one is possible. -/
theorem reflectsAt_mixed {o : Option RestrictState} {L : List RestrictAccess}
    (h : restrictSummary.ReflectsAt o L) (hm : Mixed L) :
    ∃ srcLoc, o = some (.unrestricted srcLoc) ∧ lastSrc L = some srcLoc := by
  cases o with
  | none =>
    obtain ⟨a, ha, -⟩ := hm
    rw [show L = [] from h] at ha
    cases ha
  | some st =>
    have hst : st.Reflects L := h
    exact ⟨_, congrArg some (hst.eq_unrestricted hm), hst.lastSrc_eq⟩

/-- The states agree at a location where the accesses do not collapse. -/
theorem agree_at {p : Place} {o o' : Option RestrictState} {A : List RestrictAccess}
    (h : restrictSummary.ReflectsAt o (A ++ surviving tag locals p (historyOf p inn)))
    (h' : restrictSummary.ReflectsAt o' (A ++ historyOf p (outwardAll tag locals inn)))
    (hc : p.base ∉ locals → ¬Collapses tag A (historyOf p inn)) : o = o' := by
  rcases surviving_cases locals p inn with heq | ⟨hloc, hf, hs, ho⟩
  · rw [heq] at h
    exact reflectsAt_unique h h'
  · rw [hs] at h
    rw [ho] at h'
    -- both are unrestricted, since the last access of the block is the last access of both
    have hm : Mixed (A ++ (historyOf p inn).map (RestrictAccess.outward tag)) := by
      by_contra hm
      exact hc hloc ⟨hf.1, hf.2.1, hm⟩
    obtain ⟨src, rfl, hsrc⟩ := reflectsAt_mixed h (hf.2.1.append_right A)
    obtain ⟨src', rfl, hsrc'⟩ := reflectsAt_mixed h' hm
    obtain ⟨a, ha⟩ : ∃ a, (historyOf p inn).getLast? = some a := by
      obtain ⟨b, hb, -⟩ := hf.2.1
      exact ⟨_, List.getLast?_eq_getLast_of_ne_nil (List.ne_nil_of_mem hb)⟩
    have hlast : lastSrc (historyOf p inn) = some a.srcLoc := by rw [lastSrc, ha]; rfl
    rw [lastSrc_append hlast] at hsrc
    rw [lastSrc_append (lastSrc_outward.trans hlast)] at hsrc'
    rw [← Option.some.inj hsrc, ← Option.some.inj hsrc']

/-- Where the accesses of the block fold, they are remembered as they were. -/
theorem surviving_of_folds {p : Place} (hloc : p.base ∉ locals) (hf : Folds tag (historyOf p inn)) :
    surviving tag locals p (historyOf p inn) = historyOf p inn := by
  unfold surviving remembered
  rw [if_neg hloc, if_pos hf]

/-- At a location where they collapse, the states differ. -/
theorem differ_at {p : Place} {o o' : Option RestrictState} {A : List RestrictAccess}
    (h : restrictSummary.ReflectsAt o (A ++ surviving tag locals p (historyOf p inn)))
    (h' : restrictSummary.ReflectsAt o' (A ++ historyOf p (outwardAll tag locals inn)))
    (hloc : p.base ∉ locals) (hc : Collapses tag A (historyOf p inn)) : o ≠ o' := by
  rintro rfl
  rw [surviving_of_folds hloc hc.folds] at h
  rw [historyOf_outwardAll, if_neg hloc] at h'
  obtain ⟨src, rfl, -⟩ := reflectsAt_mixed h (hc.2.1.append_right A)
  have hr : (RestrictState.unrestricted src).Reflects _ := h'
  exact hc.2.2 hr.1

/-- Where nothing collapses, nothing more is reported on leaving the block. -/
theorem violates_of_not_collapses {p : Place} {A : List RestrictAccess}
    (hc : p.base ∉ locals → ¬Collapses tag A (historyOf p inn))
    (h : Violates (A ++ surviving tag locals p (historyOf p inn))) :
    Violates (A ++ historyOf p (outwardAll tag locals inn)) := by
  rw [← List.append_nil (A ++ _)] at h ⊢
  rcases violates_outwardAll h with hv | ⟨hloc, hf, hw⟩
  · exact hv
  · rw [List.append_nil] at hw ⊢
    rw [historyOf_outwardAll, if_neg hloc]
    refine ⟨written_append.mpr (.inl hw), ?_⟩
    by_contra hm
    exact hc hloc ⟨hf.1, hf.2.1, hm⟩

/-- The outcomes are the same exactly when both report, or the states agree everywhere. -/
theorem Records.sameOutcome_iff (h : Records r t rest H) (h' : Records r' t rest H')
    (hv : (∃ p, Violates (H' p)) → ∃ p, Violates (H p)) :
    SameOutcome r r' ↔ (∃ p, Violates (H' p)) ∨ ∃ R R', r = .ok (⟨t, R⟩ :: rest) ∧
      r' = .ok (⟨t, R'⟩ :: rest) ∧ restrictSummary.Holds R H ∧ restrictSummary.Holds R' H' ∧
      ∀ p, R.lookup p = R'.lookup p := by
  rcases h' with ⟨rfl, hv'⟩ | ⟨R', rfl, hR'⟩
  · rw [h.error_iff.mpr (hv hv')]
    exact ⟨fun _ => .inl hv', fun _ => rfl⟩
  · have hno : ¬∃ p, Violates (H' p) := fun ⟨p, hp⟩ => hR'.not_bad p hp
    rcases h with ⟨rfl, -⟩ | ⟨R, rfl, hR⟩
    · constructor
      · intro hf
        exact absurd hf id
      · rintro (hv' | ⟨R₁, -, he, -⟩)
        · exact absurd hv' hno
        · cases he
    · constructor
      · rintro ⟨-, hl, -⟩
        exact .inr ⟨R, R', rfl, rfl, hR, hR', hl⟩
      · rintro (hv' | ⟨R₁, R₂, he, he', -, -, hl⟩)
        · exact absurd hv' hno
        · cases he
          cases he'
          exact ⟨rfl, hl, rfl⟩

end Nesting

/-- **When leaving a block records what the enclosing block would have.**  A block makes the accesses
    `pre`, then a block inside it makes the accesses `inn`, none of which violates there, and is left;
    `post` comes after.

    Leaving it gives the outcome of recording the inner accesses directly, with the bases that outlive
    the block, if and only if the enclosing block's accesses violate anyway or no location that outlives
    the block collapses.  A violation is reported by the end of `post` exactly when there is one in the
    enclosing block, if and only if there is one or no location that folds is written before or after. -/
theorem exitRestrictBlock_agrees_iff (restrictBlocks : Finset Scope) (t tag : Scope)
    (locals : Finset SymBase) (rest : List RestrictStatus) (pre inn post : List RestrictAccess)
    (hinn : ∀ p, ¬Violates (historyOf p inn)) :
    (SameOutcome
        (recordTop pre (⟨t, []⟩ :: rest) >>= nestedBlock restrictBlocks tag locals inn)
        (recordTop pre (⟨t, []⟩ :: rest) >>= recordTop (outwardAll tag locals inn)) ↔
      (∃ p, Violates (historyOf p (pre ++ outwardAll tag locals inn))) ∨
        ∀ p : Place, p.base ∉ locals → ¬Collapses tag (historyOf p pre) (historyOf p inn)) ∧
    (((recordTop pre (⟨t, []⟩ :: rest) >>= nestedBlock restrictBlocks tag locals inn) >>=
          recordTop post = .error restrictViolation ↔
        ∃ p, Violates (historyOf p (pre ++ outwardAll tag locals inn ++ post))) ↔
      (∃ p, Violates (historyOf p (pre ++ outwardAll tag locals inn ++ post))) ∨
        ∀ p : Place, p.base ∉ locals → Folds tag (historyOf p inn) →
          ¬Written (historyOf p (pre ++ post))) := by
  have hpre := records_recordTop t rest pre
  have hnest := hpre.nestedBlock restrictBlocks tag locals hinn
  have hdir := hpre.recordTop (outwardAll tag locals inn)
  simp only [historyOf_append]
  constructor
  · rw [hnest.sameOutcome_iff hdir fun ⟨p, hp⟩ =>
      ⟨p, by simpa using violates_surviving (C := []) (by simpa using hp)⟩]
    refine or_congr_right' fun hno => ?_
    constructor
    · rintro ⟨R, R', -, -, hR, hR', hl⟩ p hloc hc
      exact differ_at (hR p) (hR' p) hloc hc (hl p)
    · intro hc
      rcases hdir with ⟨-, hv⟩ | ⟨R', hr', hR'⟩
      · exact absurd hv hno
      · rcases hnest with ⟨-, p, hv⟩ | ⟨R, hr, hR⟩
        · exact absurd ⟨p, violates_of_not_collapses (hc p) hv⟩ hno
        · exact ⟨R, R', hr, hr', hR, hR', fun p => agree_at (hR p) (hR' p) (hc p)⟩
  · rw [(hnest.recordTop post).error_iff]
    by_cases hv : ∃ p, Violates
        (historyOf p pre ++ historyOf p (outwardAll tag locals inn) ++ historyOf p post)
    · obtain ⟨p, hp⟩ := hv
      exact ⟨fun _ => .inl ⟨p, hp⟩, fun _ => ⟨fun _ => ⟨p, hp⟩, fun _ => ⟨p, violates_surviving hp⟩⟩⟩
    · constructor
      · -- a write to a location that folds is reported, and there is no violation
        rintro hiff
        refine .inr fun p hloc hf hw => hv (hiff.mp ⟨p, ?_⟩)
        rw [surviving_of_folds hloc hf]
        refine ⟨?_, (hf.2.1.append_right _).append_left _⟩
        rcases written_append.mp hw with hw | hw
        · exact written_append.mpr (.inl (written_append.mpr (.inl hw)))
        · exact written_append.mpr (.inr hw)
      · rintro (hv' | hall)
        · exact absurd hv' hv
        · refine ⟨?_, fun hv' => absurd hv' hv⟩
          rintro ⟨p, hp⟩
          rcases violates_outwardAll hp with hp' | ⟨hloc, hf, hw⟩
          · exact ⟨p, hp'⟩
          · exact absurd hw (hall p hloc hf)

/-! ## A pointer and a copy of it

      void f(int *restrict p) { *p = 1; { int *restrict q = p; int x = *q; int y = *p; } }
-/

section Copy

private def functionBlock : Scope := .blockScope (.Identifier "f") (obj 0 1 (.static "tu")) 0
private def innerBlock : Scope := .blockScope (.Identifier "f") (obj 0 1 (.static "tu")) 1

/-- `p` and `q` as restrict bases. -/
private def pBase : RestrictBase := (obj 1 8 (.auto 0), functionBlock)
private def qBase : RestrictBase := (obj 2 8 (.auto 0), innerBlock)

private def pointee : Place := ⟨obj 3 4 .alloc, 0⟩

private def writeP : RestrictAccess := ⟨true, pointee, {pBase}, .UnknownCabsLoc⟩
private def readP : RestrictAccess := ⟨false, pointee, {pBase}, .UnknownCabsLoc⟩
private def readQ : RestrictAccess := ⟨false, pointee, {pBase, qBase}, .UnknownCabsLoc⟩

private theorem not_violates_reads {inn : List RestrictAccess} (h : ∀ a ∈ inn, a.write = false)
    (p : Place) : ¬Violates (historyOf p inn) := by
  rintro ⟨⟨a, ha, hw⟩, -⟩
  rw [h a (List.mem_of_mem_filter ha)] at hw
  cases hw

/-- Only `*q` is read in the inner block: leaving it is recording a read through `p`. -/
theorem exitRestrictBlock_agrees_one_read :
    (∀ p, ¬Violates (historyOf p [readQ])) ∧
      SameOutcome
        (recordTop [writeP] [⟨functionBlock, []⟩] >>= nestedBlock ∅ innerBlock ∅ [readQ])
        (recordTop [writeP] [⟨functionBlock, []⟩] >>= recordTop (outwardAll innerBlock ∅ [readQ])) := by
  have hinn : ∀ p, ¬Violates (historyOf p [readQ]) := not_violates_reads (by decide)
  refine ⟨hinn, (exitRestrictBlock_agrees_iff ∅ functionBlock innerBlock ∅ [] [writeP] [readQ] []
    hinn).1.mpr (.inr ?_)⟩
  rintro p - ⟨-, ⟨a, ha, b, hb, hne⟩, -⟩
  obtain rfl := List.mem_singleton.mp (List.mem_of_mem_filter ha)
  obtain rfl := List.mem_singleton.mp (List.mem_of_mem_filter hb)
  exact hne rfl

/-- `*q` and `*p` are read in the inner block: leaving it reports a violation, although every access is
    through `p` for the function's block. -/
theorem exitRestrictBlock_not_direct :
    ¬∀ (restrictBlocks : Finset Scope) (t tag : Scope) (locals : Finset SymBase)
      (rest : List RestrictStatus) (pre inn post : List RestrictAccess),
      (∀ p, ¬Violates (historyOf p inn)) →
      SameOutcome
          (recordTop pre (⟨t, []⟩ :: rest) >>= nestedBlock restrictBlocks tag locals inn)
          (recordTop pre (⟨t, []⟩ :: rest) >>= recordTop (outwardAll tag locals inn)) ∧
        ((recordTop pre (⟨t, []⟩ :: rest) >>= nestedBlock restrictBlocks tag locals inn) >>=
            recordTop post = .error restrictViolation ↔
          ∃ p, Violates (historyOf p (pre ++ outwardAll tag locals inn ++ post))) := by
  intro h
  have hsame := (h ∅ functionBlock innerBlock ∅ [] [writeP] [readQ, readP] []
    (not_violates_reads (by decide))).1
  have hnested : recordTop [writeP] [⟨functionBlock, []⟩] >>= nestedBlock ∅ innerBlock ∅ [readQ, readP] =
      .error restrictViolation := rfl
  rw [hnested] at hsame
  exact hsame

end Copy

end CSemantics
