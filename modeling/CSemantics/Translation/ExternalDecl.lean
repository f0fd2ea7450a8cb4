/-
  External declarations, counted.

  What a program says about a name is in its declarations: how many had an initialiser, whether one was a
  tentative definition, how the type came to be complete.  `History` reads that off the INPUT, with the
  tags that have been defined so far and nothing of the state the code keeps.  The code has four states
  and a flag; the state after a run is a function of the history (`History.state`), and that is the
  invariant.

  The flag is used for one thing, and the states do not fit the flag in two cases:

      completed by `extern` declarations      a tentative definition of an array without a length only
                                              sets the flag, and at the end the flag counts for
                                              `declared` alone: the name is never allocated
      completed by a tag                      the name is declared again with the type that was
                                              recorded, which is not `extern` any more: it is allocated

      run_agrees                     the state is that of the history
      externalDeclaration_iff        memory once, one report, and "defined" right iff neither case
-/
import CSemantics.Translation.LinkBase

namespace CSemantics

open AssocMap

/-! ## Complete types -/

/-- Two types are complete under the same tags. -/
def CompleteAlike (T T' : CType) : Prop := ∀ tags, isCompleteType tags T = isCompleteType tags T'

theorem recorded_completeAlike (C : CType) :
    CompleteAlike (tagRestrict .fileScope (stripStorageSpecifiers C)) C := by
  intro tags
  obtain ⟨q, ⟨f, fs⟩, st⟩ := C
  cases st with
  | array k T => rfl
  | nonArray n => cases n <;> rfl

theorem elide_completeAlike (T : CType) : CompleteAlike (elideDeclParams T) T := by
  intro tags
  obtain ⟨q, m, st⟩ := T
  cases st with
  | array k T => rfl
  | nonArray n => cases n <;> rfl

theorem strip_completeAlike (T : CType) : CompleteAlike (stripStorageSpecifiers T) T := by
  intro tags
  obtain ⟨q, ⟨f, fs⟩, st⟩ := T
  cases st with
  | array k T => rfl
  | nonArray n => cases n <;> rfl

/-- A function type is complete whatever the tags. -/
theorem isCompleteType_function {T : CType} (h : isFunctionType T = true) (tags : Tags) :
    isCompleteType tags T = true := by
  unfold isFunctionType at h
  split at h
  · rfl
  · cases h

/-- The composite of two types that are not complete is complete when the first is. -/
theorem composite_completeAlike {tags tags₀ : Tags} {T T' C : CType} (hT : isCompleteType tags₀ T = false)
    (hT' : isCompleteType tags T' = false) (h : compositeType tags T T' = .ok C) : CompleteAlike C T := by
  unfold compositeType at h
  split at h
  · cases h
    exact fun _ => rfl
  · split at h
    · -- arrays: both have no length, and then there is no rule
      rename_i q m k E q' m' k' E' _
      have hk : k = .incomplete := by simpa [isCompleteType] using hT
      have hk' : k' = .incomplete := by simpa [isCompleteType] using hT'
      subst hk hk'
      cases h
    · simp [isCompleteType] at hT
    · simp [isCompleteType] at hT
    · rename_i q m n q' m' n' _ _ _
      obtain ⟨n₁, hn, hC⟩ := Eval.bind_eq_ok.mp h
      cases hC
      suffices hsame : n₁ = n by
        subst hsame
        exact fun _ => rfl
      unfold compositeSimple at hn
      split at hn
      · cases hn
        rfl
      · split at hn
        · simp [isCompleteType] at hT'
        · simp [isCompleteType] at hT
        · -- the second struct is the one without members
          rename_i s s' _ _ _ _
          have hs' : getTagInfo tags s' = .incomplete := by
            cases hinfo : getTagInfo tags s' with
            | incomplete => rfl
            | fields f => simp [isCompleteType, hinfo] at hT'
            | enumInfo i => simp [isCompleteType, hinfo] at hT'
          rw [hs'] at hn
          cases hn
          rfl
        · cases hn
    · cases h

/-! ## What the program says about a name -/

/-- How the type of a name came to be complete, if it did. -/
inductive Completion
  /-- no declaration yet -/
  | undeclared
  /-- every declaration so far had a type that was not complete; the first one's -/
  | incomplete (T : CType)
  /-- a declaration had a complete type -/
  | byDeclaration
  /-- a tag was defined, and that completed the type of the declarations so far -/
  | byTag

/-- What the declarations of a name said so far. -/
structure History where
  completion : Completion
  /-- the declarations with an initialiser -/
  inits : Nat
  /-- whether there was a tentative definition -/
  tentative : Bool
  /-- whether there was one with a complete type -/
  tentativeComplete : Bool

def noHistory : History := ⟨.undeclared, 0, false, false⟩

/-- A declaration with the type `T`, of which the tags say whether it is complete. -/
def History.declare (h : History) (T : CType) (complete : Bool) (init : Option FileInit) : History where
  completion :=
    match h.completion with
    | .undeclared => if complete then .byDeclaration else .incomplete T
    | .incomplete T₀ => if complete then .byDeclaration else .incomplete T₀
    | .byDeclaration => .byDeclaration
    | .byTag => .byTag
  inits := h.inits + (if init.isSome then 1 else 0)
  tentative := h.tentative || (init.isNone && !isExtern T)
  tentativeComplete := h.tentativeComplete || (init.isNone && !isExtern T && complete)

/-- A tag that a declaration has referred to is defined. -/
def History.complete (h : History) (tags : Tags) : History :=
  match h.completion with
  | .incomplete T => if isCompleteType tags T then { h with completion := .byTag } else h
  | _ => h

/-- What a unit has said so far: the tags it has defined, those it has referred to, and the history of one
    name. -/
structure Said where
  tags : Tags
  incompleteTags : List CId
  history : History

/-- One more step of the unit. -/
def Said.next (tu : String) (X : CId) (s : Said) : TuEvent → Said
  | .refer S =>
    if (s.tags.lookup ⟨S, tu, .global⟩).isSome || S ∈ s.incompleteTags then s
    else { s with incompleteTags := S :: s.incompleteTags }
  | .addGlobalTag S info _ _ =>
    let tags := update s.tags ⟨S, tu, .global⟩ info
    if S ∈ s.incompleteTags then ⟨tags, s.incompleteTags.erase S, s.history.complete tags⟩
    else { s with tags := tags }
  | .declare T Y init =>
    if Y = X then
      let T := elideDeclParams T
      { s with history := s.history.declare T (isCompleteType s.tags (TuState.initType init T)) init }
    else s
  | .use _ => s

/-- What the unit has said about a name. -/
def said (tu : String) (X : CId) (evs : List TuEvent) : Said := evs.foldl (Said.next tu X) ⟨[], [], noHistory⟩

/-- The state the code keeps for a name with such a history. -/
def History.state (h : History) : DeclState :=
  if h.inits ≠ 0 then .initialized
  else
    match h.completion with
    | .undeclared | .incomplete _ => .declared
    | .byDeclaration => if h.tentativeComplete then .allocated else .completed
    | .byTag => .allocated

/-! ## The state is that of the history -/

namespace TuState

variable {c : TuConfig} {σ σ' : TuState} {X Y : CId} {T : CType} {lnk : Linkage} {e e' : DeclEntry}
  {init : Option FileInit} {H : History}

/-- What the code keeps for a name with a history. -/
structure Tracks (σ : TuState) (X : CId) (H : History) : Prop where
  once : H.inits ≤ 1
  undeclared : H.completion = .undeclared → Undeclared σ X ∧ H = noHistory
  declared : H.completion ≠ .undeclared → ∃ lnk e, Entry σ X lnk e ∧ e.state = H.state
  incomplete : ∀ T, H.completion = .incomplete T → H.inits = 0 ∧ H.tentativeComplete = false ∧
    (∃ tags, isCompleteType tags T = false) ∧
    ∃ e, Entry σ X .external e ∧ e.tentative = H.tentative ∧ CompleteAlike e.type T

theorem Entry.unique {lnk' : Linkage} (h : Entry σ X lnk e) (h' : Entry σ X lnk' e') : lnk' = lnk ∧ e' = e := by
  have hlnk : lnk' = lnk := by
    by_contra hne
    cases (h.other lnk' hne).symm.trans h'.entry
  subst hlnk
  exact ⟨rfl, Option.some.inj (h'.entry.symm.trans h.entry)⟩

/-- A name that is known has a history, and the state of the history. -/
theorem Tracks.entry (h : Tracks σ X H) (hX : Entry σ X lnk e) : H.completion ≠ .undeclared ∧ e.state = H.state := by
  have hne : H.completion ≠ .undeclared := by
    intro hnone
    cases ((h.undeclared hnone).1.entries lnk).symm.trans hX.entry
  obtain ⟨lnk', e', hX', hstate⟩ := h.declared hne
  obtain ⟨rfl, rfl⟩ := hX.unique hX'
  exact ⟨hne, hstate⟩

/-- What a declaration of another name leaves. -/
theorem Tracks.of_frame (h : Tracks σ X H) (hframe : Frame Y σ σ') (hY : X ≠ Y) : Tracks σ' X H where
  once := h.once
  undeclared hnone := ⟨(h.undeclared hnone).1.of_frame hframe hY, (h.undeclared hnone).2⟩
  declared hne := by
    obtain ⟨lnk, e, hX, hstate⟩ := h.declared hne
    exact ⟨lnk, e, hX.of_frame hframe hY, hstate⟩
  incomplete T hT := by
    obtain ⟨hinits, hcomplete, htags, e, hX, htent, halike⟩ := h.incomplete T hT
    exact ⟨hinits, hcomplete, htags, e, hX.of_frame hframe hY, htent, halike⟩

/-! ### A declaration -/

/-- The plan for a declaration that is accepted, read as a step of the state and of the flag. -/
inductive PlanStep (lnk : Linkage) (ext complete : Bool) (init : Option FileInit) (S : DeclState) :
    DeclState → Bool → Prop
  | init (i : FileInit) (hi : init = some i) (hcomplete : complete = true) (hS : S ≠ .initialized) :
      PlanStep lnk ext complete init S .initialized false
  | incomplete (hnone : init = none) (hcomplete : complete = false) (hlnk : lnk = .internal → ext = true) :
      PlanStep lnk ext complete init S S (!ext)
  | ext (hnone : init = none) (hcomplete : complete = true) (hext : ext = true) :
      PlanStep lnk ext complete init S (if S = .declared then .completed else S) false
  | allocate (hnone : init = none) (hcomplete : complete = true) (hext : ext = false) :
      PlanStep lnk ext complete init S (if S.isDefined then S else .allocated) true

theorem planStep_of_declPlan {complete : Bool} {S : DeclState} {sto : FileStorage} {p : DeclPlan}
    (hsto : sto = .Extern ↔ isExtern T = true) (h : declPlan c X init.isNone complete S lnk sto = .ok p) :
    PlanStep lnk (isExtern T) complete init S p.state p.tentative := by
  have hne : (sto != .Extern) = !isExtern T := by
    cases hext : isExtern T with
    | true => simp [hsto.mpr hext]
    | false => simpa [hext] using hsto
  cases init with
  | some i =>
    cases complete with
    | false => cases S <;> cases h
    | true =>
      cases S with
      | initialized => cases h
      | declared | completed | allocated =>
        cases h
        exact .init i rfl rfl (by simp)
  | none =>
    cases complete with
    | false =>
      simp only [Option.isNone_none, declPlan, hne] at h
      split at h
      · cases h
      · rename_i hnot
        cases h
        refine .incomplete rfl rfl fun hint => ?_
        by_contra hext
        exact hnot (by simp [hint, hext])
    | true =>
      cases hext : isExtern T with
      | true =>
        obtain rfl := hsto.mpr hext
        cases S <;> cases h <;> exact .ext rfl rfl rfl
      | false =>
        have hnot : sto ≠ .Extern := fun heq => by simp [hsto.mp heq] at hext
        cases sto with
        | Extern => exact absurd rfl hnot
        | Naked | Static => cases S <;> cases h <;> exact .allocate rfl rfl rfl

end TuState

section History

variable {H : History} {T : CType}

/-- A declaration without an initialiser, of a type that is not complete, leaves the state. -/
theorem History.state_incomplete : (H.declare T false none).state = H.state := by
  unfold History.declare History.state
  cases H.completion <;> simp

/-- An `extern` one with a complete type completes what is declared. -/
theorem History.state_extern (hext : isExtern T = true)
    (hcomplete : H.state = .declared → H.tentativeComplete = false) :
    (H.declare T true none).state = if H.state = .declared then .completed else H.state := by
  revert hcomplete
  unfold History.declare History.state
  by_cases hinits : H.inits = 0
  · cases H.completion with
    | undeclared | incomplete => simp +contextual [hinits, hext]
    | byDeclaration => cases H.tentativeComplete <;> simp [hinits, hext]
    | byTag => simp [hinits]
  · simp [hinits]

/-- A tentative one with a complete type allocates what is not defined. -/
theorem History.state_allocate (hext : isExtern T = false) :
    (H.declare T true none).state = if H.state.isDefined then H.state else .allocated := by
  unfold History.declare History.state
  by_cases hinits : H.inits = 0
  · cases H.completion with
    | undeclared | incomplete => simp [hinits, hext, DeclState.isDefined]
    | byDeclaration => cases H.tentativeComplete <;> simp [hinits, hext, DeclState.isDefined]
    | byTag => simp [hinits, DeclState.isDefined]
  · simp [hinits, DeclState.isDefined]

/-- One with an initialiser initialises. -/
theorem History.state_init {complete : Bool} {i : FileInit} : (H.declare T complete (some i)).state = .initialized := by
  simp [History.declare, History.state]

theorem History.state_ne_declared (h : H.completion = .byDeclaration ∨ H.completion = .byTag) :
    H.state ≠ .declared := by
  unfold History.state
  by_cases hinits : H.inits = 0
  · rcases h with h | h
    · cases H.tentativeComplete <;> simp [h, hinits]
    · simp [h, hinits]
  · simp [hinits]

theorem History.state_eq_declared {T₀ : CType} (h : H.completion = .incomplete T₀) (hinits : H.inits = 0) :
    H.state = .declared := by
  simp [History.state, h, hinits]

end History

namespace TuState

variable {c : TuConfig} {σ σ' : TuState} {X Y : CId} {T : CType} {lnk : Linkage} {e e' : DeclEntry}
  {init : Option FileInit} {H : History}

/-- What a declaration finds: the name is new, or it has an entry. -/
def Found (σ : TuState) (X : CId) (T : CType) (lnk : Linkage) (S : DeclState) (tent : Bool) (T? : Option CType) : Prop :=
  (Undeclared σ X ∧ S = .declared ∧ tent = false ∧ T? = none ∧
      lnk = if isStaticType T then .internal else .external) ∨
    ∃ e, Entry σ X lnk e ∧ S = e.state ∧ tent = e.tentative ∧
      T? = some (tagRestrict .fileScope (stripStorageSpecifiers e.type))

/-- **A declaration of the name moves state and history together.** -/
theorem Tracks.declare {S : DeclState} {tent : Bool} {T? : Option CType} (h : Tracks σ X H)
    (hfound : Found σ X T lnk S tent T?) (hD : Declares c σ σ' T X init lnk S tent T? e') :
    Tracks σ' X (H.declare T (isCompleteType σ.tags (initType init T)) init) := by
  obtain ⟨sto, p, hsto, hplan, hstate, htent⟩ := hD.plan
  have hstep := planStep_of_declPlan hsto hplan
  rw [← hstate] at hstep
  -- what was found is what the history says
  have hS : S = H.state := by
    rcases hfound with ⟨hnew, rfl, -⟩ | ⟨e, hX, rfl, -⟩
    · have hnone : H.completion = .undeclared := by
        by_contra hne
        obtain ⟨lnk', e, hX, -⟩ := h.declared hne
        cases (hnew.entries lnk').symm.trans hX.entry
      rw [(h.undeclared hnone).2]
      rfl
    · exact (h.entry hX).2
  have hdeclared : H.state = .declared → H.tentativeComplete = false := by
    intro hstate
    cases hcompletion : H.completion with
    | undeclared =>
      rw [(h.undeclared hcompletion).2]
      rfl
    | incomplete T₀ => exact (h.incomplete T₀ hcompletion).2.1
    | byDeclaration => exact absurd hstate (History.state_ne_declared (.inl hcompletion))
    | byTag => exact absurd hstate (History.state_ne_declared (.inr hcompletion))
  have hstate' : e'.state = (H.declare T (isCompleteType σ.tags (initType init T)) init).state := by
    generalize e'.state = S' at hstep
    generalize p.tentative = t at hstep
    cases hstep with
    | init i hi =>
      subst hi
      exact History.state_init.symm
    | incomplete hnone hcomplete =>
      subst hnone
      rw [hcomplete, History.state_incomplete, hS]
    | ext hnone hcomplete hext =>
      subst hnone
      rw [hcomplete, History.state_extern hext hdeclared, hS]
    | allocate hnone hcomplete hext =>
      subst hnone
      rw [hcomplete, History.state_allocate hext, hS]
  refine ⟨?_, ?_, fun _ => ⟨lnk, e', hD.entry, hstate'⟩, ?_⟩
  · -- a second initialiser would have been reported
    show H.inits + (if init.isSome = true then 1 else 0) ≤ 1
    have honce := h.once
    generalize e'.state = S' at hstep
    generalize p.tentative = t at hstep
    cases hstep with
    | init i hi _ hne =>
      have hinits : H.inits = 0 := by
        by_contra hinits
        exact hne (hS.trans (by simp [History.state, hinits]))
      rw [hinits]
      split <;> omega
    | incomplete hnone | ext hnone | allocate hnone =>
      subst hnone
      simpa using honce
  · intro hundeclared
    unfold History.declare at hundeclared
    cases hcompletion : H.completion <;> rw [hcompletion] at hundeclared <;> simp at hundeclared
    all_goals split at hundeclared <;> cases hundeclared
  · intro T₀ hT₀
    have hcomplete : isCompleteType σ.tags (initType init T) = false := by
      by_contra hne
      have hcomplete : isCompleteType σ.tags (initType init T) = true := by simpa using hne
      rw [hcomplete] at hT₀
      unfold History.declare at hT₀
      cases hcompletion : H.completion <;> simp [hcompletion] at hT₀
    obtain ⟨hnone, hlnk, htentative⟩ : init = none ∧ (lnk = .internal → isExtern T = true) ∧
        p.tentative = !isExtern T := by
      generalize e'.state = S' at hstep
      generalize p.tentative = t at hstep
      cases hstep with
      | incomplete hnone _ hlnk => exact ⟨hnone, hlnk, rfl⟩
      | init _ _ htrue | ext _ htrue | allocate _ htrue => cases hcomplete.symm.trans htrue
    subst hnone
    rw [hcomplete] at hT₀ ⊢
    obtain ⟨C, hC, htype⟩ := hD.type rfl
    rcases hfound with ⟨hnew, -, rfl, rfl, hlnk'⟩ | ⟨e, hX, -, rfl, rfl⟩
    · -- the first declaration
      have hundeclared : H.completion = .undeclared := by
        by_contra hne
        obtain ⟨lnk', e, hX, -⟩ := h.declared hne
        cases (hnew.entries lnk').symm.trans hX.entry
      have hH := (h.undeclared hundeclared).2
      subst hH
      obtain rfl : T = T₀ := by simpa [History.declare, noHistory] using hT₀
      obtain rfl : lnk = .external := by
        cases hstatic : isStaticType T with
        | false => simpa [hstatic] using hlnk'
        | true =>
          rw [hstatic, if_pos rfl] at hlnk'
          have hext := hlnk hlnk'
          simp [isExtern, hstatic] at hext
      refine ⟨rfl, by simp [History.declare, noHistory], ⟨σ.tags, hcomplete⟩, e', hD.entry, ?_, ?_⟩
      · rw [htent, htentative]
        simp [History.declare, noHistory]
      · intro tags
        rw [htype, recorded_completeAlike C tags]
        rcases hC with ⟨-, rfl⟩ | ⟨_, hsome, -⟩
        · rfl
        · cases hsome
    · -- one more declaration of a type that is still not complete
      have hcompletion : H.completion = .incomplete T₀ := by
        have hne := (h.entry hX).1
        unfold History.declare at hT₀
        cases hcompletion : H.completion with
        | undeclared => exact absurd hcompletion hne
        | incomplete T₁ => simpa [hcompletion] using hT₀
        | byDeclaration | byTag => simp [hcompletion] at hT₀
      obtain ⟨hinits, htc, ⟨tags₀, htags₀⟩, e₁, hX₁, htent₁, halike⟩ := h.incomplete T₀ hcompletion
      obtain ⟨rfl, rfl⟩ := hX₁.unique hX
      refine ⟨by simpa [History.declare] using hinits, by simpa [History.declare] using htc, ⟨tags₀, htags₀⟩, e', hD.entry,
        ?_, ?_⟩
      · rw [htent, htentative, htent₁]
        simp [History.declare]
      · have hR := recorded_completeAlike e.type
        have hCR : CompleteAlike C (tagRestrict .fileScope (stripStorageSpecifiers e.type)) := by
          rcases hC with ⟨hnone, -⟩ | ⟨R, hsome, hcomposite⟩
          · cases hnone
          · cases hsome
            have hR₀ : isCompleteType tags₀ (tagRestrict .fileScope (stripStorageSpecifiers e.type)) = false := by
              rw [hR, halike, htags₀]
            refine composite_completeAlike hR₀ ?_ hcomposite
            rw [strip_completeAlike T]
            exact hcomplete
        intro tags
        rw [htype, recorded_completeAlike C, hCR, hR, halike]

/-! ### A tag -/

theorem Tracks.of_cells {tags : Tags} {incs : List CId} {U : CId → Bool} {L : List (CId × SymBase)}
    (h : Tracks σ X H) : Tracks { σ with tags := tags, incompleteTags := incs, uses := U, held := L } X H where
  once := h.once
  undeclared hnone := ⟨(h.undeclared hnone).1.of_cells, (h.undeclared hnone).2⟩
  declared hne := by
    obtain ⟨lnk, e, hX, hstate⟩ := h.declared hne
    exact ⟨lnk, e, hX.of_cells, hstate⟩
  incomplete T hT := by
    obtain ⟨hinits, hcomplete, htags, e, hX, htent, halike⟩ := h.incomplete T hT
    exact ⟨hinits, hcomplete, htags, e, hX.of_cells, htent, halike⟩

/-- What completes a name once does nothing the second time. -/
theorem complete_complete (tags : Tags) : (H.complete tags).complete tags = H.complete tags := by
  unfold History.complete
  cases hcompletion : H.completion with
  | undeclared | byDeclaration | byTag => simp [hcompletion]
  | incomplete T =>
    cases hT : isCompleteType tags T <;> simp [hcompletion, hT]

/-- A recorded type has no storage class, and is no function if it can become complete: it is declared
    again as a tentative definition, and allocated. -/
theorem redeclare_allocates {e : DeclEntry} (hwf : Wf σ) (hX : Entry σ X .external e) (hstate : e.state = .declared)
    (hfun : isFunctionType e.type = false) (hcomplete : isCompleteType σ.tags e.type = true)
    (h : σ.declare c e.type X none = .ok σ') : ∃ e', Entry σ' X .external e' ∧ e'.state = .allocated := by
  obtain ⟨-, -, ⟨hnew, -⟩ | ⟨lnk, e₁, e', hX₁, hD⟩⟩ := declare_wf hwf h
  · cases (hnew.entries .external).symm.trans hX.entry
  · obtain ⟨rfl, rfl⟩ := hX.unique hX₁
    refine ⟨e', hD.entry, ?_⟩
    obtain ⟨sto, p, hsto, hplan, hstate', -⟩ := hD.plan
    have hext : isExtern (elideDeclParams e₁.type) = false := by
      have hplain := hX.plain.1
      revert hfun hplain
      generalize e₁.type = T
      obtain ⟨q, m, st⟩ := T
      intro hfun hplain
      have hext : isExternType (elideDeclParams (.t q m st)) = false := hplain
      have hfun' : isFunctionType (elideDeclParams (.t q m st)) = false := by
        cases st with
        | array k T => rfl
        | nonArray n =>
          cases n with
          | functionType r ps => cases hfun
          | basic | enumType | structType | unionType | pointerType => rfl
      simp [isExtern, hext, hfun']
    rw [hstate'.trans ?_]
    have hcomplete' : isCompleteType σ.tags (initType none (elideDeclParams e₁.type)) = true :=
      (elide_completeAlike e₁.type σ.tags).trans hcomplete
    rw [hcomplete', hstate] at hplan
    rw [hext] at hsto
    cases sto with
    | Extern => simp at hsto
    | Naked | Static =>
      cases hplan
      rfl

/-- **A name is looked at after a tag was defined.** -/
theorem Tracks.completeTag (hwf : Wf σ) (h : Tracks σ X H) (hstep : σ.completeTagInDecl c .external X = .ok σ') :
    Tracks σ' X (H.complete σ.tags) := by
  unfold completeTagInDecl at hstep
  split at hstep
  · cases hstep
  · rename_i e he
    have hX : Entry σ X .external e := by
      rcases hwf.names X with hnew | ⟨lnk, e₁, hX⟩
      · cases (hnew.entries .external).symm.trans he
      · have hlnk : .external = lnk := by
          by_contra hne
          cases (hX.other .external hne).symm.trans he
        subst hlnk
        cases hX.entry.symm.trans he
        exact hX
    obtain ⟨hne, hstate⟩ := h.entry hX
    cases hcompletion : H.completion with
    | undeclared => exact absurd hcompletion hne
    | incomplete T =>
      obtain ⟨hinits, htc, ⟨tags₀, htags₀⟩, e₁, hX₁, htent, halike⟩ := h.incomplete T hcompletion
      obtain ⟨-, rfl⟩ := hX.unique hX₁
      have hdeclared : e₁.state = .declared := hstate.trans (History.state_eq_declared hcompletion hinits)
      have hfun : isFunctionType e₁.type = false := by
        by_contra hfun
        have := isCompleteType_function (by simpa using hfun) tags₀
        rw [halike, htags₀] at this
        cases this
      cases hcomplete : isCompleteType σ.tags T with
      | false =>
        have hnot : DeclEntry.becomesComplete σ.tags e₁ = false := by
          simp [DeclEntry.becomesComplete, halike σ.tags, hcomplete]
        rw [hnot] at hstep
        cases hstep
        simpa [History.complete, hcompletion, hcomplete] using h
      | true =>
        have hbecomes : DeclEntry.becomesComplete σ.tags e₁ = true := by
          simp [DeclEntry.becomesComplete, halike σ.tags, hcomplete, hfun, hdeclared]
        rw [hbecomes, if_pos rfl] at hstep
        obtain ⟨e', hX', hallocated⟩ :=
          redeclare_allocates hwf hX hdeclared hfun ((halike σ.tags).trans hcomplete) hstep
        have hH : H.complete σ.tags = { H with completion := .byTag } := by
          simp [History.complete, hcompletion, hcomplete]
        rw [hH]
        refine ⟨h.once, by simp, fun _ => ⟨.external, e', hX', ?_⟩, by simp⟩
        rw [hallocated]
        simp [History.state, hinits]
    | byDeclaration | byTag =>
      have hnot : DeclEntry.becomesComplete σ.tags e = false := by
        have hne : e.state ≠ .declared := by
          rw [hstate]
          exact History.state_ne_declared (by simp [hcompletion])
        simp [DeclEntry.becomesComplete, hne]
      rw [hnot] at hstep
      cases hstep
      simpa [History.complete, hcompletion] using h

/-- An internal name is not declared again: it has been allocated. -/
theorem completeTagInDecl_internal (hwf : Wf σ) (hstep : σ.completeTagInDecl c .internal X = .ok σ') : σ' = σ := by
  unfold completeTagInDecl at hstep
  split at hstep
  · cases hstep
  · rename_i e he
    have hdefined : e.state.isDefined = true := by
      rcases hwf.names X with hnew | ⟨lnk, e₁, hX⟩
      · cases (hnew.entries .internal).symm.trans he
      · have hlnk : .internal = lnk := by
          by_contra hne
          cases (hX.other .internal hne).symm.trans he
        subst hlnk
        cases hX.entry.symm.trans he
        have hreal := hX.real
        rw [hX.internal rfl] at hreal
        simpa using hreal.symm
    have hnot : DeclEntry.becomesComplete σ.tags e = false := by
      have hne : e.state ≠ .declared := by
        intro heq
        rw [heq] at hdefined
        cases hdefined
      simp [DeclEntry.becomesComplete, hne]
    rw [hnot] at hstep
    cases hstep
    rfl

/-! ### A run -/

/-- The code has the tags the unit has defined and referred to, and tracks the history of the name. -/
structure Agrees (σ : TuState) (X : CId) (s : Said) : Prop where
  wf : Wf σ
  tags : σ.tags = s.tags
  incompleteTags : σ.incompleteTags = s.incompleteTags
  tracks : Tracks σ X s.history

/-- All names are looked at after a tag was defined, those with external linkage first. -/
theorem Tracks.completeTags {exts ints : List CId} {σ₁ : TuState} (hwf : Wf σ) (h : Tracks σ X H)
    (hexts : exts.Perm (σ.externals.map Prod.fst)) (h₁ : exts.foldlM (completeTagInDecl c .external) σ = .ok σ₁)
    (h₂ : ints.foldlM (completeTagInDecl c .internal) σ₁ = .ok σ') :
    Wf σ' ∧ σ'.tags = σ.tags ∧ σ'.incompleteTags = σ.incompleteTags ∧ Tracks σ' X (H.complete σ.tags) := by
  -- the names with external linkage: X is one of those that are done, or it is not
  have hloop₁ := foldlM_induction (p := []) (P := fun pre τ => Wf τ ∧ τ.tags = σ.tags ∧
      τ.incompleteTags = σ.incompleteTags ∧ Tracks τ X (if X ∈ pre then H.complete σ.tags else H))
    (by
      rintro pre Y τ τ' ⟨hwfτ, htags, hincs, htracks⟩ hstep
      obtain ⟨hwf', hframe⟩ := completeTagInDecl_wf hwfτ hstep
      refine ⟨hwf', hframe.tags.trans htags, hframe.incompleteTags.trans hincs, ?_⟩
      by_cases hY : X = Y
      · subst hY
        have hdone := htracks.completeTag hwfτ hstep
        rw [htags] at hdone
        rw [if_pos (by simp)]
        split at hdone
        · rwa [complete_complete] at hdone
        · exact hdone
      · have : (X ∈ pre ++ [Y]) ↔ X ∈ pre := by simp [hY]
        rw [if_congr this rfl rfl]
        exact htracks.of_frame hframe hY)
    ⟨hwf, rfl, rfl, by simpa using h⟩ h₁
  obtain ⟨hwf₁, htags₁, hincs₁, htracks₁⟩ := hloop₁
  have hdone : Tracks σ₁ X (H.complete σ.tags) := by
    rw [List.nil_append] at htracks₁
    split at htracks₁
    · exact htracks₁
    · -- a name without external linkage has no type that is waiting for a tag
      rename_i hnot
      have hsame : H.complete σ.tags = H := by
        unfold History.complete
        split
        · rename_i T hT
          obtain ⟨-, -, -, e, hX, -⟩ := h.incomplete T hT
          have hmem : X ∈ σ.externals.map Prod.fst := (mem_keys_iff σ.externals X).mpr ⟨e, hX.entry⟩
          exact absurd (hexts.mem_iff.mpr hmem) hnot
        · rfl
      rw [hsame]
      exact htracks₁
  -- the others do not change
  refine foldlM_invariant (P := fun τ => Wf τ ∧ τ.tags = σ.tags ∧ τ.incompleteTags = σ.incompleteTags ∧
    Tracks τ X (H.complete σ.tags)) ?_ ⟨hwf₁, htags₁, hincs₁, hdone⟩ h₂
  rintro Y - τ τ' ⟨hwfτ, htags, hincs, htracks⟩ hstep
  rw [completeTagInDecl_internal hwfτ hstep]
  exact ⟨hwfτ, htags, hincs, htracks⟩

/-- **One step of the unit.** -/
theorem Agrees.step {s : Said} {ev : TuEvent} (h : Agrees σ X s) (hstep : σ.step c ev = .ok σ') :
    Agrees σ' X (s.next c.tu X ev) := by
  obtain ⟨hwf, htags, hincs, htracks⟩ := h
  have hwf' := step_wf hwf hstep
  cases ev with
  | refer S =>
    cases hstep
    unfold referTag
    simp only [Said.next]
    rw [htags, hincs]
    split
    · exact ⟨hwf, htags, hincs, htracks⟩
    · exact ⟨hwf.of_cells hwf.held, rfl, rfl, htracks.of_cells⟩
  | addGlobalTag S info exts ints =>
    obtain ⟨-, ⟨hS, rfl⟩ | ⟨hS, hexts, -, σ₁, h₁, h₂⟩⟩ := addGlobalTag_eq_ok hstep
    · simp only [Said.next]
      rw [if_neg (by rwa [← hincs])]
      exact ⟨hwf', by rw [← htags], hincs, htracks.of_cells⟩
    · simp only [Said.next]
      rw [if_pos (by rwa [← hincs]), ← htags, ← hincs]
      have hwf₀ : Wf { σ with tags := update σ.tags ⟨S, c.tu, .global⟩ info
                              incompleteTags := σ.incompleteTags.erase S } := hwf.of_cells hwf.held
      obtain ⟨hwf₂, htags₂, hincs₂, htracks₂⟩ := Tracks.completeTags hwf₀ htracks.of_cells hexts h₁ h₂
      exact ⟨hwf₂, htags₂, hincs₂, htracks₂⟩
  | declare T Y init =>
    obtain ⟨-, hframe, hcases⟩ := declare_wf hwf hstep
    refine ⟨hwf', ?_, ?_, ?_⟩
    · simp only [Said.next]
      split <;> exact hframe.tags.trans htags
    · simp only [Said.next]
      split <;> exact hframe.incompleteTags.trans hincs
    · simp only [Said.next]
      split
      · rename_i hY
        subst hY
        rw [← htags]
        rcases hcases with ⟨hnew, e', hD⟩ | ⟨lnk, e, e', hX, hD⟩
        · exact htracks.declare (.inl ⟨hnew, rfl, rfl, rfl, rfl⟩) hD
        · exact htracks.declare (.inr ⟨e, hX, rfl, rfl, rfl⟩) hD
      · rename_i hY
        exact htracks.of_frame hframe (Ne.symm hY)
  | use Y =>
    obtain ⟨⟨U, L, rfl, -⟩, -⟩ := use_spec hstep
    exact ⟨hwf', htags, hincs, htracks.of_cells⟩

theorem initialTu_agrees (X : CId) : Agrees initialTu X ⟨[], [], noHistory⟩ where
  wf := initialTu_wf
  tags := rfl
  incompleteTags := rfl
  tracks := ⟨Nat.zero_le 1, fun _ => ⟨⟨fun lnk => by cases lnk <;> rfl, rfl, rfl, rfl⟩, rfl⟩,
    fun hne => absurd rfl hne, fun _ hT => by cases hT⟩

/-- **Every run has the state of the history.** -/
theorem run_agrees {evs : List TuEvent} (h : initialTu.run c evs = .ok σ) (X : CId) : Agrees σ X (said c.tu X evs) := by
  refine foldlM_induction (p := []) (P := fun pre τ => Agrees τ X (said c.tu X pre)) ?_ (initialTu_agrees X) h
  intro pre ev τ τ' hτ hstep
  unfold said
  rw [List.foldl_append]
  exact hτ.step hstep

/-! ## The report -/

/-- A computation stops in its first part or in its second. -/
theorem bind_eq_error {α β : Type} {x : Eval α} {f : α → Eval β} {r : Stop} (h : x >>= f = .error r) :
    x = .error r ∨ ∃ a, x = .ok a ∧ f a = .error r := by
  cases x with
  | error r' =>
    cases h
    exact .inl rfl
  | ok a => exact .inr ⟨a, rfl, h⟩

theorem checkFileScope_error {tags : Tags} (h : checkFileScope tags T X init = .error (redefinition Y)) : False := by
  unfold checkFileScope at h
  simp only at h
  repeat' split at h
  all_goals simp [redefinition, CV, UNDEF] at h

theorem use_error (h : σ.use X = .error (redefinition Y)) : False := by
  unfold use at h
  split at h
  · simp only at h
    split at h
    · split at h <;> cases h
    · cases h
  · cases h

theorem figureInit_error (h : σ.figureInit X T init = .error (redefinition Y)) : False := by
  unfold figureInit at h
  cases init with
  | none => cases h
  | some i =>
    simp only at h
    split at h
    · rcases bind_eq_error h with h | ⟨σ₁, -, h⟩
      · obtain ⟨_, _, _, _, -, -, h⟩ := foldlM_error h
        exact use_error h
      · cases h
    · cases h

/-- The plan has the report for a second initialiser, and no other rule has it. -/
theorem declPlan_error {noInit complete : Bool} {S : DeclState} {sto : FileStorage}
    (h : declPlan c X noInit complete S lnk sto = .error (redefinition Y)) :
    redefinition Y = redefinition X ∧ noInit = false ∧ S = .initialized := by
  cases noInit with
  | true =>
    cases complete with
    | false =>
      simp only [declPlan] at h
      split at h
      · simp [redefinition, CV, UNDEF] at h
      · cases h
    | true => cases S <;> cases sto <;> cases h
  | false =>
    cases S with
    | initialized =>
      refine ⟨?_, rfl, rfl⟩
      simpa [declPlan] using h.symm
    | declared | completed | allocated => cases complete <;> cases h

theorem allocObject_error {b : SymBase} (h : σ.allocObject c b T = .error (redefinition Y)) : False := by
  unfold allocObject at h
  split at h
  · rcases bind_eq_error h with h | ⟨M, -, h⟩
    · unfold alloc at h
      split at h
      · cases h
      · split at h <;> cases h
    · cases h
  · cases h

theorem allocateDecl_error (h : σ.allocateDecl c X = .error (redefinition Y)) : False := by
  unfold allocateDecl at h
  split at h
  · split at h
    · split at h
      · cases h
      · exact allocObject_error h
    · exact allocObject_error h
  · cases h

theorem updateLinkState_error {b : SymBase} (htold : σ.Told X b)
    (h : σ.updateLinkState X T b = .error (redefinition Y)) : False := by
  unfold updateLinkState at h
  cases hlink : isLinkBase b with
  | true => simp [hlink] at h
  | false =>
    rcases htold.2 hlink with hnone | ⟨hsome, -⟩
    · simp [hlink, hnone] at h
    · simp [hlink, hsome] at h

theorem enter_error (h : σ.enter c X T = .error (redefinition Y)) : False := by
  unfold enter at h
  repeat' split at h
  all_goals first | cases h | simp [redefinition, conflictingTypes, CV] at h

/-- The linker cells are in step with the base, so the steps of a rule do not report. -/
theorem carryOut_error {p : DeclPlan} {b : SymBase} (hbases : Bases σ) (hb : σ.genv X = some b)
    (he : (σ.entries lnk).lookup X = some e) (htold : lnk = .external → σ.Told X b)
    (h : σ.carryOut c X T lnk p = .error (redefinition Y)) : False := by
  unfold carryOut at h
  rcases bind_eq_error h with h | ⟨σ₁, h₁, h⟩
  · unfold giveCompositeType at h
    split at h
    · cases h
    · split at h
      · split at h <;> cases h
      · simp [redefinition, conflictingTypes, CV] at h
  · obtain ⟨C, rfl, -⟩ := giveCompositeType_eq_ok h₁
    rcases bind_eq_error h with h | ⟨σ₂, h₂, h⟩
    · split at h
      · exact allocateDecl_error h
      · cases h
    · obtain ⟨b', -, -, -, hb', htypes₂, hentries₂, -, htold₂, -⟩ := allocates_spec hbases hb htold h₂
      rcases bind_eq_error h with h | ⟨σ₃, -, h⟩
      · unfold updateDecl at h
        rw [hb', htypes₂, hentries₂, he] at h
        cases lnk with
        | internal => cases h
        | external =>
          have htold₃ : (σ₂.setEntry .external X ⟨b', tagRestrict .fileScope (stripStorageSpecifiers C), p.state,
              e.tentative⟩).Told X b' := htold₂ rfl
          exact updateLinkState_error htold₃ h
      · split at h
        · unfold recordTentDef at h
          split at h <;> cases h
        · cases h

theorem Entered.Ready.declare_error {E : Entered} {b : SymBase} (hE : E.Ready X b e)
    (h : E.declare c X T init = .error (redefinition Y)) :
    redefinition Y = redefinition X ∧ init.isSome = true ∧ E.declState = .initialized := by
  rcases bind_eq_error h with h | ⟨⟨σ₁, T'⟩, h₁, h⟩
  · exact (figureInit_error h).elim
  · rcases bind_eq_error h with h | ⟨p, -, h⟩
    · obtain ⟨hname, hinit, hS⟩ := declPlan_error h
      refine ⟨hname, ?_, hS⟩
      cases init with
      | none => cases hinit
      | some i => rfl
    · obtain ⟨-, -, ⟨types, U, L, hσ₁, -⟩, -⟩ := figureInit_spec h₁
      have hbases₁ : Bases σ₁ := hE.bases.of_cells (by rw [hσ₁]) (by rw [hσ₁]) (by rw [hσ₁]) (by rw [hσ₁])
      have hb₁ : σ₁.genv X = some b := by rw [hσ₁]; exact hE.genv
      have hentries₁ : (σ₁.entries E.linkage).lookup X = some e := by
        have hentry := hE.entry
        rw [hσ₁]
        cases hlnk : E.linkage <;> rw [hlnk] at hentry <;> exact hentry
      have htold₁ : E.linkage = .external → σ₁.Told X b := by rw [hσ₁]; exact hE.told
      exact (carryOut_error hbases₁ hb₁ hentries₁ htold₁ h).elim

/-- **A declaration reports a redefinition only of its own name**, when it has an initialiser and the name
    has been initialised. -/
theorem declare_error (hwf : Wf σ) (h : σ.declare c T X init = .error (redefinition Y)) :
    redefinition Y = redefinition X ∧ init.isSome = true ∧ ∃ lnk e, Entry σ X lnk e ∧ e.state = .initialized := by
  rcases bind_eq_error h with h | ⟨_, -, h⟩
  · exact (checkFileScope_error h).elim
  · rcases bind_eq_error h with h | ⟨E, hE, h⟩
    · exact (enter_error h).elim
    · rcases hwf.names X with hnew | ⟨lnk, e, hX⟩
      · obtain ⟨b, hready, -, hdecl, -⟩ := enter_new hwf.bases hnew.entries (by simp [hnew.genv]) hnew.defs hE
        obtain ⟨-, -, hS⟩ := hready.declare_error h
        cases hdecl.symm.trans hS
      · obtain ⟨hready, -, hdecl, -⟩ := enter_known hwf.bases hX hE
        obtain ⟨hname, hinit, hS⟩ := hready.declare_error h
        exact ⟨hname, hinit, lnk, e, hX, hdecl.symm.trans hS⟩

theorem completeTagInDecl_error (hwf : Wf σ) (h : σ.completeTagInDecl c lnk X = .error (redefinition Y)) : False := by
  unfold completeTagInDecl at h
  split at h
  · cases h
  · split at h
    · obtain ⟨-, hinit, -⟩ := declare_error hwf h
      cases hinit
    · cases h

/-- A step that reports a redefinition declares a name with an initialiser that has been initialised. -/
theorem step_error {ev : TuEvent} (hwf : Wf σ) (h : σ.step c ev = .error (redefinition Y)) :
    ∃ T X i, ev = .declare T X (some i) ∧ redefinition Y = redefinition X ∧
      ∃ lnk e, Entry σ X lnk e ∧ e.state = .initialized := by
  cases ev with
  | refer S => cases h
  | use X => exact (use_error h).elim
  | declare T X init =>
    obtain ⟨hname, hinit, hX⟩ := declare_error hwf h
    obtain ⟨i, rfl⟩ := Option.isSome_iff_exists.mp hinit
    exact ⟨T, X, i, rfl, hname, hX⟩
  | addGlobalTag S info exts ints =>
    have hloop : ∀ (lnk : Linkage) (l : List CId) (τ : TuState), Wf τ →
        l.foldlM (completeTagInDecl c lnk) τ ≠ .error (redefinition Y) := by
      intro lnk l τ hτ h
      obtain ⟨pre, a, post, u, -, hpre, ha⟩ := foldlM_error h
      exact completeTagInDecl_error (foldlM_invariant (fun _ _ _ _ hu h => (completeTagInDecl_wf hu h).1) hτ hpre) ha
    have hstep : σ.addGlobalTag c S info exts ints = .error (redefinition Y) := h
    unfold addGlobalTag at hstep
    simp only at hstep
    split at hstep
    · simp [redefinition, CV] at hstep
    · split at hstep
      · split at hstep
        · have hwf₀ : Wf { σ with tags := update σ.tags ⟨S, c.tu, .global⟩ info
                                  incompleteTags := σ.incompleteTags.erase S } := hwf.of_cells hwf.held
          rcases bind_eq_error hstep with h | ⟨σ₁, h₁, h⟩
          · exact (hloop _ _ _ hwf₀ h).elim
          · refine (hloop _ _ _ ?_ h).elim
            exact foldlM_invariant (fun _ _ _ _ hu h => (completeTagInDecl_wf hu h).1) hwf₀ h₁
        · cases hstep
      · cases hstep

/-- The end of the unit does not report a redefinition. -/
theorem allocateIncompleteTentatives_error {σ₀ : TuState} {order : List CId} (hwf : Wf σ₀) (hσ : Ending σ₀ σ)
    (h : σ.allocateIncompleteTentatives c order = .error (redefinition Y)) : False := by
  induction order generalizing σ with
  | nil =>
    unfold allocateIncompleteTentatives at h
    split at h <;> cases h
  | cons X Xs ih =>
    unfold allocateIncompleteTentatives at h
    split at h
    · cases h
    · rename_i e he
      rcases bind_eq_error h with h | ⟨σ₁, h₁, h⟩
      · unfold allocateIncompleteTentative at h
        split at h
        · rename_i q m T htype hstate htent
          rcases hσ.names X with hkept | hredone
          · obtain ⟨-, hentries, hold, hdefs⟩ := hkept.renewed hwf he hstate
            have hbases : Bases { σ with externals := AssocMap.remove σ.externals X } :=
              hσ.bases.of_cells rfl rfl rfl rfl
            rcases bind_eq_error h with h | ⟨_, -, h⟩
            · exact checkFileScope_error h
            · rcases bind_eq_error h with h | ⟨E, hE, h⟩
              · exact enter_error h
              · obtain ⟨b, hready, -⟩ := enter_new hbases hentries hold hdefs hE
                obtain ⟨-, hinit, -⟩ := hready.declare_error h
                cases hinit
          · have hdefined := hredone.defined e he
            rw [hstate] at hdefined
            cases hdefined
        · cases h
        · split at h
          · simp [redefinition, CV, UNDEF] at h
          · cases h
        · cases h
      · exact ih (hσ.step hwf he h₁) h

end TuState

/-! ## What the unit defines -/

/-- A declaration with an initialiser. -/
def initializes (X : CId) : TuEvent → Bool
  | .declare _ Y (some _) => Y = X
  | _ => false

/-- A declaration with an initialiser, or a tentative definition: one that is not `extern`.  Functions are
    as the code counts them. -/
def mayDefine (X : CId) : TuEvent → Bool
  | .declare T Y init => Y = X && (init.isSome || !isExtern T)
  | _ => false

theorem isExtern_elide (T : CType) : isExtern (elideDeclParams T) = isExtern T := by
  obtain ⟨q, m, st⟩ := T
  cases st with
  | array k T => rfl
  | nonArray n => cases n <;> rfl

section Said

variable (tu : String) {X : CId}

theorem said_append (evs : List TuEvent) (ev : TuEvent) : said tu X (evs ++ [ev]) = (said tu X evs).next tu X ev := by
  simp [said, List.foldl_append]

theorem History.complete_inits (H : History) (tags : Tags) :
    (H.complete tags).inits = H.inits ∧ (H.complete tags).tentative = H.tentative := by
  unfold History.complete
  split
  · split <;> exact ⟨rfl, rfl⟩
  · exact ⟨rfl, rfl⟩

/-- The history counts the initialisers. -/
theorem said_inits (evs : List TuEvent) : (said tu X evs).history.inits = evs.countP (initializes X) := by
  induction evs using List.reverseRecOn with
  | nil => rfl
  | append_singleton evs ev ih =>
    rw [said_append, List.countP_append, ← ih]
    cases ev with
    | refer S =>
      simp only [Said.next]
      split <;> simp [initializes]
    | use Y => simp [Said.next, initializes]
    | addGlobalTag S info exts ints =>
      simp only [Said.next]
      split
      · simp [initializes, (History.complete_inits _ _).1]
      · simp [initializes]
    | declare T Y init =>
      simp only [Said.next]
      by_cases hY : Y = X
      · cases init <;> simp [hY, initializes, History.declare]
      · cases init <;> simp [hY, initializes]

/-- And it knows whether a declaration may define the name. -/
theorem said_mayDefine (evs : List TuEvent) : (said tu X evs).history.inits ≠ 0 ∨
    (said tu X evs).history.tentative = true ↔ ∃ ev ∈ evs, mayDefine X ev = true := by
  induction evs using List.reverseRecOn with
  | nil => simp [said, noHistory]
  | append_singleton evs ev ih =>
    have hmem : (∃ ev' ∈ evs ++ [ev], mayDefine X ev' = true) ↔
        (∃ ev' ∈ evs, mayDefine X ev' = true) ∨ mayDefine X ev = true := by
      simp [or_and_right, exists_or]
    rw [hmem, ← ih, said_append]
    cases ev with
    | refer S =>
      simp only [Said.next]
      split <;> simp [mayDefine]
    | use Y => simp [Said.next, mayDefine]
    | addGlobalTag S info exts ints =>
      simp only [Said.next]
      split
      · simp [mayDefine, (History.complete_inits _ _).1, (History.complete_inits _ _).2]
      · simp [mayDefine]
    | declare T Y init =>
      simp only [Said.next]
      by_cases hY : Y = X
      · cases init <;> simp [hY, mayDefine, History.declare, isExtern_elide, or_assoc]
      · simp [hY, mayDefine]

/-- A tentative definition with a complete type is one. -/
theorem said_tentativeComplete (evs : List TuEvent) (h : (said tu X evs).history.tentativeComplete = true) :
    (said tu X evs).history.tentative = true := by
  induction evs using List.reverseRecOn with
  | nil => cases h
  | append_singleton evs ev ih =>
    rw [said_append] at h ⊢
    cases ev with
    | refer S =>
      simp only [Said.next] at h ⊢
      split at h <;> rename_i hS <;> simpa [hS] using ih h
    | use Y => exact ih h
    | addGlobalTag S info exts ints =>
      simp only [Said.next] at h ⊢
      split at h
      · rename_i hS
        rw [if_pos hS, (History.complete_inits _ _).2]
        refine ih ?_
        unfold History.complete at h
        split at h
        · split at h <;> exact h
        · exact h
      · rename_i hS
        rw [if_neg hS]
        exact ih h
    | declare T Y init =>
      simp only [Said.next] at h ⊢
      split at h
      · rename_i hY
        rw [if_pos hY]
        simp only [History.declare, Bool.or_eq_true, Bool.and_eq_true] at h ⊢
        rcases h with h | ⟨h, -⟩
        · exact .inl (ih h)
        · exact .inr h
      · rename_i hY
        rw [if_neg hY]
        exact ih h

end Said

/-- An object of a name: the one the linker is given, or that of an internal name. -/
def TuState.Block (σ : TuState) (X : CId) (b : SymBase) : Prop :=
  σ.mem b ≠ none ∧ (σ.externalDefs X = some b ∨ ∃ e, σ.internals.lookup X = some e ∧ e.base = b)

/-- The unit defines the name. -/
def TuState.Defines (σ : TuState) (X : CId) : Prop := ∃ b, σ.Block X b

/-- The name has been allocated once at most: it has one object, and every object is that of one name. -/
def TuState.AllocatesOnce (σ : TuState) (X : CId) : Prop :=
  (∀ b b', σ.Block X b → σ.Block X b' → b = b') ∧ ∀ b, σ.mem b ≠ none → ∃! Y, σ.Block Y b

/-- The condition on the declarations of a name.  Where a tag completed its type, one of them may define
    it; where one of them completed its type and there is a tentative definition, one has an initialiser,
    or is a tentative definition whose type was complete. -/
def History.Regular (H : History) : Prop :=
  match H.completion with
  | .undeclared => True
  | .incomplete _ => True
  | .byTag => H.inits ≠ 0 ∨ H.tentative = true
  | .byDeclaration => H.tentative = true → H.inits ≠ 0 ∨ H.tentativeComplete = true

section Unit

variable {c : TuConfig} {evs : List TuEvent} {order : List CId} {σ₀ σ : TuState} {X : CId} {b : SymBase}

/-- At the end of the unit the objects are those of the names, as the environment has them. -/
theorem block_iff (hwf : σ₀.Wf) (hend : σ₀.Ending σ) : σ.Block X b ↔ σ.mem b ≠ none ∧ σ.genv X = some b := by
  refine and_congr_right fun hmem => ?_
  have hreal := hend.bases.real b hmem
  rcases hend.names X with hkept | hredone
  · rw [hkept.defs, hkept.internals, hkept.genv]
    rcases hwf.names X with hnew | ⟨lnk, e, hX⟩
    · have hint : σ₀.internals.lookup X = none := hnew.entries .internal
      simp [hnew.defs, hnew.genv, hint]
    · cases lnk with
      | external =>
        have hint : σ₀.internals.lookup X = none := hX.other .internal (by simp)
        rw [hX.defs rfl, hX.genv, hint]
        constructor
        · rintro (hdefs | ⟨_, hnone, -⟩)
          · split at hdefs
            · cases hdefs
            · exact hdefs
          · cases hnone
        · intro hb
          cases hb
          rw [hreal]
          exact .inl rfl
      | internal =>
        have hint : σ₀.internals.lookup X = some e := hX.entry
        rw [hX.unexported rfl, hX.genv, hint]
        simp
  · obtain ⟨b', hdefs, hgenv, -⟩ := hredone.defs
    rw [hdefs, hgenv, hredone.internals]
    simp

theorem allocatesOnce (hwf : σ₀.Wf) (hend : σ₀.Ending σ) (X : CId) : σ.AllocatesOnce X := by
  constructor
  · intro b b' hb hb'
    exact Option.some.inj (((block_iff hwf hend).mp hb).2.symm.trans ((block_iff hwf hend).mp hb').2)
  · intro b hb
    obtain ⟨Y, hY⟩ := hend.bases.owned b hb
    refine ⟨Y, (block_iff hwf hend).mpr ⟨hb, hY⟩, fun Z hZ => ?_⟩
    exact hend.bases.genv_inj Z Y b ((block_iff hwf hend).mp hZ).2 hY

/-- A name is defined when its state says so, or when the end of the unit declared it again. -/
theorem defines_iff {H : History} (hwf : σ₀.Wf) (hend : σ₀.Ending σ) (hgone : ∀ X, σ.externals.lookup X = none)
    (htracks : σ₀.Tracks X H) : σ.Defines X ↔ (H.completion ≠ .undeclared ∧ H.state.isDefined = true) ∨
      ∃ T, H.completion = .incomplete T ∧ H.tentative = true := by
  unfold TuState.Defines
  simp only [block_iff hwf hend]
  rcases hend.names X with hkept | hredone
  · rcases hwf.names X with hnew | ⟨lnk, e, hX⟩
    · have hundeclared : H.completion = .undeclared := by
        by_contra hne
        obtain ⟨lnk, e, hX, -⟩ := htracks.declared hne
        cases (hnew.entries lnk).symm.trans hX.entry
      simp [hkept.genv, hnew.genv, hundeclared]
    · obtain ⟨hne, hstate⟩ := htracks.entry hX
      -- a tentative definition that is not complete would have been declared again
      have hnot : ¬ ∃ T, H.completion = .incomplete T ∧ H.tentative = true := by
        rintro ⟨T, hT, htent⟩
        obtain ⟨hinits, -, -, e₁, hX₁, htent₁, -⟩ := htracks.incomplete T hT
        have hdeclared := (htracks.entry hX₁).2.trans (History.state_eq_declared hT hinits)
        rcases hkept.externals with heq | ⟨-, hnot⟩
        · cases hX₁.entry.symm.trans (heq.symm.trans (hgone X))
        · exact hnot ⟨e₁, hX₁.entry, hdeclared, htent₁.trans htent⟩
      rw [or_iff_left hnot, ← hstate, hkept.genv, hX.genv]
      constructor
      · rintro ⟨b, hmem, hb⟩
        cases hb
        refine ⟨hne, ?_⟩
        have hreal := hX.real
        rw [hend.bases.real _ hmem] at hreal
        simpa using hreal.symm
      · rintro ⟨-, hdefined⟩
        exact ⟨e.base, hend.mem _ (hX.mem hdefined), rfl⟩
  · obtain ⟨b, -, hgenv, hmem⟩ := hredone.defs
    refine iff_of_true ⟨b, hmem, hgenv⟩ (.inr ?_)
    obtain ⟨e, he, hdeclared, htent⟩ := hredone.redeclared.tentative
    obtain ⟨lnk, e₁, hX⟩ := (hwf.names X).resolve_left fun hnew => by
      cases (hnew.entries .external).symm.trans he
    have hlnk : .external = lnk := by
      by_contra hne
      cases (hX.other .external hne).symm.trans he
    subst hlnk
    cases hX.entry.symm.trans he
    obtain ⟨hne, hstate⟩ := htracks.entry hX
    have hstate : H.state = .declared := hstate.symm.trans hdeclared
    cases hcompletion : H.completion with
    | undeclared => exact absurd hcompletion hne
    | incomplete T =>
      obtain ⟨-, -, -, e₁, hX₁, htent₁, -⟩ := htracks.incomplete T hcompletion
      obtain ⟨-, rfl⟩ := hX.unique hX₁
      exact ⟨T, rfl, htent₁.symm.trans htent⟩
    | byDeclaration => exact absurd hstate (History.state_ne_declared (.inl hcompletion))
    | byTag => exact absurd hstate (History.state_ne_declared (.inr hcompletion))

/-- What the state of a history says is right exactly under the condition. -/
theorem regular_iff {H : History} (hsound : H.tentativeComplete = true → H.tentative = true)
    (hundeclared : H.completion = .undeclared → H = noHistory) (hincomplete : ∀ T, H.completion = .incomplete T → H.inits = 0) :
    (((H.completion ≠ .undeclared ∧ H.state.isDefined = true) ∨ ∃ T, H.completion = .incomplete T ∧ H.tentative = true) ↔
      H.inits ≠ 0 ∨ H.tentative = true) ↔ H.Regular := by
  unfold History.Regular History.state
  cases hcompletion : H.completion with
  | undeclared =>
    rw [hundeclared hcompletion]
    simp [noHistory]
  | incomplete T => simp [hincomplete T hcompletion, DeclState.isDefined]
  | byTag =>
    by_cases hinits : H.inits = 0 <;> simp [hinits, DeclState.isDefined]
  | byDeclaration =>
    by_cases hinits : H.inits = 0
    · cases htc : H.tentativeComplete with
      | true => simp [hinits, DeclState.isDefined, hsound htc]
      | false => simp [hinits, DeclState.isDefined]
    · simp [hinits, DeclState.isDefined]

/-- **What a unit defines.** -/
theorem translationUnit_spec (hunit : translationUnit c evs order = .ok σ) (X : CId) :
    σ.AllocatesOnce X ∧ evs.countP (initializes X) ≤ 1 ∧
      ((σ.Defines X ↔ ∃ ev ∈ evs, mayDefine X ev = true) ↔ (said c.tu X evs).history.Regular) := by
  obtain ⟨σ₀, hrun, -⟩ := Eval.bind_eq_ok.mp hunit
  obtain ⟨σ₁, rfl, -, hwf, hend, hgone⟩ := translationUnit_ending hrun hunit
  have htracks := (TuState.run_agrees hrun X).tracks
  refine ⟨allocatesOnce hwf hend X, ?_, ?_⟩
  · rw [← said_inits c.tu]
    exact htracks.once
  · have hdefines : σ₁.removeUnusedIdentifiers.Defines X ↔ σ₁.Defines X := Iff.rfl
    rw [hdefines, defines_iff hwf hend hgone htracks, ← said_mayDefine c.tu]
    exact regular_iff (said_tentativeComplete c.tu evs) (fun hnone => (htracks.undeclared hnone).2)
      fun T hT => (htracks.incomplete T hT).1

/-- The report for a second initialiser. -/
theorem translationUnit_error (hunit : translationUnit c evs order = .error (redefinition X)) :
    ∃ Y, redefinition Y = redefinition X ∧ 2 ≤ evs.countP (initializes Y) := by
  rcases TuState.bind_eq_error hunit with h | ⟨σ₀, hrun, h⟩
  · obtain ⟨pre, ev, post, τ, rfl, hpre, hev⟩ := foldlM_error h
    obtain ⟨T, Y, i, rfl, hname, lnk, e, hY, hstate⟩ := TuState.step_error (TuState.run_wf hpre) hev
    refine ⟨Y, hname.symm, ?_⟩
    -- the name has been initialised once before
    have htracks := (TuState.run_agrees hpre Y).tracks
    have hstate' := (htracks.entry hY).2
    rw [hstate] at hstate'
    have hinits : (said c.tu Y pre).history.inits ≠ 0 := by
      intro hzero
      unfold History.state at hstate'
      rw [if_neg (not_not_intro hzero)] at hstate'
      split at hstate'
      · cases hstate'
      · cases hstate'
      · split at hstate' <;> cases hstate'
      · cases hstate'
    rw [said_inits] at hinits
    have hself : initializes Y (.declare T Y (some i)) = true := by simp [initializes]
    rw [List.countP_append, List.countP_cons_of_pos hself]
    omega
  · rcases TuState.bind_eq_error h with h | ⟨σ₁, -, h⟩
    · have hwf := TuState.run_wf hrun
      exact (TuState.allocateIncompleteTentatives_error hwf (.refl hwf.bases) h).elim
    · cases h

/-- `extern int a[3]; int a[];` -/
def lostTentative : List TuEvent :=
  [.declare (intArray (.mods {.storage .Extern} none) (.fixed 3)) (.Identifier "a") none,
    .declare (intArray noMods .incomplete) (.Identifier "a") none]

/-- `extern struct S s; struct S { char c; };` -/
def externDefined : List TuEvent :=
  let s : SimpleNonArrayType := .structType ⟨.Identifier "S", "unit", .global⟩
  let members : FieldInfo := .fieldInfo [(IntType.char.toSimple.toType, .Identifier "c")] 8
    [(.Identifier "c", IntType.char.toSimple.toType)] [(.Identifier "c", 0)] [] 1
  [.refer (.Identifier "S"), .declare (.t noQuals (.mods {.storage .Extern} none) (.nonArray s)) (.Identifier "s") none,
    .addGlobalTag (.Identifier "S") (.fields members) [.Identifier "s"] []]

end Unit

end CSemantics
