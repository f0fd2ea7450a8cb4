/-
  Link bases, from the declaration that mints one to the end of the unit.

  A base is minted when a name is new and again when the name is allocated.  At every point of a unit
  the bases are related to the names in one way (`Bases`): no two names have the same base, an object in
  memory is the base of a name, and the base a name has now has not been linked to another.  What a
  compiled expression holds is then one step at most from what the name denotes (`Held`): it IS the base
  of the name, or `<linkings>` has it with the base of the name.

      carryOut_spec        the steps of one rule: the base is kept, allocated, or linked to a new one
      declare_wf           a declaration keeps the invariant, and says what it does to the name
      run_wf               so does every run

  The end of the unit does not.  A tentative array without a length is taken out of `<externals>` before
  it is declared again, so the name is NEW, gets a second link base, and the first one is in no map any
  more.

      orphaned_iff         every base held is resolved or listed iff no such array has been referred to
-/
import CSemantics.Lib.Machine
import CSemantics.Translation.Global

namespace CSemantics

open AssocMap

/-! ## The names a step leaves alone -/

namespace TuState

/-- From one state to the other nothing changes about names other than `X`; objects and links stay, and
    what is new about the bases concerns the base of `X` and bases that are new. -/
structure Frame (X : CId) (σ σ' : TuState) : Prop where
  tags : σ'.tags = σ.tags
  incompleteTags : σ'.incompleteTags = σ.incompleteTags
  genv : ∀ Y, Y ≠ X → σ'.genv Y = σ.genv Y
  types : ∀ Y, Y ≠ X → σ'.types Y = σ.types Y
  entries : ∀ Y, Y ≠ X → ∀ lnk, (σ'.entries lnk).lookup Y = (σ.entries lnk).lookup Y
  known : ∀ lnk, (σ.entries lnk).lookup X ≠ none → (σ'.entries lnk).lookup X ≠ none
  externalDecls : ∀ Y, Y ≠ X → σ'.externalDecls Y = σ.externalDecls Y
  externalDefs : ∀ Y, Y ≠ X → σ'.externalDefs Y = σ.externalDefs Y
  mem : ∀ b, σ.mem b ≠ none → σ'.mem b ≠ none
  linkings : ∀ b b', σ.linkings b = some b' → σ'.linkings b = some b'
  uses : ∀ Y, σ.uses Y = true → σ'.uses Y = true
  next_le : σ.next ≤ σ'.next
  genv_new : ∀ b, σ'.genv X = some b → σ.genv X = some b ∨ σ.next ≤ b.id
  linkings_new : ∀ b b', σ'.linkings b = some b' → σ.linkings b = some b' ∨ σ.genv X = some b ∨ σ.next ≤ b.id

variable {c : TuConfig} {σ σ' σ'' : TuState} {X Y : CId} {b : SymBase} {T : CType} {lnk : Linkage}

theorem Frame.refl (X : CId) (σ : TuState) : Frame X σ σ :=
  ⟨rfl, rfl, fun _ _ => rfl, fun _ _ => rfl, fun _ _ _ => rfl, fun _ h => h, fun _ _ => rfl, fun _ _ => rfl, fun _ h => h,
    fun _ _ h => h, fun _ h => h, le_rfl, fun _ h => .inl h, fun _ _ h => .inl h⟩

theorem Frame.trans (h : Frame X σ σ') (h' : Frame X σ' σ'') : Frame X σ σ'' where
  tags := h'.tags.trans h.tags
  incompleteTags := h'.incompleteTags.trans h.incompleteTags
  genv Y hY := (h'.genv Y hY).trans (h.genv Y hY)
  types Y hY := (h'.types Y hY).trans (h.types Y hY)
  entries Y hY lnk := (h'.entries Y hY lnk).trans (h.entries Y hY lnk)
  known lnk hX := h'.known lnk (h.known lnk hX)
  externalDecls Y hY := (h'.externalDecls Y hY).trans (h.externalDecls Y hY)
  externalDefs Y hY := (h'.externalDefs Y hY).trans (h.externalDefs Y hY)
  mem b hb := h'.mem b (h.mem b hb)
  linkings b b' hb := h'.linkings b b' (h.linkings b b' hb)
  uses Y hY := h'.uses Y (h.uses Y hY)
  next_le := h.next_le.trans h'.next_le
  genv_new b hb := by
    rcases h'.genv_new b hb with hb | hb
    · exact h.genv_new b hb
    · exact .inr (h.next_le.trans hb)
  linkings_new b b' hb := by
    rcases h'.linkings_new b b' hb with hb | hb | hb
    · exact h.linkings_new b b' hb
    · exact .inr (h.genv_new b hb)
    · exact .inr (.inr (h.next_le.trans hb))

/-- A new base, or the one the name has, is put into the environment. -/
theorem addToEnv_frame (hb : σ.genv X = some b ∨ σ.next ≤ b.id) : Frame X σ (σ.addToEnv X b) := by
  refine { Frame.refl X σ with genv := fun _ hY => Function.update_of_ne hY _ _, genv_new := ?_ }
  intro b' hb'
  rw [show (σ.addToEnv X b).genv X = some b from Function.update_self _ _ _] at hb'
  cases hb'
  exact hb

theorem giveType_frame (σ : TuState) (X : CId) (T : CType) : Frame X σ (σ.giveType X T) :=
  { Frame.refl X σ with types := fun _ hY => Function.update_of_ne hY _ _ }

@[simp] theorem entries_setEntry_self (σ : TuState) (lnk : Linkage) (X : CId) (e : DeclEntry) :
    (σ.setEntry lnk X e).entries lnk = update (σ.entries lnk) X e := by
  cases lnk <;> rfl

theorem entries_setEntry_of_ne (σ : TuState) {lnk lnk' : Linkage} (h : lnk' ≠ lnk) (X : CId) (e : DeclEntry) :
    (σ.setEntry lnk X e).entries lnk' = σ.entries lnk' := by
  cases lnk <;> cases lnk' <;> first | rfl | exact absurd rfl h

theorem setEntry_frame (σ : TuState) (lnk : Linkage) (X : CId) (e : DeclEntry) : Frame X σ (σ.setEntry lnk X e) := by
  have hentries : ∀ Y, Y ≠ X → ∀ lnk', ((σ.setEntry lnk X e).entries lnk').lookup Y = (σ.entries lnk').lookup Y := by
    intro Y hY lnk'
    by_cases h : lnk' = lnk
    · subst h
      rw [entries_setEntry_self, lookup_update_of_ne _ _ hY]
    · rw [entries_setEntry_of_ne σ h]
  have hknown : ∀ lnk', (σ.entries lnk').lookup X ≠ none → ((σ.setEntry lnk X e).entries lnk').lookup X ≠ none := by
    intro lnk' hX
    by_cases h : lnk' = lnk
    · subst h
      rw [entries_setEntry_self, lookup_update_self]
      simp
    · rw [entries_setEntry_of_ne σ h]
      exact hX
  cases lnk with
  | external => exact { Frame.refl X σ with entries := hentries, known := hknown }
  | internal => exact { Frame.refl X σ with entries := hentries, known := hknown }

/-! ## What the steps of a rule do -/

/-- A type without a storage class. -/
def Plain (T : CType) : Prop := isExternType T = false ∧ isStaticType T = false

theorem plain_recorded (T : CType) : Plain (tagRestrict .fileScope (stripStorageSpecifiers T)) := by
  obtain ⟨q, ⟨f, fs⟩, st⟩ := T
  unfold Plain isExternType isStaticType CType.hasStorage Mods.has stripStorageSpecifiers tagRestrict
  split <;> simp [Mods.add, Mods.flags, CType.getModifiers, Modifier.isStorageSpecifier]

theorem allocObject_eq_ok (h : σ.allocObject c b T = .ok σ') :
    isLinkBase b = false ∧ σ.mem b = none ∧ ∃ x, σ' = { σ with mem := Function.update σ.mem b (some x) } := by
  unfold allocObject at h
  split at h
  · obtain ⟨M, hM, h⟩ := Eval.bind_eq_ok.mp h
    cases h
    unfold alloc at hM
    split at hM
    · cases hM
    · rename_i hlink
      cases hb : σ.mem b with
      | some x =>
        rw [hb] at hM
        cases hM
      | none =>
        rw [hb] at hM
        cases hM
        exact ⟨by simpa using hlink, rfl, _, rfl⟩
  · cases h

theorem allocateDecl_eq_ok (h : σ.allocateDecl c X = .ok σ') : ∃ b, σ.genv X = some b ∧
    ((isLinkBase b = false ∧ σ.mem b = none ∧ ∃ x, σ' = { σ with mem := Function.update σ.mem b (some x) }) ∨
      (isLinkBase b = true ∧ σ.linkings b = none ∧ ∃ x T, σ' = { σ with
        next := σ.next + 1
        genv := Function.update σ.genv X (some (σ.newBase c T (.static c.tu)))
        linkings := Function.update σ.linkings b (some (σ.newBase c T (.static c.tu)))
        mem := Function.update σ.mem (σ.newBase c T (.static c.tu)) (some x) })) := by
  unfold allocateDecl at h
  split at h
  · rename_i T b hT hb
    refine ⟨b, hb, ?_⟩
    split at h
    · rename_i hlink
      split at h
      · cases h
      · rename_i hl
        obtain ⟨-, -, x, hσ'⟩ := allocObject_eq_ok h
        exact .inr ⟨hlink, hl, x, T, hσ'⟩
    · exact .inl (allocObject_eq_ok h)
  · cases h

theorem giveCompositeType_eq_ok {T' : CType} (h : σ.giveCompositeType c X T' = .ok σ') :
    ∃ C, σ' = σ.giveType X C ∧ ((σ.types X = none ∧ C = T') ∨
      ∃ T, σ.types X = some T ∧ compositeType σ.tags T (stripStorageSpecifiers T') = .ok C) := by
  unfold giveCompositeType at h
  split at h
  · rename_i hT
    cases h
    exact ⟨T', rfl, .inl ⟨hT, rfl⟩⟩
  · rename_i T hT
    split at h
    · split at h
      · rename_i C hC
        cases h
        exact ⟨C, rfl, .inr ⟨T, hT, hC⟩⟩
      · cases h
    · cases h

theorem updateDecl_eq_ok {S : DeclState} (h : σ.updateDecl X lnk S = .ok σ') :
    ∃ b T e, σ.genv X = some b ∧ σ.types X = some T ∧ (σ.entries lnk).lookup X = some e ∧
      ((lnk = .internal ∧ σ' = σ.setEntry lnk X ⟨b, T, S, e.tentative⟩) ∨
        (lnk = .external ∧ (σ.setEntry lnk X ⟨b, T, S, e.tentative⟩).updateLinkState X T b = .ok σ')) := by
  unfold updateDecl at h
  split at h
  · rename_i b T e hb hT he
    refine ⟨b, T, e, hb, hT, he, ?_⟩
    cases lnk with
    | external => exact .inr ⟨rfl, h⟩
    | internal =>
      cases h
      exact .inl ⟨rfl, rfl⟩
  · cases h

theorem updateLinkState_eq_ok (h : σ.updateLinkState X T b = .ok σ') :
    (∃ D, σ' = { σ with externalTypes := Function.update σ.externalTypes X (some T), externalDecls := D
                        externalDefs := if isLinkBase b then σ.externalDefs
                          else Function.update σ.externalDefs X (some b) } ∧
      (D = Function.update σ.externalDecls X true ∨ (D = σ.externalDecls ∧ σ.externalDefs X = some b))) := by
  unfold updateLinkState at h
  by_cases hlink : isLinkBase b = true
  · simp only [hlink, if_true] at h ⊢
    cases h
    exact ⟨_, rfl, .inl rfl⟩
  · simp only [hlink, Bool.false_eq_true, if_false] at h ⊢
    split at h
    · cases h
      exact ⟨_, rfl, .inl rfl⟩
    · rename_i b' hb'
      split at h
      · rename_i heq
        subst heq
        cases h
        refine ⟨σ.externalDecls, ?_, .inr ⟨rfl, hb'⟩⟩
        rw [← hb', Function.update_eq_self]
      · cases h

theorem recordTentDef_eq_ok (h : σ.recordTentDef X lnk = .ok σ') :
    ∃ e, (σ.entries lnk).lookup X = some e ∧ σ' = σ.setEntry lnk X { e with tentative := true } := by
  unfold recordTentDef at h
  split at h
  · rename_i e he
    cases h
    exact ⟨e, he, rfl⟩
  · cases h

/-! ## Bases -/

/-- How the bases of a state are related to the names and to memory. -/
structure Bases (σ : TuState) : Prop where
  fresh : ∀ b, σ.next ≤ b.id → σ.mem b = none ∧ σ.linkings b = none
  genv_lt : ∀ X b, σ.genv X = some b → b.id < σ.next
  genv_inj : ∀ X Y b, σ.genv X = some b → σ.genv Y = some b → X = Y
  owned : ∀ b, σ.mem b ≠ none → ∃ X, σ.genv X = some b
  real : ∀ b, σ.mem b ≠ none → isLinkBase b = false
  unlinked : ∀ X b, σ.genv X = some b → σ.linkings b = none
  target : ∀ b b', σ.linkings b = some b' → isLinkBase b' = false

theorem Bases.of_cells (h : Bases σ) (hnext : σ'.next = σ.next) (hgenv : σ'.genv = σ.genv) (hmem : σ'.mem = σ.mem)
    (hlinkings : σ'.linkings = σ.linkings) : Bases σ' := by
  obtain ⟨fresh, lt, inj, owned, real, unlinked, target⟩ := h
  constructor <;> simp only [hnext, hgenv, hmem, hlinkings] <;> assumption

/-- A new base for a name that has none, or one that stands for an object elsewhere. -/
theorem Bases.mint (h : Bases σ) (hX : ∀ b, σ.genv X = some b → isLinkBase b = true) (c : TuConfig) (T : CType)
    (d : Duration) : Bases ({ σ with next := σ.next + 1 }.addToEnv X (σ.newBase c T d)) := by
  have hid : (σ.newBase c T d).id = σ.next := rfl
  have hgenv : ∀ Y b, Function.update σ.genv X (some (σ.newBase c T d)) Y = some b →
      (Y = X ∧ b = σ.newBase c T d) ∨ (Y ≠ X ∧ σ.genv Y = some b) := by
    intro Y b hY
    by_cases hYX : Y = X
    · subst hYX
      rw [Function.update_self] at hY
      cases hY
      exact .inl ⟨rfl, rfl⟩
    · rw [Function.update_of_ne hYX] at hY
      exact .inr ⟨hYX, hY⟩
  refine ⟨fun b hb => h.fresh b (Nat.le_of_succ_le hb), ?_, ?_, ?_, h.real, ?_, h.target⟩
  · intro Y b hY
    show b.id < σ.next + 1
    rcases hgenv Y b hY with ⟨-, rfl⟩ | ⟨-, hb⟩
    · omega
    · have := h.genv_lt Y b hb
      omega
  · intro Y Z b hY hZ
    rcases hgenv Y b hY with ⟨rfl, rfl⟩ | ⟨-, hb⟩ <;> rcases hgenv Z _ hZ with ⟨rfl, hb'⟩ | ⟨-, hb'⟩
    · rfl
    · have := h.genv_lt Z _ hb'
      omega
    · have := h.genv_lt Y _ hb
      rw [hb'] at this
      omega
    · exact h.genv_inj Y Z b hb hb'
  · intro b hb
    obtain ⟨Y, hY⟩ := h.owned b hb
    refine ⟨Y, ?_⟩
    have hYX : Y ≠ X := by
      rintro rfl
      have hlink := hX b hY
      rw [h.real b hb] at hlink
      cases hlink
    exact (Function.update_of_ne hYX _ _).trans hY
  · intro Y b hY
    rcases hgenv Y b hY with ⟨-, rfl⟩ | ⟨-, hb⟩
    · exact (h.fresh _ hid.ge).2
    · exact h.unlinked Y b hb

/-- A base that no name has any more is linked to a real one. -/
theorem Bases.link (b' : SymBase) (h : Bases σ) (hb : ∀ Y, σ.genv Y ≠ some b) (hlt : b.id < σ.next)
    (hreal : isLinkBase b' = false) : Bases { σ with linkings := Function.update σ.linkings b (some b') } := by
  refine ⟨?_, h.genv_lt, h.genv_inj, h.owned, h.real, ?_, ?_⟩
  · intro b₁ hb₁
    have hne : b₁ ≠ b := by
      rintro rfl
      exact absurd hlt (Nat.not_lt.mpr hb₁)
    exact ⟨(h.fresh b₁ hb₁).1, (Function.update_of_ne hne _ _).trans (h.fresh b₁ hb₁).2⟩
  · intro Y b₁ hY
    have hne : b₁ ≠ b := by
      rintro rfl
      exact hb Y hY
    exact (Function.update_of_ne hne _ _).trans (h.unlinked Y b₁ hY)
  · intro b₁ b₂ h₁
    by_cases hne : b₁ = b
    · subst hne
      rw [show ({ σ with linkings := Function.update σ.linkings b₁ (some b') } : TuState).linkings b₁ = some b' from
        Function.update_self _ _ _] at h₁
      cases h₁
      exact hreal
    · exact h.target b₁ b₂ ((Function.update_of_ne hne _ _).symm.trans h₁)

/-- The base of a name gets an object. -/
theorem Bases.alloc {x : Object} (h : Bases σ) (hb : σ.genv X = some b) (hreal : isLinkBase b = false) :
    Bases { σ with mem := Function.update σ.mem b (some x) } := by
  have hmem : ∀ b', Function.update σ.mem b (some x) b' ≠ none → b' = b ∨ σ.mem b' ≠ none := by
    intro b' hb'
    by_cases hne : b' = b
    · exact .inl hne
    · rw [Function.update_of_ne hne] at hb'
      exact .inr hb'
  refine ⟨?_, h.genv_lt, h.genv_inj, ?_, ?_, h.unlinked, h.target⟩
  · intro b' hb'
    have hne : b' ≠ b := by
      rintro rfl
      exact absurd (h.genv_lt X b' hb) (Nat.not_lt.mpr hb')
    exact ⟨(Function.update_of_ne hne _ _).trans (h.fresh b' hb').1, (h.fresh b' hb').2⟩
  · intro b' hb'
    rcases hmem b' hb' with rfl | hb'
    · exact ⟨X, hb⟩
    · exact h.owned b' hb'
  · intro b' hb'
    rcases hmem b' hb' with rfl | hb'
    · exact hreal
    · exact h.real b' hb'

/-- What a name denotes can be reached from a base: it is the base, or the base it has been linked to. -/
def Reaches (σ : TuState) (X : CId) (b : SymBase) : Prop :=
  σ.genv X = some b ∨ ∃ b', σ.linkings b = some b' ∧ σ.genv X = some b'

/-- Every base held is a link base from which what its name denotes can be reached; the name is an external
    one, and counts as used. -/
def Held (σ : TuState) : Prop :=
  ∀ p ∈ σ.held, isLinkBase p.2 = true ∧ σ.Reaches p.1 p.2 ∧ σ.uses p.1 = true ∧ σ.externals.lookup p.1 ≠ none

/-- What is held stays so when the base of one name changes to one that can be reached from the old. -/
theorem Held.of_frame (h : Held σ) (hframe : Frame X σ σ') (hheld : σ'.held = σ.held)
    (hX : ∀ b, σ.Reaches X b → σ'.Reaches X b) : Held σ' := by
  intro p hp
  rw [hheld] at hp
  obtain ⟨hlink, hreaches, huses, hext⟩ := h p hp
  by_cases hpX : p.1 = X
  · rw [hpX] at hreaches hext ⊢
    rw [hpX] at huses
    exact ⟨hlink, hX p.2 hreaches, hframe.uses _ huses, hframe.known .external hext⟩
  · refine ⟨hlink, ?_, hframe.uses _ huses, ?_⟩
    · rcases hreaches with hgenv | ⟨b', hb', hgenv⟩
      · exact .inl ((hframe.genv _ hpX).trans hgenv)
      · exact .inr ⟨b', hframe.linkings _ _ hb', (hframe.genv _ hpX).trans hgenv⟩
    · have hsame := hframe.entries p.1 hpX .external
      show (σ'.entries .external).lookup p.1 ≠ none
      rw [hsame]
      exact hext

/-- How a step treats the base of a name: it stays, its object is made, or it is linked to a new base that
    has an object. -/
inductive Moves (σ' : TuState) (b : SymBase) : Bool → SymBase → Prop
  | keep : Moves σ' b false b
  | alloc (hreal : isLinkBase b = false) (hmem : σ'.mem b ≠ none) : Moves σ' b true b
  | relink (b' : SymBase) (hlink : isLinkBase b = true) (hreal : isLinkBase b' = false) (hmem : σ'.mem b' ≠ none)
      (hlinked : σ'.linkings b = some b') : Moves σ' b true b'

theorem Moves.of_cells {b' : SymBase} {a : Bool} (h : Moves σ b a b') (hmem : σ'.mem = σ.mem)
    (hlinkings : σ'.linkings = σ.linkings) : Moves σ' b a b' := by
  cases h with
  | keep => exact .keep
  | alloc hreal hb => exact .alloc hreal (by rw [hmem]; exact hb)
  | relink _ hlink hreal hb hlinked => exact .relink b' hlink hreal (by rw [hmem]; exact hb) (by rw [hlinkings]; exact hlinked)

/-- `allocateDecl` moves the base of the name and keeps the bases in order. -/
theorem allocateDecl_spec (hbases : Bases σ) (hb : σ.genv X = some b) (h : σ.allocateDecl c X = .ok σ') :
    ∃ b', Bases σ' ∧ Frame X σ σ' ∧ Moves σ' b true b' ∧ σ' = { σ with
      next := σ'.next, genv := Function.update σ.genv X (some b'), linkings := σ'.linkings, mem := σ'.mem } := by
  obtain ⟨b₀, hb₀, ⟨hreal, hmem, x, rfl⟩ | ⟨hlink, hl, x, T, rfl⟩⟩ := allocateDecl_eq_ok h
  · cases hb.symm.trans hb₀
    refine ⟨b, hbases.alloc hb hreal, { Frame.refl X σ with mem := ?_ }, .alloc hreal (by simp), ?_⟩
    · intro b' hb'
      by_cases hne : b' = b
      · subst hne
        simp
      · exact (Function.update_of_ne hne _ _).trans_ne hb'
    · rw [← hb, Function.update_eq_self]
  · cases hb.symm.trans hb₀
    have hlt := hbases.genv_lt X b hb
    have hne : b ≠ σ.newBase c T (.static c.tu) := by
      intro heq
      have : (σ.newBase c T (.static c.tu)).id = σ.next := rfl
      rw [← heq] at this
      omega
    have hminted := hbases.mint (X := X) (fun b₁ hb₁ => by cases hb.symm.trans hb₁; exact hlink) c T (.static c.tu)
    have hgone : ∀ Y, ({ σ with next := σ.next + 1 }.addToEnv X (σ.newBase c T (.static c.tu))).genv Y ≠ some b := by
      intro Y hY
      have hY : Function.update σ.genv X (some (σ.newBase c T (.static c.tu))) Y = some b := hY
      by_cases hYX : Y = X
      · subst hYX
        rw [Function.update_self] at hY
        exact hne (Option.some.inj hY).symm
      · rw [Function.update_of_ne hYX] at hY
        exact hYX (hbases.genv_inj Y X b hY hb)
    have hlinked := hminted.link (σ.newBase c T (.static c.tu)) hgone (Nat.lt_succ_of_lt hlt) rfl
    refine ⟨_, hlinked.alloc (X := X) (Function.update_self _ _ _) rfl, ?_,
      .relink _ hlink rfl (by simp) (Function.update_self _ _ _), rfl⟩
    refine { addToEnv_frame (b := σ.newBase c T (.static c.tu)) (.inr le_rfl) with
      mem := ?_, linkings := ?_, next_le := Nat.le_succ _, linkings_new := ?_ }
    · intro b' hb'
      by_cases hne' : b' = σ.newBase c T (.static c.tu)
      · subst hne'
        simp
      · exact (Function.update_of_ne hne' _ _).trans_ne hb'
    · intro b₁ b₂ h₁
      have hne₁ : b₁ ≠ b := by
        rintro rfl
        rw [hl] at h₁
        cases h₁
      exact (Function.update_of_ne hne₁ _ _).trans h₁
    · intro b₁ b₂ h₁
      by_cases hne₁ : b₁ = b
      · subst hne₁
        exact .inr (.inl hb)
      · exact .inl ((Function.update_of_ne hne₁ _ _).symm.trans h₁)

/-! ## The steps of one rule -/

/-- What the linker is told about a name is in step with its base. -/
def Told (σ : TuState) (X : CId) (b : SymBase) : Prop :=
  (isLinkBase b = true → σ.externalDefs X = none) ∧
    (isLinkBase b = false → σ.externalDefs X = none ∨ (σ.externalDefs X = some b ∧ σ.externalDecls X = true))

theorem Moves.told {a : Bool} {b' : SymBase} (h : Moves σ' b a b') (htold : σ.Told X b) : σ.Told X b' := by
  cases h with
  | keep => exact htold
  | alloc => exact htold
  | relink _ hlink hreal => exact ⟨fun hlink' => absurd hlink' (by simp [hreal]), fun _ => .inl (htold.1 hlink)⟩

/-- The type recorded for a name, after a declaration with the type `T'` under the tags. -/
def Recorded (tags : Tags) (T? : Option CType) (T' C : CType) : Prop :=
  (T? = none ∧ C = T') ∨ ∃ T, T? = some T ∧ compositeType tags T (stripStorageSpecifiers T') = .ok C

/-- The name is entered with its base and its type, and an external name is told to the linker. -/
theorem updateDecl_spec {S : DeclState} {e : DeclEntry} (hb : σ.genv X = some b) (hT : σ.types X = some T)
    (he : (σ.entries lnk).lookup X = some e) (htold : lnk = .external → σ.Told X b)
    (h : σ.updateDecl X lnk S = .ok σ') :
    Frame X σ σ' ∧ (σ'.entries lnk).lookup X = some ⟨b, T, S, e.tentative⟩ ∧
      (∀ lnk', lnk' ≠ lnk → (σ'.entries lnk').lookup X = (σ.entries lnk').lookup X) ∧
      (lnk = .external → σ'.externalDecls X = true ∧ σ'.externalDefs X = if isLinkBase b then none else some b) ∧
      (lnk = .internal → σ'.externalDefs X = σ.externalDefs X) ∧
      (σ'.genv = σ.genv ∧ σ'.types = σ.types ∧ σ'.mem = σ.mem ∧ σ'.linkings = σ.linkings ∧ σ'.next = σ.next ∧
        σ'.held = σ.held) := by
  obtain ⟨b₀, T₀, e₀, hb₀, hT₀, he₀, hσ'⟩ := updateDecl_eq_ok h
  cases hb.symm.trans hb₀
  cases hT.symm.trans hT₀
  cases he.symm.trans he₀
  have hframe := setEntry_frame σ lnk X ⟨b, T, S, e.tentative⟩
  obtain ⟨rfl, rfl⟩ | ⟨rfl, h⟩ := hσ'
  · refine ⟨hframe, ?_, ?_, fun h => absurd h (by simp), fun _ => rfl, rfl, rfl, rfl, rfl, rfl, rfl⟩
    · rw [entries_setEntry_self, lookup_update_self]
    · intro lnk' hne
      rw [entries_setEntry_of_ne σ hne]
  · obtain ⟨D, rfl, hD⟩ := updateLinkState_eq_ok h
    have htold := htold rfl
    refine ⟨hframe.trans ?_, lookup_update_self _ _ _, ?_, fun _ => ⟨?_, ?_⟩, fun h => absurd h (by simp), rfl, rfl, rfl,
      rfl, rfl, rfl⟩
    · refine { Frame.refl X _ with externalDecls := ?_, externalDefs := ?_ }
      · intro Y hY
        rcases hD with rfl | ⟨rfl, -⟩
        · exact Function.update_of_ne hY _ _
        · rfl
      · intro Y hY
        show (if isLinkBase b = true then σ.externalDefs else Function.update σ.externalDefs X (some b)) Y = _
        split
        · rfl
        · exact Function.update_of_ne hY _ _
    · intro lnk' hne
      cases lnk' with
      | external => exact absurd rfl hne
      | internal => rfl
    · rcases hD with rfl | ⟨rfl, hdef⟩
      · exact Function.update_self _ _ _
      · have hdef : σ.externalDefs X = some b := hdef
        cases hlink : isLinkBase b with
        | true => cases (htold.1 hlink).symm.trans hdef
        | false =>
          rcases htold.2 hlink with hnone | ⟨-, hdecls⟩
          · cases hnone.symm.trans hdef
          · exact hdecls
    · show (if isLinkBase b = true then σ.externalDefs else Function.update σ.externalDefs X (some b)) X = _
      cases hlink : isLinkBase b with
      | true => exact htold.1 hlink
      | false => exact Function.update_self _ _ _

/-- The first steps of a rule: the type is given, and the base moves as the plan says. -/
theorem allocates_spec {p : DeclPlan} {C : CType} {σ₂ : TuState} (hbases : Bases σ) (hb : σ.genv X = some b)
    (htold : lnk = .external → σ.Told X b)
    (h₂ : (if p.allocates then (σ.giveType X C).allocateDecl c X else .ok (σ.giveType X C) : Eval TuState) = .ok σ₂) :
    ∃ b', Bases σ₂ ∧ Frame X (σ.giveType X C) σ₂ ∧ Moves σ₂ b p.allocates b' ∧ σ₂.genv X = some b' ∧
      σ₂.types X = some (tagRestrict .fileScope (stripStorageSpecifiers C)) ∧
      (∀ lnk', (σ₂.entries lnk').lookup X = (σ.entries lnk').lookup X) ∧ σ₂.held = σ.held ∧
      (lnk = .external → σ₂.Told X b') ∧ σ₂.externalDefs X = σ.externalDefs X := by
  have hbases₁ : Bases (σ.giveType X C) := hbases.of_cells rfl rfl rfl rfl
  obtain ⟨b', hbases₂, hframe₂, hmoves, hcells, hb'⟩ : ∃ b', Bases σ₂ ∧ Frame X (σ.giveType X C) σ₂ ∧
      Moves σ₂ b p.allocates b' ∧ (∃ next linkings mem genv, σ₂ = { σ.giveType X C with
        next := next, genv := genv, linkings := linkings, mem := mem }) ∧ σ₂.genv X = some b' := by
    cases hp : p.allocates with
    | false =>
      rw [hp] at h₂
      cases h₂
      exact ⟨b, hbases₁, Frame.refl X _, .keep, ⟨_, _, _, _, rfl⟩, hb⟩
    | true =>
      rw [hp] at h₂
      obtain ⟨b', hbases₂, hframe₂, hmoves, hσ₂⟩ := allocateDecl_spec hbases₁ hb h₂
      refine ⟨b', hbases₂, hframe₂, hmoves, ⟨_, _, _, _, hσ₂⟩, ?_⟩
      rw [hσ₂]
      exact Function.update_self _ _ _
  obtain ⟨_, _, _, _, rfl⟩ := hcells
  refine ⟨b', hbases₂, hframe₂, hmoves, hb', Function.update_self _ _ _, ?_, rfl, ?_, rfl⟩
  · intro lnk'
    cases lnk' <;> rfl
  · exact fun hext => hmoves.told (htold hext)

/-- **The steps of one rule**: the base of the name moves as the plan says, the entry gets the state of
    the plan, and an external name is told to the linker. -/
theorem carryOut_spec {p : DeclPlan} {e : DeclEntry} (hbases : Bases σ) (hb : σ.genv X = some b)
    (he : (σ.entries lnk).lookup X = some e) (htold : lnk = .external → σ.Told X b)
    (h : σ.carryOut c X T lnk p = .ok σ') :
    ∃ b' C, Bases σ' ∧ Frame X σ σ' ∧ Moves σ' b p.allocates b' ∧ σ'.genv X = some b' ∧ σ'.held = σ.held ∧
      Recorded σ.tags (σ.types X) T C ∧ σ'.types X = some (tagRestrict .fileScope (stripStorageSpecifiers C)) ∧
      (σ'.entries lnk).lookup X = some ⟨b', tagRestrict .fileScope (stripStorageSpecifiers C), p.state,
        e.tentative || p.tentative⟩ ∧
      (∀ lnk', lnk' ≠ lnk → (σ'.entries lnk').lookup X = (σ.entries lnk').lookup X) ∧
      (lnk = .external → σ'.externalDecls X = true ∧
        σ'.externalDefs X = if isLinkBase b' then none else some b') ∧
      (lnk = .internal → σ'.externalDefs X = σ.externalDefs X) := by
  unfold carryOut at h
  obtain ⟨σ₁, h₁, h⟩ := Eval.bind_eq_ok.mp h
  obtain ⟨σ₂, h₂, h⟩ := Eval.bind_eq_ok.mp h
  obtain ⟨σ₃, h₃, h₄⟩ := Eval.bind_eq_ok.mp h
  -- the type
  obtain ⟨C, rfl, hC⟩ := giveCompositeType_eq_ok h₁
  -- the base
  obtain ⟨b', hbases₂, hframe₂, hmoves, hb', htypes₂, hentries₂, hheld₂, htold₂, hdefs₂⟩ :=
    allocates_spec hbases hb htold h₂
  -- the entry
  obtain ⟨hframe₃, hentry₃, hother₃, htold₃, hdefs₃, hgenv₃, htypes₃, hmem₃, hlinkings₃, hnext₃, hheld₃⟩ :=
    updateDecl_spec hb' htypes₂ ((hentries₂ lnk).trans he) htold₂ h₃
  have hbases₃ : Bases σ₃ := hbases₂.of_cells hnext₃ hgenv₃ hmem₃ hlinkings₃
  have hmoves₃ : Moves σ₃ b p.allocates b' := hmoves.of_cells hmem₃ hlinkings₃
  have hframe := (giveType_frame σ X C).trans (hframe₂.trans hframe₃)
  cases hp : p.tentative with
  | false =>
    rw [hp] at h₄
    cases h₄
    refine ⟨b', C, hbases₃, hframe, hmoves₃, by rw [hgenv₃]; exact hb', hheld₃.trans hheld₂, hC,
      by rw [htypes₃]; exact htypes₂, by rw [Bool.or_false]; exact hentry₃, ?_, htold₃,
      fun hint => (hdefs₃ hint).trans hdefs₂⟩
    intro lnk' hne
    exact (hother₃ lnk' hne).trans (hentries₂ lnk')
  | true =>
    rw [hp] at h₄
    obtain ⟨e₃, he₃, rfl⟩ := recordTentDef_eq_ok h₄
    cases hentry₃.symm.trans he₃
    have hcells₄ : ∀ e : DeclEntry, (σ₃.setEntry lnk X e).genv = σ₃.genv ∧ (σ₃.setEntry lnk X e).types = σ₃.types ∧
        (σ₃.setEntry lnk X e).mem = σ₃.mem ∧ (σ₃.setEntry lnk X e).linkings = σ₃.linkings ∧
        (σ₃.setEntry lnk X e).next = σ₃.next ∧ (σ₃.setEntry lnk X e).held = σ₃.held ∧
        (σ₃.setEntry lnk X e).externalDecls = σ₃.externalDecls ∧
        (σ₃.setEntry lnk X e).externalDefs = σ₃.externalDefs := by
      intro e
      cases lnk <;> exact ⟨rfl, rfl, rfl, rfl, rfl, rfl, rfl, rfl⟩
    obtain ⟨hgenv₄, htypes₄, hmem₄, hlinkings₄, hnext₄, hheld₄, hdecls₄, hdefs₄⟩ := hcells₄ _
    refine ⟨b', C, hbases₃.of_cells hnext₄ hgenv₄ hmem₄ hlinkings₄, hframe.trans (setEntry_frame _ _ _ _),
      hmoves₃.of_cells hmem₄ hlinkings₄, by rw [hgenv₄, hgenv₃]; exact hb', (hheld₄.trans hheld₃).trans hheld₂, hC,
      by rw [htypes₄, htypes₃]; exact htypes₂, ?_, ?_, ?_, fun hint => by rw [hdefs₄, hdefs₃ hint, hdefs₂]⟩
    · rw [entries_setEntry_self, lookup_update_self, Bool.or_true]
    · intro lnk' hne
      rw [entries_setEntry_of_ne _ hne]
      exact (hother₃ lnk' hne).trans (hentries₂ lnk')
    · intro hext
      rw [hdecls₄, hdefs₄]
      exact htold₃ hext

/-! ## One declaration -/

/-- A base from which the old base of a name was reached reaches the new one. -/
theorem Moves.reaches {a : Bool} {b' b₀ : SymBase} (h : Moves σ' b a b') (hbases : Bases σ) (hframe : Frame X σ σ')
    (hb : σ.genv X = some b) (hb' : σ'.genv X = some b') (hreaches : σ.Reaches X b₀) : σ'.Reaches X b₀ := by
  rcases hreaches with h₀ | ⟨b₁, hlinked, h₁⟩
  · cases hb.symm.trans h₀
    cases h with
    | keep => exact .inl hb'
    | alloc => exact .inl hb'
    | relink _ _ _ _ hlinked => exact .inr ⟨b', hlinked, hb'⟩
  · cases hb.symm.trans h₁
    have hlinked' := hframe.linkings _ _ hlinked
    cases h with
    | keep => exact .inr ⟨b, hlinked', hb'⟩
    | alloc => exact .inr ⟨b, hlinked', hb'⟩
    | relink _ hlink =>
      rw [hbases.target _ _ hlinked] at hlink
      cases hlink

theorem use_eq_ok (h : σ.use Y = .ok σ') : ∃ H, σ' = { σ with uses := Function.update σ.uses Y true, held := H } ∧
    (H = σ.held ∨ ∃ b, σ.genv Y = some b ∧ isLinkBase b = true ∧ σ.externals.lookup Y ≠ none ∧
      H = (Y, b) :: σ.held) := by
  unfold use at h
  split at h
  · rename_i b T hb hT
    simp only at h
    split at h
    · rename_i hlink
      split at h
      · rename_i hext
        cases h
        exact ⟨_, rfl, .inr ⟨b, hb, hlink, Option.ne_none_iff_isSome.mpr hext, rfl⟩⟩
      · cases h
    · cases h
      exact ⟨_, rfl, .inl rfl⟩
  · cases h

theorem use_spec (h : σ.use Y = .ok σ') : (∃ U H, σ' = { σ with uses := U, held := H } ∧
    ∀ Z, σ.uses Z = true → U Z = true) ∧ (Held σ → Held σ') := by
  obtain ⟨H, rfl, hH⟩ := use_eq_ok h
  have hmono : ∀ Z, σ.uses Z = true → Function.update σ.uses Y true Z = true := by
    intro Z hZ
    by_cases hZY : Z = Y
    · subst hZY
      exact Function.update_self _ _ _
    · exact (Function.update_of_ne hZY _ _).trans hZ
  refine ⟨⟨_, _, rfl, hmono⟩, ?_⟩
  intro hheld p hp
  have hold : p ∈ σ.held → isLinkBase p.2 = true ∧ σ.Reaches p.1 p.2 ∧ Function.update σ.uses Y true p.1 = true ∧
      σ.externals.lookup p.1 ≠ none := by
    intro hp
    obtain ⟨hlink, hreaches, huses, hext⟩ := hheld p hp
    exact ⟨hlink, hreaches, hmono _ huses, hext⟩
  rcases hH with rfl | ⟨b, hb, hlink, hext, rfl⟩
  · exact hold hp
  · rcases List.mem_cons.mp hp with rfl | hp
    · exact ⟨hlink, .inl hb, Function.update_self _ _ _, hext⟩
    · exact hold hp

/-- The type a declaration has once its initialiser has been looked at. -/
def initType (init : Option FileInit) (T : CType) : CType :=
  match init with
  | none => T
  | some i => completeArray i.length T

/-- An initialiser gives the name its type and refers to names. -/
theorem figureInit_spec {init : Option FileInit} {T' : CType} (h : σ.figureInit X T init = .ok (σ', T')) :
    T' = initType init T ∧ (init.isSome = true → isCompleteType σ.tags T' = true) ∧
      (∃ types U H, σ' = { σ with types := types, uses := U, held := H } ∧ (∀ Y, Y ≠ X → types Y = σ.types Y) ∧
        (init = none → types = σ.types ∧ H = σ.held) ∧ ∀ Z, σ.uses Z = true → U Z = true) ∧
      (Held σ → Held σ') := by
  unfold figureInit at h
  cases init with
  | none =>
    cases h
    exact ⟨rfl, by simp, ⟨_, _, _, rfl, fun _ _ => rfl, fun _ => ⟨rfl, rfl⟩, fun _ hZ => hZ⟩, fun hheld => hheld⟩
  | some i =>
    simp only at h
    split at h
    · rename_i hcomplete
      obtain ⟨σ₁, h₁, h⟩ := Eval.bind_eq_ok.mp h
      cases h
      have hrun : ∃ U H, σ' = { σ.giveType X (completeArray i.length T) with uses := U, held := H } ∧
          (∀ Z, σ.uses Z = true → U Z = true) ∧ (Held σ → Held σ') := by
        refine foldlM_invariant (P := fun τ => ∃ U H, τ = { σ.giveType X (completeArray i.length T) with
            uses := U, held := H } ∧ (∀ Z, σ.uses Z = true → U Z = true) ∧ (Held σ → Held τ)) ?_ ?_ h₁
        · rintro Y - τ τ' ⟨U, H, rfl, hU, hheld⟩ huse
          obtain ⟨⟨U', H', rfl, hU'⟩, hheld'⟩ := use_spec huse
          exact ⟨U', H', rfl, fun Z hZ => hU' Z (hU Z hZ), fun h => hheld' (hheld h)⟩
        · exact ⟨_, _, rfl, fun _ hZ => hZ, fun hheld => hheld⟩
      obtain ⟨U, H, hσ', hU, hheld⟩ := hrun
      exact ⟨rfl, fun _ => hcomplete, ⟨_, U, H, hσ', fun Y hY => Function.update_of_ne hY _ _, by simp, hU⟩, hheld⟩
    · cases h

end TuState

def DeclState.isDefined : DeclState → Bool
  | .allocated | .initialized => true
  | .declared | .completed => false

section Plan

variable {c : TuConfig} {X : CId} {noInit complete : Bool} {S : DeclState} {lnk : Linkage} {sto : FileStorage}
  {p : DeclPlan}

/-- A rule allocates what is not defined yet, and then it is; else it leaves it as defined as it was. -/
theorem declPlan_isDefined (h : declPlan c X noInit complete S lnk sto = .ok p) :
    (p.allocates = true → S.isDefined = false ∧ p.state.isDefined = true) ∧
      (p.allocates = false → p.state.isDefined = S.isDefined) := by
  cases noInit with
  | true =>
    cases complete with
    | false =>
      simp only [declPlan] at h
      split at h
      · cases h
      · cases h
        simp
    | true => cases S <;> cases sto <;> cases h <;> simp [DeclState.isDefined]
  | false =>
    cases complete with
    | false => cases S <;> cases h
    | true => cases S <;> cases h <;> simp [DeclState.isDefined]

/-- A new internal name is allocated at once. -/
theorem declPlan_internal (h : declPlan c X noInit complete .declared .internal sto = .ok p) (hsto : sto ≠ .Extern) :
    p.allocates = true := by
  cases noInit with
  | true =>
    cases complete with
    | false =>
      have hne : (sto != .Extern) = true := by simpa using hsto
      simp [declPlan, hne] at h
    | true =>
      cases sto with
      | Extern => exact absurd rfl hsto
      | Naked | Static =>
        cases h
        rfl
  | false =>
    cases complete with
    | false => cases h
    | true =>
      cases h
      rfl

end Plan

namespace TuState

variable {c : TuConfig} {σ σ' : TuState} {X Y : CId} {b : SymBase} {T : CType} {lnk : Linkage} {e : DeclEntry}
  {init : Option FileInit}

/-- A name that has been declared. -/
structure Entry (σ : TuState) (X : CId) (lnk : Linkage) (e : DeclEntry) : Prop where
  entry : (σ.entries lnk).lookup X = some e
  other : ∀ lnk', lnk' ≠ lnk → (σ.entries lnk').lookup X = none
  genv : σ.genv X = some e.base
  type : σ.types X = some e.type
  plain : Plain e.type
  real : isLinkBase e.base = !e.state.isDefined
  internal : lnk = .internal → isLinkBase e.base = false
  mem : e.state.isDefined = true → σ.mem e.base ≠ none
  listed : lnk = .external → σ.externalDecls X = true
  defs : lnk = .external → σ.externalDefs X = if isLinkBase e.base then none else some e.base
  unexported : lnk = .internal → σ.externalDefs X = none

/-- A name that has not been declared. -/
structure Undeclared (σ : TuState) (X : CId) : Prop where
  entries : ∀ lnk, (σ.entries lnk).lookup X = none
  genv : σ.genv X = none
  types : σ.types X = none
  defs : σ.externalDefs X = none

theorem Entry.told (h : Entry σ X .external e) : σ.Told X e.base := by
  have hdefs := h.defs rfl
  constructor
  · intro hlink
    rw [hdefs, hlink]
    rfl
  · intro hreal
    refine .inr ⟨?_, h.listed rfl⟩
    rw [hdefs, hreal]
    rfl

theorem Entry.of_frame (h : Entry σ Y lnk e) (hframe : Frame X σ σ') (hY : Y ≠ X) : Entry σ' Y lnk e where
  entry := (hframe.entries Y hY lnk).trans h.entry
  other lnk' hne := (hframe.entries Y hY lnk').trans (h.other lnk' hne)
  genv := (hframe.genv Y hY).trans h.genv
  type := (hframe.types Y hY).trans h.type
  plain := h.plain
  real := h.real
  internal := h.internal
  mem hdef := hframe.mem _ (h.mem hdef)
  listed hext := (hframe.externalDecls Y hY).trans (h.listed hext)
  defs hext := (hframe.externalDefs Y hY).trans (h.defs hext)
  unexported hint := (hframe.externalDefs Y hY).trans (h.unexported hint)

theorem Undeclared.of_frame (h : Undeclared σ Y) (hframe : Frame X σ σ') (hY : Y ≠ X) : Undeclared σ' Y where
  entries lnk := (hframe.entries Y hY lnk).trans (h.entries lnk)
  genv := (hframe.genv Y hY).trans h.genv
  types := (hframe.types Y hY).trans h.types
  defs := (hframe.externalDefs Y hY).trans h.defs

/-- What the right half of a rule needs of a name that has just been entered with the base `b`. -/
structure Entered.Ready (E : Entered) (X : CId) (b : SymBase) (e : DeclEntry) : Prop where
  bases : Bases E.state
  genv : E.state.genv X = some b
  entry : (E.state.entries E.linkage).lookup X = some e
  other : ∀ lnk', lnk' ≠ E.linkage → (E.state.entries lnk').lookup X = none
  told : E.linkage = .external → E.state.Told X b
  internal : E.linkage = .internal → isLinkBase b = false ∧ E.state.externalDefs X = none
  link : isLinkBase b = true → E.declState.isDefined = false
  real : isLinkBase b = false → (E.declState.isDefined = true ∧ E.state.mem b ≠ none) ∨
    (E.linkage = .internal ∧ E.declState = .declared ∧ E.storage ≠ .Extern)

/-- **The right half of a rule** turns what has been entered into an entry, with the state and the flag of
    the plan. -/
theorem Entered.Ready.declare_spec {E : Entered} (hE : E.Ready X b e) (h : E.declare c X T init = .ok σ') :
    Bases σ' ∧ Frame X E.state σ' ∧ (Held E.state → Held σ') ∧ (init = none → σ'.held = E.state.held) ∧
      ∃ e' p T? C, Entry σ' X E.linkage e' ∧
      declPlan c X init.isNone (isCompleteType E.state.tags (initType init T)) E.declState E.linkage E.storage =
        .ok p ∧ e'.state = p.state ∧ e'.tentative = (e.tentative || p.tentative) ∧
      (init = none → T? = E.state.types X) ∧ Recorded E.state.tags T? (initType init T) C ∧
      e'.type = tagRestrict .fileScope (stripStorageSpecifiers C) := by
  unfold Entered.declare at h
  obtain ⟨⟨σ₁, T'⟩, h₁, h⟩ := Eval.bind_eq_ok.mp h
  obtain ⟨p, hp, h⟩ := Eval.bind_eq_ok.mp h
  obtain ⟨rfl, -, ⟨types, U, H, hσ₁, htypes, hnone, hU⟩, hheld₁⟩ := figureInit_spec h₁
  have hframe₁ : Frame X E.state σ₁ := by
    rw [hσ₁]
    exact { Frame.refl X E.state with types := htypes, uses := hU }
  have hbases₁ : Bases σ₁ := hE.bases.of_cells (by rw [hσ₁]) (by rw [hσ₁]) (by rw [hσ₁]) (by rw [hσ₁])
  have hb₁ : σ₁.genv X = some b := by rw [hσ₁]; exact hE.genv
  have hentries₁ : ∀ lnk', (σ₁.entries lnk').lookup X = (E.state.entries lnk').lookup X := by
    rw [hσ₁]
    intro lnk'
    cases lnk' <;> rfl
  have htold₁ : E.linkage = .external → σ₁.Told X b := by rw [hσ₁]; exact hE.told
  have htypes₁ : σ₁.types = types := by rw [hσ₁]
  obtain ⟨b', C, hbases', hframe', hmoves, hb', hheld', hC, htype', hentry', hother', htold', hdefs'⟩ :=
    carryOut_spec hbases₁ hb₁ ((hentries₁ _).trans hE.entry) htold₁ h
  rw [hframe₁.tags, htypes₁] at hC
  have hp : declPlan c X init.isNone (isCompleteType E.state.tags (initType init T)) E.declState E.linkage
      E.storage = .ok p := by rw [← hframe₁.tags]; exact hp
  have hframe : Frame X E.state σ' := hframe₁.trans hframe'
  have hplan := declPlan_isDefined hp
  refine ⟨hbases', hframe, ?_, ?_, _, p, types X, C, ⟨hentry', ?_, hb', htype', plain_recorded C, ?_, ?_, ?_, ?_, ?_,
    ?_⟩, hp,
    rfl, rfl, ?_, hC, rfl⟩
  · intro hheld
    refine (hheld₁ hheld).of_frame hframe' hheld' ?_
    exact fun b₀ hb₀ => hmoves.reaches hbases₁ hframe' hb₁ hb' hb₀
  · intro hinit
    rw [hheld', hσ₁]
    exact (hnone hinit).2
  · intro lnk' hne
    exact (hother' lnk' hne).trans ((hentries₁ lnk').trans (hE.other lnk' hne))
  · show isLinkBase b' = !p.state.isDefined
    generalize hall : p.allocates = all at hmoves hplan
    cases hmoves with
    | keep =>
      rw [hplan.2 rfl]
      cases hlink : isLinkBase b with
      | true => rw [hE.link hlink]; rfl
      | false =>
        rcases hE.real hlink with ⟨hdef, -⟩ | ⟨hint, hdecl, hsto⟩
        · rw [hdef]; rfl
        · rw [hint, hdecl] at hp
          cases hall.symm.trans (declPlan_internal hp hsto)
    | alloc hreal => rw [hreal, (hplan.1 rfl).2]; rfl
    | relink _ _ hreal => rw [hreal, (hplan.1 rfl).2]; rfl
  · intro hint
    show isLinkBase b' = false
    generalize p.allocates = all at hmoves
    cases hmoves with
    | keep => exact (hE.internal hint).1
    | alloc hreal => exact hreal
    | relink _ _ hreal => exact hreal
  · intro hdef
    show σ'.mem b' ≠ none
    generalize hall : p.allocates = all at hmoves hplan
    cases hmoves with
    | keep =>
      have hdef : E.declState.isDefined = true := (hplan.2 rfl).symm.trans hdef
      cases hlink : isLinkBase b with
      | true =>
        rw [hE.link hlink] at hdef
        cases hdef
      | false =>
        rcases hE.real hlink with ⟨-, hmem⟩ | ⟨-, hdecl, -⟩
        · exact hframe.mem b hmem
        · rw [hdecl] at hdef
          cases hdef
    | alloc _ hmem => exact hmem
    | relink _ _ _ hmem => exact hmem
  · exact fun hext => (htold' hext).1
  · exact fun hext => (htold' hext).2
  · intro hint
    rw [hdefs' hint, hσ₁]
    exact (hE.internal hint).2
  · exact fun hinit => congrFun (hnone hinit).1 X

/-- A new name, or one whose entry has been taken out before it was allocated, is entered with a new
    base. -/
theorem enter_new {E : Entered} (hbases : Bases σ) (hentries : ∀ lnk, (σ.entries lnk).lookup X = none)
    (hlink : ∀ b, σ.genv X = some b → isLinkBase b = true) (hdefs : σ.externalDefs X = none)
    (h : σ.enter c X T = .ok E) : ∃ b, E.Ready X b ⟨b, T, .declared, false⟩ ∧ Frame X σ E.state ∧
      E.declState = .declared ∧ (E.storage = .Extern ↔ isExtern T = true) ∧ E.state.types = σ.types ∧
      E.linkage = (if isStaticType T then .internal else .external) ∧ E.state.held = σ.held ∧
      E.state.linkings = σ.linkings ∧ b.id = σ.next := by
  have hext : σ.externals.lookup X = none := hentries .external
  have hint : σ.internals.lookup X = none := hentries .internal
  unfold enter at h
  rw [hext, hint] at h
  simp only at h
  have hframe : ∀ (d : Duration) (lnk : Linkage) (e : DeclEntry),
      Frame X σ (({ σ with next := σ.next + 1 }.addToEnv X (σ.newBase c T d)).setEntry lnk X e) := by
    intro d lnk e
    refine Frame.trans ?_ (setEntry_frame _ lnk X e)
    exact { addToEnv_frame (b := σ.newBase c T d) (.inr le_rfl) with next_le := Nat.le_succ _ }
  cases hstatic : isStaticType T with
  | true =>
    rw [hstatic] at h
    cases h
    refine ⟨σ.newBase c T (.static c.tu), ⟨?_, ?_, ?_, ?_, ?_, ?_, ?_, ?_⟩,
      hframe (.static c.tu) .internal ⟨_, T, .declared, false⟩, rfl, ?_, rfl, rfl, rfl, rfl, rfl⟩
    · exact (hbases.mint hlink c T _).of_cells rfl rfl rfl rfl
    · exact Function.update_self _ _ _
    · exact lookup_update_self _ _ _
    · intro lnk' hne
      rw [entries_setEntry_of_ne _ hne]
      exact hentries lnk'
    · exact fun hext => absurd hext (by simp)
    · exact fun _ => ⟨rfl, hdefs⟩
    · exact fun hlink => by cases hlink
    · exact fun _ => .inr ⟨rfl, rfl, by simp⟩
    · simp [isExtern, hstatic]
  | false =>
    rw [hstatic] at h
    cases h
    refine ⟨σ.newBase c T (.link c.tu), ⟨?_, ?_, ?_, ?_, ?_, ?_, ?_, ?_⟩,
      hframe (.link c.tu) .external ⟨_, T, .declared, false⟩, rfl, ?_, rfl, rfl, rfl, rfl, rfl⟩
    · exact (hbases.mint hlink c T _).of_cells rfl rfl rfl rfl
    · exact Function.update_self _ _ _
    · exact lookup_update_self _ _ _
    · intro lnk' hne
      rw [entries_setEntry_of_ne _ hne]
      exact hentries lnk'
    · exact fun _ => ⟨fun _ => hdefs, fun _ => .inl hdefs⟩
    · exact fun hint => absurd hint (by simp)
    · exact fun _ => rfl
    · exact fun hreal => by cases hreal
    · simp only
      split
      · simp [*]
      · simp [*]

/-- A name that has been declared is entered with the base and the type it has. -/
theorem enter_known {E : Entered} (hbases : Bases σ) (hX : Entry σ X lnk e) (h : σ.enter c X T = .ok E) :
    E.Ready X e.base e ∧ Frame X σ E.state ∧ E.declState = e.state ∧ (E.storage = .Extern ↔ isExtern T = true) ∧
      E.state.types X = some (tagRestrict .fileScope (stripStorageSpecifiers e.type)) ∧ E.linkage = lnk ∧
      E.state.held = σ.held ∧ E.state.genv = σ.genv := by
  have hstate : E.state = (σ.addToEnv X e.base).giveType X e.type ∧ E.declState = e.state ∧ E.linkage = lnk ∧
      (E.storage = .Extern ↔ isExtern T = true) := by
    have hentry := hX.entry
    unfold enter at h
    cases lnk with
    | external =>
      have hother : σ.internals.lookup X = none := hX.other .internal (by simp)
      rw [show σ.externals.lookup X = some e from hentry, hother] at h
      simp only at h
      split at h
      · cases h
      · split at h
        · cases h
        · rename_i hstatic
          split at h
          · rename_i hnaked
            cases h
            refine ⟨rfl, rfl, rfl, ?_⟩
            unfold isNaked at hnaked
            simp only [Bool.and_eq_true, Bool.not_eq_true', Bool.or_eq_false_iff] at hnaked
            simp [isExtern, hnaked.1.1, hnaked.2]
          · split at h
            · rename_i hext
              cases h
              exact ⟨rfl, rfl, rfl, by simp [hext]⟩
            · cases h
    | internal =>
      have hother : σ.externals.lookup X = none := hX.other .external (by simp)
      rw [show σ.internals.lookup X = some e from hentry, hother] at h
      simp only at h
      split at h
      · cases h
      · split at h
        · cases h
        · cases h
          refine ⟨rfl, rfl, rfl, ?_⟩
          simp only
          split
          · simp [*]
          · simp [*]
  obtain ⟨hstate, hdecl, hlnk, hsto⟩ := hstate
  subst hlnk
  have hgenv : E.state.genv = σ.genv := by
    rw [hstate]
    show Function.update σ.genv X (some e.base) = σ.genv
    rw [← hX.genv, Function.update_eq_self]
  have hentries : ∀ lnk, E.state.entries lnk = σ.entries lnk := by
    rw [hstate]
    intro lnk
    cases lnk <;> rfl
  refine ⟨⟨?_, ?_, ?_, ?_, ?_, ?_, ?_, ?_⟩, ?_, hdecl, hsto, ?_, rfl, by rw [hstate]; rfl, hgenv⟩
  · exact hbases.of_cells (by rw [hstate]; rfl) hgenv (by rw [hstate]; rfl) (by rw [hstate]; rfl)
  · rw [hgenv]
    exact hX.genv
  · rw [hentries]
    exact hX.entry
  · intro lnk' hne
    rw [hentries]
    exact hX.other lnk' hne
  · intro hext
    rw [hext] at hX
    rw [hstate]
    exact hX.told
  · intro hint
    rw [hstate]
    exact ⟨hX.internal hint, hX.unexported hint⟩
  · intro hlink
    have hreal := hX.real
    rw [hlink] at hreal
    rw [hdecl]
    simpa using hreal.symm
  · intro hlink
    have hreal := hX.real
    rw [hlink] at hreal
    have hdef : e.state.isDefined = true := by simpa using hreal.symm
    refine .inl ⟨by rw [hdecl]; exact hdef, ?_⟩
    rw [hstate]
    exact hX.mem hdef
  · rw [hstate]
    exact (addToEnv_frame (.inl hX.genv)).trans (giveType_frame _ X e.type)
  · rw [hstate]
    exact Function.update_self _ _ _

/-- What a declaration makes of a name: `S` and `tent` are what it found, `e'` is the entry it leaves. -/
structure Declares (c : TuConfig) (σ σ' : TuState) (T : CType) (X : CId) (init : Option FileInit) (lnk : Linkage)
    (S : DeclState) (tent : Bool) (T? : Option CType) (e' : DeclEntry) : Prop where
  entry : Entry σ' X lnk e'
  plan : ∃ sto p, (sto = .Extern ↔ isExtern T = true) ∧
    declPlan c X init.isNone (isCompleteType σ.tags (initType init T)) S lnk sto = .ok p ∧
    e'.state = p.state ∧ e'.tentative = (tent || p.tentative)
  type : init = none → ∃ C, Recorded σ.tags T? T C ∧ e'.type = tagRestrict .fileScope (stripStorageSpecifiers C)

/-- A base that no name has and that is linked to nothing. -/
def Lost (σ : TuState) (b : SymBase) : Prop :=
  σ.linkings b = none ∧ (∀ Y, σ.genv Y ≠ some b) ∧ b.id < σ.next

/-- The declaration of a name that is new, or counts as new.  In the second case the base the name had is
    lost. -/
theorem declareExternalVariable_new (hbases : Bases σ) (hentries : ∀ lnk, (σ.entries lnk).lookup X = none)
    (hlink : ∀ b, σ.genv X = some b → isLinkBase b = true) (hdefs : σ.externalDefs X = none)
    (h : σ.declareExternalVariable c X T init = .ok σ') :
    Bases σ' ∧ Frame X σ σ' ∧ (σ.genv X = none → Held σ → Held σ') ∧
      (∃ e', Declares c σ σ' T X init (if isStaticType T then .internal else .external) .declared false (σ.types X) e') ∧
      (init = none → σ'.held = σ.held) ∧ ∀ b, σ.genv X = some b → Lost σ' b := by
  obtain ⟨E, hE, h⟩ := Eval.bind_eq_ok.mp h
  obtain ⟨b, hready, hframeE, hdecl, hsto, htypes, hlnk, hheldE, hlinksE, hid⟩ := enter_new hbases hentries hlink hdefs hE
  obtain ⟨hbases', hframe', hheld', hsame, e', p, T?, C, hentry, hplan, hstate, htent, hnone, hC, htype⟩ :=
    hready.declare_spec h
  rw [hlnk] at hentry hplan
  rw [hdecl, hframeE.tags] at hplan
  have hframe := hframeE.trans hframe'
  refine ⟨hbases', hframe, ?_, ⟨e', hentry, ⟨E.storage, p, hsto, hplan, hstate, by simpa using htent⟩, ?_⟩,
    fun hinit => (hsame hinit).trans hheldE, ?_⟩
  · intro hX hheld
    refine hheld' (hheld.of_frame hframeE hheldE ?_)
    rintro b₀ (h₀ | ⟨b₁, -, h₁⟩)
    · cases hX.symm.trans h₀
    · cases hX.symm.trans h₁
  · rintro rfl
    rw [hnone rfl, htypes, hframeE.tags] at hC
    exact ⟨C, hC, htype⟩
  · -- the old base is neither the new one nor younger, so no name gets it and nothing is linked from it
    intro b₀ hb₀
    have hlt := hbases.genv_lt X b₀ hb₀
    have hnew : ¬ (E.state.genv X = some b₀ ∨ E.state.next ≤ b₀.id) := by
      rintro (heq | hle)
      · cases hready.genv.symm.trans heq
        omega
      · have := hframeE.next_le
        omega
    refine ⟨?_, ?_, lt_of_lt_of_le hlt hframe.next_le⟩
    · by_contra hne
      obtain ⟨b₁, hlinked⟩ := Option.ne_none_iff_exists'.mp hne
      rcases hframe'.linkings_new b₀ b₁ hlinked with hold | hor
      · rw [hlinksE] at hold
        cases (hbases.unlinked X b₀ hb₀).symm.trans hold
      · exact hnew hor
    · intro Y hY
      by_cases hYX : Y = X
      · subst hYX
        exact hnew (hframe'.genv_new b₀ hY)
      · exact hYX (hbases.genv_inj Y X b₀ ((hframe.genv Y hYX).symm.trans hY) hb₀)

/-- The declaration of a name that has been declared. -/
theorem declareExternalVariable_known (hbases : Bases σ) (hX : Entry σ X lnk e)
    (h : σ.declareExternalVariable c X T init = .ok σ') :
    Bases σ' ∧ Frame X σ σ' ∧ (Held σ → Held σ') ∧ ∃ e', Declares c σ σ' T X init lnk e.state e.tentative
      (some (tagRestrict .fileScope (stripStorageSpecifiers e.type))) e' := by
  obtain ⟨E, hE, h⟩ := Eval.bind_eq_ok.mp h
  obtain ⟨hready, hframeE, hdecl, hsto, htypes, rfl, hheldE, hgenvE⟩ := enter_known hbases hX hE
  obtain ⟨hbases', hframe', hheld', -, e', p, T?, C, hentry, hplan, hstate, htent, hnone, hC, htype⟩ :=
    hready.declare_spec h
  rw [hdecl, hframeE.tags] at hplan
  refine ⟨hbases', hframeE.trans hframe', ?_, e', hentry, ⟨E.storage, p, hsto, hplan, hstate, htent⟩, ?_⟩
  · intro hheld
    refine hheld' (hheld.of_frame hframeE hheldE ?_)
    rintro b₀ (h₀ | ⟨b₁, hlinked, h₁⟩)
    · exact .inl (by rw [hgenvE]; exact h₀)
    · exact .inr ⟨b₁, hframeE.linkings _ _ hlinked, by rw [hgenvE]; exact h₁⟩
  · rintro rfl
    rw [hnone rfl, htypes, hframeE.tags] at hC
    exact ⟨C, hC, htype⟩

/-! ## Runs -/

/-- The bases are in order, what is held reaches its name, and a name is declared or it is not. -/
structure Wf (σ : TuState) : Prop where
  bases : Bases σ
  held : Held σ
  names : ∀ X, Undeclared σ X ∨ ∃ lnk e, Entry σ X lnk e

theorem Wf.of_frame (h : Wf σ) (hbases : Bases σ') (hheld : Held σ') (hframe : Frame X σ σ')
    (hX : Undeclared σ' X ∨ ∃ lnk e, Entry σ' X lnk e) : Wf σ' := by
  refine ⟨hbases, hheld, fun Y => ?_⟩
  by_cases hY : Y = X
  · rw [hY]
    exact hX
  · rcases h.names Y with hnew | ⟨lnk, e, hentry⟩
    · exact .inl (hnew.of_frame hframe hY)
    · exact .inr ⟨lnk, e, hentry.of_frame hframe hY⟩

theorem declare_eq_ok (h : σ.declare c T X init = .ok σ') :
    checkFileScope σ.tags (elideDeclParams T) X init = .ok () ∧
      σ.declareExternalVariable c X (elideDeclParams T) init = .ok σ' := by
  obtain ⟨_, hcheck, h⟩ := Eval.bind_eq_ok.mp h
  exact ⟨hcheck, h⟩

/-- **A declaration keeps the invariant.** -/
theorem declare_wf (hwf : Wf σ) (h : σ.declare c T X init = .ok σ') : Wf σ' ∧ Frame X σ σ' ∧
    ((Undeclared σ X ∧ ∃ e', Declares c σ σ' (elideDeclParams T) X init
        (if isStaticType (elideDeclParams T) then .internal else .external) .declared false none e') ∨
      ∃ lnk e e', Entry σ X lnk e ∧ Declares c σ σ' (elideDeclParams T) X init lnk e.state e.tentative
        (some (tagRestrict .fileScope (stripStorageSpecifiers e.type))) e') := by
  obtain ⟨-, h⟩ := declare_eq_ok h
  rcases hwf.names X with hnew | ⟨lnk, e, hX⟩
  · obtain ⟨hbases, hframe, hheld, ⟨e', he'⟩, -, -⟩ :=
      declareExternalVariable_new hwf.bases hnew.entries (by simp [hnew.genv]) hnew.defs h
    rw [hnew.types] at he'
    exact ⟨hwf.of_frame hbases (hheld hnew.genv hwf.held) hframe (.inr ⟨_, e', he'.entry⟩), hframe, .inl ⟨hnew, e', he'⟩⟩
  · obtain ⟨hbases, hframe, hheld, e', he'⟩ := declareExternalVariable_known hwf.bases hX h
    exact ⟨hwf.of_frame hbases (hheld hwf.held) hframe (.inr ⟨lnk, e', he'.entry⟩), hframe, .inr ⟨lnk, e, e', hX, he'⟩⟩

/-- What is known of a name does not depend on the tags, nor on what is used. -/
theorem Entry.of_cells {tags : Tags} {incs : List CId} {U : CId → Bool} {H : List (CId × SymBase)}
    (h : Entry σ X lnk e) : Entry { σ with tags := tags, incompleteTags := incs, uses := U, held := H } X lnk e := by
  obtain ⟨hentry, hother, hgenv, htype, hplain, hreal, hint, hmem, hlisted, hdefs, hunexp⟩ := h
  refine ⟨?_, fun lnk' hne => ?_, hgenv, htype, hplain, hreal, hint, hmem, hlisted, hdefs, hunexp⟩
  · cases lnk <;> exact hentry
  · have := hother lnk' hne
    cases lnk' <;> exact this

theorem Undeclared.of_cells {tags : Tags} {incs : List CId} {U : CId → Bool} {H : List (CId × SymBase)}
    (h : Undeclared σ X) : Undeclared { σ with tags := tags, incompleteTags := incs, uses := U, held := H } X := by
  refine ⟨fun lnk => ?_, h.genv, h.types, h.defs⟩
  have := h.entries lnk
  cases lnk <;> exact this

/-- Nor does the invariant, if what is held is in order. -/
theorem Wf.of_cells {tags : Tags} {incs : List CId} {U : CId → Bool} {H : List (CId × SymBase)} (h : Wf σ)
    (hheld : Held { σ with tags := tags, incompleteTags := incs, uses := U, held := H }) :
    Wf { σ with tags := tags, incompleteTags := incs, uses := U, held := H } := by
  refine ⟨h.bases.of_cells rfl rfl rfl rfl, hheld, fun X => ?_⟩
  rcases h.names X with hnew | ⟨lnk, e, hentry⟩
  · exact .inl hnew.of_cells
  · exact .inr ⟨lnk, e, hentry.of_cells⟩

theorem completeTagInDecl_wf (hwf : Wf σ) (h : σ.completeTagInDecl c lnk X = .ok σ') : Wf σ' ∧ Frame X σ σ' := by
  unfold completeTagInDecl at h
  split at h
  · cases h
  · split at h
    · exact ⟨(declare_wf hwf h).1, (declare_wf hwf h).2.1⟩
    · cases h
      exact ⟨hwf, Frame.refl X σ⟩

/-- The states a completed tag goes through before the names are looked at. -/
theorem addGlobalTag_eq_ok {S : CId} {info : TagInfo} {exts ints : List CId}
    (h : σ.addGlobalTag c S info exts ints = .ok σ') : σ.tags.lookup ⟨S, c.tu, .global⟩ = none ∧
      ((S ∉ σ.incompleteTags ∧ σ' = { σ with tags := update σ.tags ⟨S, c.tu, .global⟩ info }) ∨
        (S ∈ σ.incompleteTags ∧ exts.Perm (σ.externals.map Prod.fst) ∧ ints.Perm (σ.internals.map Prod.fst) ∧
          ∃ σ₁, exts.foldlM (completeTagInDecl c .external) { σ with
              tags := update σ.tags ⟨S, c.tu, .global⟩ info, incompleteTags := σ.incompleteTags.erase S } = .ok σ₁ ∧
            ints.foldlM (completeTagInDecl c .internal) σ₁ = .ok σ')) := by
  unfold addGlobalTag at h
  simp only at h
  split at h
  · cases h
  · rename_i hnew
    refine ⟨Option.not_isSome_iff_eq_none.mp hnew, ?_⟩
    split at h
    · rename_i hinc
      split at h
      · rename_i hperm
        exact .inr ⟨hinc, hperm.1, hperm.2, Eval.bind_eq_ok.mp h⟩
      · cases h
    · rename_i hinc
      cases h
      exact .inl ⟨hinc, rfl⟩

theorem use_wf (hwf : Wf σ) (h : σ.use X = .ok σ') : Wf σ' := by
  obtain ⟨⟨U, H, rfl, -⟩, hheld⟩ := use_spec h
  exact hwf.of_cells (hheld hwf.held)

/-- **Every step of a unit keeps the invariant.** -/
theorem step_wf {ev : TuEvent} (hwf : Wf σ) (h : σ.step c ev = .ok σ') : Wf σ' := by
  cases ev with
  | refer S =>
    cases h
    unfold referTag
    split
    · exact hwf
    · exact hwf.of_cells hwf.held
  | addGlobalTag S info exts ints =>
    obtain ⟨-, ⟨-, rfl⟩ | ⟨-, -, -, σ₁, h₁, h₂⟩⟩ := addGlobalTag_eq_ok h
    · exact hwf.of_cells hwf.held
    · have hwf₀ : Wf { σ with tags := update σ.tags ⟨S, c.tu, .global⟩ info
                              incompleteTags := σ.incompleteTags.erase S } := hwf.of_cells hwf.held
      have hwf₁ : Wf σ₁ := foldlM_invariant (fun _ _ _ _ hu h => (completeTagInDecl_wf hu h).1) hwf₀ h₁
      exact foldlM_invariant (fun _ _ _ _ hu h => (completeTagInDecl_wf hu h).1) hwf₁ h₂
  | declare T X init => exact (declare_wf hwf h).1
  | use X => exact use_wf hwf h

theorem initialTu_wf : Wf initialTu where
  bases := ⟨fun _ _ => ⟨rfl, rfl⟩, by simp [initialTu], by simp [initialTu], by simp [initialTu], by simp [initialTu],
    by simp [initialTu], by simp [initialTu]⟩
  held := by simp [Held, initialTu]
  names X := .inl ⟨fun lnk => by cases lnk <;> rfl, rfl, rfl, rfl⟩

/-- **So does every run.** -/
theorem run_wf {evs : List TuEvent} (h : initialTu.run c evs = .ok σ) : Wf σ :=
  foldlM_invariant (fun _ _ _ _ hu h => step_wf hu h) initialTu_wf h

/-! ## The end of the unit -/

/-- The end of the unit declares the name again: a tentative array that has no length. -/
def Redeclared (σ : TuState) (X : CId) : Prop :=
  ∃ e q m T, σ.externals.lookup X = some e ∧ e.type = .t q m (.array .incomplete T) ∧ e.state = .declared ∧
    e.tentative = true

theorem allocateIncompleteTentative_eq_ok (h : σ.allocateIncompleteTentative c X e = .ok σ') :
    (∃ q m T, e.type = .t q m (.array .incomplete T) ∧ e.state = .declared ∧ e.tentative = true ∧
        σ.declare c (.t q m (.array (.fixed 1) T)) X none = .ok σ') ∨
      (σ' = σ ∧ ¬ (e.state = .declared ∧ e.tentative = true)) := by
  unfold allocateIncompleteTentative at h
  split at h
  · rename_i q m T hT hS ht
    exact .inl ⟨q, m, T, hT, hS, ht, h⟩
  · cases h
  · rename_i hS
    split at h
    · cases h
    · cases h
      exact .inr ⟨rfl, by simp [hS]⟩
  · rename_i hnot _
    cases h
    exact .inr ⟨rfl, fun hboth => hnot hboth.1 hboth.2⟩

theorem Lost.of_frame (h : Lost σ b) (hframe : Frame X σ σ') : Lost σ' b := by
  obtain ⟨hlinked, hgenv, hlt⟩ := h
  refine ⟨?_, ?_, lt_of_lt_of_le hlt hframe.next_le⟩
  · by_contra hne
    obtain ⟨b₁, hb₁⟩ := Option.ne_none_iff_exists'.mp hne
    rcases hframe.linkings_new b b₁ hb₁ with hold | hX | hle
    · cases hlinked.symm.trans hold
    · exact hgenv X hX
    · omega
  · intro Y hY
    by_cases hYX : Y = X
    · subst hYX
      rcases hframe.genv_new b hY with hX | hle
      · exact hgenv Y hX
      · omega
    · exact hgenv Y ((hframe.genv Y hYX).symm.trans hY)

/-- A tentative definition whose type is not complete. -/
def Tentative (σ : TuState) (X : CId) : Prop :=
  ∃ e, σ.externals.lookup X = some e ∧ e.state = .declared ∧ e.tentative = true

theorem Redeclared.tentative (h : Redeclared σ X) : Tentative σ X := by
  obtain ⟨e, -, -, -, he, -, hstate, htent⟩ := h
  exact ⟨e, he, hstate, htent⟩

/-- A name the end of the unit leaves alone. -/
structure Kept (σ₀ σ : TuState) (X : CId) : Prop where
  externals : σ.externals.lookup X = σ₀.externals.lookup X ∨ (σ.externals.lookup X = none ∧ ¬ Tentative σ₀ X)
  internals : σ.internals.lookup X = σ₀.internals.lookup X
  genv : σ.genv X = σ₀.genv X
  listed : σ.externalDecls X = σ₀.externalDecls X
  defs : σ.externalDefs X = σ₀.externalDefs X

/-- A name it declares again: the base it had is lost, and it is allocated. -/
structure Redone (σ₀ σ : TuState) (X : CId) : Prop where
  redeclared : Redeclared σ₀ X
  lost : ∀ b, σ₀.genv X = some b → Lost σ b
  defined : ∀ e, σ.externals.lookup X = some e → e.state.isDefined = true
  internals : σ.internals.lookup X = none
  defs : ∃ b, σ.externalDefs X = some b ∧ σ.genv X = some b ∧ σ.mem b ≠ none

/-- The end of the unit, on its way from `σ₀`. -/
structure Ending (σ₀ σ : TuState) : Prop where
  bases : Bases σ
  held : σ.held = σ₀.held
  uses : ∀ X, σ₀.uses X = true → σ.uses X = true
  linkings : ∀ b b', σ₀.linkings b = some b' → σ.linkings b = some b'
  mem : ∀ b, σ₀.mem b ≠ none → σ.mem b ≠ none
  names : ∀ X, Kept σ₀ σ X ∨ Redone σ₀ σ X

theorem Ending.refl (hbases : Bases σ) : Ending σ σ :=
  ⟨hbases, rfl, fun _ h => h, fun _ _ h => h, fun _ h => h, fun _ => .inl ⟨.inl rfl, rfl, rfl, rfl, rfl⟩⟩

/-- An entry is taken out, and its name has been seen to. -/
theorem Ending.remove {σ₀ : TuState} (h : Ending σ₀ σ)
    (hX : ¬ Tentative σ₀ X ∨ Redone σ₀ σ X) : Ending σ₀ { σ with externals := AssocMap.remove σ.externals X } := by
  have hlookup : ∀ Y, (AssocMap.remove σ.externals X).lookup Y = if Y = X then none else σ.externals.lookup Y :=
    fun Y => lookup_remove σ.externals X Y
  refine ⟨h.bases.of_cells rfl rfl rfl rfl, h.held, h.uses, h.linkings, h.mem, fun Y => ?_⟩
  by_cases hY : Y = X
  · subst hY
    rcases hX with hnot | hredone
    · rcases h.names Y with hkept | hredone
      · refine .inl ⟨.inr ⟨?_, hnot⟩, hkept.internals, hkept.genv, hkept.listed, hkept.defs⟩
        exact (hlookup Y).trans (if_pos rfl)
      · exact absurd hredone.redeclared.tentative hnot
    · refine .inr ⟨hredone.redeclared, hredone.lost, fun e he => ?_, hredone.internals, hredone.defs⟩
      cases ((hlookup Y).trans (if_pos rfl)).symm.trans he
  · have hsame : (AssocMap.remove σ.externals X).lookup Y = σ.externals.lookup Y := (hlookup Y).trans (if_neg hY)
    rcases h.names Y with hkept | hredone
    · refine .inl ⟨?_, hkept.internals, hkept.genv, hkept.listed, hkept.defs⟩
      rcases hkept.externals with heq | ⟨hnone, hnot⟩
      · exact .inl (hsame.trans heq)
      · exact .inr ⟨hsame.trans hnone, hnot⟩
    · exact .inr ⟨hredone.redeclared, hredone.lost, fun e he => hredone.defined e (hsame.symm.trans he),
        hredone.internals, hredone.defs⟩

/-- A name whose entry is taken out before it was allocated counts as new. -/
theorem Kept.renewed {σ₀ : TuState} (hwf : Wf σ₀) (hX : Kept σ₀ σ X) (he : σ.externals.lookup X = some e)
    (hstate : e.state = .declared) : Entry σ₀ X .external e ∧
      (∀ lnk, ({ σ with externals := AssocMap.remove σ.externals X }.entries lnk).lookup X = none) ∧
      (∀ b, σ.genv X = some b → isLinkBase b = true) ∧ σ.externalDefs X = none := by
  have he₀ : σ₀.externals.lookup X = some e := by
    rcases hX.externals with heq | ⟨hnone, -⟩
    · exact heq.symm.trans he
    · cases hnone.symm.trans he
  obtain ⟨lnk, e₁, hentry⟩ := (hwf.names X).resolve_left fun hnew => by
    cases (hnew.entries .external).symm.trans he₀
  have hlnk : lnk = .external := by
    by_contra hne
    cases (hentry.other .external (Ne.symm hne)).symm.trans he₀
  subst hlnk
  obtain rfl : e₁ = e := Option.some.inj (hentry.entry.symm.trans he₀)
  have hlink : isLinkBase e₁.base = true := by
    rw [hentry.real, hstate]
    rfl
  refine ⟨hentry, ?_, ?_, ?_⟩
  · intro lnk
    cases lnk with
    | external => exact (lookup_remove σ.externals X X).trans (if_pos rfl)
    | internal => exact hX.internals.trans (hentry.other .internal (by simp))
  · intro b hb
    cases (hX.genv.trans hentry.genv).symm.trans hb
    exact hlink
  · rw [hX.defs, hentry.defs rfl, if_pos hlink]

/-- An entry is taken out and its name declared again. -/
theorem Ending.redeclare {σ₀ : TuState} {q : Quals} {m : Mods} {E : CType} (hwf : Wf σ₀) (h : Ending σ₀ σ)
    (hX : Kept σ₀ σ X) (he : σ.externals.lookup X = some e) (htype : e.type = .t q m (.array .incomplete E))
    (hstate : e.state = .declared) (htent : e.tentative = true)
    (hdeclare : { σ with externals := AssocMap.remove σ.externals X }.declare c (.t q m (.array (.fixed 1) E)) X none =
      .ok σ') : Ending σ₀ σ' := by
  obtain ⟨hentry, hentries, hold, hdefs⟩ := hX.renewed hwf he hstate
  have hredeclared : Redeclared σ₀ X := ⟨e, q, m, E, hentry.entry, htype, hstate, htent⟩
  have hbases : Bases { σ with externals := AssocMap.remove σ.externals X } := h.bases.of_cells rfl rfl rfl rfl
  obtain ⟨-, hdeclare⟩ := declare_eq_ok hdeclare
  obtain ⟨hbases', hframe, -, ⟨e', hdecl⟩, hheld', hlost⟩ :=
    declareExternalVariable_new hbases hentries hold hdefs hdeclare
  -- and is allocated
  have hplain : isExternType e.type = false ∧ isStaticType e.type = false := hentry.plain
  rw [htype] at hplain
  have hstatic : isStaticType (elideDeclParams (.t q m (.array (.fixed 1) E))) = false := hplain.2
  rw [hstatic, if_neg Bool.false_ne_true] at hdecl
  have hdefined : e'.state.isDefined = true := by
    obtain ⟨sto, p, hsto, hplan, hstate', -⟩ := hdecl.plan
    have hext : isExtern (elideDeclParams (.t q m (.array (.fixed 1) E))) = false := by
      have hfun : isFunctionType (elideDeclParams (.t q m (.array (.fixed 1) E))) = false := rfl
      have hext : isExternType (elideDeclParams (.t q m (.array (.fixed 1) E))) = false := hplain.1
      rw [isExtern, hfun, hext]
      rfl
    rw [hext] at hsto
    rw [hstate']
    cases sto with
    | Extern => simp at hsto
    | Naked | Static =>
      cases hplan
      rfl
  have hreal : isLinkBase e'.base = false := by
    rw [hdecl.entry.real, hdefined]
    rfl
  have hsame : ∀ Y, Y ≠ X → (σ'.entries .external).lookup Y = σ.externals.lookup Y := by
    intro Y hY
    rw [hframe.entries Y hY .external]
    exact (lookup_remove σ.externals X Y).trans (if_neg hY)
  refine ⟨hbases', (hheld' rfl).trans h.held, fun Y hY => hframe.uses Y (h.uses Y hY), fun b b' hb =>
    hframe.linkings b b' (h.linkings b b' hb), fun b hb => hframe.mem b (h.mem b hb), fun Y => ?_⟩
  by_cases hY : Y = X
  · subst hY
    refine .inr ⟨hredeclared, fun b hb => hlost b (hX.genv.trans hb), fun e he => ?_,
      hdecl.entry.other .internal (by simp), e'.base, ?_, hdecl.entry.genv, hdecl.entry.mem hdefined⟩
    · cases hdecl.entry.entry.symm.trans he
      exact hdefined
    · rw [hdecl.entry.defs rfl, hreal]
      rfl
  · rcases h.names Y with hkept | hredone
    · refine .inl ⟨?_, (hframe.entries Y hY .internal).trans hkept.internals, (hframe.genv Y hY).trans hkept.genv,
        (hframe.externalDecls Y hY).trans hkept.listed, (hframe.externalDefs Y hY).trans hkept.defs⟩
      rcases hkept.externals with heq | ⟨hnone, hnot⟩
      · exact .inl ((hsame Y hY).trans heq)
      · exact .inr ⟨(hsame Y hY).trans hnone, hnot⟩
    · obtain ⟨b, hb, hgenv, hmem⟩ := hredone.defs
      refine .inr ⟨hredone.redeclared, fun b hb => ?_, fun e he => hredone.defined e ((hsame Y hY).symm.trans he),
        (hframe.entries Y hY .internal).trans hredone.internals, b, (hframe.externalDefs Y hY).trans hb,
        (hframe.genv Y hY).trans hgenv, hframe.mem b hmem⟩
      obtain ⟨hlinked, hnone, hlt⟩ := hredone.lost b hb
      have hlost : Lost { σ with externals := AssocMap.remove σ.externals X } b := ⟨hlinked, hnone, hlt⟩
      exact hlost.of_frame hframe

/-- One entry is taken out. -/
theorem Ending.step {σ₀ σ₁ : TuState} (h : Ending σ₀ σ) (hwf : Wf σ₀) (he : σ.externals.lookup X = some e)
    (h₁ : { σ with externals := AssocMap.remove σ.externals X }.allocateIncompleteTentative c X e = .ok σ₁) :
    Ending σ₀ σ₁ := by
  rcases allocateIncompleteTentative_eq_ok h₁ with ⟨q, m, E, htype, hstate, htent, hdeclare⟩ | ⟨rfl, hnot⟩
  · rcases h.names X with hkept | hredone
    · exact h.redeclare hwf hkept he htype hstate htent hdeclare
    · have hdefined := hredone.defined e he
      rw [hstate] at hdefined
      cases hdefined
  · refine h.remove ?_
    rcases h.names X with hkept | hredone
    · refine .inl ?_
      rintro ⟨e₀, he₀, hstate, htent⟩
      rcases hkept.externals with heq | ⟨hnone, -⟩
      · cases he₀.symm.trans (heq.symm.trans he)
        exact hnot ⟨hstate, htent⟩
      · cases hnone.symm.trans he
    · exact .inr hredone

/-- **The end of the unit**, from any of its states on. -/
theorem allocateIncompleteTentatives_ending {σ₀ : TuState} {order : List CId} (hwf : Wf σ₀) (hσ : Ending σ₀ σ)
    (h : σ.allocateIncompleteTentatives c order = .ok σ') : Ending σ₀ σ' ∧ ∀ X, σ'.externals.lookup X = none := by
  induction order generalizing σ with
  | nil =>
    unfold allocateIncompleteTentatives at h
    split at h
    · rename_i hempty
      cases h
      refine ⟨hσ, fun X => ?_⟩
      rw [List.isEmpty_iff.mp hempty]
      rfl
    · cases h
  | cons X Xs ih =>
    unfold allocateIncompleteTentatives at h
    split at h
    · cases h
    · rename_i e he
      obtain ⟨σ₁, h₁, h₂⟩ := Eval.bind_eq_ok.mp h
      exact ih (hσ.step hwf he h₁) h₂

end TuState

/-! ## What the linker finds -/

/-- `<linkings>` has the base with the definition of the name. -/
def TuState.Resolved (σ : TuState) (X : CId) (b : SymBase) : Prop :=
  ∃ b', σ.linkings b = some b' ∧ σ.externalDefs X = some b'

/-- The base is what the unit has for the name, and the unit is among those that declare it: then
    `resolveCReference` links it. -/
def TuState.Listed (σ : TuState) (X : CId) (b : SymBase) : Prop := σ.genv X = some b ∧ σ.externalDecls X = true

/-- The declarations of the unit have been read, and an expression holds a base of a name that the end of
    the unit declares again. -/
def TuState.OrphansHeld (σ : TuState) : Prop := ∃ p ∈ σ.held, σ.Redeclared p.1

section LinkBases

variable {c : TuConfig} {evs : List TuEvent} {order : List CId} {σ₀ σ : TuState}

/-- The end of the unit, for one base that is held. -/
theorem held_kept_iff (hwf : σ₀.Wf) (hend : σ₀.Ending σ) (hgone : ∀ X, σ.externals.lookup X = none)
    {p : CId × SymBase} (hp : p ∈ σ₀.held) :
    σ.removeUnusedIdentifiers.Resolved p.1 p.2 ∨ σ.removeUnusedIdentifiers.Listed p.1 p.2 ↔ ¬ σ₀.Redeclared p.1 := by
  obtain ⟨hlink, hreaches, huses, hext⟩ := hwf.held p hp
  obtain ⟨e, he⟩ := Option.ne_none_iff_exists'.mp hext
  have hentry : σ₀.Entry p.1 .external e := by
    rcases hwf.names p.1 with hnew | ⟨lnk, e₁, hentry⟩
    · cases (hnew.entries .external).symm.trans he
    · have hlnk : lnk = .external := by
        by_contra hne
        cases (hentry.other .external (Ne.symm hne)).symm.trans he
      subst hlnk
      cases hentry.entry.symm.trans he
      exact hentry
  have huses' : σ.uses p.1 = true := hend.uses _ huses
  have hgenv' : σ.removeUnusedIdentifiers.genv p.1 = σ.genv p.1 := if_pos huses'
  have hdecls' : σ.removeUnusedIdentifiers.externalDecls p.1 = σ.externalDecls p.1 := by
    show (σ.externalDecls p.1 && σ.uses p.1) = _
    rw [huses', Bool.and_true]
  have hdefs' : σ.removeUnusedIdentifiers.externalDefs = σ.externalDefs := rfl
  have hlinkings' : σ.removeUnusedIdentifiers.linkings = σ.linkings := rfl
  unfold TuState.Resolved TuState.Listed
  rw [hgenv', hdecls', hdefs', hlinkings']
  rcases hend.names p.1 with hkept | hredone
  · have hnot : ¬ σ₀.Redeclared p.1 := by
      rcases hkept.externals with heq | ⟨-, hnot⟩
      · cases he.symm.trans (heq.symm.trans (hgone p.1))
      · exact fun hredeclared => hnot hredeclared.tentative
    refine iff_of_true ?_ hnot
    rcases hreaches with hgenv | ⟨b', hlinked, hgenv⟩
    · exact .inr ⟨hkept.genv.trans hgenv, hkept.listed.trans (hentry.listed rfl)⟩
    · refine .inl ⟨b', hend.linkings _ _ hlinked, ?_⟩
      cases hentry.genv.symm.trans hgenv
      rw [hkept.defs, hentry.defs rfl, hwf.bases.target _ _ hlinked]
      rfl
  · refine iff_of_false ?_ (not_not_intro hredone.redeclared)
    -- what is held is the base the name had, and that is lost
    have hgenv : σ₀.genv p.1 = some p.2 := by
      obtain ⟨e₁, q, m, T, he₁, -, hstate, -⟩ := hredone.redeclared
      cases he.symm.trans he₁
      rcases hreaches with hgenv | ⟨b', hlinked, hgenv⟩
      · exact hgenv
      · cases hentry.genv.symm.trans hgenv
        have hreal := hentry.real
        rw [hwf.bases.target _ _ hlinked, hstate] at hreal
        cases hreal
    obtain ⟨hlinked, hnone, -⟩ := hredone.lost _ hgenv
    rintro (⟨b', hb', -⟩ | ⟨hgenv', -⟩)
    · cases hlinked.symm.trans hb'
    · exact hnone _ hgenv'

/-- A unit ends with the bases it held when its declarations had been read. -/
theorem translationUnit_ending (hrun : initialTu.run c evs = .ok σ₀) (hunit : translationUnit c evs order = .ok σ) :
    ∃ σ₁, σ = σ₁.removeUnusedIdentifiers ∧ σ₁.held = σ₀.held ∧ σ₀.Wf ∧ σ₀.Ending σ₁ ∧
      ∀ X, σ₁.externals.lookup X = none := by
  obtain ⟨σ₀', h₀, h⟩ := Eval.bind_eq_ok.mp hunit
  cases hrun.symm.trans h₀
  obtain ⟨σ₁, h₁, h⟩ := Eval.bind_eq_ok.mp h
  cases h
  have hwf := TuState.run_wf hrun
  obtain ⟨hend, hgone⟩ := TuState.allocateIncompleteTentatives_ending hwf (.refl hwf.bases) h₁
  exact ⟨σ₁, rfl, hend.held, hwf, hend, hgone⟩

/-- **No linker base is orphaned iff none is held of a name that the end of the unit declares again.** -/
theorem linkBases_kept_iff (hrun : initialTu.run c evs = .ok σ₀) (hunit : translationUnit c evs order = .ok σ) :
    (∀ p ∈ σ.held, σ.Resolved p.1 p.2 ∨ σ.Listed p.1 p.2) ↔ ¬ σ₀.OrphansHeld := by
  obtain ⟨σ₁, rfl, hheld, hwf, hend, hgone⟩ := translationUnit_ending hrun hunit
  have hheld' : σ₁.removeUnusedIdentifiers.held = σ₀.held := hheld
  rw [hheld']
  constructor
  · rintro hall ⟨p, hp, hredeclared⟩
    exact (held_kept_iff hwf hend hgone hp).mp (hall p hp) hredeclared
  · intro hnot p hp
    exact (held_kept_iff hwf hend hgone hp).mpr fun hredeclared => hnot ⟨p, hp, hredeclared⟩

/-- `int a[];`, with the storage class and the length left open. -/
def intArray (m : Mods) (k : ArrayKind) : CType := .t noQuals m (.array k IntType.int.toSimple.toType)

def exampleUnit : TuConfig := ⟨x86GccLimitedLibc, "unit", false⟩

/-- `extern int a[3];` and an expression with `a` in it: the base is held, and listed. -/
theorem linkBases_kept_declared : ∃ σ₀ σ : TuState,
    initialTu.run exampleUnit [.declare (intArray (.mods {.storage .Extern} none) (.fixed 3)) (.Identifier "a") none,
      .use (.Identifier "a")] = .ok σ₀ ∧ σ.held ≠ [] ∧
    ((∀ p ∈ σ.held, σ.Resolved p.1 p.2 ∨ σ.Listed p.1 p.2) ↔ ¬ σ₀.OrphansHeld) := by
  obtain ⟨σ₀, h₀⟩ : ∃ σ₀, initialTu.run exampleUnit
      [.declare (intArray (.mods {.storage .Extern} none) (.fixed 3)) (.Identifier "a") none,
        .use (.Identifier "a")] = .ok σ₀ := ⟨_, rfl⟩
  obtain ⟨σ, hσ, hheld⟩ : ∃ σ, translationUnit exampleUnit
      [.declare (intArray (.mods {.storage .Extern} none) (.fixed 3)) (.Identifier "a") none,
        .use (.Identifier "a")] [.Identifier "a"] = .ok σ ∧ σ.held ≠ [] := ⟨_, rfl, List.cons_ne_nil _ _⟩
  exact ⟨σ₀, σ, h₀, hheld, linkBases_kept_iff h₀ hσ⟩

/-- **`int a[];` and an expression with `a` in it**: the end of the unit gives `a` a second link base, and the
    one in the expression is in no map. -/
theorem linkBase_orphaned : ∃ σ, translationUnit exampleUnit
      [.declare (intArray noMods .incomplete) (.Identifier "a") none, .use (.Identifier "a")]
      [.Identifier "a", .Identifier "a"] = .ok σ ∧
    ∃ p ∈ σ.held, ¬ (σ.Resolved p.1 p.2 ∨ σ.Listed p.1 p.2) := by
  obtain ⟨σ₀, h₀, p, hp, hredeclared⟩ : ∃ σ₀, initialTu.run exampleUnit
      [.declare (intArray noMods .incomplete) (.Identifier "a") none, .use (.Identifier "a")] = .ok σ₀ ∧
      ∃ p ∈ σ₀.held, σ₀.Redeclared p.1 :=
    ⟨_, rfl, _, List.mem_singleton.mpr rfl, _, _, _, _, rfl, rfl, rfl, rfl⟩
  have hok : (translationUnit exampleUnit
      [.declare (intArray noMods .incomplete) (.Identifier "a") none, .use (.Identifier "a")]
      [.Identifier "a", .Identifier "a"]).toBool = true := by decide +kernel
  cases hσ : translationUnit exampleUnit
      [.declare (intArray noMods .incomplete) (.Identifier "a") none, .use (.Identifier "a")]
      [.Identifier "a", .Identifier "a"] with
  | error e =>
    rw [hσ] at hok
    cases hok
  | ok σ =>
    obtain ⟨σ₁, rfl, hheld, hwf, hend, hgone⟩ := translationUnit_ending h₀ hσ
    refine ⟨_, rfl, p, ?_, fun hkept => (held_kept_iff hwf hend hgone hp).mp hkept hredeclared⟩
    show p ∈ σ₁.held
    rw [hheld]
    exact hp

end LinkBases

end CSemantics
