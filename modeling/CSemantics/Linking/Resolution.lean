/-
  Resolving references.

  A unit that uses a symbol it does not define has a dummy base for it, the same one wherever it is used.
  For each symbol that is used the linker goes through the units that have declared it, in any order, and
  links the dummy of each to the base of the definition; a symbol without a definition is an error, a
  warning or nothing, as the option says.  Symbols are taken in any order as well.

      Resolve.Step     the rules
      Resolve.Inv      what is pending can be resolved, and what is not pending has been
      inevitably_end   every run ends, by an error or with nothing left
-/
import CSemantics.Linking.Init
import CSemantics.Linking.LinkingDeps

namespace CSemantics

/-! ## The rules -/

inductive LinkErrorHandling
  | linkErrors | linkWarnings | linkIgnore
  deriving DecidableEq

/-- `isMangledName(X)` -/
def isMangledName : CId → Bool
  | .Identifier X => decide (X.toList.length > 2 ∧ X.toList.take 2 = ['_', 'Z'])
  | _ => false

def noDefinition (X : CId) : Stop := UNDEF "TDR2" ("No definition for symbol with external linkage: " ++ showCId X ++ ".")

namespace Resolve

open scoped BigOperators

/-- The terms of the `<k>` cell; a message stops everything. -/
inductive Item
  | resolveCReference (X : CId) (h : LinkErrorHandling)
  | resolveCReferences (S : Finset CId) (h : LinkErrorHandling)
  | stop (e : Stop)

/-- The cells that the rules write, and the symbols there has been a warning about. -/
structure State where
  k : List Item
  externalDecls : CId → Option (Finset String)
  genv : String → CId → Option SymBase
  linkings : SymBase → Option SymBase
  warned : List CId

/-- A symbol that is not defined, or has no type. -/
def Undefined (g : GlobalCell) (X : CId) : Prop := g.externalDefs.lookup X = none ∨ g.externalTypes.lookup X = none

/-- The rules, in a program with the definitions of `g`. -/
inductive Step (g : GlobalCell) : State → State → Prop
  | pick {s : State} {S h K X} (hX : X ∈ S) (hk : s.k = .resolveCReferences S h :: K) :
      Step g s { s with k := .resolveCReference X h :: .resolveCReferences (S.erase X) h :: K }
  | done {s : State} {h K} (hk : s.k = .resolveCReferences ∅ h :: K) : Step g s { s with k := K }
  /-- a unit that has declared the symbol and has a dummy base for it -/
  | linkBase {s : State} {X h K T Tu B B'} (hk : s.k = .resolveCReference X h :: K) (hT : s.externalDecls X = some T)
      (hTu : Tu ∈ T) (hdef : g.externalDefs.lookup X = some B') (hB : s.genv Tu X = some B) (hlink : isLinkBase B)
      (hnew : s.linkings B = none) :
      Step g s { s with
        externalDecls := Function.update s.externalDecls X (some (T.erase Tu))
        genv := Function.update s.genv Tu (Function.update (s.genv Tu) X (some B'))
        linkings := Function.update s.linkings B (some B') }
  /-- a unit that has the base itself -/
  | directBase {s : State} {X h K T Tu B B'} (hk : s.k = .resolveCReference X h :: K) (hT : s.externalDecls X = some T)
      (hTu : Tu ∈ T) (hdef : g.externalDefs.lookup X = some B') (hB : s.genv Tu X = some B)
      (hlink : isLinkBase B = false) :
      Step g s { s with externalDecls := Function.update s.externalDecls X (some (T.erase Tu)) }
  | resolved {s : State} {X h K} (hk : s.k = .resolveCReference X h :: K) (hT : s.externalDecls X = some ∅)
      (hdef : ¬Undefined g X) :
      Step g s { s with k := K, externalDecls := Function.update s.externalDecls X none }
  | mangled {s : State} {X h K} (hk : s.k = .resolveCReference X h :: K) (hdef : Undefined g X)
      (hX : isMangledName X) : Step g s { s with k := K }
  | linkErrors {s : State} {X K} (hk : s.k = .resolveCReference X .linkErrors :: K) (hdef : Undefined g X)
      (hX : isMangledName X = false) (hL : g.externalDeclsLoc.lookup X ≠ none) :
      Step g s { s with k := .stop (noDefinition X) :: s.k }
  | linkWarnings {s : State} {X K} (hk : s.k = .resolveCReference X .linkWarnings :: K) (hdef : Undefined g X)
      (hX : isMangledName X = false) (hL : g.externalDeclsLoc.lookup X ≠ none) :
      Step g s { s with k := K, warned := X :: s.warned }
  | linkIgnore {s : State} {X K} (hk : s.k = .resolveCReference X .linkIgnore :: K) (hdef : Undefined g X)
      (hX : isMangledName X = false) (hL : g.externalDeclsLoc.lookup X ≠ none) : Step g s { s with k := K }

/-! ## What is pending -/

/-- The symbols of an item. -/
def Item.ids : Item → Finset CId
  | .resolveCReference X _ => {X}
  | .resolveCReferences S _ => S
  | .stop _ => ∅

def Item.handling : Item → Option LinkErrorHandling
  | .resolveCReference _ h => some h
  | .resolveCReferences _ h => some h
  | .stop _ => none

/-- `X` is still to be resolved, and handled so if it is not defined. -/
def Owes (k : List Item) (h : LinkErrorHandling) (X : CId) : Prop := ∃ i ∈ k, i.handling = some h ∧ X ∈ i.ids

def Pending (k : List Item) (X : CId) : Prop := ∃ h, Owes k h X

theorem owes_cons {i : Item} {K : List Item} {h : LinkErrorHandling} {X : CId} :
    Owes (i :: K) h X ↔ (i.handling = some h ∧ X ∈ i.ids) ∨ Owes K h X := by
  simp [Owes]

/-- Taking a symbol leaves it pending. -/
theorem owes_pick {S : Finset CId} {h h' : LinkErrorHandling} {K : List Item} {X Y : CId} (hX : X ∈ S) :
    Owes (.resolveCReference X h :: .resolveCReferences (S.erase X) h :: K) h' Y ↔
      Owes (.resolveCReferences S h :: K) h' Y := by
  simp only [owes_cons, Item.handling, Item.ids, Finset.mem_singleton, Finset.mem_erase, Option.some.injEq]
  by_cases hY : Y = X
  · simp [hY, hX]
  · simp [hY]

theorem owes_done {h h' : LinkErrorHandling} {K : List Item} {Y : CId} :
    Owes K h' Y ↔ Owes (.resolveCReferences ∅ h :: K) h' Y := by
  simp [owes_cons, Item.ids]

/-- Of items without a symbol in common, only one has `X`. -/
theorem owes_unique {k : List Item} {h h' : LinkErrorHandling} {X : CId} (hdisj : (k.map Item.ids).Pairwise Disjoint)
    (hX : Owes k h X) (hX' : Owes k h' X) : h = h' := by
  induction k with
  | nil => simp [Owes] at hX
  | cons i K ih =>
    rw [List.map_cons, List.pairwise_cons] at hdisj
    have hnot : ∀ h'', Owes K h'' X → X ∉ i.ids := by
      rintro h'' ⟨j, hj, -, hXj⟩ hXi
      exact Finset.disjoint_left.mp (hdisj.1 j.ids (List.mem_map.mpr ⟨j, hj, rfl⟩)) hXi hXj
    rcases owes_cons.mp hX with ⟨hi, hXi⟩ | hK
    · rcases owes_cons.mp hX' with ⟨hi', -⟩ | hK'
      · exact Option.some.inj (hi.symm.trans hi')
      · exact absurd hXi (hnot h' hK')
    · rcases owes_cons.mp hX' with ⟨-, hXi⟩ | hK'
      · exact absurd hXi (hnot h hK)
      · exact ih hdisj.2 hK hK'

/-- Of items without a symbol in common, the first is done with. -/
theorem owes_pop {h h' : LinkErrorHandling} {K : List Item} {X Y : CId}
    (hdisj : ((.resolveCReference X h :: K : List Item).map Item.ids).Pairwise Disjoint) :
    Owes K h' Y ↔ Owes (.resolveCReference X h :: K) h' Y ∧ Y ≠ X := by
  rw [List.map_cons, List.pairwise_cons] at hdisj
  rw [owes_cons, Item.ids, Finset.mem_singleton]
  constructor
  · rintro ⟨i, hi, hh, hY⟩
    refine ⟨.inr ⟨i, hi, hh, hY⟩, ?_⟩
    rintro rfl
    have := hdisj.1 i.ids (List.mem_map.mpr ⟨i, hi, rfl⟩)
    simp only [Item.ids, Finset.disjoint_singleton_left] at this
    exact this hY
  · rintro ⟨⟨-, hY⟩ | hK, hne⟩
    · exact absurd hY hne
    · exact hK

/-! ## The invariant -/

/-- What the translator promises of the symbols of `k`: a symbol that is defined has a type; one that is
    not has been declared at some place; a unit that has declared a symbol has a base for it, a dummy
    base is linked to nothing yet and is no other dummy. -/
structure Resolvable (g : GlobalCell) (s : State) : Prop where
  typed : ∀ X, g.externalDefs.lookup X ≠ none → g.externalTypes.lookup X ≠ none
  located : ∀ X, Pending s.k X → Undefined g X → isMangledName X = false → g.externalDeclsLoc.lookup X ≠ none
  declared : ∀ X, Pending s.k X → ¬Undefined g X → ∃ T, s.externalDecls X = some T ∧
    ∀ Tu ∈ T, ∃ B, s.genv Tu X = some B ∧ (isLinkBase B → s.linkings B = none)
  distinct : ∀ X Y T T' Tu Tu' B, Pending s.k X → Pending s.k Y → s.externalDecls X = some T → s.externalDecls Y = some T' →
    Tu ∈ T → Tu' ∈ T' → s.genv Tu X = some B → s.genv Tu' Y = some B → isLinkBase B → X = Y ∧ Tu = Tu'

/-- A state with no symbol in two items. -/
structure Running (s : State) : Prop where
  disjoint : (s.k.map Item.ids).Pairwise Disjoint
  running : ∀ e, .stop e ∉ s.k
  quiet : s.warned = []

/-- `X` is not defined, and not for a C++ symbol that the C++ part of the linker resolves. -/
def Unresolved (g : GlobalCell) (X : CId) : Prop := Undefined g X ∧ isMangledName X = false

/-- The dummy base `B` of the unit `Tu` for `X` at the start of a run. -/
structure Reference (s₀ : State) (X : CId) (Tu : String) (B : SymBase) : Prop where
  pending : Pending s₀.k X
  declares : ∃ T, s₀.externalDecls X = some T ∧ Tu ∈ T
  base : s₀.genv Tu X = some B
  link : isLinkBase B

/-- The reference is resolved to `B'`. -/
structure Mapped (s : State) (X : CId) (Tu : String) (B B' : SymBase) : Prop where
  linked : s.linkings B = some B'
  bound : s.genv Tu X = some B'
  left : ∀ T, s.externalDecls X = some T → Tu ∉ T

/-- A state of a run from `s₀` that has not been stopped. -/
structure Inv (g : GlobalCell) (s₀ s : State) : Prop extends Resolvable g s where
  disjoint : (s.k.map Item.ids).Pairwise Disjoint
  running : ∀ e, .stop e ∉ s.k
  owed : ∀ h X, Owes s.k h X → Owes s₀.k h X
  mapped : ∀ X Tu B B', Reference s₀ X Tu B → g.externalDefs.lookup X = some B' →
    (Pending s.k X ∧ (∃ T, s.externalDecls X = some T ∧ Tu ∈ T) ∧ s.genv Tu X = some B) ∨
      Mapped s X Tu B B'
  warned : ∀ X, X ∈ s.warned ↔ Owes s₀.k .linkWarnings X ∧ Unresolved g X ∧ ¬Pending s.k X
  errors : ∀ X, Owes s₀.k .linkErrors X → Unresolved g X → Pending s.k X

/-- A run that has been stopped because of `X`. -/
def StoppedBy (s : State) (X : CId) : Prop := ∃ K, s.k = .stop (noDefinition X) :: K

/-- A bound on the steps that an item takes. -/
def Item.weight (decls : CId → Option (Finset String)) : Item → Nat
  | .resolveCReference X _ => ((decls X).getD ∅).card + 1
  | .resolveCReferences S _ => (∑ X ∈ S, (((decls X).getD ∅).card + 2)) + 1
  | .stop _ => 0

/-- A bound on the steps that are left. -/
def State.weight (s : State) : Nat := (s.k.map (Item.weight s.externalDecls)).sum

section Run

variable {g : GlobalCell} {s₀ s t : State}

theorem undefined_iff (h : Resolvable g s) {X : CId} : Undefined g X ↔ g.externalDefs.lookup X = none := by
  refine ⟨fun hu => ?_, .inl⟩
  rcases hu with hd | ht
  · exact hd
  · by_contra hd
    exact h.typed X hd ht

/-- The symbols of the other items keep their weight. -/
theorem weight_update {K : List Item} {X : CId} {hd : LinkErrorHandling} {decls : CId → Option (Finset String)}
    (hdisj : ((.resolveCReference X hd :: K : List Item).map Item.ids).Pairwise Disjoint) (T : Option (Finset String)) :
    K.map (Item.weight (Function.update decls X T)) = K.map (Item.weight decls) := by
  rw [List.map_cons, List.pairwise_cons] at hdisj
  refine List.map_congr_left fun i hi => ?_
  have hX := hdisj.1 i.ids (List.mem_map.mpr ⟨i, hi, rfl⟩)
  cases i with
  | resolveCReference Y h =>
    have hne : Y ≠ X := by
      rintro rfl
      simp [Item.ids] at hX
    simp [Item.weight, hne]
  | resolveCReferences S h =>
    rw [Item.weight, Item.weight]
    congr 1
    refine Finset.sum_congr rfl fun Y hY => ?_
    have hne : Y ≠ X := by
      rintro rfl
      simp only [Item.ids, Finset.disjoint_singleton_left] at hX
      exact hX hY
    rw [Function.update_of_ne hne]
  | stop e => rfl

/-- An item of the `<k>` cell, and the others. -/
theorem owes_head {X : CId} {hd : LinkErrorHandling} {K : List Item}
    (hk : s.k = .resolveCReference X hd :: K) : Owes s.k hd X := by
  rw [hk, owes_cons]
  exact .inl ⟨rfl, by simp [Item.ids]⟩

/-- **A symbol is done with**: its declarations do not matter any more. -/
theorem Inv.pop (h : Inv g s₀ s) {X : CId} {hd : LinkErrorHandling} {K : List Item}
    (hk : s.k = .resolveCReference X hd :: K) {decls : CId → Option (Finset String)}
    (hdecls : ∀ Y, Y ≠ X → decls Y = s.externalDecls Y) (hX : ∀ T, decls X = some T → s.externalDecls X = some T)
    {warned : List CId}
    (hmapped : ∀ Tu B B', Reference s₀ X Tu B → g.externalDefs.lookup X = some B' → Mapped s X Tu B B')
    (hwarned : ∀ Y, Y ∈ warned ↔ Y ∈ s.warned ∨ (Y = X ∧ Owes s₀.k .linkWarnings X ∧ Unresolved g X))
    (herrors : Owes s₀.k .linkErrors X → ¬Unresolved g X) :
    Inv g s₀ { s with k := K, externalDecls := decls, warned := warned } := by
  have hdisj := h.disjoint
  rw [hk] at hdisj
  have howes : ∀ h' Y, Owes K h' Y ↔ Owes s.k h' Y ∧ Y ≠ X := fun h' Y => by rw [hk]; exact owes_pop hdisj
  have hpend : ∀ Y, Pending K Y ↔ Pending s.k Y ∧ Y ≠ X := fun Y => by simp only [Pending, howes, exists_and_right]
  refine { typed := h.typed, located := ?_, declared := ?_, distinct := ?_, disjoint := ?_, running := ?_, owed := ?_,
           mapped := ?_, warned := ?_, errors := ?_ }
  · exact fun Y hY => h.located Y ((hpend Y).mp hY).1
  · intro Y hY hdef
    obtain ⟨hY', hne⟩ := (hpend Y).mp hY
    simp only [hdecls Y hne]
    exact h.declared Y hY' hdef
  · intro Y Z T T' Tu Tu' B hY hZ hT hT'
    obtain ⟨hY', hne⟩ := (hpend Y).mp hY
    obtain ⟨hZ', hne'⟩ := (hpend Z).mp hZ
    simp only [hdecls Y hne] at hT
    simp only [hdecls Z hne'] at hT'
    exact h.distinct Y Z T T' Tu Tu' B hY' hZ' hT hT'
  · rw [List.map_cons, List.pairwise_cons] at hdisj
    exact hdisj.2
  · exact fun e he => h.running e (hk ▸ List.mem_cons_of_mem _ he)
  · exact fun h' Y hY => h.owed h' Y ((howes h' Y).mp hY).1
  · intro Y Tu B B' href hdef
    have hsub : ∀ T, decls Y = some T → s.externalDecls Y = some T := by
      intro T hT
      by_cases hY : Y = X
      · subst hY
        exact hX T hT
      · exact (hdecls Y hY).symm.trans hT
    have hkeep : Mapped s Y Tu B B' → Mapped { s with k := K, externalDecls := decls, warned := warned } Y Tu B B' :=
      fun hmap => ⟨hmap.linked, hmap.bound, fun T hT => hmap.left T (hsub T hT)⟩
    by_cases hY : Y = X
    · subst hY
      exact .inr (hkeep (hmapped Tu B B' href hdef))
    · rcases h.mapped Y Tu B B' href hdef with ⟨hpending, hT, hB⟩ | hmap
      · refine .inl ⟨(hpend Y).mpr ⟨hpending, hY⟩, ?_, hB⟩
        simp only [hdecls Y hY]
        exact hT
      · exact .inr (hkeep hmap)
  · intro Y
    simp only [hwarned, h.warned, hpend]
    by_cases hY : Y = X
    · subst hY
      have hpending : Pending s.k Y := ⟨hd, owes_head hk⟩
      simp [hpending]
    · simp [hY]
  · intro Y howe hun
    refine (hpend Y).mpr ⟨h.errors Y howe hun, ?_⟩
    rintro rfl
    exact herrors howe hun

/-- **A unit is done with**: the symbol is not declared there any more, and a dummy base is linked. -/
theorem Inv.unit (h : Inv g s₀ s) {X : CId} {hd : LinkErrorHandling} {K : List Item} {T : Finset String} {Tu : String}
    {genv : String → CId → Option SymBase} {linkings : SymBase → Option SymBase}
    (hk : s.k = .resolveCReference X hd :: K) (hT : s.externalDecls X = some T)
    (hgenv : ∀ Tu' Y, (Tu' ≠ Tu ∨ Y ≠ X) → genv Tu' Y = s.genv Tu' Y)
    (hlinkings : ∀ B, (s.genv Tu X = some B → isLinkBase B = false) → linkings B = s.linkings B)
    (hkeep : ∀ B, s.linkings B ≠ none → linkings B = s.linkings B) (hTu : Tu ∈ T)
    (hlinked : ∀ B B', s.genv Tu X = some B → isLinkBase B → g.externalDefs.lookup X = some B' →
      linkings B = some B' ∧ genv Tu X = some B') :
    Inv g s₀ { s with externalDecls := Function.update s.externalDecls X (some (T.erase Tu)), genv := genv,
                      linkings := linkings } := by
  have hpendX : Pending s.k X := ⟨hd, owes_head hk⟩
  -- the pairs of a symbol and a unit that are left are pairs there were, but not this one
  have hpair : ∀ Y T' Tu', Function.update s.externalDecls X (some (T.erase Tu)) Y = some T' → Tu' ∈ T' →
      (∃ T'', s.externalDecls Y = some T'' ∧ Tu' ∈ T'') ∧ (Tu' ≠ Tu ∨ Y ≠ X) := by
    intro Y T' Tu' hY hTu'
    by_cases hYX : Y = X
    · subst hYX
      rw [Function.update_self] at hY
      cases hY
      obtain ⟨hne, hmem⟩ := Finset.mem_erase.mp hTu'
      exact ⟨⟨T, hT, hmem⟩, .inl hne⟩
    · rw [Function.update_of_ne hYX] at hY
      exact ⟨⟨T', hY, hTu'⟩, .inr hYX⟩
  -- and their dummy bases are others
  have hother : ∀ Y T' Tu' B, Pending s.k Y → Function.update s.externalDecls X (some (T.erase Tu)) Y = some T' → Tu' ∈ T' →
      s.genv Tu' Y = some B → isLinkBase B → linkings B = s.linkings B := by
    intro Y T' Tu' B hpY hY hTu' hB hlink
    obtain ⟨⟨T'', hT'', hmem⟩, hne⟩ := hpair Y T' Tu' hY hTu'
    refine hlinkings B fun hX => ?_
    obtain ⟨rfl, rfl⟩ := h.distinct Y X T'' T Tu' Tu B hpY hpendX hT'' hT hmem hTu hB hX hlink
    exact absurd rfl (hne.resolve_right fun hne => hne rfl)
  refine { typed := h.typed, located := h.located, declared := ?_, distinct := ?_, disjoint := h.disjoint,
           running := h.running, owed := h.owed, mapped := ?_, warned := h.warned, errors := h.errors }
  · intro Y hY hdef
    obtain ⟨T', hT', hunits⟩ := h.declared Y hY hdef
    have hnew : ∃ T'', Function.update s.externalDecls X (some (T.erase Tu)) Y = some T'' ∧ T'' ⊆ T' := by
      by_cases hYX : Y = X
      · subst hYX
        cases hT.symm.trans hT'
        exact ⟨_, Function.update_self .., Finset.erase_subset _ _⟩
      · exact ⟨T', by rw [Function.update_of_ne hYX]; exact hT', subset_rfl⟩
    obtain ⟨T'', hT'', hsub⟩ := hnew
    refine ⟨T'', hT'', fun Tu' hTu' => ?_⟩
    obtain ⟨B, hB, hnone⟩ := hunits Tu' (hsub hTu')
    refine ⟨B, (hgenv Tu' Y (hpair Y T'' Tu' hT'' hTu').2).trans hB, fun hlink => ?_⟩
    show linkings B = none
    rw [hother Y T'' Tu' B hY hT'' hTu' hB hlink]
    exact hnone hlink
  · intro Y Z T' T'' Tu' Tu'' B hY hZ hT' hT'' hTu' hTu'' hB hB' hlink
    obtain ⟨⟨U, hU, hmem⟩, hne⟩ := hpair Y T' Tu' hT' hTu'
    obtain ⟨⟨U', hU', hmem'⟩, hne'⟩ := hpair Z T'' Tu'' hT'' hTu''
    replace hB : s.genv Tu' Y = some B := (hgenv Tu' Y hne).symm.trans hB
    replace hB' : s.genv Tu'' Z = some B := (hgenv Tu'' Z hne').symm.trans hB'
    exact h.distinct Y Z U U' Tu' Tu'' B hY hZ hU hU' hmem hmem' hB hB' hlink
  · intro Y Tu' B B' href hdef
    rcases h.mapped Y Tu' B B' href hdef with ⟨hpending, ⟨T', hT', hTu'⟩, hB⟩ | hmap
    · by_cases hne : Tu' ≠ Tu ∨ Y ≠ X
      · refine .inl ⟨hpending, ?_, (hgenv Tu' Y hne).trans hB⟩
        by_cases hYX : Y = X
        · subst hYX
          cases hT.symm.trans hT'
          exact ⟨_, Function.update_self .., Finset.mem_erase.mpr ⟨hne.resolve_right fun h => h rfl, hTu'⟩⟩
        · exact ⟨T', (Function.update_of_ne hYX _ _).trans hT', hTu'⟩
      · push Not at hne
        obtain ⟨rfl, rfl⟩ := hne
        obtain ⟨hlink, hbound⟩ := hlinked B B' hB href.link hdef
        refine .inr ⟨hlink, hbound, fun T'' hT'' hmem => ?_⟩
        exact absurd rfl ((hpair Y T'' Tu' hT'' hmem).2.resolve_right fun hne => hne rfl)
    · have hleft : ∀ T'', Function.update s.externalDecls X (some (T.erase Tu)) Y = some T'' → Tu' ∉ T'' := by
        intro T'' hT'' hmem
        obtain ⟨U, hU, hmem'⟩ := (hpair Y T'' Tu' hT'' hmem).1
        exact hmap.left U hU hmem'
      have hne : Tu' ≠ Tu ∨ Y ≠ X := by
        by_contra hcon
        push Not at hcon
        obtain ⟨rfl, rfl⟩ := hcon
        exact hmap.left T hT hTu
      exact .inr ⟨(hkeep B (by rw [hmap.linked]; simp)).trans hmap.linked, (hgenv Tu' Y hne).trans hmap.bound, hleft⟩

/-- **A run never gets stuck.** -/
theorem Inv.progress (h : Inv g s₀ s) (hne : s.k ≠ []) : ∃ t, Step g s t := by
  obtain ⟨i, K, hk⟩ := List.exists_cons_of_ne_nil hne
  cases i with
  | stop e => exact absurd (hk ▸ List.mem_cons_self) (h.running e)
  | resolveCReferences S hd =>
    rcases Finset.eq_empty_or_nonempty S with rfl | ⟨X, hX⟩
    · exact ⟨_, .done hk⟩
    · exact ⟨_, .pick hX hk⟩
  | resolveCReference X hd =>
    have hpending : Pending s.k X := ⟨hd, owes_head hk⟩
    by_cases hdef : Undefined g X
    · cases hX : isMangledName X with
      | true => exact ⟨_, .mangled hk hdef hX⟩
      | false =>
        have hL := h.located X hpending hdef hX
        cases hd with
        | linkErrors => exact ⟨_, .linkErrors hk hdef hX hL⟩
        | linkWarnings => exact ⟨_, .linkWarnings hk hdef hX hL⟩
        | linkIgnore => exact ⟨_, .linkIgnore hk hdef hX hL⟩
    · obtain ⟨T, hT, hunits⟩ := h.declared X hpending hdef
      rcases Finset.eq_empty_or_nonempty T with rfl | ⟨Tu, hTu⟩
      · exact ⟨_, .resolved hk hT hdef⟩
      · obtain ⟨B, hB, hnew⟩ := hunits Tu hTu
        obtain ⟨B', hB'⟩ := Option.ne_none_iff_exists'.mp fun hnone => hdef (.inl hnone)
        cases hlink : isLinkBase B with
        | true => exact ⟨_, .linkBase hk hT hTu hB' hB hlink (hnew hlink)⟩
        | false => exact ⟨_, .directBase hk hT hTu hB' hB hlink⟩

/-- An item less. -/
theorem weight_pop {i : Item} {K : List Item} (hk : s.k = i :: K) (hi : 0 < i.weight s.externalDecls)
    {decls : CId → Option (Finset String)} (hK : K.map (Item.weight decls) = K.map (Item.weight s.externalDecls))
    {warned : List CId} : State.weight { s with k := K, externalDecls := decls, warned := warned } < s.weight := by
  show (K.map (Item.weight decls)).sum < (s.k.map (Item.weight s.externalDecls)).sum
  rw [hK, hk, List.map_cons, List.sum_cons]
  omega

/-- A unit less. -/
theorem Inv.weight_unit (h : Inv g s₀ s) {X : CId} {hd : LinkErrorHandling} {K : List Item} {T : Finset String}
    {Tu : String} (hk : s.k = .resolveCReference X hd :: K) (hT : s.externalDecls X = some T) (hTu : Tu ∈ T)
    {genv : String → CId → Option SymBase} {linkings : SymBase → Option SymBase} :
    State.weight { s with externalDecls := Function.update s.externalDecls X (some (T.erase Tu)), genv := genv,
                          linkings := linkings } < s.weight := by
  have hdisj := h.disjoint
  rw [hk] at hdisj
  show (s.k.map (Item.weight (Function.update s.externalDecls X (some (T.erase Tu))))).sum <
    (s.k.map (Item.weight s.externalDecls)).sum
  rw [hk, List.map_cons, List.map_cons, weight_update hdisj, List.sum_cons, List.sum_cons, Item.weight, Item.weight,
    Function.update_self, hT]
  have hcard := Finset.card_erase_lt_of_mem hTu
  simp only [Option.getD_some]
  omega

/-- Other items for the same symbols. -/
theorem Inv.items (h : Inv g s₀ s) {k : List Item} (howes : ∀ h' Y, Owes k h' Y ↔ Owes s.k h' Y)
    (hdisj : (k.map Item.ids).Pairwise Disjoint) (hrunning : ∀ e, .stop e ∉ k) : Inv g s₀ { s with k := k } := by
  have hpend : ∀ Y, Pending k Y ↔ Pending s.k Y := fun Y => exists_congr fun h' => howes h' Y
  refine { typed := h.typed, located := ?_, declared := ?_, distinct := ?_, disjoint := hdisj, running := hrunning,
           owed := ?_, mapped := ?_, warned := ?_, errors := ?_ }
  · exact fun Y hY => h.located Y ((hpend Y).mp hY)
  · exact fun Y hY => h.declared Y ((hpend Y).mp hY)
  · exact fun Y Z T T' Tu Tu' B hY hZ => h.distinct Y Z T T' Tu Tu' B ((hpend Y).mp hY) ((hpend Z).mp hZ)
  · exact fun h' Y hY => h.owed h' Y ((howes h' Y).mp hY)
  · intro Y Tu B B' href hdef
    rcases h.mapped Y Tu B B' href hdef with ⟨hpending, hrest⟩ | hmap
    · exact .inl ⟨(hpend Y).mpr hpending, hrest⟩
    · exact .inr ⟨hmap.linked, hmap.bound, hmap.left⟩
  · intro Y
    simp only [hpend]
    exact h.warned Y
  · exact fun Y howe hun => (hpend Y).mpr (h.errors Y howe hun)

/-- **A step** keeps the invariant and comes closer to the end, unless it is an error about a symbol for which
    there has to be one. -/
theorem Inv.step (h₀ : (s₀.k.map Item.ids).Pairwise Disjoint) (h : Inv g s₀ s) (ht : Step g s t) :
    (Inv g s₀ t ∧ t.weight < s.weight) ∨ ∃ X, StoppedBy t X ∧ Owes s₀.k .linkErrors X ∧ Unresolved g X := by
  -- a symbol without a definition that is not an error
  have hskip : ∀ {X hd K}, s.k = .resolveCReference X hd :: K → Undefined g X →
      (Owes s₀.k .linkErrors X → ¬Unresolved g X) → ∀ warned : List CId,
      (∀ Y, Y ∈ warned ↔ Y ∈ s.warned ∨ (Y = X ∧ Owes s₀.k .linkWarnings X ∧ Unresolved g X)) →
      Inv g s₀ { s with k := K, warned := warned } := by
    intro X hd K hk hdef herrors warned hwarned
    refine h.pop hk (fun _ _ => rfl) (fun _ => id) (fun Tu B B' _ hB' => ?_) hwarned herrors
    rw [(undefined_iff h.toResolvable).mp hdef] at hB'
    cases hB'
  cases ht with
  | @pick S hd K X hX hk =>
    have hdisj := h.disjoint
    rw [hk, List.map_cons, List.pairwise_cons] at hdisj
    refine .inl ⟨h.items (fun h' Y => by rw [hk]; exact owes_pick hX) ?_ fun e he => ?_, ?_⟩
    · simp only [List.map_cons, List.pairwise_cons, List.mem_cons, forall_eq_or_imp]
      refine ⟨⟨?_, fun a ha => ?_⟩, fun a ha => ?_, hdisj.2⟩
      · simp [Item.ids]
      · exact Disjoint.mono_left (Finset.singleton_subset_iff.mpr hX) (hdisj.1 a ha)
      · exact Disjoint.mono_left (Finset.erase_subset X S) (hdisj.1 a ha)
    · simp only [List.mem_cons, reduceCtorEq, false_or] at he
      exact h.running e (hk ▸ List.mem_cons_of_mem _ he)
    · have hsum := Finset.add_sum_erase S (fun Y => ((s.externalDecls Y).getD ∅).card + 2) hX
      simp only [State.weight, hk, List.map_cons, List.sum_cons, Item.weight]
      omega
  | @done hd K hk =>
    have hdisj := h.disjoint
    rw [hk, List.map_cons, List.pairwise_cons] at hdisj
    refine .inl ⟨h.items (fun h' Y => by rw [hk]; exact owes_done) hdisj.2 fun e he => ?_,
      weight_pop hk (by simp [Item.weight]) rfl⟩
    exact h.running e (hk ▸ List.mem_cons_of_mem _ he)
  | @linkBase X hd K T Tu B B' hk hT hTu hdef hB hlink hnew =>
    refine .inl ⟨h.unit hk hT (fun Tu' Y hne => ?_) (fun C hC => ?_) (fun C hC => ?_) hTu (fun C C' hC _ hC' => ?_),
      h.weight_unit hk hT hTu⟩
    · by_cases hTu' : Tu' = Tu
      · subst hTu'
        rw [Function.update_self, Function.update_of_ne (hne.resolve_left fun h => h rfl)]
      · rw [Function.update_of_ne hTu']
    · refine Function.update_of_ne (fun hCB => ?_) _ _
      subst hCB
      rw [hC hB] at hlink
      cases hlink
    · refine Function.update_of_ne (fun hCB => ?_) _ _
      subst hCB
      exact hC hnew
    · cases hB.symm.trans hC
      cases hdef.symm.trans hC'
      refine ⟨Function.update_self .., ?_⟩
      rw [Function.update_self, Function.update_self]
  | @directBase X hd K T Tu B B' hk hT hTu hdef hB hlink =>
    refine .inl ⟨h.unit hk hT (fun _ _ _ => rfl) (fun _ _ => rfl) (fun _ _ => rfl) hTu (fun C C' hC hClink _ => ?_),
      h.weight_unit hk hT hTu⟩
    cases hB.symm.trans hC
    rw [hlink] at hClink
    cases hClink
  | @resolved X hd K hk hT hdef =>
    have hdisj := h.disjoint
    rw [hk] at hdisj
    refine .inl ⟨h.pop hk (fun Y hne => Function.update_of_ne hne _ _) (fun T hT' => ?_) (fun Tu B B' href hB' => ?_)
      (fun Y => ?_) ?_, weight_pop hk (by simp [Item.weight]) (weight_update hdisj none)⟩
    · rw [Function.update_self] at hT'
      cases hT'
    · rcases h.mapped X Tu B B' href hB' with ⟨-, ⟨T, hT', hTu⟩, -⟩ | hmap
      · cases hT.symm.trans hT'
        simp at hTu
      · exact hmap
    · exact ⟨.inl, fun hY => hY.resolve_right fun hY => hdef hY.2.2.1⟩
    · exact fun _ hun => hdef hun.1
  | @mangled X hd K hk hdef hX =>
    have hnot : ¬Unresolved g X := fun hun => absurd (hun.2.symm.trans hX) (by decide)
    refine .inl ⟨hskip hk hdef (fun _ => hnot) s.warned fun Y => ?_, weight_pop hk (by simp [Item.weight]) rfl⟩
    exact ⟨.inl, fun hY => hY.resolve_right fun hY => hnot hY.2.2⟩
  | @linkErrors X K hk hdef hX hL => exact .inr ⟨X, ⟨s.k, rfl⟩, h.owed _ X (owes_head hk), hdef, hX⟩
  | @linkWarnings X K hk hdef hX hL =>
    have howe := h.owed _ X (owes_head hk)
    have herrors : Owes s₀.k .linkErrors X → ¬Unresolved g X := fun h' => nomatch owes_unique h₀ howe h'
    refine .inl ⟨hskip hk hdef herrors (X :: s.warned) fun Y => ?_, weight_pop hk (by simp [Item.weight]) rfl⟩
    rw [List.mem_cons, or_comm]
    exact or_congr_right ⟨fun hY => ⟨hY, howe, hdef, hX⟩, And.left⟩
  | @linkIgnore X K hk hdef hX hL =>
    have howe := h.owed _ X (owes_head hk)
    have herrors : Owes s₀.k .linkErrors X → ¬Unresolved g X := fun h' => nomatch owes_unique h₀ howe h'
    refine .inl ⟨hskip hk hdef herrors s.warned fun Y => ?_, weight_pop hk (by simp [Item.weight]) rfl⟩
    exact ⟨.inl, fun hY => hY.resolve_right fun hY => nomatch owes_unique h₀ howe hY.2.1⟩

/-- The start of a run. -/
theorem Resolvable.inv (h : Resolvable g s₀) (h' : Running s₀) : Inv g s₀ s₀ where
  toResolvable := h
  disjoint := h'.disjoint
  running := h'.running
  owed := fun _ _ => id
  mapped := fun _ _ _ _ href _ => .inl ⟨href.pending, href.declares, href.base⟩
  warned := by
    intro X
    simp only [h'.quiet, List.not_mem_nil, false_iff]
    exact fun hX => hX.2.2 ⟨_, hX.1⟩
  errors := fun _ howe _ => ⟨_, howe⟩

/-- The runs from `s₀` end so: with nothing left, or with an error about a symbol for which there has to be
    one. -/
def Ended (g : GlobalCell) (s₀ t : State) : Prop :=
  (t.k = [] ∧ Inv g s₀ t) ∨ ∃ X, StoppedBy t X ∧ Owes s₀.k .linkErrors X ∧ Unresolved g X

/-- **Every run ends.** -/
theorem inevitably_end (h : Resolvable g s₀) (h' : Running s₀) : Inevitably (Step g) (Ended g s₀) s₀ := by
  refine Inevitably.of_index (fun n t => (Inv g s₀ t ∧ t.weight < n) ∨
    ∃ X, StoppedBy t X ∧ Owes s₀.k .linkErrors X ∧ Unresolved g X) ?_ (.inl ⟨h.inv h', Nat.lt_succ_self s₀.weight⟩)
  rintro n t (⟨ht, hn⟩ | hstop)
  · by_cases hk : t.k = []
    · exact .inl (.inl ⟨hk, ht⟩)
    · exact .inr ⟨ht.progress hk, fun u hu => ⟨t.weight, hn, ht.step h'.disjoint hu⟩⟩
  · exact .inl (.inr hstop)

/-- With nothing left, there was no error to report, and there have been all the warnings. -/
theorem Inv.done (h : Inv g s₀ t) (hk : t.k = []) : (∀ X, Owes s₀.k .linkErrors X → ¬Unresolved g X) ∧
    ∀ X, X ∈ t.warned ↔ Owes s₀.k .linkWarnings X ∧ Unresolved g X := by
  have hnone : ∀ X, ¬Pending t.k X := by simp [hk, Pending, Owes]
  exact ⟨fun X howe hun => hnone X (h.errors X howe hun), fun X => by simp [h.warned, hnone]⟩

/-- With nothing left, the references to symbols that are defined are resolved. -/
theorem Inv.resolved (h : Inv g s₀ t) (hk : t.k = []) {X : CId} {Tu : String} {B B' : SymBase}
    (href : Reference s₀ X Tu B) (hdef : g.externalDefs.lookup X = some B') : Mapped t X Tu B B' := by
  refine (h.mapped X Tu B B' href hdef).resolve_left fun hp => ?_
  simp [hk, Pending, Owes] at hp

/-- **Some run reports it**: the first item may be any symbol of the first set. -/
theorem exists_stoppedBy {S : Finset CId} {K : List Item} {X : CId} (hk : s.k = .resolveCReferences S .linkErrors :: K)
    (hX : X ∈ S) (hun : Unresolved g X) (hL : g.externalDeclsLoc.lookup X ≠ none) :
    ∃ t, Relation.ReflTransGen (Step g) s t ∧ StoppedBy t X :=
  ⟨_, .tail (.single (.pick hX hk)) (.linkErrors rfl hun.1 hun.2 hL), _, rfl⟩

end Run

end Resolve

end CSemantics
