/-
  Looking something up along a hierarchy, where what is found can hide what is found elsewhere.

  A node that declares the thing is what the lookup finds there; any other node merges what its bases find.
  A result is nothing, ONE node, or an ambiguity between several, and of two results

      one is hidden      when each of its nodes is below a node of the other: the other is kept
      both are the same  node: that is kept
      otherwise          they are ambiguous, together

  Ambiguity is not the end: a later result can hide all of it.  Still the order of the bases does not matter.
  What is found in the end is the TOP of the declaring nodes that are reached, if they have one: a result
  keeps a part of them that no other of them is above.
-/
import Mathlib.Data.Finset.Basic
import Mathlib.Order.RelClasses
import Mathlib.Data.Set.Lattice

namespace CSemantics.Dominance

variable {α : Type} (lt : α → α → Prop)

/-! ## Results -/

inductive Found (α : Type)
  | nothing
  | one (a : α)
  | ambiguous (F : Finset α)

def Found.set : Found α → Finset α
  | .nothing => ∅
  | .one a => {a}
  | .ambiguous F => F

/-- Each of `F` is below one of `G`. -/
def Hidden (F G : Finset α) : Prop := ∀ b ∈ F, ∃ d ∈ G, lt b d

open Classical in
/-- Two results, as one. -/
noncomputable def merge [DecidableEq α] (r s : Found α) : Found α :=
  if Hidden lt s.set r.set then r
  else if Hidden lt r.set s.set then s
  else if r = s ∧ ∃ a, r = .one a then r
  else .ambiguous (r.set ∪ s.set)

/-- `m` is above all others of `R`. -/
structure Top (R : Set α) (m : α) : Prop where
  mem : m ∈ R
  above : ∀ a ∈ R, a = m ∨ lt a m

/-- A result stands for the set `R`: it has nodes of `R` that cover all of it, and is ambiguous only if none of
    them is the top. -/
structure Represents (r : Found α) (R : Set α) : Prop where
  sub : ∀ a ∈ r.set, a ∈ R
  cover : ∀ a ∈ R, a ∈ r.set ∨ ∃ d ∈ r.set, lt a d
  nonempty : ∀ F, r = .ambiguous F → F.Nonempty
  noTop : ∀ F m, r = .ambiguous F → ¬ Top lt R m

variable {lt} {r s : Found α} {R S : Set α}

theorem represents_nothing : Represents lt (.nothing : Found α) ∅ where
  sub := by simp [Found.set]
  cover := by simp
  nonempty := by simp
  noTop := by simp

theorem represents_one (a : α) : Represents lt (.one a) {a} where
  sub := by simp [Found.set]
  cover := by simp [Found.set]
  nonempty := by simp
  noTop := by simp

/-- **One node is found exactly when it is the top.** -/
theorem Represents.eq_one_iff [IsStrictOrder α lt] (h : Represents lt r R) {m : α} : r = .one m ↔ Top lt R m := by
  constructor
  · rintro rfl
    refine ⟨h.sub m (by simp [Found.set]), ?_⟩
    intro a ha
    simpa [Found.set] using h.cover a ha
  · intro hm
    cases r with
    | nothing =>
      have := h.cover m hm.mem
      simp [Found.set] at this
    | one a =>
      -- the top is covered by `a`, which is not above it
      have ha : a ∈ R := h.sub a (by simp [Found.set])
      rcases hm.above a ha with rfl | hlt
      · rfl
      · have hcover : m = a ∨ lt m a := by simpa [Found.set] using h.cover m hm.mem
        rcases hcover with rfl | hgt
        · rfl
        · exact absurd hgt (asymm hlt)
    | ambiguous F => exact absurd hm (h.noTop F m rfl)

theorem Represents.eq_nothing_iff (h : Represents lt r R) : r = .nothing ↔ R = ∅ := by
  constructor
  · rintro rfl
    ext a
    have := h.cover a
    simpa [Found.set] using this
  · rintro rfl
    cases r with
    | nothing => rfl
    | one a => exact absurd (h.sub a (by simp [Found.set])) (Set.notMem_empty a)
    | ambiguous F =>
      obtain ⟨a, ha⟩ := h.nonempty F rfl
      exact absurd (h.sub a ha) (Set.notMem_empty a)

/-- Two results that stand for the same set say the same. -/
theorem Represents.agree [IsStrictOrder α lt] (hr : Represents lt r R) (hs : Represents lt s R) :
    (r = .nothing ∧ s = .nothing) ∨ (∃ a, r = .one a ∧ s = .one a) ∨ ∃ F G, r = .ambiguous F ∧ s = .ambiguous G := by
  cases r with
  | nothing => exact .inl ⟨rfl, hs.eq_nothing_iff.mpr (hr.eq_nothing_iff.mp rfl)⟩
  | one a => exact .inr (.inl ⟨a, rfl, hs.eq_one_iff.mpr (hr.eq_one_iff.mp rfl)⟩)
  | ambiguous F =>
    cases s with
    | nothing => cases hr.eq_nothing_iff.mpr (hs.eq_nothing_iff.mp rfl)
    | one a => cases hr.eq_one_iff.mpr (hs.eq_one_iff.mp rfl)
    | ambiguous G => exact .inr (.inr ⟨F, G, rfl, rfl⟩)

/-! ## Merging -/

theorem Top.of_union_left {m : α} (hm : Top lt (R ∪ S) m) (hR : m ∈ R) : Top lt R m :=
  ⟨hR, fun a ha => hm.above a (.inl ha)⟩

theorem Top.of_union_right {m : α} (hm : Top lt (R ∪ S) m) (hS : m ∈ S) : Top lt S m :=
  ⟨hS, fun a ha => hm.above a (.inr ha)⟩

/-- What a result covers is covered by one that hides it. -/
theorem Represents.cover_of_hidden [IsTrans α lt] (hs : Represents lt s S) (hid : Hidden lt s.set r.set) {a : α}
    (ha : a ∈ S) : ∃ d ∈ r.set, lt a d := by
  rcases hs.cover a ha with h | ⟨d, hd, hlt⟩
  · exact hid a h
  · obtain ⟨e, he, hlt'⟩ := hid d hd
    exact ⟨e, he, IsTrans.trans _ _ _ hlt hlt'⟩

/-- A result that hides another stands for both. -/
theorem Represents.union_of_hidden [IsStrictOrder α lt] (hr : Represents lt r R) (hs : Represents lt s S)
    (hid : Hidden lt s.set r.set) : Represents lt r (R ∪ S) where
  sub := fun a ha => .inl (hr.sub a ha)
  cover := by
    rintro a (ha | ha)
    · exact hr.cover a ha
    · exact .inr (hs.cover_of_hidden hid ha)
  nonempty := hr.nonempty
  noTop := by
    intro F m hF hm
    rcases hm.mem with hR | hS
    · exact hr.noTop F m hF (hm.of_union_left hR)
    · -- a top in `S` would be hidden by a node of `R`
      obtain ⟨d, hd, hlt⟩ := hs.cover_of_hidden hid hS
      rcases hm.above d (.inl (hr.sub d hd)) with rfl | hgt
      · exact irrefl d hlt
      · exact asymm hlt hgt

/-- The top of both results is one of them, or it hides the other. -/
theorem Represents.top_of_union [IsStrictOrder α lt] (hr : Represents lt r R) (hs : Represents lt s S) {m : α}
    (hm : Top lt (R ∪ S) m) (hR : m ∈ R) : Hidden lt s.set r.set ∨ (r = s ∧ r = .one m) := by
  have hone : r = .one m := hr.eq_one_iff.mpr (hm.of_union_left hR)
  by_cases hS : m ∈ S
  · have hone' : s = .one m := hs.eq_one_iff.mpr (hm.of_union_right hS)
    exact .inr ⟨hone.trans hone'.symm, hone⟩
  · refine .inl ?_
    intro b hb
    rcases hm.above b (.inr (hs.sub b hb)) with rfl | hlt
    · exact absurd (hs.sub b hb) hS
    · exact ⟨m, by rw [hone]; simp [Found.set], hlt⟩

section Merging

variable [DecidableEq α]

@[simp] theorem merge_nothing : merge lt r .nothing = r := by
  rw [merge, if_pos]
  intro b hb
  simp [Found.set] at hb

theorem nothing_merge (h : s.set.Nonempty) : merge lt .nothing s = s := by
  obtain ⟨b, hb⟩ := h
  rw [merge, if_neg, if_pos]
  · intro a ha
    simp [Found.set] at ha
  · intro hid
    obtain ⟨d, hd, -⟩ := hid b hb
    simp [Found.set] at hd

/-- **Merging two results stands for the union** of what they stand for. -/
theorem Represents.merge [IsStrictOrder α lt] (hr : Represents lt r R) (hs : Represents lt s S) :
    Represents lt (merge lt r s) (R ∪ S) := by
  unfold Dominance.merge
  split_ifs with h₁ h₂ h₃
  · exact hr.union_of_hidden hs h₁
  · rw [Set.union_comm]
    exact hs.union_of_hidden hr h₂
  · obtain ⟨rfl, a, rfl⟩ := h₃
    constructor
    · exact fun b hb => .inl (hr.sub b hb)
    · rintro b (hb | hb)
      · exact hr.cover b hb
      · exact hs.cover b hb
    · simp
    · simp
  · constructor
    · intro a ha
      rcases Finset.mem_union.mp ha with h | h
      · exact .inl (hr.sub a h)
      · exact .inr (hs.sub a h)
    · rintro a (ha | ha)
      · rcases hr.cover a ha with h | ⟨d, hd, hlt⟩
        · exact .inl (Finset.mem_union_left _ h)
        · exact .inr ⟨d, Finset.mem_union_left _ hd, hlt⟩
      · rcases hs.cover a ha with h | ⟨d, hd, hlt⟩
        · exact .inl (Finset.mem_union_right _ h)
        · exact .inr ⟨d, Finset.mem_union_right _ hd, hlt⟩
    · rintro F hF
      obtain rfl : r.set ∪ s.set = F := by injection hF
      -- had they no node, the first would hide the second
      rw [Finset.nonempty_iff_ne_empty]
      intro hempty
      refine h₁ fun b hb => ?_
      have hb' := Finset.mem_union_right r.set hb
      rw [hempty] at hb'
      exact absurd hb' (Finset.notMem_empty b)
    · intro F m _ hm
      rcases hm.mem with hR | hS
      · rcases hr.top_of_union hs hm hR with hid | ⟨heq, hone⟩
        · exact h₁ hid
        · exact h₃ ⟨heq, m, hone⟩
      · rw [Set.union_comm] at hm
        rcases hs.top_of_union hr hm hS with hid | ⟨heq, hone⟩
        · exact h₂ hid
        · exact h₃ ⟨heq.symm, m, heq.symm.trans hone⟩

/-- Merging the results of a list of nodes. -/
theorem Represents.foldl_merge [IsStrictOrder α lt] {β : Type} (f : β → Found α) (S : β → Set α) (Bs : List β)
    (hf : ∀ B ∈ Bs, Represents lt (f B) (S B)) (hr : Represents lt r R) :
    Represents lt (Bs.foldl (fun r B => Dominance.merge lt r (f B)) r) (R ∪ {a | ∃ B ∈ Bs, a ∈ S B}) := by
  induction Bs generalizing r R with
  | nil => simpa using hr
  | cons B Bs ih =>
    have h := ih (fun B' hB' => hf B' (List.mem_cons_of_mem _ hB')) (hr.merge (hf B List.mem_cons_self))
    have hset : R ∪ S B ∪ {a | ∃ B' ∈ Bs, a ∈ S B'} = R ∪ {a | ∃ B' ∈ B :: Bs, a ∈ S B'} := by
      ext a
      simp only [Set.mem_union, Set.mem_ofPred_eq, List.exists_mem_cons_iff, or_assoc]
    rw [List.foldl_cons, ← hset]
    exact h

end Merging

/-! ## Hierarchies -/

section Hierarchy

variable (bases : α → List α) (declares : α → Prop)

/-- The declaring nodes that the lookup at a node reaches. -/
inductive Reach : α → α → Prop
  | here {C : α} (h : declares C) : Reach C C
  | base {C B A : α} (h : ¬ declares C) (hB : B ∈ bases C) (hA : Reach B A) : Reach C A

variable {bases declares}

theorem reach_of_declares {C A : α} (h : declares C) : Reach bases declares C A ↔ A = C := by
  constructor
  · intro hA
    cases hA with
    | here _ => rfl
    | base hn _ _ => exact absurd h hn
  · rintro rfl
    exact .here h

theorem reach_of_not_declares {C A : α} (h : ¬ declares C) :
    Reach bases declares C A ↔ ∃ B ∈ bases C, Reach bases declares B A := by
  constructor
  · intro hA
    cases hA with
    | here hd => exact absurd hd h
    | base _ hB hA => exact ⟨_, hB, hA⟩
  · rintro ⟨B, hB, hA⟩
    exact .base h hB hA

theorem Reach.last_declares {C A : α} (h : Reach bases declares C A) : declares A := by
  induction h with
  | here h => exact h
  | base _ _ _ ih => exact ih

variable [DecidableEq α] (lt bases declares)

open Classical in
/-- What is found at a node, where the hierarchy has no cycle. -/
noncomputable def lookup (wf : WellFounded fun B D => B ∈ bases D) : α → Found α :=
  wf.fix fun C find =>
    if declares C then .one C
    else (bases C).attach.foldl (fun r B => merge lt r (find B.1 B.2)) .nothing

/-- What is found in a list of bases. -/
noncomputable def lookupBases (wf : WellFounded fun B D => B ∈ bases D) (Bs : List α) : Found α :=
  Bs.foldl (fun r B => merge lt r (lookup lt bases declares wf B)) .nothing

variable {lt bases declares} {wf : WellFounded fun B D => B ∈ bases D}

theorem lookup_of_declares {C : α} (h : declares C) : lookup lt bases declares wf C = .one C := by
  rw [lookup, WellFounded.fix_eq, if_pos h]

theorem lookup_of_not_declares {C : α} (h : ¬ declares C) :
    lookup lt bases declares wf C = lookupBases lt bases declares wf (bases C) := by
  rw [lookup, WellFounded.fix_eq, if_neg h]
  exact List.foldl_attach (f := fun r B => merge lt r (lookup lt bases declares wf B))

theorem represents_lookupBases_of [IsStrictOrder α lt] {Bs : List α}
    (h : ∀ B ∈ Bs, Represents lt (lookup lt bases declares wf B) {A | Reach bases declares B A}) :
    Represents lt (lookupBases lt bases declares wf Bs) {A | ∃ B ∈ Bs, Reach bases declares B A} := by
  have hfold := represents_nothing.foldl_merge _ (fun B => {A | Reach bases declares B A}) Bs h
  rw [Set.empty_union] at hfold
  exact hfold

/-- **The lookup at a node stands for the declaring nodes it reaches.** -/
theorem represents_lookup [IsStrictOrder α lt] (C : α) :
    Represents lt (lookup lt bases declares wf C) {A | Reach bases declares C A} := by
  induction C using wf.induction with
  | _ C ih =>
    by_cases h : declares C
    · rw [lookup_of_declares h]
      have hset : {A | Reach bases declares C A} = {C} := by
        ext A
        exact reach_of_declares h
      rw [hset]
      exact represents_one C
    · rw [lookup_of_not_declares h]
      have hset : {A | Reach bases declares C A} = {A | ∃ B ∈ bases C, Reach bases declares B A} := by
        ext A
        exact reach_of_not_declares h
      rw [hset]
      exact represents_lookupBases_of ih

theorem represents_lookupBases [IsStrictOrder α lt] (Bs : List α) :
    Represents lt (lookupBases lt bases declares wf Bs) {A | ∃ B ∈ Bs, Reach bases declares B A} :=
  represents_lookupBases_of fun B _ => represents_lookup B

end Hierarchy

end CSemantics.Dominance
