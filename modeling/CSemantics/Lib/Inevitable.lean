/-
  What every run of a transition system comes to.

  The rules of a rewriting system may apply in any order, so a state has several next states.  `P` is
  INEVITABLE from a state when no run gets stuck or goes on for ever before a state with `P`: either
  `P` holds now, or there is a next state and `P` is inevitable from each.

  To prove it: an invariant that bounds the steps left, and a next state as long as `P` does not hold
  (`Inevitably.of_index`).
-/
import Mathlib.Logic.Relation

namespace CSemantics

variable {σ : Type} {R : σ → σ → Prop} {P Q : σ → Prop} {s t : σ}

/-- Every run from here comes to a state with `P`. -/
inductive Inevitably (R : σ → σ → Prop) (P : σ → Prop) : σ → Prop
  | now {s : σ} (h : P s) : Inevitably R P s
  | next {s : σ} (h : ∃ t, R s t) (h' : ∀ t, R s t → Inevitably R P t) : Inevitably R P s

namespace Inevitably

theorem mono (hPQ : ∀ s, P s → Q s) (h : Inevitably R P s) : Inevitably R Q s := by
  induction h with
  | now h => exact .now (hPQ _ h)
  | next h _ ih => exact .next h ih

/-- What is inevitable after something inevitable is inevitable. -/
theorem trans (h : Inevitably R P s) (hPQ : ∀ t, P t → Inevitably R Q t) : Inevitably R Q s := by
  induction h with
  | now h => exact hPQ _ h
  | next h _ ih => exact .next h ih

/-- **An invariant with the number of steps left** in it, which every step makes smaller as long as `P`
    does not hold. -/
theorem of_index (I : Nat → σ → Prop)
    (hstep : ∀ n s, I n s → P s ∨ (∃ t, R s t) ∧ ∀ t, R s t → ∃ m < n, I m t) {n : Nat} (hs : I n s) :
    Inevitably R P s := by
  induction n using Nat.strongRecOn generalizing s with
  | ind n ih =>
    rcases hstep n s hs with hP | ⟨hex, hall⟩
    · exact .now hP
    · refine .next hex fun t ht => ?_
      obtain ⟨m, hlt, hI⟩ := hall t ht
      exact ih m hlt hI

/-- **A simulation**: where each step is a step of a simpler system, and there is one whenever the simpler
    system has one, what is inevitable there is inevitable here. -/
theorem comap {τ : Type} {R' : τ → τ → Prop} {P' : τ → Prop} {f : σ → τ} (hstep : ∀ s t, R s t → R' (f s) (f t))
    (hprogress : ∀ s u, R' (f s) u → ∃ t, R s t) {s : σ} (h : Inevitably R' P' (f s)) :
    Inevitably R (fun s => P' (f s)) s := by
  generalize hs : f s = u at h
  induction h generalizing s with
  | now h =>
    subst hs
    exact .now h
  | next h _ ih =>
    subst hs
    obtain ⟨u, hu⟩ := h
    exact .next (hprogress s u hu) fun t ht => ih (f t) (hstep s t ht) rfl

/-- A run that can go no further has come to `P`, if nothing follows `P`. -/
theorem at_end (hP : ∀ s t, P s → ¬R s t) (h : Inevitably R P s) (hst : Relation.ReflTransGen R s t)
    (ht : ∀ u, ¬R t u) : P t := by
  induction h with
  | now h =>
    rcases Relation.ReflTransGen.cases_head hst with rfl | ⟨u, hu, -⟩
    · exact h
    · exact absurd hu (hP _ u h)
  | next h _ ih =>
    rcases Relation.ReflTransGen.cases_head hst with rfl | ⟨u, hu, hut⟩
    · obtain ⟨v, hv⟩ := h
      exact absurd hv (ht v)
    · exact ih u hu hut

/-- There is a run to such a state. -/
theorem exists_reach (h : Inevitably R P s) : ∃ t, Relation.ReflTransGen R s t ∧ P t := by
  induction h with
  | now h => exact ⟨_, .refl, h⟩
  | next h _ ih =>
    obtain ⟨u, hu⟩ := h
    obtain ⟨t, ht, hP⟩ := ih u hu
    exact ⟨t, .head hu ht, hP⟩

end Inevitably

end CSemantics
