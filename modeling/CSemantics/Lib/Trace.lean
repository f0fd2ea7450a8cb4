/-
  Runs of a system with labelled steps.

  A TRACE is a run with everything in it: the state before each step, the label and the state after it.
  Where a step from a good state leads to a good state exactly when the step is PROPER, a trace that starts well
  stays well exactly when all of its steps are proper (`Trace.good_iff`).  The invariant that this rests on may
  use that the states so far are good.
-/
import Mathlib.Data.List.Basic

namespace CSemantics

variable {σ ℓ : Type} {Step : σ → ℓ → σ → Prop} {s t u : σ} {tr : List (σ × ℓ × σ)}

/-- A run from one state to another. -/
inductive Trace (Step : σ → ℓ → σ → Prop) : σ → List (σ × ℓ × σ) → σ → Prop
  | nil (s : σ) : Trace Step s [] s
  | cons {s t u : σ} {l : ℓ} {tr : List (σ × ℓ × σ)} (h : Step s l t) (htr : Trace Step t tr u) :
      Trace Step s ((s, l, t) :: tr) u

namespace Trace

theorem single {l : ℓ} (h : Step s l t) : Trace Step s [(s, l, t)] t := .cons h (.nil t)

theorem append {tr' : List (σ × ℓ × σ)} (h : Trace Step s tr t) (h' : Trace Step t tr' u) :
    Trace Step s (tr ++ tr') u := by
  induction h with
  | nil => exact h'
  | cons hstep _ ih => exact .cons hstep (ih h')

/-- **A trace stays well exactly when its steps are proper.** -/
theorem good_iff {Inv Good : σ → Prop} {Proper : σ → ℓ → Prop}
    (hinv : ∀ s l t, Step s l t → Inv s → Good s → Inv t)
    (hgood : ∀ s l t, Step s l t → Inv s → Good s → (Good t ↔ Proper s l))
    (hs : Inv s) (hs' : Good s) (h : Trace Step s tr u) :
    (∀ e ∈ tr, Good e.2.2) ↔ ∀ e ∈ tr, Proper e.1 e.2.1 := by
  induction h with
  | nil => simp
  | @cons s t u l tr hl _ ih =>
    have hiff := hgood s l t hl hs hs'
    rw [List.forall_mem_cons, List.forall_mem_cons]
    constructor
    · rintro ⟨ht, hall⟩
      exact ⟨hiff.mp ht, (ih (hinv s l t hl hs hs') ht).mp hall⟩
    · rintro ⟨hp, hall⟩
      have ht := hiff.mpr hp
      exact ⟨ht, (ih (hinv s l t hl hs hs') ht).mpr hall⟩

end Trace

end CSemantics
