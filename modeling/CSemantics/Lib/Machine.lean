/-
  Machines that take one step after another.

  A machine is a function that gives the next state, or the reason why there is none.  Since it is a
  FUNCTION, a run has one way to go on: of two runs from one state one continues the other, and two
  runs that cannot go on have stopped in the same state.

  A machine that reads inputs is a function of a state and an input, and its run on a list is the fold.
  What holds of every run is shown input by input, from the front, with the inputs read so far in hand.
-/
import Mathlib.Logic.Relation
import Mathlib.Data.List.Basic

namespace CSemantics

variable {σ ε : Type} {step : σ → Except ε σ} {s t u : σ}

/-- Any number of steps. -/
def Steps (step : σ → Except ε σ) : σ → σ → Prop := Relation.ReflTransGen fun s t => step s = .ok t

/-- No step goes on from here. -/
def Stopped (step : σ → Except ε σ) (s : σ) : Prop := ∃ e, step s = .error e

/-- `n` steps, if there are as many. -/
def runSteps (step : σ → Except ε σ) : Nat → σ → Except ε σ
  | 0, s => .ok s
  | n + 1, s => match step s with
    | .ok t => runSteps step n t
    | .error e => .error e

namespace Steps

theorem refl (s : σ) : Steps step s s := Relation.ReflTransGen.refl

theorem trans (h : Steps step s t) (h' : Steps step t u) : Steps step s u := Relation.ReflTransGen.trans h h'

theorem head (h : step s = .ok t) (h' : Steps step t u) : Steps step s u := Relation.ReflTransGen.head h h'

theorem single (h : step s = .ok t) : Steps step s t := Relation.ReflTransGen.single h

theorem of_runSteps {n : Nat} (h : runSteps step n s = .ok t) : Steps step s t := by
  induction n generalizing s with
  | zero =>
    cases h
    exact refl _
  | succ n ih =>
    unfold runSteps at h
    cases hs : step s with
    | error e =>
      rw [hs] at h
      cases h
    | ok u =>
      rw [hs] at h
      exact head hs (ih h)

/-- A run from a state where the machine has stopped stays there. -/
theorem eq_of_stopped (h : Steps step s t) (hs : Stopped step s) : t = s := by
  obtain ⟨e, he⟩ := hs
  rcases Relation.ReflTransGen.cases_head h with rfl | ⟨u, hu, -⟩
  · rfl
  · cases he.symm.trans hu

/-- **Two runs that have stopped** have stopped in the same state. -/
theorem unique (h : Steps step s t) (h' : Steps step s u) (ht : Stopped step t) (hu : Stopped step u) : t = u := by
  have hright : Relator.RightUnique fun a b => step a = .ok b := by
    intro a b c hb hc
    cases hb.symm.trans hc
    rfl
  rcases Relation.ReflTransGen.total_of_right_unique hright h h' with htu | hut
  · exact (eq_of_stopped htu ht).symm
  · exact eq_of_stopped hut hu

end Steps

/-! ## Machines that read inputs -/

section Inputs

variable {α : Type} {f : σ → α → Except ε σ} {l : List α} {a : α}

theorem foldlM_cons_ok : (a :: l).foldlM f s = .ok t ↔ ∃ u, f s a = .ok u ∧ l.foldlM f u = .ok t := by
  rw [List.foldlM_cons]
  cases f s a with
  | error e => simp [bind, Except.bind]
  | ok u => simp [bind, Except.bind]

/-- **What each input keeps, every run keeps**; the property may speak of the inputs read so far. -/
theorem foldlM_induction {P : List α → σ → Prop}
    (hstep : ∀ pre a u v, P pre u → f u a = .ok v → P (pre ++ [a]) v) {p : List α} (hs : P p s)
    (h : l.foldlM f s = .ok t) : P (p ++ l) t := by
  induction l generalizing s p with
  | nil =>
    cases h
    rw [List.append_nil]
    exact hs
  | cons a l ih =>
    obtain ⟨u, hu, ht⟩ := foldlM_cons_ok.mp h
    have := ih (hstep p a s u hs hu) ht
    rwa [List.append_assoc] at this

/-- What each input keeps, every run keeps. -/
theorem foldlM_invariant {P : σ → Prop} (hstep : ∀ a ∈ l, ∀ u v, P u → f u a = .ok v → P v) (hs : P s)
    (h : l.foldlM f s = .ok t) : P t := by
  induction l generalizing s with
  | nil =>
    cases h
    exact hs
  | cons a l ih =>
    obtain ⟨u, hu, ht⟩ := foldlM_cons_ok.mp h
    exact ih (fun b hb => hstep b (List.mem_cons_of_mem a hb)) (hstep a List.mem_cons_self s u hs hu) ht

/-- A run that stops early stops at an input. -/
theorem foldlM_error {e : ε} (h : l.foldlM f s = .error e) :
    ∃ pre a post u, l = pre ++ a :: post ∧ pre.foldlM f s = .ok u ∧ f u a = .error e := by
  induction l generalizing s with
  | nil => cases h
  | cons a l ih =>
    rw [List.foldlM_cons] at h
    cases hu : f s a with
    | error e' =>
      rw [hu] at h
      cases h
      exact ⟨[], a, l, s, rfl, rfl, hu⟩
    | ok u =>
      rw [hu] at h
      obtain ⟨pre, b, post, v, rfl, hpre, hb⟩ := ih h
      exact ⟨a :: pre, b, post, v, rfl, foldlM_cons_ok.mpr ⟨u, hu, hpre⟩, hb⟩

end Inputs

end CSemantics
