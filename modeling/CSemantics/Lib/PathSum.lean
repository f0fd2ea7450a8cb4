/-
  Paths of a graph without cycles, and what their edges add up to.

  An edge has a length, a path is the list of its edges, and the length of a path is the sum.  A node is
  UNAMBIGUOUS when no two paths from it have the same end: then what can be reached from it is a tree, and
  a node has one distance.

  `weight` counts the paths from a node: a traversal that replaces a node by what it has edges to makes the
  sum of the weights smaller.
-/
import Mathlib

namespace CSemantics.PathSum

variable {κ : Type} (next : κ → List (κ × Int))

/-- There is an edge. -/
def Edge (a b : κ) : Prop := b ∈ (next a).map Prod.fst

/-- `p` is a path from `a` to `b`. -/
def IsPath : κ → List (κ × Int) → κ → Prop
  | a, [], b => a = b
  | a, e :: p, b => e ∈ next a ∧ IsPath e.1 p b

/-- The length of a path. -/
def total (p : List (κ × Int)) : Int := (p.map Prod.snd).sum

/-- There is one path. -/
def UniquePath (a b : κ) : Prop := ∃! p, IsPath next a p b

/-- No two paths from here have the same end. -/
def Unambiguous (a : κ) : Prop := ∀ b p q, IsPath next a p b → IsPath next a q b → p = q

variable {next} {a b c : κ} {p q : List (κ × Int)}

@[simp] theorem isPath_nil : IsPath next a [] b ↔ a = b := Iff.rfl

@[simp] theorem isPath_cons {e : κ × Int} : IsPath next a (e :: p) b ↔ e ∈ next a ∧ IsPath next e.1 p b := Iff.rfl

@[simp] theorem total_nil : total ([] : List (κ × Int)) = 0 := rfl

@[simp] theorem total_cons {e : κ × Int} : total (e :: p) = e.2 + total p := rfl

@[simp] theorem total_append : total (p ++ q) = total p + total q := by simp [total]

theorem isPath_append : IsPath next a (p ++ q) c ↔ ∃ b, IsPath next a p b ∧ IsPath next b q c := by
  induction p generalizing a with
  | nil => simp
  | cons e p ih => simp [ih, and_assoc]

/-- A path has one end. -/
theorem IsPath.end_eq (h : IsPath next a p b) (h' : IsPath next a p c) : b = c := by
  induction p generalizing a with
  | nil => exact h.symm.trans h'
  | cons e p ih => exact ih h.2 h'.2

theorem IsPath.reflTransGen (h : IsPath next a p b) : Relation.ReflTransGen (Edge next) a b := by
  induction p generalizing a with
  | nil =>
    obtain rfl : a = b := h
    exact .refl
  | cons e p ih => exact .head (List.mem_map_of_mem h.1) (ih h.2)

theorem exists_isPath_iff : (∃ p, IsPath next a p b) ↔ Relation.ReflTransGen (Edge next) a b := by
  constructor
  · rintro ⟨p, hp⟩
    exact hp.reflTransGen
  · intro h
    induction h using Relation.ReflTransGen.head_induction_on with
    | refl => exact ⟨[], rfl⟩
    | head hedge _ ih =>
      obtain ⟨e, he, rfl⟩ := List.mem_map.mp hedge
      obtain ⟨p, hp⟩ := ih
      exact ⟨e :: p, he, hp⟩

theorem Unambiguous.of_path (h : Unambiguous next a) (hp : IsPath next a p b) : Unambiguous next b := by
  intro c q q' hq hq'
  exact List.append_cancel_left
    (h c _ _ (isPath_append.mpr ⟨b, hp, hq⟩) (isPath_append.mpr ⟨b, hp, hq'⟩))

/-! ## Without cycles -/

variable (wf : WellFounded fun b a => Edge next a b)

include wf in
/-- The only path from a node to itself is the empty one. -/
theorem IsPath.eq_nil (h : IsPath next a p a) : p = [] := by
  cases p with
  | nil => rfl
  | cons e p =>
    have hcycle : Relation.TransGen (Edge next) a a :=
      Relation.TransGen.head' (List.mem_map_of_mem h.1) h.2.reflTransGen
    have hirrefl : ¬Relation.TransGen (fun b a => Edge next a b) a a :=
      fun h => wf.transGen.irrefl.irrefl a h
    exact absurd (Relation.transGen_swap.mp hcycle) hirrefl

/-- The number of paths from a node. -/
noncomputable def weight : κ → Nat :=
  wf.fix fun a w => 1 + ((next a).attach.map fun e => w e.1.1 (List.mem_map_of_mem e.2)).sum

theorem weight_eq (a : κ) : weight wf a = 1 + ((next a).map fun e => weight wf e.1).sum := by
  rw [weight, WellFounded.fix_eq]
  exact congrArg (fun l => 1 + List.sum l) (List.attach_map_val (f := fun e : κ × Int => weight wf e.1))

end CSemantics.PathSum
