/-
  Runs that are merged from the front.

  Two neighbours may make one (`j x y = some z`), and a list is NORMAL when no two neighbours do.  `mergeHead`
  merges at the front only: the head takes the next as long as it can, and then the walk STOPS.  Put two
  normal lists one behind the other: if the first is a single run, the front is all there is to merge.  Otherwise
  the head is stuck at once, and whether the last of the first list and the first of the second make one
  is never asked.

  What a merged run does to its neighbours is what its ends did (`EndsKept`).

      mergeHead_cons_stuck     a single run in front of a list that is stuck
      mergeAll_append_stuck    more than one in front
      normal_mergeAll_append   when the list is normal
-/
import Mathlib.Data.List.Chain

namespace CSemantics.RunMerge

variable {α : Type} {j : α → α → Option α} {x y z : α} {L L' : List α}

/-- The head takes the next as long as it can. -/
def mergeHead (j : α → α → Option α) (x : α) : List α → List α
  | [] => [x]
  | y :: L =>
    match j x y with
    | some z => mergeHead j z L
    | none => x :: y :: L

def mergeAll (j : α → α → Option α) : List α → List α
  | [] => []
  | x :: L => mergeHead j x L

/-- No two neighbours make one. -/
def Normal (j : α → α → Option α) (L : List α) : Prop := L.IsChain fun x y => j x y = none

/-- The head does not take the next. -/
def Stuck (j : α → α → Option α) : List α → Prop
  | x :: y :: _ => j x y = none
  | _ => True

/-- A merged run merges with what its two ends merge with. -/
structure EndsKept (j : α → α → Option α) : Prop where
  left : ∀ x y z, j x y = some z → ∀ w, j w z = none ↔ j w x = none
  right : ∀ x y z, j x y = some z → ∀ w, j z w = none ↔ j y w = none

theorem Normal.stuck (h : Normal j L) : Stuck j L := by
  match L, h with
  | [], _ => trivial
  | [_], _ => trivial
  | x :: y :: L, h =>
    unfold Normal at h
    rw [List.isChain_cons_cons] at h
    exact h.1

theorem mergeHead_of_none (h : j x y = none) : mergeHead j x (y :: L) = x :: y :: L := by
  rw [mergeHead, h]

theorem mergeHead_of_some (h : j x y = some z) : mergeHead j x (y :: L) = mergeHead j z L := by
  rw [mergeHead, h]

/-- A head that is stuck stays. -/
theorem mergeHead_of_stuck (h : Stuck j (x :: L)) : mergeHead j x L = x :: L := by
  cases L with
  | nil => rfl
  | cons y L => exact mergeHead_of_none h

/-- A run that the head of a stuck list goes into is stuck there as well. -/
theorem EndsKept.stuck_cons (hj : EndsKept j) (h : j x y = some z) (hL : Stuck j (y :: L)) : Stuck j (z :: L) := by
  cases L with
  | nil => trivial
  | cons w L =>
    show j z w = none
    rw [hj.right x y z h w]
    exact hL

/-- **A single run in front of a list that is stuck**: it takes the head, or nothing. -/
theorem mergeHead_cons_stuck (hj : EndsKept j) (hL : Stuck j (y :: L)) :
    (j x y = none ∧ mergeHead j x (y :: L) = x :: y :: L) ∨
      ∃ z, j x y = some z ∧ mergeHead j x (y :: L) = z :: L := by
  cases h : j x y with
  | none => exact .inl ⟨rfl, mergeHead_of_none h⟩
  | some z =>
    refine .inr ⟨z, rfl, ?_⟩
    rw [mergeHead_of_some h]
    exact mergeHead_of_stuck (hj.stuck_cons h hL)

/-- **More than one in front**: nothing is merged. -/
theorem mergeAll_append_stuck (hL : Stuck j (x :: y :: L)) : mergeAll j (x :: y :: L ++ L') = x :: y :: L ++ L' :=
  mergeHead_of_none hL

/-- A normal list whose head has taken one more in front is normal as before. -/
theorem EndsKept.normal_cons (hj : EndsKept j) (h : j x y = some z) : Normal j (z :: L) ↔ Normal j (y :: L) := by
  unfold Normal
  cases L with
  | nil => simp
  | cons w L => rw [List.isChain_cons_cons, List.isChain_cons_cons, hj.right x y z h w]

/-- **When the list is normal**: both parts are, and either the first part is a single run or its last run and
    the first run of the second part do not make one. -/
theorem normal_mergeAll_append (hj : EndsKept j) (hx : Stuck j (x :: L)) (hy : Stuck j (y :: L')) :
    Normal j (mergeAll j (x :: L ++ y :: L')) ↔
      Normal j (x :: L) ∧ Normal j (y :: L') ∧ (L = [] ∨ ∀ l ∈ (x :: L).getLast?, j l y = none) := by
  cases L with
  | nil =>
    have hsingle : Normal j [x] := List.isChain_singleton x
    show Normal j (mergeHead j x (y :: L')) ↔ _
    rcases mergeHead_cons_stuck (x := x) hj hy with ⟨hnone, heq⟩ | ⟨z, hsome, heq⟩
    · rw [heq]
      have hcons : Normal j (x :: y :: L') ↔ j x y = none ∧ Normal j (y :: L') := List.isChain_cons_cons
      rw [hcons]
      exact ⟨fun h => ⟨hsingle, h.2, .inl rfl⟩, fun h => ⟨hnone, h.2.1⟩⟩
    · rw [heq, hj.normal_cons hsome]
      exact ⟨fun h => ⟨hsingle, h, .inl rfl⟩, fun h => h.2.1⟩
  | cons w L =>
    rw [mergeAll_append_stuck hx]
    unfold Normal
    rw [List.isChain_append]
    constructor
    · rintro ⟨hl, hr, hlink⟩
      exact ⟨hl, hr, .inr fun l hl => hlink l hl y rfl⟩
    · rintro ⟨hl, hr, hlink⟩
      refine ⟨hl, hr, fun l hl y' hy' => ?_⟩
      cases hy'
      exact hlink.resolve_left (by simp) l hl

end CSemantics.RunMerge
