/-
  What can be reached along the edges of a graph, by a worklist.

  A state has the nodes that are DONE and those still TO DO, and a step takes any node to do: it becomes done
  and those it has edges to become nodes to do, unless they are done.  Whatever nodes are taken, the
  worklist ends, and what is done then is what can be reached from the roots:

      sound      what is done or to do can be reached
      closed     the edges of what is done lead to what is done or to do
      measure    the nodes that are not done yet

  The graph is finite: all nodes that matter are in a set `U`.
-/
import CSemantics.Lib.Inevitable
import Mathlib.Data.Finset.Card
import Mathlib.Data.Finset.SDiff

namespace CSemantics.Worklist

variable {α : Type} [DecidableEq α] (next : α → Finset α)

structure State (α : Type) where
  done : Finset α
  todo : Finset α

/-- Take any node to do. -/
inductive Step : State α → State α → Prop
  | take {s : State α} {a : α} (ha : a ∈ s.todo) :
      Step s ⟨insert a s.done, (s.todo ∪ next a) \ insert a s.done⟩

/-- There is an edge. -/
def Edge (a b : α) : Prop := b ∈ next a

/-- `x` can be reached from one of the roots. -/
def Reachable (roots : Finset α) (x : α) : Prop := ∃ r ∈ roots, Relation.ReflTransGen (Edge next) r x

/-- What holds of all states of a run that starts with the roots. -/
structure Inv (roots U : Finset α) (s : State α) : Prop where
  disjoint : Disjoint s.done s.todo
  start : roots ⊆ s.done ∪ s.todo
  closed : ∀ a ∈ s.done, next a ⊆ s.done ∪ s.todo
  sound : ∀ a ∈ s.done ∪ s.todo, Reachable next roots a
  bounded : s.done ∪ s.todo ⊆ U

variable {next} {roots U : Finset α} {s t : State α}

theorem inv_start (hU : roots ⊆ U) : Inv next roots U ⟨∅, roots⟩ where
  disjoint := Finset.disjoint_empty_left _
  start := by simp
  closed := by simp
  sound := by
    intro a ha
    rw [Finset.empty_union] at ha
    exact ⟨a, ha, .refl⟩
  bounded := by simpa using hU

/-- **A step keeps the invariant** and leaves one node less that is not done. -/
theorem inv_step (hclosed : ∀ a ∈ U, next a ⊆ U) (hs : Inv next roots U s) (h : Step next s t) :
    Inv next roots U t ∧ (U \ t.done).card < (U \ s.done).card := by
  cases h with
  | @take a ha =>
    have haU : a ∈ U := hs.bounded (Finset.mem_union_right _ ha)
    have hadone : a ∉ s.done := fun h => (Finset.disjoint_left.mp hs.disjoint) h ha
    -- what was done or to do is so still, and so are the edges of `a`
    have hcover : insert a s.done ∪ (s.todo ∪ next a) \ insert a s.done = s.done ∪ s.todo ∪ next a := by
      rw [Finset.union_sdiff_self_eq_union]
      ext x
      simp only [Finset.mem_union, Finset.mem_insert]
      constructor
      · rintro ((rfl | h) | (h | h))
        · exact .inl (.inr ha)
        · exact .inl (.inl h)
        · exact .inl (.inr h)
        · exact .inr h
      · rintro ((h | h) | h)
        · exact .inl (.inr h)
        · exact .inr (.inl h)
        · exact .inr (.inr h)
    constructor
    · constructor
      · exact Finset.disjoint_sdiff
      · rw [hcover]
        exact hs.start.trans Finset.subset_union_left
      · intro b hb
        rw [hcover]
        rcases Finset.mem_insert.mp hb with rfl | hb
        · exact Finset.subset_union_right
        · exact (hs.closed b hb).trans Finset.subset_union_left
      · intro b hb
        rw [hcover] at hb
        rcases Finset.mem_union.mp hb with hb | hb
        · exact hs.sound b hb
        · obtain ⟨r, hr, hra⟩ := hs.sound a (Finset.mem_union_right _ ha)
          exact ⟨r, hr, hra.tail hb⟩
      · rw [hcover]
        exact Finset.union_subset hs.bounded (hclosed a haU)
    · refine Finset.card_lt_card (Finset.ssubset_iff_subset_ne.mpr ⟨?_, fun heq => ?_⟩)
      · exact Finset.sdiff_subset_sdiff subset_rfl (Finset.subset_insert _ _)
      · have : a ∈ U \ insert a s.done := heq ▸ Finset.mem_sdiff.mpr ⟨haU, hadone⟩
        simp at this

/-- With nothing to do, what is done is what can be reached. -/
theorem Inv.done_iff (hs : Inv next roots U s) (h : s.todo = ∅) (x : α) : x ∈ s.done ↔ Reachable next roots x := by
  have hall : s.done ∪ s.todo = s.done := by rw [h, Finset.union_empty]
  constructor
  · intro hx
    exact hs.sound x (Finset.mem_union_left _ hx)
  · rintro ⟨r, hr, hrx⟩
    induction hrx with
    | refl => exact hall ▸ hs.start hr
    | tail _ hab ih => exact hall ▸ hs.closed _ ih hab

/-- **Every worklist ends** with what can be reached. -/
theorem inevitably_reachable (hroots : roots ⊆ U) (hclosed : ∀ a ∈ U, next a ⊆ U) :
    Inevitably (Step next) (fun s => s.todo = ∅ ∧ ∀ x, x ∈ s.done ↔ Reachable next roots x) ⟨∅, roots⟩ := by
  refine Inevitably.of_index (fun n s => Inv next roots U s ∧ (U \ s.done).card = n) ?_ ⟨inv_start hroots, rfl⟩
  rintro n s ⟨hs, rfl⟩
  rcases Finset.eq_empty_or_nonempty s.todo with h | ⟨a, ha⟩
  · exact .inl ⟨h, hs.done_iff h⟩
  · refine .inr ⟨⟨_, .take ha⟩, fun t ht => ?_⟩
    obtain ⟨ht', hlt⟩ := inv_step hclosed hs ht
    exact ⟨_, hlt, ht', rfl⟩

end CSemantics.Worklist
