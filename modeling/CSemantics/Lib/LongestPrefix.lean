/-
  Longest prefixes.

  A reader that takes one element after the other, as long as a test on what it has and what comes next allows it,
  has a longest prefix of its input in some set when the set has with every list all that it begins with, and the
  test says of each list in the set whether the next one is in it too (`munch_longest`).  The lists that can be
  completed to one of a language are such a set (`Viable`).  Where the test says something else, the lists that it
  lets through are a set of their own (`Through`), and a list is its longest prefix iff the test lets it through and
  stops there (`munch_eq_iff`).
-/
import Mathlib.Data.List.Infix

namespace CSemantics.LongestPrefix

variable {α : Type} {S V : List α → Prop} {p q u : List α}

/-- The list begins one of the language. -/
def Viable (S : List α → Prop) (p : List α) : Prop := ∃ t, S (p ++ t)

theorem viable_of_mem (h : S p) : Viable S p := ⟨[], by rwa [List.append_nil]⟩

theorem Viable.of_isPrefix (hpq : p <+: q) (h : Viable S q) : Viable S p := by
  obtain ⟨s, rfl⟩ := hpq
  obtain ⟨t, ht⟩ := h
  exact ⟨s ++ t, by rwa [← List.append_assoc]⟩

/-- The longest list of the set that the input begins with. -/
structure Longest (V : List α → Prop) (u p : List α) : Prop where
  isPrefix : p <+: u
  holds : V p
  longest : ∀ q, q <+: u → V q → q.length ≤ p.length

theorem Longest.unique (h : Longest V u p) (h' : Longest V u q) : p = q := by
  have hlen : p.length = q.length := le_antisymm (h'.longest p h.isPrefix h.holds) (h.longest q h'.isPrefix h'.holds)
  exact (List.prefix_of_prefix_length_le h.isPrefix h'.isPrefix hlen.le).eq_of_length hlen

/-- The longest list of a larger set is the longest of the smaller one when it is in it. -/
theorem Longest.mono {W : List α → Prop} (h : Longest V u p) (hp : W p) (hWV : ∀ q, W q → V q) : Longest W u p where
  isPrefix := h.isPrefix
  holds := hp
  longest q hq hWq := h.longest q hq (hWV q hWq)

/-- One element after the other: what was taken, and what is left. -/
def munch (take : List α → α → Bool) : List α → List α → List α × List α
  | item, [] => (item, [])
  | item, c :: rest => if take item c then munch take (item ++ [c]) rest else (item, c :: rest)

theorem of_isPrefix (hclosed : ∀ p c, V (p ++ [c]) → V p) (hpq : p <+: q) (hq : V q) : V p := by
  obtain ⟨t, rfl⟩ := hpq
  induction t using List.reverseRecOn with
  | nil => rwa [List.append_nil] at hq
  | append_singleton t c ih =>
    rw [← List.append_assoc] at hq
    exact ih (hclosed _ c hq)

/-- **One element after the other gives the longest.** -/
theorem munch_longest {take : List α → α → Bool} (hclosed : ∀ p c, V (p ++ [c]) → V p)
    (hstep : ∀ p c, V p → (take p c = true ↔ V (p ++ [c]))) (u : List α) :
    ∀ {item : List α}, V item → Longest V (item ++ u) (munch take item u).1 := by
  induction u with
  | nil =>
    intro item h
    rw [List.append_nil]
    exact ⟨List.prefix_refl item, h, fun q hq _ => hq.length_le⟩
  | cons c rest ih =>
    intro item h
    rw [munch]
    by_cases htake : take item c = true
    · rw [if_pos htake]
      have hnext := ih ((hstep item c h).1 htake)
      rwa [List.append_assoc] at hnext
    · rw [if_neg htake]
      refine ⟨List.prefix_append item (c :: rest), h, fun q hq hVq => ?_⟩
      -- a longer one would begin with the next element
      show q.length ≤ item.length
      by_contra hlen
      have hitem : item ++ [c] <+: item ++ c :: rest := ⟨rest, by simp⟩
      have hlong : item ++ [c] <+: q :=
        List.prefix_of_prefix_length_le hitem hq (by rw [List.length_append, List.length_singleton]; omega)
      exact htake ((hstep item c h).2 (of_isPrefix hclosed hlong hVq))

open Classical in
/-- There is a longest one. -/
theorem exists_longest (hclosed : ∀ p c, V (p ++ [c]) → V p) (hnil : V []) (u : List α) : ∃ p, Longest V u p := by
  have h : Longest V u (munch (fun p c => decide (V (p ++ [c]))) [] u).1 :=
    munch_longest hclosed (fun p c _ => decide_eq_true_iff) u hnil
  exact ⟨_, h⟩

/-- The test lets the list through, element by element. -/
def Through (take : List α → α → Bool) (p : List α) : Prop := ∀ q c, q ++ [c] <+: p → take q c = true

variable {take : List α → α → Bool}

theorem through_append_iff {c : α} (h : Through take p) : take p c = true ↔ Through take (p ++ [c]) := by
  constructor
  · intro htake q d hq
    rcases List.prefix_concat_iff.1 hq with heq | hq
    · obtain ⟨rfl, hd⟩ := List.append_inj' heq rfl
      obtain ⟨rfl, -⟩ := List.cons.inj hd
      exact htake
    · exact h q d hq
  · exact fun hnext => hnext p c (List.prefix_refl _)

/-- **What is taken** is what the test lets through and ends where it stops. -/
theorem munch_eq_iff (u : List α) :
    (munch take [] u).1 = p ↔ p <+: u ∧ Through take p ∧ ∀ c, p ++ [c] <+: u → take p c = false := by
  have hclosed : ∀ p c, Through take (p ++ [c]) → Through take p := fun p c h q d hq =>
    h q d (hq.trans (List.prefix_append p [c]))
  have hnil : Through take [] := fun q c hq => absurd hq.length_le (by simp)
  have hlongest : Longest (Through take) u (munch take [] u).1 :=
    munch_longest hclosed (fun p c h => through_append_iff h) u hnil
  constructor
  · rintro rfl
    refine ⟨hlongest.isPrefix, hlongest.holds, fun c hc => ?_⟩
    by_contra htake
    have hlen := hlongest.longest _ hc ((through_append_iff hlongest.holds).1 (Bool.not_eq_false _ ▸ htake))
    rw [List.length_append, List.length_singleton] at hlen
    omega
  · rintro ⟨hbegins, hsteps, hstop⟩
    refine hlongest.unique ⟨hbegins, hsteps, fun q hq hthroughq => ?_⟩
    show q.length ≤ p.length
    by_contra hlen
    have hpq : p <+: q := List.prefix_of_prefix_length_le hbegins hq (by omega)
    obtain ⟨t, rfl⟩ := hpq
    cases t with
    | nil => exact hlen (by simp)
    | cons c t =>
      have hc : p ++ [c] <+: p ++ c :: t := ⟨t, by simp⟩
      have htake := hthroughq p c hc
      rw [hstop c (hc.trans hq)] at htake
      cases htake

end CSemantics.LongestPrefix
