/-
  The best of a list, in one pass.

  `beats` is a relation that need not be total nor transitive.  The BEST of a list beats all others.  A pass
  keeps one champion and replaces it by whoever beats it; nobody is compared with those who have left, so
  a champion need not be the best, and a second pass compares it with all it has displaced or seen off.

  If there is a best it beats the champion it meets, and since `beats` is asymmetric nobody beats it after that:

      champion_eq   whoever beats all others is the champion
      best_eq_some_iff
-/
import Mathlib.Data.List.Perm.Basic

namespace CSemantics.Tournament

variable {α : Type} (beats : α → α → Bool)

/-- The pass: the champion and the others, the last one seen first. -/
def pass : α → List α → List α → α × List α
  | a, [], others => (a, others)
  | a, b :: rest, others => if beats b a then pass b rest (a :: others) else pass a rest (b :: others)

/-- The champion, if it beats all others. -/
def best : List α → Option α
  | [] => none
  | a :: rest =>
    let r := pass beats a rest []
    if r.2.all (beats r.1) then some r.1 else none

variable {beats}

/-- Nobody is lost. -/
theorem pass_perm (a : α) (rest others : List α) :
    ((pass beats a rest others).1 :: (pass beats a rest others).2).Perm (a :: rest ++ others) := by
  induction rest generalizing a others with
  | nil => exact .refl _
  | cons b rest ih =>
    rw [pass]
    split
    · exact (ih b (a :: others)).trans List.perm_middle
    · have hmiddle : (a :: rest ++ b :: others).Perm (b :: (a :: rest ++ others)) := List.perm_middle
      exact (ih a (b :: others)).trans (hmiddle.trans (.swap _ _ _))

/-- **Whoever beats all others is the champion.** -/
theorem champion_eq (hasymm : ∀ a b, beats a b = true → beats b a = false) {a x : α} {rest others : List α}
    (hx : x = a ∨ x ∈ rest) (hbest : ∀ b ∈ a :: rest, b ≠ x → beats x b = true) :
    (pass beats a rest others).1 = x := by
  induction rest generalizing a others with
  | nil =>
    rcases hx with rfl | hx
    · rfl
    · cases hx
  | cons b rest ih =>
    rw [pass]
    split
    · -- the champion is replaced by `b`, so it is not `x`
      rename_i hb
      have hax : a ≠ x := by
        rintro rfl
        by_cases hba : b = a
        · subst hba
          have := hasymm b b hb
          rw [hb] at this
          cases this
        · have := hasymm a b (hbest b (by simp) hba)
          rw [hb] at this
          cases this
      refine ih ?_ fun c hc => hbest c (List.mem_cons_of_mem _ hc)
      rcases hx with hx | hx
      · exact absurd hx.symm hax
      · exact List.mem_cons.mp hx
    · -- `b` is seen off, so it is not `x` unless `x` is the champion already
      rename_i hb
      refine ih ?_ fun c hc => hbest c ?_
      · rcases hx with hx | hx
        · exact .inl hx
        · rcases List.mem_cons.mp hx with rfl | hx
          · by_cases hax : a = x
            · exact .inl hax.symm
            · exact absurd (hbest a (by simp) hax) hb
          · exact .inr hx
      · rcases List.mem_cons.mp hc with rfl | hc
        · exact List.mem_cons_self
        · exact List.mem_cons_of_mem _ (List.mem_cons_of_mem _ hc)

/-- **The best of a list of different ones**, in whatever order they come. -/
theorem best_eq_some_iff (hasymm : ∀ a b, beats a b = true → beats b a = false) {l : List α} (hl : l.Nodup) {x : α} :
    best beats l = some x ↔ x ∈ l ∧ ∀ b ∈ l, b ≠ x → beats x b = true := by
  cases l with
  | nil => simp [best]
  | cons a rest =>
    have hperm : ((pass beats a rest []).1 :: (pass beats a rest []).2).Perm (a :: rest ++ []) := pass_perm a rest []
    rw [List.append_nil] at hperm
    unfold best
    constructor
    · intro h
      simp only [Option.ite_none_right_eq_some, Option.some.injEq, List.all_eq_true] at h
      obtain ⟨hall, rfl⟩ := h
      refine ⟨hperm.mem_iff.mp List.mem_cons_self, fun b hb hne => hall b ?_⟩
      exact (List.mem_cons.mp (hperm.mem_iff.mpr hb)).resolve_left hne
    · rintro ⟨hx, hbest⟩
      have hchampion : (pass beats a rest []).1 = x := champion_eq hasymm (List.mem_cons.mp hx) hbest
      have hnodup := hperm.nodup_iff.mpr hl
      simp only [Option.ite_none_right_eq_some, Option.some.injEq, List.all_eq_true]
      refine ⟨fun b hb => ?_, hchampion⟩
      rw [hchampion] at hnodup ⊢
      refine hbest b (hperm.mem_iff.mp (List.mem_cons_of_mem _ hb)) ?_
      rintro rfl
      exact (List.nodup_cons.mp hnodup).1 hb

end CSemantics.Tournament
