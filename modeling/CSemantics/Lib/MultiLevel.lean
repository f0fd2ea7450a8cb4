/-
  Orders on sequences of levels, where a change deep down has to show further up.

  A pointer to a pointer to an `int` may not quietly become a pointer to a pointer to a `const int`: through
  the new type a pointer to a constant could be stored where the old type reads a plain one.  With a `const`
  on every level above the change nothing can be stored there, and all is well:

      level       0      1 . . k . . j           j differs, so the new level k has the MARK,
                  |      |     |     |           for every k between the top and j
                  top    <=    mark  differs

  `LevelLE` is that order, over any levels with suprema and any mark.  Its least upper bounds are not level by
  level: `Joined` adds the mark above the last level at which the two differ.
-/
import Mathlib.Order.Lattice

namespace CSemantics.MultiLevel

variable {α : Type*} [SemilatticeSup α] {mark : α} {s t u v : ℕ → α}

/-- No level below the top gets smaller, and above a level that changes all but the top are marked. -/
def LevelLE (mark : α) (s t : ℕ → α) : Prop :=
  (∀ k, 0 < k → s k ≤ t k) ∧ ∀ j k, s j ≠ t j → 0 < k → k < j → mark ≤ t k

theorem LevelLE.refl (mark : α) (s : ℕ → α) : LevelLE mark s s :=
  ⟨fun _ _ => le_refl _, fun _ _ h => absurd rfl h⟩

theorem LevelLE.trans (h : LevelLE mark s t) (h' : LevelLE mark t u) : LevelLE mark s u := by
  refine ⟨fun k hk => (h.1 k hk).trans (h'.1 k hk), ?_⟩
  intro j k hj hk hkj
  by_cases hst : s j = t j
  · exact h'.2 j k (fun htu => hj (hst.trans htu)) hk hkj
  · exact (h.2 j k hst hk hkj).trans (h'.1 k hk)

/-- `u` is `s` and `t` together, with the mark above the last level at which they differ. -/
def Joined (mark : α) (s t u : ℕ → α) : Prop :=
  ∀ k, 0 < k →
    ((∃ j, k < j ∧ s j ≠ t j) → u k = s k ⊔ t k ⊔ mark) ∧ ((∀ j, k < j → s j = t j) → u k = s k ⊔ t k)

theorem Joined.symm (h : Joined mark s t u) : Joined mark t s u := by
  intro k hk
  obtain ⟨habove, hbelow⟩ := h k hk
  constructor
  · rintro ⟨j, hj, hne⟩
    rw [habove ⟨j, hj, hne.symm⟩, sup_comm (s k)]
  · intro heq
    rw [hbelow fun j hj => (heq j hj).symm, sup_comm (s k)]

/-- The levels below the top are joined too. -/
theorem Joined.tail (h : Joined mark s t u) :
    Joined mark (fun k => s (k + 1)) (fun k => t (k + 1)) (fun k => u (k + 1)) := by
  intro k _
  obtain ⟨habove, hbelow⟩ := h (k + 1) (Nat.succ_pos k)
  constructor
  · rintro ⟨j, hj, hne⟩
    exact habove ⟨j + 1, Nat.succ_lt_succ hj, hne⟩
  · intro heq
    refine hbelow fun j hj => ?_
    obtain ⟨i, rfl⟩ := Nat.exists_eq_add_of_lt hj
    exact heq (k + 1 + i) (by omega)

theorem Joined.left (h : Joined mark s t u) : LevelLE mark s u := by
  constructor
  · intro k hk
    obtain ⟨habove, hbelow⟩ := h k hk
    by_cases hdiff : ∃ j, k < j ∧ s j ≠ t j
    · rw [habove hdiff]
      exact le_sup_left.trans le_sup_left
    · push Not at hdiff
      rw [hbelow hdiff]
      exact le_sup_left
  · intro j k hj hk hkj
    by_cases hdiff : ∃ j, k < j ∧ s j ≠ t j
    · rw [(h k hk).1 hdiff]
      exact le_sup_right
    · -- below `k` nothing differs, and `u` is no different from `s`
      push Not at hdiff
      have huj := (h j (hk.trans hkj)).2 fun i hi => hdiff i (hkj.trans hi)
      rw [← hdiff j hkj, sup_idem] at huj
      exact absurd huj.symm hj

theorem Joined.right (h : Joined mark s t u) : LevelLE mark t u := h.symm.left

/-- **Least**: what is above both is above them joined. -/
theorem Joined.least (h : Joined mark s t u) (hs : LevelLE mark s v) (ht : LevelLE mark t v) :
    LevelLE mark u v := by
  have hmark : ∀ k, 0 < k → (∃ j, k < j ∧ s j ≠ t j) → mark ≤ v k := by
    rintro k hk ⟨j, hj, hne⟩
    by_cases hsv : s j = v j
    · exact ht.2 j k (fun htv => hne (hsv.trans htv.symm)) hk hj
    · exact hs.2 j k hsv hk hj
  constructor
  · intro k hk
    by_cases hdiff : ∃ j, k < j ∧ s j ≠ t j
    · rw [(h k hk).1 hdiff]
      exact sup_le (sup_le (hs.1 k hk) (ht.1 k hk)) (hmark k hk hdiff)
    · push Not at hdiff
      rw [(h k hk).2 hdiff]
      exact sup_le (hs.1 k hk) (ht.1 k hk)
  · intro j k hj hk hkj
    by_cases hsv : s j = v j
    · by_cases htv : t j = v j
      · -- then `u` does not differ from `v` here: the mark is in `v` already
        refine absurd ?_ hj
        by_cases hdiff : ∃ i, j < i ∧ s i ≠ t i
        · rw [(h j (hk.trans hkj)).1 hdiff, hsv, htv, sup_idem]
          exact sup_eq_left.mpr (hmark j (hk.trans hkj) hdiff)
        · push Not at hdiff
          rw [(h j (hk.trans hkj)).2 hdiff, hsv, htv, sup_idem]
      · exact ht.2 j k htv hk hkj
    · exact hs.2 j k hsv hk hkj

end CSemantics.MultiLevel
