/-
  Finite maps as association lists.

  A map is a list of pairs, read with `List.lookup`.  Updating a key removes what was there and adds
  the new pair at the end, so that the list stays in the order of insertion and no key is bound
  twice.  The questions a client asks are what a key is bound to after an update or a removal, and
  which keys there are.
-/
import Mathlib.Data.List.Basic

namespace CSemantics.AssocMap

variable {κ ν : Type} [DecidableEq κ]

/-- `M[k <- v]` -/
def update (m : List (κ × ν)) (k : κ) (v : ν) : List (κ × ν) :=
  m.filter (fun p => p.1 ≠ k) ++ [(k, v)]

/-- `updateMap(M, M')`: a key of both keeps what the second has. -/
def updateMap (m m' : List (κ × ν)) : List (κ × ν) := m.filter (fun p => p.1 ∉ m'.map Prod.fst) ++ m'

/-- `M[k <- undef]` -/
def remove (m : List (κ × ν)) (k : κ) : List (κ × ν) := m.filter fun p => p.1 ≠ k

theorem lookup_append (m m' : List (κ × ν)) (k : κ) :
    (m ++ m').lookup k = (m.lookup k).or (m'.lookup k) := by
  induction m with
  | nil => simp
  | cons p m ih =>
    obtain ⟨k', v⟩ := p
    rw [List.cons_append, List.lookup_cons, List.lookup_cons]
    cases h : k == k' with
    | true => simp
    | false => simpa using ih

theorem lookup_remove (m : List (κ × ν)) (k k' : κ) :
    (remove m k).lookup k' = if k' = k then none else m.lookup k' := by
  induction m with
  | nil => simp [remove]
  | cons p m ih =>
    obtain ⟨k'', v⟩ := p
    unfold remove at ih ⊢
    by_cases hk : k'' = k
    · -- the pair goes, and it was not the one that is asked for unless k' = k
      subst hk
      rw [List.filter_cons_of_neg (by simp), ih, List.lookup_cons]
      by_cases hk' : k' = k''
      · rw [if_pos hk', if_pos hk']
      · have : (k' == k'') = false := by simpa using hk'
        rw [this, if_neg hk']
    · rw [List.filter_cons_of_pos (by simpa using hk), List.lookup_cons, List.lookup_cons, ih]
      by_cases hk' : k' = k''
      · subst hk'
        simp [hk]
      · have : (k' == k'') = false := by simpa using hk'
        rw [this]

theorem lookup_update (m : List (κ × ν)) (k k' : κ) (v : ν) :
    (update m k v).lookup k' = if k' = k then some v else m.lookup k' := by
  have hrem := lookup_remove m k k'
  unfold remove at hrem
  unfold update
  rw [lookup_append, hrem]
  by_cases hk : k' = k
  · subst hk
    simp
  · have : (k' == k) = false := by simpa using hk
    rw [if_neg hk, if_neg hk, List.lookup_cons, this]
    cases m.lookup k' <;> rfl

theorem lookup_update_self (m : List (κ × ν)) (k : κ) (v : ν) : (update m k v).lookup k = some v := by
  rw [lookup_update, if_pos rfl]

theorem lookup_update_of_ne (m : List (κ × ν)) {k k' : κ} (v : ν) (h : k' ≠ k) :
    (update m k v).lookup k' = m.lookup k' := by
  rw [lookup_update, if_neg h]

theorem mem_keys_iff (m : List (κ × ν)) (k : κ) : k ∈ m.map Prod.fst ↔ ∃ v, m.lookup k = some v := by
  induction m with
  | nil => simp
  | cons p m ih =>
    obtain ⟨k', v⟩ := p
    rw [List.map_cons, List.mem_cons, ih, List.lookup_cons]
    by_cases hk : k = k'
    · simp [hk]
    · have : (k == k') = false := by simpa using hk
      simp [hk, this]

theorem lookup_filter_keys (m : List (κ × ν)) (S : List κ) (k : κ) :
    (m.filter fun p => p.1 ∉ S).lookup k = if k ∈ S then none else m.lookup k := by
  induction m with
  | nil => simp
  | cons p m ih =>
    obtain ⟨k', v⟩ := p
    by_cases hk : k' ∈ S
    · rw [List.filter_cons_of_neg (by simpa using hk), ih, List.lookup_cons]
      by_cases hk' : k = k'
      · subst hk'
        rw [if_pos hk, if_pos hk]
      · have : (k == k') = false := by simpa using hk'
        rw [this]
    · rw [List.filter_cons_of_pos (by simpa using hk), List.lookup_cons, List.lookup_cons, ih]
      by_cases hk' : k = k'
      · subst hk'
        simp [hk]
      · have : (k == k') = false := by simpa using hk'
        rw [this]

theorem lookup_updateMap (m m' : List (κ × ν)) (k : κ) :
    (updateMap m m').lookup k = (m'.lookup k).or (m.lookup k) := by
  unfold updateMap
  rw [lookup_append, lookup_filter_keys]
  by_cases hk : k ∈ m'.map Prod.fst
  · obtain ⟨v, hv⟩ := (mem_keys_iff m' k).mp hk
    rw [if_pos hk, hv]
    rfl
  · have hnone : m'.lookup k = none := by
      rw [← Option.not_isSome_iff_eq_none, Option.isSome_iff_exists, ← mem_keys_iff]
      exact hk
    rw [if_neg hk, hnone, Option.or_none, Option.none_or]

theorem lookup_of_mem {m : List (κ × ν)} (h : (m.map Prod.fst).Nodup) {p : κ × ν} (hp : p ∈ m) :
    m.lookup p.1 = some p.2 := by
  induction m with
  | nil => simp at hp
  | cons q m ih =>
    rw [List.map_cons, List.nodup_cons] at h
    rw [List.lookup_cons]
    rcases List.mem_cons.mp hp with rfl | hp
    · simp
    · have hne : (p.1 == q.1) = false := by
        simp only [beq_eq_false_iff_ne, ne_eq]
        intro heq
        exact h.1 (heq ▸ List.mem_map.mpr ⟨p, hp, rfl⟩)
      rw [hne]
      exact ih h.2 hp

theorem mem_of_lookup {m : List (κ × ν)} {k : κ} {v : ν} (h : m.lookup k = some v) : (k, v) ∈ m := by
  induction m with
  | nil => cases h
  | cons p m ih =>
    obtain ⟨k', v'⟩ := p
    rw [List.lookup_cons] at h
    cases hk : k == k' with
    | true =>
      rw [hk] at h
      cases h
      rw [eq_of_beq hk]
      exact List.mem_cons_self
    | false =>
      rw [hk] at h
      exact List.mem_cons_of_mem _ (ih h)

/-- An update binds no key twice. -/
theorem nodup_keys_update {m : List (κ × ν)} (h : (m.map Prod.fst).Nodup) (k : κ) (v : ν) :
    ((update m k v).map Prod.fst).Nodup := by
  unfold update
  rw [List.map_append, List.nodup_append]
  refine ⟨h.sublist (List.filter_sublist.map Prod.fst), by simp, ?_⟩
  intro k₁ h₁ k₂ h₂ heq
  obtain ⟨q, hq, rfl⟩ := List.mem_map.mp h₁
  obtain rfl : k₂ = k := by simpa using h₂
  simp [List.mem_filter, heq] at hq

end CSemantics.AssocMap
