/-
  Summaries of histories.

  Something happens again and again to each of many keys, and only a SUMMARY of what has happened is
  kept for each key.  Summaries can be joined: when the old one stands for the history `L` and a new
  one for `L'`, the join stands for `L ++ L'`, or reports that this history is bad.  Then a map of
  summaries can be joined with any list of further summaries, key by key, and the result says about
  every key what its whole history is; a conflict is reported only when some whole history is bad.

      mergeAll_spec   after merging, every key stands for its old history and what was added,
                      or a conflict is reported and some history is bad
-/
import CSemantics.Lib.AssocMap

namespace CSemantics

/-- Summaries `σ` of histories of `α`, with the laws of their join; `join new old` fails with
    `conflict`. -/
structure Summary (α σ ε : Type) where
  Reflects : σ → List α → Prop
  Bad : List α → Prop
  join : σ → σ → Except ε σ
  conflict : ε
  not_bad_nil : ¬Bad []
  not_bad : ∀ {s L}, Reflects s L → ¬Bad L
  bad_append : ∀ {L} (L'), Bad L → Bad (L ++ L')
  join_spec : ∀ {new old L L'}, Reflects old L → Reflects new L' →
    (join new old = .error conflict ∧ Bad (L ++ L')) ∨
      ∃ s, join new old = .ok s ∧ Reflects s (L ++ L')

namespace Summary

variable {α σ ε κ ι : Type} [DecidableEq κ] (S : Summary α σ ε)

/-- No summary stands for the empty history. -/
def ReflectsAt : Option σ → List α → Prop
  | none, L => L = []
  | some s, L => S.Reflects s L

/-- Every key of the map stands for its history. -/
def Holds (m : List (κ × σ)) (H : κ → List α) : Prop := ∀ k, S.ReflectsAt (m.lookup k) (H k)

/-- Join a summary into the entry of a key. -/
def merge (m : List (κ × σ)) (k : κ) (s : σ) : Except ε (List (κ × σ)) :=
  match m.lookup k with
  | none => .ok (AssocMap.update m k s)
  | some old => do
    let s' ← S.join s old
    return AssocMap.update m k s'

/-- Join the summaries of a list of items, from the first to the last. -/
def mergeAll (key : ι → κ) (sum : ι → σ) : List (κ × σ) → List ι → Except ε (List (κ × σ))
  | m, [] => .ok m
  | m, x :: xs => do
    let m' ← S.merge m (key x) (sum x)
    mergeAll key sum m' xs

/-- What the items of a list add to the history of a key. -/
def added (key : ι → κ) (hist : ι → List α) (xs : List ι) (k : κ) : List α :=
  xs.flatMap fun x => if key x = k then hist x else []

variable {S} {m m' : List (κ × σ)} {H : κ → List α}

theorem Holds.not_bad (h : S.Holds m H) (k : κ) : ¬S.Bad (H k) := by
  have hk := h k
  cases hl : m.lookup k with
  | none => rw [hl] at hk; rw [show H k = [] from hk]; exact S.not_bad_nil
  | some s => rw [hl] at hk; exact S.not_bad hk

/-- One key's entry replaced, and one key's history extended. -/
theorem Holds.update (h : S.Holds m H) {k : κ} {s : σ} {L : List α} (hs : S.Reflects s (H k ++ L)) :
    S.Holds (AssocMap.update m k s) fun k' => H k' ++ if k = k' then L else [] := by
  intro k'
  by_cases hk : k' = k
  · subst hk
    simp only [AssocMap.lookup_update_self, if_true]
    exact hs
  · rw [AssocMap.lookup_update_of_ne m s hk]
    simpa [Ne.symm hk] using h k'

/-- One summary joined. -/
theorem merge_spec (h : S.Holds m H) (k : κ) {s : σ} {L : List α} (hs : S.Reflects s L) :
    (S.merge m k s = .error S.conflict ∧ S.Bad (H k ++ L)) ∨
      ∃ m', S.merge m k s = .ok m' ∧ S.Holds m' fun k' => H k' ++ if k = k' then L else [] := by
  have hk := h k
  unfold merge
  cases hl : m.lookup k with
  | none =>
    rw [hl] at hk
    have hnil : H k = [] := hk
    refine .inr ⟨_, rfl, h.update ?_⟩
    simpa [hnil] using hs
  | some old =>
    rw [hl] at hk
    rcases S.join_spec hk hs with ⟨hj, hbad⟩ | ⟨s', hj, hs'⟩
    · exact .inl ⟨by simp [hj, bind, Except.bind], hbad⟩
    · exact .inr ⟨_, by simp only [hj]; rfl, h.update hs'⟩

theorem added_cons (key : ι → κ) (hist : ι → List α) (x : ι) (xs : List ι) (k : κ) :
    added key hist (x :: xs) k = (if key x = k then hist x else []) ++ added key hist xs k := rfl

/-- The entries of a map, no key bound twice, add what they stand for once. -/
theorem added_entries {m : List (κ × σ)} (hm : (m.map Prod.fst).Nodup) (g : κ → List α) (k : κ) :
    added Prod.fst (fun e : κ × σ => g e.1) m k = if k ∈ m.map Prod.fst then g k else [] := by
  induction m with
  | nil => rfl
  | cons e m ih =>
    rw [List.map_cons, List.nodup_cons] at hm
    rw [added_cons, ih hm.2, List.map_cons]
    by_cases hk : e.1 = k
    · subst hk
      rw [if_pos rfl, if_neg hm.1, if_pos List.mem_cons_self, List.append_nil]
    · rw [if_neg hk, List.nil_append]
      simp only [List.mem_cons, Ne.symm hk, false_or]

theorem merge_nodup {k : κ} {s : σ} (h : S.merge m k s = .ok m') (hm : (m.map Prod.fst).Nodup) :
    (m'.map Prod.fst).Nodup := by
  unfold merge at h
  split at h
  · cases h
    exact AssocMap.nodup_keys_update hm k s
  · rename_i old _
    cases hj : S.join s old with
    | error e => rw [hj] at h; cases h
    | ok s' =>
      rw [hj] at h
      cases h
      exact AssocMap.nodup_keys_update hm k s'

/-- Merging binds no key twice. -/
theorem mergeAll_nodup {key : ι → κ} {sum : ι → σ} {xs : List ι}
    (h : S.mergeAll key sum m xs = .ok m') (hm : (m.map Prod.fst).Nodup) :
    (m'.map Prod.fst).Nodup := by
  induction xs generalizing m with
  | nil => cases h; exact hm
  | cons x xs ih =>
    rw [mergeAll] at h
    cases h₁ : S.merge m (key x) (sum x) with
    | error e => rw [h₁] at h; cases h
    | ok m₁ =>
      rw [h₁] at h
      exact ih h (merge_nodup h₁ hm)

/-- **After merging, every key stands for its old history and what was added to it.**  Induction on
    the list: a history that is bad stays bad whatever is added. -/
theorem mergeAll_spec (h : S.Holds m H) (key : ι → κ) {sum : ι → σ} {hist : ι → List α} {xs : List ι}
    (hs : ∀ x ∈ xs, S.Reflects (sum x) (hist x)) :
    (S.mergeAll key sum m xs = .error S.conflict ∧ ∃ k, S.Bad (H k ++ added key hist xs k)) ∨
      ∃ m', S.mergeAll key sum m xs = .ok m' ∧ S.Holds m' fun k => H k ++ added key hist xs k := by
  induction xs generalizing m H with
  | nil => exact .inr ⟨m, rfl, by simpa [added] using h⟩
  | cons x xs ih =>
    rw [mergeAll]
    simp only [added_cons, ← List.append_assoc]
    rcases merge_spec h (key x) (hs x List.mem_cons_self) with ⟨hm, hbad⟩ | ⟨m₁, hm, h₁⟩
    · refine .inl ⟨by simp [hm, bind, Except.bind], key x, S.bad_append _ ?_⟩
      simpa using hbad
    · rw [hm]
      exact ih h₁ fun y hy => hs y (List.mem_cons_of_mem x hy)

end Summary

end CSemantics
