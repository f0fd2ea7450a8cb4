/-
  Merging a list two at a time through a queue.

  The first two items are merged, the result goes to the END of the list, and so on until one item
  is left.  Each merge is followed by a check of the two items; the checks are made after everything
  has been merged, the last merge first.

  An item stands for the list of leaves it was merged from (`Rep`).  When a check of two items passes
  exactly if their leaves are pairwise related, the whole merge passes exactly if ALL leaves are
  pairwise related, in whatever order and shape they were merged: the leaves are only permuted.

      mergeQueue_ok_iff   the merge passes iff the leaves are pairwise related
      mergeQueue_rep      what is merged stands for the leaves
      mergeQueue_error    what the merge can fail with
-/
import Mathlib.Data.List.Pairwise
import Mathlib.Data.List.Perm.Subperm
import Mathlib.Data.List.Forall2

namespace CSemantics

variable {α β γ ε : Type}

/-- Merge, then check; `finish` is given the last item. -/
def mergeQueue (merge : α → α → α) (check : α → α → Except ε Unit) (empty : Except ε γ)
    (finish : α → Except ε γ) : List α → Except ε γ
  | [] => empty
  | [a] => finish a
  | a :: b :: rest => do
    let r ← mergeQueue merge check empty finish (rest ++ [merge a b])
    check a b
    return r
  termination_by l => l.length
  decreasing_by simp

section

variable {merge : α → α → α} {check : α → α → Except ε Unit} {empty : Except ε γ}
  {finish : α → Except ε γ}

/-- A merge of two or more items passes when the rest of the merge does and the check does. -/
theorem mergeQueue_cons_eq_ok {a b : α} {rest : List α} {r : γ} :
    mergeQueue merge check empty finish (a :: b :: rest) = .ok r ↔
      mergeQueue merge check empty finish (rest ++ [merge a b]) = .ok r ∧ check a b = .ok () := by
  rw [mergeQueue]
  cases mergeQueue merge check empty finish (rest ++ [merge a b]) with
  | error e => simp [bind, Except.bind]
  | ok r' =>
    cases check a b with
    | error e => simp [bind, Except.bind]
    | ok u => simp [bind, Except.bind, pure, Except.pure]

/-- **The merge passes exactly when the leaves are pairwise related.** -/
theorem mergeQueue_ok_iff {R : β → β → Prop} (hsymm : ∀ {a b}, R a b → R b a) {Rep : α → List β → Prop}
    (hmerge : ∀ {a b l l'}, Rep a l → Rep b l' → Rep (merge a b) (l ++ l'))
    (hcheck : ∀ {a b l l'}, Rep a l → Rep b l' → l.Pairwise R → l'.Pairwise R →
      (check a b = .ok () ↔ (l ++ l').Pairwise R))
    (hempty : ∃ r, empty = .ok r) (hfinish : ∀ {a l}, Rep a l → ∃ r, finish a = .ok r)
    (xs : List α) (ls : List (List β)) (hrep : List.Forall₂ Rep xs ls)
    (hls : ∀ l ∈ ls, l.Pairwise R) :
    (∃ r, mergeQueue merge check empty finish xs = .ok r) ↔ ls.flatten.Pairwise R := by
  induction xs using mergeQueue.induct merge generalizing ls with
  | case1 =>
    cases hrep
    simpa [mergeQueue] using hempty
  | case2 a =>
    obtain ⟨l, ls', ha, hnil, rfl⟩ := List.forall₂_cons_left_iff.mp hrep
    cases hnil
    simpa [mergeQueue, hfinish ha] using hls l List.mem_cons_self
  | case3 a b rest ih =>
    obtain ⟨l, ls₁, ha, hrep₁, rfl⟩ := List.forall₂_cons_left_iff.mp hrep
    obtain ⟨l', ls', hb, hrest, rfl⟩ := List.forall₂_cons_left_iff.mp hrep₁
    have hl := hls l List.mem_cons_self
    have hl' := hls l' (List.mem_cons_of_mem l List.mem_cons_self)
    have hperm : (l :: l' :: ls').flatten.Perm (ls' ++ [l ++ l']).flatten := by
      simpa using (List.perm_append_comm : ((l ++ l') ++ ls'.flatten).Perm _)
    have hck := hcheck ha hb hl hl'
    have hsplit : (∃ r, mergeQueue merge check empty finish (a :: b :: rest) = .ok r) ↔
        (∃ r, mergeQueue merge check empty finish (rest ++ [merge a b]) = .ok r) ∧
          (l ++ l').Pairwise R := by
      simp only [mergeQueue_cons_eq_ok, hck, exists_and_right]
    rw [hsplit]
    by_cases hpair : (l ++ l').Pairwise R
    · have hall : ∀ k ∈ ls' ++ [l ++ l'], k.Pairwise R := by
        intro k hk
        rcases List.mem_append.mp hk with hk | hk
        · exact hls k (List.mem_cons_of_mem l (List.mem_cons_of_mem l' hk))
        · rwa [List.mem_singleton.mp hk]
      have hih := ih (ls' ++ [l ++ l']) (List.rel_append hrest (.cons (hmerge ha hb) .nil)) hall
      rw [hih, hperm.pairwise_iff hsymm]
      simp [hpair]
    · have hnot : ¬(l :: l' :: ls').flatten.Pairwise R := by
        intro h
        rw [List.flatten_cons, List.flatten_cons, ← List.append_assoc] at h
        exact hpair (List.pairwise_append.mp h).1
      simp only [hpair, hnot, and_false]

/-- A failure comes from the last item or from a check; `Q` holds of every queue on the way. -/
theorem mergeQueue_error {Q : List α → Prop} {P : ε → Prop}
    (hstep : ∀ {a b rest}, Q (a :: b :: rest) → Q (rest ++ [merge a b]))
    (hcheck : ∀ {a b rest e}, Q (a :: b :: rest) → check a b = .error e → P e)
    (hempty : ∀ {e}, empty = .error e → P e) (hfinish : ∀ {a e}, Q [a] → finish a = .error e → P e)
    (xs : List α) (hQ : Q xs) {e : ε} (he : mergeQueue merge check empty finish xs = .error e) : P e := by
  induction xs using mergeQueue.induct merge with
  | case1 => exact hempty (by simpa [mergeQueue] using he)
  | case2 a => exact hfinish hQ (by simpa [mergeQueue] using he)
  | case3 a b rest ih =>
    rw [mergeQueue] at he
    cases hrec : mergeQueue merge check empty finish (rest ++ [merge a b]) with
    | error e' =>
      rw [hrec] at he
      cases he
      exact ih (hstep hQ) hrec
    | ok r =>
      rw [hrec] at he
      cases hc : check a b with
      | error e' =>
        simp only [hc, bind, Except.bind] at he
        cases he
        exact hcheck hQ hc
      | ok u =>
        simp only [hc, bind, Except.bind] at he
        cases he

/-- What a merge that passes finishes with stands for all the leaves. -/
theorem mergeQueue_rep {Rep : α → List β → Prop}
    (hmerge : ∀ {a b l l'}, Rep a l → Rep b l' → Rep (merge a b) (l ++ l')) (xs : List α) (ls : List (List β))
    (hrep : List.Forall₂ Rep xs ls) (hne : xs ≠ []) {r : γ} (hr : mergeQueue merge check empty finish xs = .ok r) :
    ∃ a l, Rep a l ∧ l.Perm ls.flatten ∧ finish a = .ok r := by
  induction xs using mergeQueue.induct merge generalizing ls with
  | case1 => exact absurd rfl hne
  | case2 a =>
    obtain ⟨l, ls', ha, hnil, rfl⟩ := List.forall₂_cons_left_iff.mp hrep
    cases hnil
    exact ⟨a, l, ha, by simp, by simpa [mergeQueue] using hr⟩
  | case3 a b rest ih =>
    obtain ⟨l, ls₁, ha, hrep₁, rfl⟩ := List.forall₂_cons_left_iff.mp hrep
    obtain ⟨l', ls', hb, hrest, rfl⟩ := List.forall₂_cons_left_iff.mp hrep₁
    have hrec := (mergeQueue_cons_eq_ok.mp hr).1
    obtain ⟨c, k, hc, hk, hfin⟩ := ih (ls' ++ [l ++ l']) (List.rel_append hrest (.cons (hmerge ha hb) .nil)) (by simp) hrec
    refine ⟨c, k, hc, hk.trans ?_, hfin⟩
    simpa using (List.perm_append_comm : ((l ++ l') ++ ls'.flatten).Perm _).symm

/-- A failure comes from a check of two items that stand for different leaves, if `finish` does not fail. -/
theorem mergeQueue_error_leaves {Rep : α → List β → Prop}
    (hmerge : ∀ {a b l l'}, Rep a l → Rep b l' → Rep (merge a b) (l ++ l')) {leaves : List β} {P : ε → Prop}
    (hcheck : ∀ {a b l l' e}, Rep a l → Rep b l' → (l ++ l').Subperm leaves → check a b = .error e → P e)
    (hempty : ∀ {e}, empty = .error e → P e) (hfinish : ∀ {a l e}, Rep a l → finish a = .error e → P e)
    (xs : List α) (ls : List (List β)) (hrep : List.Forall₂ Rep xs ls) (hperm : ls.flatten.Perm leaves) {e : ε}
    (he : mergeQueue merge check empty finish xs = .error e) : P e := by
  refine mergeQueue_error (Q := fun xs => ∃ ls, List.Forall₂ Rep xs ls ∧ ls.flatten.Perm leaves) ?_ ?_ hempty ?_ xs
    ⟨ls, hrep, hperm⟩ he
  · rintro a b rest ⟨ls, hrep, hperm⟩
    obtain ⟨l, ls₁, ha, hrep₁, rfl⟩ := List.forall₂_cons_left_iff.mp hrep
    obtain ⟨l', ls', hb, hrest, rfl⟩ := List.forall₂_cons_left_iff.mp hrep₁
    refine ⟨ls' ++ [l ++ l'], List.rel_append hrest (.cons (hmerge ha hb) .nil), .trans ?_ hperm⟩
    simpa using (List.perm_append_comm : ((l ++ l') ++ ls'.flatten).Perm _).symm
  · rintro a b rest e ⟨ls, hrep, hperm⟩ hc
    obtain ⟨l, ls₁, ha, hrep₁, rfl⟩ := List.forall₂_cons_left_iff.mp hrep
    obtain ⟨l', ls', hb, -, rfl⟩ := List.forall₂_cons_left_iff.mp hrep₁
    refine hcheck ha hb (List.Subperm.trans ?_ hperm.subperm) hc
    simpa using (List.sublist_append_left (l ++ l') ls'.flatten).subperm
  · rintro a e ⟨ls, hrep, -⟩ hf
    obtain ⟨l, ls', ha, -, -⟩ := List.forall₂_cons_left_iff.mp hrep
    exact hfinish ha hf

/-- A check that passes more often. -/
theorem mergeQueue_ok_mono {check' : α → α → Except ε Unit} {finish' : α → Except ε γ}
    (hcheck : ∀ {a b}, check a b = .ok () → check' a b = .ok ())
    (hfinish : ∀ {a r}, finish a = .ok r → finish' a = .ok r) (xs : List α) {r : γ}
    (hr : mergeQueue merge check empty finish xs = .ok r) : mergeQueue merge check' empty finish' xs = .ok r := by
  induction xs using mergeQueue.induct merge with
  | case1 => simpa [mergeQueue] using hr
  | case2 a =>
    rw [mergeQueue] at hr ⊢
    exact hfinish hr
  | case3 a b rest ih =>
    obtain ⟨hrec, hc⟩ := mergeQueue_cons_eq_ok.mp hr
    exact mergeQueue_cons_eq_ok.mpr ⟨ih hrec, hcheck hc⟩

/-- A part of the items, with checks that look at this part only. -/
theorem mergeQueue_map {α' γ' : Type} {f : α → α'} {g : γ → γ'} {merge' : α' → α' → α'} {check' : α' → α' → Except ε Unit}
    {empty' : Except ε γ'} {finish' : α' → Except ε γ'} (hmerge : ∀ a b, f (merge a b) = merge' (f a) (f b))
    (hcheck : ∀ a b, check a b = check' (f a) (f b)) (hempty : empty.map g = empty')
    (hfinish : ∀ a, (finish a).map g = finish' (f a)) (xs : List α) :
    (mergeQueue merge check empty finish xs).map g = mergeQueue merge' check' empty' finish' (xs.map f) := by
  induction xs using mergeQueue.induct merge with
  | case1 => simpa [mergeQueue] using hempty
  | case2 a => simpa [mergeQueue] using hfinish a
  | case3 a b rest ih =>
    have hlist : (rest ++ [merge a b]).map f = rest.map f ++ [merge' (f a) (f b)] := by simp [hmerge]
    rw [List.map_cons, List.map_cons, mergeQueue, mergeQueue, ← hlist, ← ih, hcheck]
    cases mergeQueue merge check empty finish (rest ++ [merge a b]) with
    | error e => rfl
    | ok r =>
      cases check' (f a) (f b) with
      | error e => rfl
      | ok u => rfl

end

end CSemantics
