/-
  Deciding a question by asking others.

  A recursive yes-or-no procedure of the simplest kind: a question either fails at once or succeeds
  when ALL of a list of further questions do.  The procedure is given by `expand`, which answers
  `none` for "no" and `some qs` for "yes if all of `qs`".  Nothing makes it stop by itself, so it
  is run with fuel, and it DECIDES a question when some fuel is enough.

      run_mono            more fuel never changes an answer
      decides_of_measure  a measure that goes down decides every question
      run_rel             questions that expand alike have the same answer
      decides_true_iff    "yes" means: it expands, and all the questions it expands to are "yes"
-/
import Mathlib.Data.List.Basic
import Mathlib.Data.List.Forall2
import Mathlib.Data.Option.Basic
import Mathlib.Data.Nat.Find
import Mathlib.Order.WellFounded

namespace CSemantics.ConjSearch

variable {α : Type}

/-- Ask the questions of a list in order, up to the first "no". -/
def runAll (f : α → Option Bool) : List α → Option Bool
  | [] => some true
  | q :: qs =>
    match f q with
    | none => none
    | some false => some false
    | some true => runAll f qs

/-- Answer a question with the given fuel; `none` is "the fuel ran out". -/
def run (expand : α → Option (List α)) : Nat → α → Option Bool
  | 0, _ => none
  | n + 1, a =>
    match expand a with
    | none => some false
    | some qs => runAll (run expand n) qs

/-- The answer to `a` is `b`. -/
def Decides (expand : α → Option (List α)) (a : α) (b : Bool) : Prop := ∃ n, run expand n a = some b

variable {expand : α → Option (List α)}

/-! ## Fuel -/

theorem runAll_mono {f g : α → Option Bool} (h : ∀ a b, f a = some b → g a = some b) :
    ∀ {qs : List α} {b : Bool}, runAll f qs = some b → runAll g qs = some b
  | [], _, hb => hb
  | q :: qs, b, hb => by
    rw [runAll] at hb ⊢
    cases hq : f q with
    | none => rw [hq] at hb; cases hb
    | some c =>
      rw [hq] at hb
      rw [h q c hq]
      cases c with
      | false => exact hb
      | true => exact runAll_mono h hb

theorem run_succ {n : Nat} {a : α} {b : Bool} (h : run expand n a = some b) :
    run expand (n + 1) a = some b := by
  induction n generalizing a b with
  | zero => cases h
  | succ n ih =>
    rw [run] at h ⊢
    cases he : expand a with
    | none => rw [he] at h; exact h
    | some qs =>
      rw [he] at h
      exact runAll_mono (fun _ _ => ih) h

/-- **More fuel never changes an answer.** -/
theorem run_mono {m n : Nat} (hmn : m ≤ n) {a : α} {b : Bool} (h : run expand m a = some b) :
    run expand n a = some b := by
  induction hmn with
  | refl => exact h
  | step _ ih => exact run_succ ih

/-- A question has at most one answer. -/
theorem Decides.unique {a : α} {b c : Bool} (hb : Decides expand a b) (hc : Decides expand a c) :
    b = c := by
  obtain ⟨m, hm⟩ := hb
  obtain ⟨n, hn⟩ := hc
  have h1 := run_mono (Nat.le_max_left m n) hm
  have h2 := run_mono (Nat.le_max_right m n) hn
  exact Option.some.inj (h1.symm.trans h2)

/-! ## Answers -/

/-- The answers to a list of questions, when each of them has one. -/
theorem exists_runAll {qs : List α} (h : ∀ q ∈ qs, ∃ b, Decides expand q b) :
    ∃ n b, runAll (run expand n) qs = some b := by
  induction qs with
  | nil => exact ⟨0, true, rfl⟩
  | cons q qs ih =>
    obtain ⟨c, m, hm⟩ := h q (by simp)
    obtain ⟨n, b, hn⟩ := ih fun x hx => h x (by simp [hx])
    have hq := run_mono (Nat.le_max_left m n) hm
    have hqs := runAll_mono (fun _ _ => run_mono (Nat.le_max_right m n)) hn
    refine ⟨max m n, c && b, ?_⟩
    rw [runAll, hq]
    cases c with
    | false => rfl
    | true => exact hqs

theorem runAll_eq_true {f : α → Option Bool} {qs : List α} :
    runAll f qs = some true ↔ ∀ q ∈ qs, f q = some true := by
  induction qs with
  | nil => simp [runAll]
  | cons q qs ih =>
    rw [runAll]
    cases hq : f q with
    | none => simp [hq]
    | some c => cases c <;> simp [hq, ih]

/-- **"Yes" means that all the further questions are answered "yes".** -/
theorem decides_true_iff {a : α} :
    Decides expand a true ↔ ∃ qs, expand a = some qs ∧ ∀ q ∈ qs, Decides expand q true := by
  constructor
  · rintro ⟨n, hn⟩
    cases n with
    | zero => cases hn
    | succ n =>
      rw [run] at hn
      cases he : expand a with
      | none => rw [he] at hn; cases hn
      | some qs =>
        rw [he] at hn
        exact ⟨qs, rfl, fun q hq => ⟨n, runAll_eq_true.mp hn q hq⟩⟩
  · rintro ⟨qs, he, hqs⟩
    -- one amount of fuel is enough for all of them
    obtain ⟨n, hn⟩ : ∃ n, ∀ q ∈ qs, run expand n q = some true := by
      clear he
      induction qs with
      | nil => exact ⟨0, by simp⟩
      | cons q qs ih =>
        obtain ⟨m, hm⟩ := hqs q (by simp)
        obtain ⟨n, hn⟩ := ih fun x hx => hqs x (by simp [hx])
        refine ⟨max m n, fun x hx => ?_⟩
        rcases List.mem_cons.mp hx with rfl | hx
        · exact run_mono (Nat.le_max_left m n) hm
        · exact run_mono (Nat.le_max_right m n) (hn x hx)
    refine ⟨n + 1, ?_⟩
    rw [run, he]
    exact runAll_eq_true.mpr hn

/-- **A measure that goes down decides every question** of a class closed under expansion. -/
theorem decides_of_measure {β : Type} {r : β → β → Prop} (hr : WellFounded r) (μ : α → β)
    (P : α → Prop)
    (hstep : ∀ a qs, P a → expand a = some qs → ∀ q ∈ qs, P q ∧ r (μ q) (μ a)) :
    ∀ a, P a → ∃ b, Decides expand a b := by
  intro a
  induction h : μ a using hr.induction generalizing a with
  | _ x ih =>
    subst h
    intro ha
    cases he : expand a with
    | none => exact ⟨false, 1, by simp [run, he]⟩
    | some qs =>
      obtain ⟨n, b, hn⟩ := @exists_runAll α expand qs fun q hq =>
        ih (μ q) (hstep a qs ha he q hq).2 q rfl (hstep a qs ha he q hq).1
      exact ⟨b, n + 1, by rw [run, he]; exact hn⟩

/-! ## The answer -/

theorem exists_isSome_run {a : α} (h : ∃ b, Decides expand a b) : ∃ n, (run expand n a).isSome = true := by
  obtain ⟨b, n, hn⟩ := h
  exact ⟨n, by rw [hn]; rfl⟩

/-- The answer to a question that has one: try more and more fuel. -/
def answer (expand : α → Option (List α)) (a : α) (h : ∃ b, Decides expand a b) : Bool :=
  (run expand (Nat.find (exists_isSome_run h)) a).getD false

theorem decides_answer {a : α} (h : ∃ b, Decides expand a b) : Decides expand a (answer expand a h) := by
  obtain ⟨b, hb⟩ := Option.isSome_iff_exists.mp (Nat.find_spec (exists_isSome_run h))
  refine ⟨Nat.find (exists_isSome_run h), ?_⟩
  unfold answer
  rw [hb]
  rfl

theorem answer_eq_iff {a : α} (h : ∃ b, Decides expand a b) {b : Bool} :
    answer expand a h = b ↔ Decides expand a b := by
  constructor
  · rintro rfl
    exact decides_answer h
  · exact fun hb => (decides_answer h).unique hb

/-! ## Simulations -/

theorem runAll_rel {R : α → α → Prop} {f : α → Option Bool} (h : ∀ a a', R a a' → f a = f a')
    {qs qs' : List α} (hqs : List.Forall₂ R qs qs') : runAll f qs = runAll f qs' := by
  induction hqs with
  | nil => rfl
  | cons hq _ ih => rw [runAll, runAll, h _ _ hq, ih]

/-- **Questions that expand alike have the same answer**, with the same fuel. -/
theorem run_rel {R : α → α → Prop}
    (hR : ∀ a a', R a a' → Option.Rel (List.Forall₂ R) (expand a) (expand a')) (n : Nat) :
    ∀ a a', R a a' → run expand n a = run expand n a' := by
  induction n with
  | zero => intro a a' _; rfl
  | succ n ih =>
    intro a a' haa
    have hrel := hR a a' haa
    rw [run, run]
    cases he : expand a with
    | none =>
      rw [he] at hrel
      cases he' : expand a' with
      | none => rfl
      | some qs' => rw [he'] at hrel; cases hrel
    | some qs =>
      rw [he] at hrel
      cases he' : expand a' with
      | none => rw [he'] at hrel; cases hrel
      | some qs' =>
        rw [he'] at hrel
        cases hrel with
        | some hqs => exact runAll_rel ih hqs

theorem decides_rel {R : α → α → Prop}
    (hR : ∀ a a', R a a' → Option.Rel (List.Forall₂ R) (expand a) (expand a')) {a a' : α}
    (h : R a a') {b : Bool} : Decides expand a b ↔ Decides expand a' b := by
  unfold Decides
  simp only [run_rel hR _ a a' h]

end CSemantics.ConjSearch
