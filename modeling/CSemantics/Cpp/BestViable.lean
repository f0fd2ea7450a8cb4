/-
  Overload resolution: the best viable function.

  One function is better than another when no argument has a worse conversion sequence and some argument
  has a better one, or when it is not a template specialization and the other is.  A static member has no
  conversion for the object it is called on: that place holds `bottomConversionSequence` and is skipped.

  `computeBestViable` walks through the candidates with one champion, and compares the champion with all
  others in the end (`Lib.Tournament`).  Better is ASYMMETRIC whatever the order of conversion sequences
  is: "has a worse sequence" one way round is "has a better sequence" the other way round, places that are
  skipped included.

      hasWorseCSThan_swap        the two scans are one
      isBetterFunctionThan_asymm
      computeBestViable_spec     the best viable function is found, in every order of the candidates
-/
import CSemantics.Common
import CSemantics.Lib.Tournament

namespace CSemantics.Cpp

/-- A candidate: its entry in the map of candidates, `Key |-> (T, K)`. -/
structure Candidate (τ κ : Type) where
  key : τ
  T : τ
  K : κ

section Rules

variable {τ κ S : Type} (gt : S → S → Bool)

/-- `#hasWorseCSThan2`; `none` is `bottomConversionSequence` and `gt` is `>CS`. -/
def hasWorseCSThan : List (Option S) → List (Option S) → Eval Bool
  | some C1 :: L1, some C2 :: L2 => if gt C2 C1 then .ok true else hasWorseCSThan L1 L2
  | none :: L1, _ :: L2 => hasWorseCSThan L1 L2
  | _ :: L1, none :: L2 => hasWorseCSThan L1 L2
  | [], [] => .ok false
  | _, _ => .error .stuck

/-- `#hasBetterCSThan2` -/
def hasBetterCSThan : List (Option S) → List (Option S) → Eval Bool
  | some C1 :: L1, some C2 :: L2 => if gt C1 C2 then .ok true else hasBetterCSThan L1 L2
  | none :: L1, _ :: L2 => hasBetterCSThan L1 L2
  | _ :: L1, none :: L2 => hasBetterCSThan L1 L2
  | [], [] => .ok false
  | _, _ => .error .stuck

variable (isTemplateSpecialization : κ → Bool) (getConversionSequences : τ → List (Option S))

/-- `isBetterFunctionThan(F1, K1, F2, K2, Types, Cats, NotConversionOverload())`, with the conversion sequences
    of the arguments for each function. -/
def isBetterFunctionThan (c1 c2 : Candidate τ κ) : Eval Bool :=
  if isTemplateSpecialization c1.K && isTemplateSpecialization c2.K then .error .stuck
  else do
    let worse ← hasWorseCSThan gt (getConversionSequences c1.T) (getConversionSequences c2.T)
    let better ← hasBetterCSThan gt (getConversionSequences c1.T) (getConversionSequences c2.T)
    return !worse && (better || (!isTemplateSpecialization c1.K && isTemplateSpecialization c2.K))

/-- `checkIsBest`; `none` is `noBestViable`. -/
def checkIsBest (c1 : Candidate τ κ) : List (Candidate τ κ) → Eval (Option (Candidate τ κ))
  | [] => .ok (some c1)
  | c2 :: others => do
    if ← isBetterFunctionThan gt isTemplateSpecialization getConversionSequences c1 c2 then checkIsBest c1 others
    else return none

/-- `#computeBestViable`: the champion, those to come and those it has been compared with. -/
def computeBestViableFrom (c1 : Candidate τ κ) :
    List (Candidate τ κ) → List (Candidate τ κ) → Eval (Option (Candidate τ κ))
  | [], others => checkIsBest gt isTemplateSpecialization getConversionSequences c1 others
  | c2 :: M, others => do
    if ← isBetterFunctionThan gt isTemplateSpecialization getConversionSequences c2 c1 then
      computeBestViableFrom c2 M (c1 :: others)
    else computeBestViableFrom c1 M (c2 :: others)

/-- `computeBestViable`, of the candidates in some order. -/
def computeBestViable : List (Candidate τ κ) → Eval (Option (Candidate τ κ))
  | [] => .ok none
  | c :: M => computeBestViableFrom gt isTemplateSpecialization getConversionSequences c M []

end Rules

section Theorems

variable {τ κ S : Type} {gt : S → S → Bool} {isTemplateSpecialization : κ → Bool}
  {getConversionSequences : τ → List (Option S)}

/-! ## Better functions -/

/-- **The two scans are one**, with the functions the other way round. -/
theorem hasWorseCSThan_swap (L1 L2 : List (Option S)) : hasWorseCSThan gt L1 L2 = hasBetterCSThan gt L2 L1 := by
  induction L1 generalizing L2 with
  | nil => cases L2 <;> simp [hasWorseCSThan, hasBetterCSThan]
  | cons x L1 ih =>
    cases L2 with
    | nil => cases x <;> simp [hasWorseCSThan, hasBetterCSThan]
    | cons y L2 =>
      cases x with
      | none => cases y <;> simp [hasWorseCSThan, hasBetterCSThan, ih]
      | some C1 => cases y <;> simp [hasWorseCSThan, hasBetterCSThan, ih]

/-- Lists for the same arguments can be compared. -/
theorem exists_hasBetterCSThan {L1 L2 : List (Option S)} (h : L1.length = L2.length) :
    ∃ b, hasBetterCSThan gt L1 L2 = .ok b := by
  induction L1 generalizing L2 with
  | nil =>
    cases L2 with
    | nil => exact ⟨false, by simp [hasBetterCSThan]⟩
    | cons y L2 => cases h
  | cons x L1 ih =>
    cases L2 with
    | nil => cases h
    | cons y L2 =>
      obtain ⟨b, hb⟩ := ih (Nat.succ.inj h)
      cases x with
      | none => exact ⟨b, by simp [hasBetterCSThan, hb]⟩
      | some C1 =>
        cases y with
        | none => exact ⟨b, by simp [hasBetterCSThan, hb]⟩
        | some C2 =>
          rw [hasBetterCSThan]
          split
          · exact ⟨true, rfl⟩
          · exact ⟨b, hb⟩

/-- **When one function is better than another.** -/
theorem isBetterFunctionThan_eq_true {c1 c2 : Candidate τ κ} :
    isBetterFunctionThan gt isTemplateSpecialization getConversionSequences c1 c2 = .ok true ↔
      ¬(isTemplateSpecialization c1.K = true ∧ isTemplateSpecialization c2.K = true) ∧
      hasBetterCSThan gt (getConversionSequences c2.T) (getConversionSequences c1.T) = .ok false ∧
      ∃ better, hasBetterCSThan gt (getConversionSequences c1.T) (getConversionSequences c2.T) = .ok better ∧
        (better = true ∨ (isTemplateSpecialization c1.K = false ∧ isTemplateSpecialization c2.K = true)) := by
  unfold isBetterFunctionThan
  rw [hasWorseCSThan_swap]
  by_cases ht : isTemplateSpecialization c1.K = true ∧ isTemplateSpecialization c2.K = true
  · simp [ht]
  · have ht' : (isTemplateSpecialization c1.K && isTemplateSpecialization c2.K) = false := by
      rw [← Bool.not_eq_true, Bool.and_eq_true]
      exact ht
    rw [if_neg (by simp [ht']), Eval.bind_eq_ok]
    simp only [Eval.bind_eq_ok]
    constructor
    · rintro ⟨worse, hworse, better, hbetter, hans⟩
      injection hans with hans
      simp only [Bool.and_eq_true, Bool.not_eq_true', Bool.or_eq_true] at hans
      obtain ⟨rfl, hans⟩ := hans
      exact ⟨ht, hworse, better, hbetter, hans⟩
    · rintro ⟨-, hworse, better, hbetter, hans⟩
      refine ⟨false, hworse, better, hbetter, congrArg _ ?_⟩
      simpa using hans

/-- **Better is asymmetric.** -/
theorem isBetterFunctionThan_asymm {c1 c2 : Candidate τ κ}
    (h : isBetterFunctionThan gt isTemplateSpecialization getConversionSequences c1 c2 = .ok true) :
    isBetterFunctionThan gt isTemplateSpecialization getConversionSequences c2 c1 ≠ .ok true := by
  intro h'
  obtain ⟨-, hworse, better, hbetter, hans⟩ := isBetterFunctionThan_eq_true.mp h
  obtain ⟨-, hworse', better', hbetter', hans'⟩ := isBetterFunctionThan_eq_true.mp h'
  rw [hworse'] at hbetter
  rw [hworse] at hbetter'
  cases hbetter
  cases hbetter'
  -- neither has a better sequence, so both are preferred to a template specialization
  have h1 := hans.resolve_left Bool.false_ne_true
  have h2 := hans'.resolve_left Bool.false_ne_true
  rw [h1.1] at h2
  cases h2.2

/-! ## The tournament -/

/-- Whether one function is better than another, as far as they can be compared. -/
def beats (gt : S → S → Bool) (isTemplateSpecialization : κ → Bool) (getConversionSequences : τ → List (Option S))
    (c1 c2 : Candidate τ κ) : Bool :=
  match isBetterFunctionThan gt isTemplateSpecialization getConversionSequences c1 c2 with
  | .ok b => b
  | .error _ => false

theorem beats_eq_true {c1 c2 : Candidate τ κ} : beats gt isTemplateSpecialization getConversionSequences c1 c2 = true ↔
    isBetterFunctionThan gt isTemplateSpecialization getConversionSequences c1 c2 = .ok true := by
  unfold beats
  cases isBetterFunctionThan gt isTemplateSpecialization getConversionSequences c1 c2 <;> simp

theorem beats_asymm (c1 c2 : Candidate τ κ) (h : beats gt isTemplateSpecialization getConversionSequences c1 c2 = true) :
    beats gt isTemplateSpecialization getConversionSequences c2 c1 = false := by
  rw [← Bool.not_eq_true, beats_eq_true]
  exact isBetterFunctionThan_asymm (beats_eq_true.mp h)

/-- Two candidates that can be compared. -/
def Comparable (gt : S → S → Bool) (isTemplateSpecialization : κ → Bool) (getConversionSequences : τ → List (Option S))
    (c1 c2 : Candidate τ κ) : Prop :=
  isBetterFunctionThan gt isTemplateSpecialization getConversionSequences c1 c2 =
    .ok (beats gt isTemplateSpecialization getConversionSequences c1 c2)

/-- Functions with sequences for the same arguments, not both template specializations, can be compared. -/
theorem comparable {c1 c2 : Candidate τ κ}
    (hlen : (getConversionSequences c1.T).length = (getConversionSequences c2.T).length)
    (htmpl : ¬(isTemplateSpecialization c1.K = true ∧ isTemplateSpecialization c2.K = true)) :
    Comparable gt isTemplateSpecialization getConversionSequences c1 c2 := by
  have hexists : ∀ {L1 L2 : List (Option S)}, L1.length = L2.length → ∃ b, hasBetterCSThan gt L1 L2 = .ok b :=
    exists_hasBetterCSThan
  obtain ⟨worse, hworse⟩ := hexists hlen.symm
  obtain ⟨better, hbetter⟩ := hexists hlen
  have hdefined : ∃ b, isBetterFunctionThan gt isTemplateSpecialization getConversionSequences c1 c2 = .ok b := by
    unfold isBetterFunctionThan
    rw [← Bool.and_eq_true] at htmpl
    rw [if_neg htmpl, hasWorseCSThan_swap, hworse, hbetter]
    exact ⟨_, rfl⟩
  obtain ⟨b, hb⟩ := hdefined
  unfold Comparable beats
  rw [hb]

theorem checkIsBest_eq {c1 : Candidate τ κ} {others : List (Candidate τ κ)}
    (h : ∀ c ∈ others, Comparable gt isTemplateSpecialization getConversionSequences c1 c) :
    checkIsBest gt isTemplateSpecialization getConversionSequences c1 others =
      .ok (if others.all (beats gt isTemplateSpecialization getConversionSequences c1) then some c1 else none) := by
  induction others with
  | nil => simp [checkIsBest]
  | cons c2 others ih =>
    obtain ⟨h2, hrest⟩ := List.forall_mem_cons.mp h
    rw [checkIsBest, h2, ih hrest]
    cases hb : beats gt isTemplateSpecialization getConversionSequences c1 c2 with
    | true => simp [hb, bind, Except.bind]
    | false => simp [hb, bind, Except.bind, pure, Except.pure]

theorem computeBestViableFrom_eq {c1 : Candidate τ κ} {M others : List (Candidate τ κ)}
    (h : (c1 :: M ++ others).Pairwise fun a b => Comparable gt isTemplateSpecialization getConversionSequences a b ∧
      Comparable gt isTemplateSpecialization getConversionSequences b a) :
    computeBestViableFrom gt isTemplateSpecialization getConversionSequences c1 M others =
      .ok (if (Tournament.pass (beats gt isTemplateSpecialization getConversionSequences) c1 M others).2.all
          (beats gt isTemplateSpecialization getConversionSequences
            (Tournament.pass (beats gt isTemplateSpecialization getConversionSequences) c1 M others).1)
        then some (Tournament.pass (beats gt isTemplateSpecialization getConversionSequences) c1 M others).1
        else none) := by
  have hsymm : ∀ {a b : Candidate τ κ}, (Comparable gt isTemplateSpecialization getConversionSequences a b ∧
      Comparable gt isTemplateSpecialization getConversionSequences b a) →
      (Comparable gt isTemplateSpecialization getConversionSequences b a ∧
        Comparable gt isTemplateSpecialization getConversionSequences a b) := And.symm
  induction M generalizing c1 others with
  | nil =>
    rw [computeBestViableFrom, Tournament.pass]
    exact checkIsBest_eq fun c hc => ((List.pairwise_cons.mp h).1 c hc).1
  | cons c2 M ih =>
    have h21 := ((List.pairwise_cons.mp h).1 c2 (by simp)).2
    rw [computeBestViableFrom, h21, Tournament.pass]
    cases hb : beats gt isTemplateSpecialization getConversionSequences c2 c1 with
    | true =>
      simp only [Eval.ok_bind, if_true]
      refine ih (h.perm ?_ hsymm)
      exact List.perm_middle.symm
    | false =>
      simp only [Eval.ok_bind, Bool.false_eq_true, if_false]
      refine ih (h.perm ?_ hsymm)
      have hmiddle : (c1 :: M ++ c2 :: others).Perm (c2 :: (c1 :: M ++ others)) := List.perm_middle
      exact (List.Perm.swap _ _ _).trans hmiddle.symm

/-- **The best viable function.**  Candidates with different entries, with conversion sequences for the same arguments
    and no two of them template specializations: whatever order they come in, the answer is the
    function that is better than every other one, or none when there is no such function; and no two
    functions are better than each other. -/
theorem computeBestViable_spec (gt : S → S → Bool) (isTemplateSpecialization : κ → Bool)
    (getConversionSequences : τ → List (Option S)) (M : List (Candidate τ κ)) (n : Nat)
    (hkeys : (M.map Candidate.key).Nodup) (hlen : ∀ c ∈ M, (getConversionSequences c.T).length = n)
    (htmpl : M.Pairwise fun a b => ¬(isTemplateSpecialization a.K = true ∧ isTemplateSpecialization b.K = true)) :
    (∃ r, computeBestViable gt isTemplateSpecialization getConversionSequences M = .ok r ∧
      ∀ F, r = some F ↔ F ∈ M ∧ ∀ G ∈ M, G ≠ F →
        isBetterFunctionThan gt isTemplateSpecialization getConversionSequences F G = .ok true) ∧
    ∀ F G, isBetterFunctionThan gt isTemplateSpecialization getConversionSequences F G = .ok true →
      isBetterFunctionThan gt isTemplateSpecialization getConversionSequences G F ≠ .ok true := by
  refine ⟨?_, fun F G h => isBetterFunctionThan_asymm h⟩
  have hcomparable : M.Pairwise fun a b => Comparable gt isTemplateSpecialization getConversionSequences a b ∧
      Comparable gt isTemplateSpecialization getConversionSequences b a := by
    refine List.Pairwise.imp_of_mem ?_ htmpl
    intro a b ha hb hab
    have hab' : (getConversionSequences a.T).length = (getConversionSequences b.T).length :=
      (hlen a ha).trans (hlen b hb).symm
    exact ⟨comparable hab' hab, comparable hab'.symm fun h => hab h.symm⟩
  have hbest : computeBestViable gt isTemplateSpecialization getConversionSequences M =
      .ok (Tournament.best (beats gt isTemplateSpecialization getConversionSequences) M) := by
    cases M with
    | nil => rfl
    | cons c M =>
      rw [computeBestViable, computeBestViableFrom_eq (by rw [List.append_nil]; exact hcomparable)]
      rfl
  refine ⟨_, hbest, fun F => ?_⟩
  rw [Tournament.best_eq_some_iff beats_asymm (List.Nodup.of_map _ hkeys)]
  simp only [beats_eq_true]

/-- Of two functions for one argument, the one with the better conversion of it. -/
theorem computeBestViable_two :
    let M : List (Candidate Nat Unit) := [⟨1, 1, ()⟩, ⟨2, 2, ()⟩]
    (∃ r, computeBestViable (fun a b => decide (a > b)) (fun _ => false) (fun T => [some T]) M = .ok r ∧
      ∀ F, r = some F ↔ F ∈ M ∧ ∀ G ∈ M, G ≠ F →
        isBetterFunctionThan (fun a b => decide (a > b)) (fun _ => false) (fun T => [some T]) F G = .ok true) ∧
    ∀ F G : Candidate Nat Unit,
      isBetterFunctionThan (fun a b => decide (a > b)) (fun _ => false) (fun T => [some T]) F G = .ok true →
      isBetterFunctionThan (fun a b => decide (a > b)) (fun _ => false) (fun T => [some T]) G F ≠ .ok true :=
  computeBestViable_spec (fun a b : Nat => decide (a > b)) (fun _ => false) (fun T => [some T])
    [⟨1, 1, ()⟩, ⟨2, 2, ()⟩] 1 (by decide) (by simp) (by simp)

end Theorems

end CSemantics.Cpp
