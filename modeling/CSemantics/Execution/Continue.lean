/-
  `continue`.

  `Continue()` drops the terms behind it one after the other and lets `popBlock` and `pushBlock` pass, until it
  comes to the end of a loop's body.  `popLoop` passes too, and there it goes wrong: the `popLoop` at the
  end of a switch throws away everything behind it, the `Continue()` with it, and takes up what follows the
  switch.  So a `continue` inside a switch does what a `break` does; it reaches the end of the loop's body only if
  nothing is to be executed between the two, or if another `continue` is.

      Stmt.continues        the `continue`s of a loop's body, and whether each gets to its end
      Exec.LeadsTo          a run that executes nothing on the way
      QuietStep.unique      there is one such run
      Verdict               what becomes of every state at a position
      verdict_of_continues  each `continue` does what `Stmt.continues` says
-/
import CSemantics.Execution.Labels

namespace CSemantics

variable {E : Type}

/-! ## Positions -/

/-- Where the machine is in a function: what is left to execute, the loops and the blocks. -/
structure Position (E : Type) where
  k : KSeq E
  loopStack : LoopStack E
  blockHistory : List Int

/-- The machine is there, up to what a `popLoop` throws away. -/
structure Exec.IsAt (s : Exec E) (p : Position E) : Prop where
  k : upto s.k = upto p.k
  loopStack : uptoLoops s.loopStack = uptoLoops p.loopStack
  blockHistory : s.blockHistory = p.blockHistory

/-- **The continuation portion** of a loop in the blocks `bh`: `Post` of a `For`, the condition of the others. -/
def LoopHead.portion (h : LoopHead E) (body rest : KSeq E) (ls : LoopStack E) (bh : List Int) : Position E :=
  ⟨h.again body ++ .popLoop :: rest, (bh.headD 0, rest) :: ls, bh⟩

/-! ## The `continue`s of a loop -/

/-- A `continue`, and whether it gets to the end of the loop's body. -/
structure LoopContinue (E : Type) where
  position : Position E
  reaches : Bool

mutual

/-- Whether nothing is executed from the front of the statement to the end of the loop's body, if that is so of
    what follows the statement (`next`) and of a `continue` in its place (`ok`). -/
def Stmt.goesOn (ok next : Bool) : Stmt E → Bool
  | .simple .Nop => next
  | .simple (.location _) => next
  | .simple .Continue => ok
  | .simple _ => false
  | .decl _ => false
  | .block _ ss => goesOnAll ok next ss
  | .IfThenElse _ _ _ _ _ => false
  | .loop _ _ _ => false
  | .Switch _ _ _ _ => false
  | .labeled _ ss => goesOnAll ok next ss

def goesOnAll (ok next : Bool) : List (Stmt E) → Bool
  | [] => next
  | s :: ss => s.goesOn ok (goesOnAll ok next ss)

end

mutual

/-- The `continue`s of a statement in the body of a loop, but for those of the loops inside.  In a switch a
    `continue` does what the end of the switch does. -/
def Stmt.continues (bh : List Int) (rest : KSeq E) (ls : LoopStack E) (ok next : Bool) : Stmt E → List (LoopContinue E)
  | .simple .Continue => [⟨⟨.simple .Continue :: rest, ls, bh⟩, ok⟩]
  | .simple _ => []
  | .decl _ => []
  | .block tag ss => continuesAll (tag :: bh) (.popBlock :: rest) ls ok next ss
  | .IfThenElse _ tagT t tagF f =>
    continuesAll (tagT :: bh) (.popBlock :: rest) ls ok next t ++
      continuesAll (tagF :: bh) (.popBlock :: rest) ls ok next f
  | .loop _ _ _ => []
  | .Switch _ _ tag ss => continuesAll (tag :: bh) (.popBlock :: .popLoop :: rest) ((bh.headD 0, rest) :: ls) next next ss
  | .labeled _ ss => continuesAll bh rest ls ok next ss

def continuesAll (bh : List Int) (rest : KSeq E) (ls : LoopStack E) (ok next : Bool) :
    List (Stmt E) → List (LoopContinue E)
  | [] => []
  | s :: ss =>
    s.continues bh (elaborateAll ss ++ rest) ls ok (goesOnAll ok next ss) ++ continuesAll bh rest ls ok next ss

end

/-- The `continue`s of a loop. -/
def LoopHead.continues (h : LoopHead E) (tag : Int) (ss : List (Stmt E)) (rest : KSeq E) (ls : LoopStack E)
    (bh : List Int) : List (LoopContinue E) :=
  let p := h.portion (blockSeq tag (elaborateAll ss)) rest ls bh
  continuesAll (tag :: bh) (.popBlock :: p.k) p.loopStack true true ss

/-! ## Leading to a position -/

/-- The terms that evaluate nothing and declare nothing. -/
def KItem.isQuiet : KItem E → Bool
  | .simple .Continue => true
  | .simple .Nop => true
  | .simple (.location _) => true
  | .labeled _ _ => true
  | .pushBlock _ => true
  | .popBlock => true
  | .popLoop => true
  | _ => false

section Steps

variable [DecidableEq E]

/-- A step of such a term. -/
def QuietStep (c : Cells) (G : GotoMap E) (s s' : Exec E) : Prop := Step c G s s' ∧ ∃ i ∈ s.k.head?, i.isQuiet = true

/-- **The state leads to the position**: the machine gets there and executes nothing on the way. -/
def Exec.LeadsTo (c : Cells) (G : GotoMap E) (s : Exec E) (p : Position E) : Prop :=
  ∃ t, Relation.ReflTransGen (QuietStep c G) s t ∧ t.IsAt p

variable {c : Cells} {G : GotoMap E} {s t u : Exec E} {p : Position E}

theorem QuietStep.unique (h : QuietStep c G s t) (h' : QuietStep c G s u) : t = u := by
  obtain ⟨h, i, hi, hquiet⟩ := h
  obtain ⟨h', -⟩ := h'
  obtain ⟨_ | ⟨j, K⟩, ls, store⟩ := s
  · cases hi
  obtain rfl : j = i := Option.some.inj hi
  cases j with
  | simple j =>
    cases j with
    | Continue => cases h <;> cases h' <;> simp_all [KItem.stopsContinue, KItem.isFor, KItem.evaluates, KItem.passes]
    | Nop => cases h <;> cases h' <;> simp_all [KItem.evaluates]
    | location => cases h <;> cases h' <;> simp_all [KItem.evaluates]
    | _ => cases hquiet
  | labeled => cases h <;> cases h' <;> simp_all [KItem.evaluates, KItem.passes]
  | pushBlock => cases h <;> cases h' <;> simp_all [KItem.evaluates, KItem.passes]
  | popBlock => cases h <;> cases h' <;> simp_all [KItem.evaluates, KItem.passes]
  | popLoop => cases h <;> cases h' <;> simp_all [KItem.evaluates, KItem.passes]
  | _ => cases hquiet

end Steps

/-! ## Blocks and sequences -/

theorem popBlock_ok {s : Store} {b : Int} {bh : List Int} (hbh : s.blockControl.blockHistory = b :: bh)
    (hs : s.Nested) :
    ∃ s', s.popBlock = .ok s' := by
  rw [Store.Nested, hbh] at hs
  rw [Store.popBlock]
  cases hstack : s.blockStack with
  | nil =>
    rw [hstack] at hs
    exact absurd hs id
  | cons c cs => exact ⟨_, rfl⟩

section Upto

variable {i : KItem E} {K k : KSeq E}

theorem exists_of_upto_cons (hi : i.isPopLoop = false) (h : upto k = upto (i :: K)) :
    ∃ K', k = i :: K' ∧ upto K' = upto K := by
  rw [upto, if_neg (by simp [hi])] at h
  cases k with
  | nil => cases h
  | cons j K' =>
    rw [upto] at h
    split at h
    · next hj =>
      obtain ⟨rfl, -⟩ := List.cons.inj h
      rw [hi] at hj
      cases hj
    · obtain ⟨rfl, hK⟩ := List.cons.inj h
      exact ⟨K', rfl, hK⟩

theorem exists_of_upto_append {F : KSeq E} (hF : F.any KItem.isPopLoop = false) (h : upto k = upto (F ++ K)) :
    ∃ K', k = F ++ K' ∧ upto K' = upto K := by
  induction F generalizing k with
  | nil => exact ⟨k, rfl, h⟩
  | cons i F ih =>
    rw [List.any_cons, Bool.or_eq_false_iff] at hF
    obtain ⟨k', rfl, hk⟩ := exists_of_upto_cons hF.1 h
    obtain ⟨K', rfl, hK⟩ := ih hF.2 hk
    exact ⟨K', rfl, hK⟩

theorem exists_of_upto_popLoop (h : upto k = upto (.popLoop :: K)) : ∃ K', k = .popLoop :: K' := by
  cases k with
  | nil => cases h
  | cons j K' =>
    rw [upto_popLoop, upto] at h
    split at h
    · obtain ⟨rfl, -⟩ := List.cons.inj h
      exact ⟨K', rfl⟩
    · obtain ⟨rfl, -⟩ := List.cons.inj h
      exact ⟨K', rfl⟩

theorem exists_of_uptoLoops_cons {n : Int} {ls ls₁ : LoopStack E} (h : uptoLoops ls₁ = uptoLoops ((n, K) :: ls)) :
    ∃ K' ls', ls₁ = (n, K') :: ls' ∧ upto K' = upto K ∧ uptoLoops ls' = uptoLoops ls := by
  cases ls₁ with
  | nil => cases h
  | cons p ls' =>
    obtain ⟨hp, hls⟩ := List.cons.inj h
    obtain ⟨m, K'⟩ := p
    obtain ⟨hn, hK⟩ := Prod.mk.inj hp
    obtain rfl : m = n := hn
    exact ⟨K', ls', rfl, hK, hls⟩

theorem KItem.isPopLoop_eq_false (h : i.isQuiet = false) : i.isPopLoop = false := by
  cases i with
  | popLoop => cases h
  | _ => rfl

end Upto

/-! ## What becomes of a position -/

/-- A position where something is executed. -/
def Position.Ready (p : Position E) : Prop := ∃ i K, p.k = i :: K ∧ i.isQuiet = false

theorem LoopHead.ready_portion (h : LoopHead E) (body rest : KSeq E) (ls : LoopStack E) (bh : List Int) :
    (h.portion body rest ls bh).Ready := by
  cases h with
  | For control post => exact ⟨_, _, rfl, rfl⟩
  | While b => exact ⟨_, _, rfl, rfl⟩
  | DoWhile b => exact ⟨_, _, rfl, rfl⟩

section Verdict

variable [DecidableEq E]

/-- **What becomes of the states at `q`**: whether each of them leads to `p`. -/
def Verdict (c : Cells) (G : GotoMap E) (p : Position E) (b : Bool) (q : Position E) : Prop :=
  ∀ s : Exec E, s.IsAt q → s.store.Nested → (s.LeadsTo c G p ↔ b = true)

variable {c : Cells} {G : GotoMap E} {p : Position E} {s t : Exec E} {b : Bool} {K : KSeq E} {ls : LoopStack E}
  {bh : List Int}

theorem QuietStep.not_isAt (hp : p.Ready) (h : QuietStep c G s t) : ¬s.IsAt p := by
  intro hs
  obtain ⟨i, K, hk, hi⟩ := hp
  have hupto := hs.k
  rw [hk] at hupto
  obtain ⟨K', hk', -⟩ := exists_of_upto_cons (KItem.isPopLoop_eq_false hi) hupto
  obtain ⟨-, j, hj, hquiet⟩ := h
  rw [hk'] at hj
  obtain rfl : i = j := Option.some.inj hj
  rw [hi] at hquiet
  cases hquiet

/-- There is one run only, so a step of it changes nothing. -/
theorem leadsTo_step_iff (hp : p.Ready) (h : QuietStep c G s t) : s.LeadsTo c G p ↔ t.LeadsTo c G p := by
  constructor
  · rintro ⟨u, hsu, hu⟩
    rcases hsu.cases_head with rfl | ⟨v, hsv, hvu⟩
    · exact absurd hu (h.not_isAt hp)
    · rw [h.unique hsv]
      exact ⟨u, hvu, hu⟩
  · rintro ⟨u, htu, hu⟩
    exact ⟨u, .head h htu, hu⟩

namespace Verdict

theorem of_step {q q' : Position E} (hp : p.Ready)
    (hstep : ∀ s : Exec E, s.IsAt q → s.store.Nested → ∃ t, QuietStep c G s t ∧ t.IsAt q' ∧ t.store.Nested)
    (h : Verdict c G p b q') : Verdict c G p b q := by
  intro s hs hnested
  obtain ⟨t, hst, ht, hnested'⟩ := hstep s hs hnested
  rw [leadsTo_step_iff hp hst]
  exact h t ht hnested'

/-- A rule that rewrites the first terms and nothing else. -/
theorem of_rule (hp : p.Ready) (F F' : KSeq E) (hF : F.any KItem.isPopLoop = false)
    (hrule : ∀ K ls store, QuietStep c G ⟨F ++ K, ls, store⟩ ⟨F' ++ K, ls, store⟩)
    (h : Verdict c G p b ⟨F' ++ K, ls, bh⟩) : Verdict c G p b ⟨F ++ K, ls, bh⟩ := by
  refine of_step hp (fun s hs hnested => ?_) h
  obtain ⟨k, ls₁, store⟩ := s
  obtain ⟨hk, hls, hbh⟩ := hs
  obtain ⟨K', rfl, hK⟩ := exists_of_upto_append hF hk
  exact ⟨_, hrule K' ls₁ store, ⟨upto_append_congr F' hK, hls, hbh⟩, hnested⟩

theorem here : Verdict c G p true p := fun s hs _ => ⟨fun _ => rfl, fun _ => ⟨s, .refl, hs⟩⟩

/-- A term that executes something ends the run, short of `p`. -/
theorem stuck {i : KItem E} (hi : i.isQuiet = false) (hbh : bh ≠ p.blockHistory) :
    Verdict c G p false ⟨i :: K, ls, bh⟩ := by
  intro s hs _
  refine ⟨?_, fun h => absurd h Bool.false_ne_true⟩
  rintro ⟨t, hst, ht⟩
  rcases hst.cases_head with rfl | ⟨v, ⟨-, j, hj, hquiet⟩, -⟩
  · exact absurd (hs.blockHistory.symm.trans ht.blockHistory) hbh
  · obtain ⟨K', hk, -⟩ := exists_of_upto_cons (KItem.isPopLoop_eq_false hi) hs.k
    rw [hk] at hj
    obtain rfl : i = j := Option.some.inj hj
    rw [hi] at hquiet
    cases hquiet

/-- The end of a block. -/
theorem popBlock (hp : p.Ready) (n : Int) (h : Verdict c G p b ⟨K, ls, bh⟩) :
    Verdict c G p b ⟨.popBlock :: K, ls, n :: bh⟩ := by
  refine of_step hp (fun s hs hnested => ?_) h
  obtain ⟨k, ls₁, store⟩ := s
  obtain ⟨hk, hls, hbh⟩ := hs
  obtain ⟨K', rfl, hK⟩ := exists_of_upto_cons rfl hk
  obtain ⟨store', hpop⟩ := popBlock_ok hbh hnested
  obtain ⟨hbh', hnested'⟩ := popBlock_nested hbh hnested hpop
  exact ⟨⟨K', ls₁, store'⟩, ⟨.popBlock hpop, _, rfl, rfl⟩, ⟨hK, hls, hbh'⟩, hnested'⟩

/-- The start of a block. -/
theorem pushBlock (hp : p.Ready) {tag : Int} (h : Verdict c G p b ⟨K, ls, tag :: bh⟩) :
    Verdict c G p b ⟨.pushBlock tag :: K, ls, bh⟩ := by
  refine of_step hp (fun s hs hnested => ?_) h
  obtain ⟨k, ls₁, store⟩ := s
  obtain ⟨hk, hls, hbh⟩ := hs
  obtain ⟨K', rfl, hK⟩ := exists_of_upto_cons rfl hk
  refine ⟨⟨K', ls₁, store.pushBlock tag⟩, ⟨.pushBlock, _, rfl, rfl⟩, ⟨hK, hls, ?_⟩, pushBlock_nested tag hnested⟩
  exact congrArg (tag :: ·) hbh

/-- The end of a switch, which goes on with what follows it. -/
theorem popLoop (hp : p.Ready) {n : Int} (K' : KSeq E) (h : Verdict c G p b ⟨K, ls, n :: bh⟩) :
    Verdict c G p b ⟨.popLoop :: K', (n, K) :: ls, n :: bh⟩ := by
  refine of_step hp (fun s hs hnested => ?_) h
  obtain ⟨k, ls₁, store⟩ := s
  obtain ⟨hk, hls, hbh⟩ := hs
  obtain ⟨K₁, rfl⟩ := exists_of_upto_popLoop hk
  obtain ⟨K₂, ls₂, rfl, hK, hls₂⟩ := exists_of_uptoLoops_cons hls
  exact ⟨⟨K₂, ls₂, store⟩, ⟨.popLoop hbh, _, rfl, rfl⟩, ⟨hK, hls₂, hbh⟩, hnested⟩

/-- `Continue()` there throws itself away. -/
theorem continue_popLoop (hp : p.Ready) {n : Int} (K' : KSeq E) (h : Verdict c G p b ⟨K, ls, n :: bh⟩) :
    Verdict c G p b ⟨.simple .Continue :: .popLoop :: K', (n, K) :: ls, n :: bh⟩ := by
  refine of_step hp (fun s hs hnested => ?_) (popLoop hp (.simple .Continue :: K') h)
  obtain ⟨k, ls₁, store⟩ := s
  obtain ⟨hk, hls, hbh⟩ := hs
  obtain ⟨k', rfl, hk'⟩ := exists_of_upto_cons rfl hk
  obtain ⟨K₁, rfl⟩ := exists_of_upto_popLoop hk'
  exact ⟨_, ⟨.continuePopLoop, _, rfl, rfl⟩, ⟨rfl, hls, hbh⟩, hnested⟩

/-- A term that `Continue()` drops. -/
theorem drop (hp : p.Ready) {i : KItem E} (hi : i.stopsContinue = false)
    (h : Verdict c G p b ⟨.simple .Continue :: K, ls, bh⟩) :
    Verdict c G p b ⟨.simple .Continue :: i :: K, ls, bh⟩ := by
  have hpop : [.simple .Continue, i].any KItem.isPopLoop = false := by
    cases i with
    | popLoop => cases hi
    | _ => rfl
  exact of_rule hp [_, i] [.simple .Continue] hpop (fun _ _ _ => ⟨.continueDrop hi, _, rfl, rfl⟩) h

mutual

/-- **A `continue` goes past a statement**, whatever it is. -/
theorem continue_stmt (hp : p.Ready) : ∀ (s : Stmt E) {K : KSeq E} {ls : LoopStack E} {bh : List Int},
    Verdict c G p b ⟨.simple .Continue :: K, ls, bh⟩ → Verdict c G p b ⟨.simple .Continue :: (s.elaborate ++ K), ls, bh⟩
  | .simple _, _, _, _, h => drop hp rfl h
  | .decl _, _, _, _, h => drop hp rfl h
  | .block tag ss, K, ls, bh, h => by
    have hend : Verdict c G p b ⟨.simple .Continue :: .popBlock :: K, ls, tag :: bh⟩ :=
      of_rule hp [_, _] [_, _] rfl (fun _ _ _ => ⟨.continuePopBlock, _, rfl, rfl⟩) (popBlock hp tag h)
    have hinside := pushBlock hp (continue_all hp ss hend)
    rw [Stmt.elaborate, blockSeq, List.cons_append, List.append_assoc]
    exact of_rule hp [_, _] [_, _] rfl (fun _ _ _ => ⟨.continuePushBlock, _, rfl, rfl⟩) hinside
  | .IfThenElse _ tagT t _ _, _, _, _, h => by
    have ht : blockSeq tagT (elaborateAll t) ≠ [] := List.cons_ne_nil _ _
    exact of_rule hp [_, .IfThenElse _ _ _] [.simple .Continue] rfl (fun _ _ _ => ⟨.continueIf ht rfl, _, rfl, rfl⟩) h
  | .loop _ _ _, _, _, _, h => drop hp rfl h
  | .Switch _ _ _ _, _, _, _, h => drop hp rfl h
  | .labeled _ _, _, _, _, h => drop hp rfl h

theorem continue_all (hp : p.Ready) : ∀ (ss : List (Stmt E)) {K : KSeq E} {ls : LoopStack E} {bh : List Int},
    Verdict c G p b ⟨.simple .Continue :: K, ls, bh⟩ →
      Verdict c G p b ⟨.simple .Continue :: (elaborateAll ss ++ K), ls, bh⟩
  | [], _, _, _, h => h
  | s :: ss, _, _, _, h => by
    rw [elaborateAll, List.append_assoc]
    exact continue_stmt hp s (continue_all hp ss h)

end

end Verdict

/-- What becomes of a place in the body of a loop and of a `continue` there. -/
structure Verdicts (c : Cells) (G : GotoMap E) (p : Position E) (ok next : Bool) (q : Position E) : Prop where
  next : Verdict c G p next q
  ok : Verdict c G p ok { q with k := .simple .Continue :: q.k }

namespace Verdicts

variable {ok next : Bool}

theorem block (hp : p.Ready) (tag : Int) (h : Verdicts c G p ok next ⟨K, ls, bh⟩) :
    Verdicts c G p ok next ⟨.popBlock :: K, ls, tag :: bh⟩ where
  next := h.next.popBlock hp tag
  ok := .of_rule hp [_, _] [_, _] rfl (fun _ _ _ => ⟨.continuePopBlock, _, rfl, rfl⟩) (h.ok.popBlock hp tag)

/-- At the end of a switch, a `continue` is nothing else. -/
theorem popLoop (hp : p.Ready) {n : Int} (K' : KSeq E) (h : Verdict c G p next ⟨K, ls, n :: bh⟩) :
    Verdicts c G p next next ⟨.popLoop :: K', (n, K) :: ls, n :: bh⟩ :=
  ⟨h.popLoop hp K', h.continue_popLoop hp K'⟩

mutual

/-- A statement in front. -/
theorem stmt (hp : p.Ready) : ∀ (s : Stmt E) {next : Bool} {K : KSeq E} {ls : LoopStack E} {bh : List Int},
    p.blockHistory.length < bh.length → Verdicts c G p ok next ⟨K, ls, bh⟩ →
      Verdicts c G p ok (s.goesOn ok next) ⟨s.elaborate ++ K, ls, bh⟩
  | s, next, K, ls, bh, hbh, h => by
    have hne : bh ≠ p.blockHistory := fun heq => absurd (congrArg List.length heq) hbh.ne'
    refine ⟨?_, h.ok.continue_stmt hp s⟩
    cases s with
    | simple j =>
      cases j with
      | Nop => exact .of_rule hp [_] [] rfl (fun _ _ _ => ⟨.pass rfl, _, rfl, rfl⟩) h.next
      | location l => exact .of_rule hp [_] [] rfl (fun _ _ _ => ⟨.pass rfl, _, rfl, rfl⟩) h.next
      | Continue => exact h.ok
      | _ => exact .stuck rfl hne
    | block tag ss =>
      have hinside := all hp ss (by simpa using Nat.lt_succ_of_lt hbh) (h.block hp tag)
      rw [Stmt.elaborate, blockSeq, List.cons_append, List.append_assoc]
      exact hinside.next.pushBlock hp
    | labeled m ss =>
      exact .of_rule hp [_] (elaborateAll ss) rfl (fun _ _ _ => ⟨.labeled, _, rfl, rfl⟩) (all hp ss hbh h).next
    | _ => exact .stuck rfl hne

theorem all (hp : p.Ready) : ∀ (ss : List (Stmt E)) {next : Bool} {K : KSeq E} {ls : LoopStack E} {bh : List Int},
    p.blockHistory.length < bh.length → Verdicts c G p ok next ⟨K, ls, bh⟩ →
      Verdicts c G p ok (goesOnAll ok next ss) ⟨elaborateAll ss ++ K, ls, bh⟩
  | [], _, _, _, _, _, h => h
  | s :: ss, _, _, _, _, hbh, h => by
    rw [elaborateAll, List.append_assoc]
    exact stmt hp s hbh (all hp ss hbh h)

end

mutual

/-- **Each `continue` of a statement** does what `Stmt.continues` says. -/
theorem continues (hp : p.Ready) : ∀ (s : Stmt E) {ok next : Bool} {K : KSeq E} {ls : LoopStack E} {bh : List Int},
    p.blockHistory.length < bh.length → Verdicts c G p ok next ⟨K, ls, bh⟩ →
      ∀ x ∈ s.continues bh K ls ok next, Verdict c G p x.reaches x.position
  | .simple j, _, _, _, _, _, _, h => by
    intro x hx
    cases j with
    | Continue =>
      rw [Stmt.continues, List.mem_singleton] at hx
      rw [hx]
      exact h.ok
    | _ => cases hx
  | .decl _, _, _, _, _, _, _, _ => by simp [Stmt.continues]
  | .block tag ss, _, _, _, _, _, hbh, h => by
    rw [Stmt.continues]
    exact continues_all hp ss (by simpa using Nat.lt_succ_of_lt hbh) (h.block hp tag)
  | .IfThenElse _ tagT t tagF u, _, _, _, _, _, hbh, h => by
    intro x hx
    rw [Stmt.continues] at hx
    rcases List.mem_append.mp hx with hx | hx
    · exact continues_all hp t (by simpa using Nat.lt_succ_of_lt hbh) (h.block hp tagT) x hx
    · exact continues_all hp u (by simpa using Nat.lt_succ_of_lt hbh) (h.block hp tagF) x hx
  | .loop _ _ _, _, _, _, _, _, _, _ => by simp [Stmt.continues]
  | .Switch _ _ tag ss, _, _, _, _, [], hbh, _ => by simp at hbh
  | .Switch _ _ tag ss, _, _, _, _, n :: bh, hbh, h => by
    rw [Stmt.continues]
    exact continues_all hp ss (by simpa using Nat.lt_succ_of_lt hbh) ((popLoop hp _ h.next).block hp tag)
  | .labeled _ ss, _, _, _, _, _, hbh, h => by
    rw [Stmt.continues]
    exact continues_all hp ss hbh h

theorem continues_all (hp : p.Ready) :
    ∀ (ss : List (Stmt E)) {ok next : Bool} {K : KSeq E} {ls : LoopStack E} {bh : List Int},
    p.blockHistory.length < bh.length → Verdicts c G p ok next ⟨K, ls, bh⟩ →
      ∀ x ∈ continuesAll bh K ls ok next ss, Verdict c G p x.reaches x.position
  | [], _, _, _, _, _, _, _ => by simp [continuesAll]
  | s :: ss, _, _, _, _, _, hbh, h => by
    intro x hx
    rw [continuesAll] at hx
    rcases List.mem_append.mp hx with hx | hx
    · exact continues hp s hbh (all hp ss hbh h) x hx
    · exact continues_all hp ss hbh h x hx

end

end Verdicts

/-! ## The end of a loop's body -/

/-- There a `continue` is at home. -/
theorem verdicts_portion (c : Cells) (G : GotoMap E) (h : LoopHead E) (body rest : KSeq E) (ls : LoopStack E)
    (bh : List Int) :
    Verdicts c G (h.portion body rest ls bh) true true (h.portion body rest ls bh) := by
  refine ⟨.here, ?_⟩
  have hp := h.ready_portion body rest ls bh
  cases h with
  | For control post =>
    refine Verdict.drop hp rfl ?_
    exact .of_rule hp [_, _, _] [_, _, _] rfl (fun _ _ _ => ⟨.continueFor, _, rfl, rfl⟩) .here
  | While b =>
    exact .of_rule hp [_, _, _] [_, _] rfl (fun _ _ _ => ⟨.continueDone rfl, _, rfl, rfl⟩) .here
  | DoWhile b =>
    exact .of_rule hp [_, _] [_] rfl (fun _ _ _ => ⟨.continueDo rfl, _, rfl, rfl⟩) .here

theorem verdict_of_continues (c : Cells) (G : GotoMap E) {h : LoopHead E} {tag : Int} {ss : List (Stmt E)}
    {rest : KSeq E}
    {ls : LoopStack E} {bh : List Int} {x : LoopContinue E} (hx : x ∈ h.continues tag ss rest ls bh) :
    Verdict c G (h.portion (blockSeq tag (elaborateAll ss)) rest ls bh) x.reaches x.position := by
  have hp := h.ready_portion (blockSeq tag (elaborateAll ss)) rest ls bh
  have hend := (verdicts_portion c G h (blockSeq tag (elaborateAll ss)) rest ls bh).block hp tag
  have hin : (h.portion (blockSeq tag (elaborateAll ss)) rest ls bh).blockHistory.length < (tag :: bh).length :=
    Nat.lt_succ_self bh.length
  exact Verdicts.continues_all hp ss hin hend x hx

/-- **A `continue`** gets to the continuation portion of its loop exactly if nothing is to be executed between the
    end of the innermost switch around it and the end of the loop's body. -/
theorem continue_leadsTo_iff (c : Cells) (G : GotoMap E) (h : LoopHead E) (tag : Int) (ss : List (Stmt E))
    (rest : KSeq E)
    (ls : LoopStack E) (bh : List Int) {x : LoopContinue E} (hx : x ∈ h.continues tag ss rest ls bh) {s : Exec E}
    (hs : s.IsAt x.position) (hnested : s.store.Nested) :
    s.LeadsTo c G (h.portion (blockSeq tag (elaborateAll ss)) rest ls bh) ↔ x.reaches = true :=
  verdict_of_continues c G hx s hs hnested

end Verdict

/-! ## A switch in a loop -/

/-- A store inside the blocks `bh`, before any declaration. -/
def Store.inBlocks (bh : List Int) : Store where
  blockControl := ⟨[], [], [], ∅, ∅, bh⟩
  blockStack := bh.tails.tail.map fun bh' => ⟨[], [], [], ∅, ∅, bh'⟩
  currScope := .fileScope
  shouldInit := true
  mem := fun _ => none
  next := 0

theorem Store.nested_inBlocks (bh : List Int) : (Store.inBlocks bh).Nested := by
  suffices h : Stacked bh (bh.tails.tail.map fun bh' => (⟨[], [], [], ∅, ∅, bh'⟩ : BlockControl)) from h
  induction bh with
  | nil => trivial
  | cons b bh ih => cases bh with
    | nil => exact ⟨rfl, trivial⟩
    | cons b' bh => exact ⟨rfl, ih⟩

/-- The state of the machine at a `continue`. -/
def LoopContinue.start (x : LoopContinue E) : Exec E :=
  ⟨x.position.k, x.position.loopStack, .inBlocks x.position.blockHistory⟩

theorem LoopContinue.isAt_start (x : LoopContinue E) : x.start.IsAt x.position := ⟨rfl, rfl, rfl⟩

/-- The cells of a program without variables. -/
def noVariables : Cells := ⟨x86GccLimitedLibc, [], 0, fun _ _ => none, fun _ => none, fun _ => none, [], []⟩

/-- `switch (0) { case 1: continue; }`, in the block 3 -/
def switchContinue : Stmt Unit := .Switch 0 (.int 0) 3 [.labeled (.Case 0 0 (.int 1)) [.simple .Continue]]

/-- `while (1) { switch (0) { case 1: continue; } }` -/
theorem continue_leadsTo_while : ∃ x ∈ (LoopHead.While (.int 1)).continues 2 [switchContinue] [.popBlock] [] [1],
    x.start.LeadsTo noVariables []
      ((LoopHead.While (.int 1)).portion (blockSeq 2 (elaborateAll [switchContinue])) [.popBlock] [] [1]) := by
  have hx : (⟨⟨_, _, _⟩, true⟩ : LoopContinue Unit) ∈
      (LoopHead.While (.int 1)).continues 2 [switchContinue] [.popBlock] [] [1] := List.mem_cons_self
  exact ⟨_, hx,
    (continue_leadsTo_iff noVariables [] _ _ _ _ _ _ hx (LoopContinue.isAt_start _) (Store.nested_inBlocks _)).mpr rfl⟩

/-- `while (1) { switch (0) { case 1: continue; } e; }`: the `continue` goes on with `e`. -/
theorem continue_stays_in_loop : ¬∀ x ∈ (LoopHead.While (.int 1)).continues 2
      [switchContinue, .simple (.Computation (.other ()))] [.popBlock] [] [1],
    x.start.LeadsTo noVariables [] ((LoopHead.While (.int 1)).portion
      (blockSeq 2 (elaborateAll [switchContinue, .simple (.Computation (.other ()))])) [.popBlock] [] [1]) := by
  intro h
  have hx : (⟨⟨_, _, _⟩, false⟩ : LoopContinue Unit) ∈ (LoopHead.While (.int 1)).continues 2
      [switchContinue, .simple (.Computation (.other ()))] [.popBlock] [] [1] := List.mem_cons_self
  have hverdict := verdict_of_continues noVariables [] hx _ (LoopContinue.isAt_start _) (Store.nested_inBlocks _)
  exact Bool.false_ne_true (hverdict.mp (h _ hx))

end CSemantics
