/-
  The map of labels.

  `calculateGotoMap` walks through a body and writes down, at each label, what a `goto` to it needs: the
  blocks around it, what is left to execute from there, the loops around it and the declarations passed
  on the way.  What is left to execute is a sequence of terms, so the walk has to know what FOLLOWS each
  statement.  A `while` and a `switch` are walked through in place; for a branch, a `for` and a
  `do`-`while` the calculation splits into several, one for each body, and what follows the statement
  goes with each as the TAIL of its computation.  The calculations take their steps in any order.

  What the walk writes down has a direct description, by recursion on the tree of statements
  (`Stmt.records`).  A calculation that is under way owes the records of what it has not walked through
  (`Pending`); a step hands them on to the calculations it makes or into the map, so that the map and
  what is pending stay, together, the records of the body.

      GotoCalc.step         the rules
      Stmt.records          what is written down at the labels of a statement
      step_pending          one step hands on what was pending
      calculateGotoMap_ends every order of steps ends, with the records of the body
-/
import CSemantics.Statement
import CSemantics.Lib.AssocMap
import CSemantics.Lib.Inevitable

namespace CSemantics

variable {E : Type}

/-! ## The rules -/

/-- A `<goto-calc>` cell; no rule looks at its `<saved-env>`. -/
structure GotoCalc (E : Type) where
  computation : KSeq E
  computationTail : KSeq E
  declStack : List (FrozenDeclaration E)
  gotoBlockHistory : List Int
  gotoLoopStack : LoopStack E

/-- The calculations under way and the map of the function. -/
structure GotoMapCalc (E : Type) where
  calcs : List (GotoCalc E)
  gotoMap : GotoMap E

section Rules

variable [DecidableEq E]

/-- One step of one calculation: the calculations it becomes, and the map.  A finished one goes away. -/
def GotoCalc.step (M : GotoMap E) (c : GotoCalc E) : Option (List (GotoCalc E) × GotoMap E) :=
  match c.computation with
  | [] => some ([], M)
  | .simple _ :: K => some ([{ c with computation := K }], M)
  | .pushBlock tag :: K => some ([{ c with computation := K, gotoBlockHistory := tag :: c.gotoBlockHistory }], M)
  | .popBlock :: K =>
    match c.gotoBlockHistory with
    | _ :: bh => some ([{ c with computation := K, gotoBlockHistory := bh }], M)
    | [] => none
  | .decl d :: K =>
    match c.gotoBlockHistory with
    | num :: _ => some ([{ c with computation := K, declStack := c.declStack ++ [⟨num, d⟩] }], M)
    | [] => none
  | .loop (.While b) s :: K =>
    match c.gotoBlockHistory with
    | num :: _ =>
      some ([{ c with
        computation := s ++ .loopMarked :: .loop (.While b) s :: .popLoop :: K
        gotoLoopStack := (num, K ++ c.computationTail) :: c.gotoLoopStack }], M)
    | [] => none
  | .loopMarked :: .loop (.While _) _ :: .popLoop :: K => some ([{ c with computation := .popLoop :: K }], M)
  | .loop (.For control post) s :: K =>
    match c.gotoBlockHistory with
    | num :: _ =>
      some ([{ c with computation := K },
        { c with
          computation := s
          computationTail := .simple (.Computation post) :: .loopMarked ::
            .loop (.For control.orTrue post) s :: .popLoop :: (K ++ c.computationTail)
          gotoLoopStack := (num, K ++ c.computationTail) :: c.gotoLoopStack }], M)
    | [] => none
  | .loop (.DoWhile b) s :: K =>
    match c.gotoBlockHistory with
    | num :: _ =>
      some ([{ c with computation := K },
        { c with
          computation := s
          computationTail := .IfThenElse b [.loopMarked, .loop (.DoWhile b) s] [.simple .Nop] ::
            .popLoop :: (K ++ c.computationTail)
          gotoLoopStack := (num, K ++ c.computationTail) :: c.gotoLoopStack }], M)
    | [] => none
  | .IfThenElse _ s₁ s₂ :: K =>
    some ([{ c with computation := K },
      { c with computation := s₁, computationTail := K ++ c.computationTail },
      { c with computation := s₂, computationTail := K ++ c.computationTail }], M)
  | .Switch _ _ s :: K =>
    match c.gotoBlockHistory with
    | num :: _ =>
      some ([{ c with
        computation := s ++ .popLoop :: K
        gotoLoopStack := (num, K ++ c.computationTail) :: c.gotoLoopStack }], M)
    | [] => none
  | .popLoop :: K =>
    match c.gotoLoopStack with
    | _ :: ls => some ([{ c with computation := K, gotoLoopStack := ls }], M)
    | [] => none
  | .labeled m s :: K =>
    if m.labelId ∈ M.map Prod.fst then none
    else
      some ([{ c with computation := s ++ K }],
        AssocMap.update M m.labelId
          ⟨c.gotoBlockHistory, s ++ K ++ c.computationTail, c.gotoLoopStack, c.declStack⟩)
  | _ => none

/-- One of the calculations takes a step. -/
inductive CalcStep : GotoMapCalc E → GotoMapCalc E → Prop
  | one (b : List (GotoCalc E)) {a cs : List (GotoCalc E)} {c : GotoCalc E} {M M' : GotoMap E}
      (h : c.step M = some (cs, M')) :
      CalcStep ⟨b ++ c :: a, M⟩ ⟨b ++ cs ++ a, M'⟩

/-- `calculateGotoMap(K)`, when it starts to wait for the map. -/
def calculateGotoMap (k : KSeq E) : GotoMapCalc E := ⟨[⟨k, [], [], [], []⟩], []⟩

end Rules

/-! ## What is written down -/

mutual

/-- What a calculation adds to its `<decl-stack>` while it walks through a statement in the block `b`. -/
def Stmt.frozen (b : Int) : Stmt E → List (FrozenDeclaration E)
  | .simple _ => []
  | .decl d => [⟨b, d⟩]
  | .block tag ss => frozenAll tag ss
  | .IfThenElse _ _ _ _ _ => []
  | .loop h tag ss =>
    match h with
    | .While _ => frozenAll tag ss
    | .For _ _ => []
    | .DoWhile _ => []
  | .Switch _ _ tag ss => frozenAll tag ss
  | .labeled _ ss => frozenAll b ss

def frozenAll (b : Int) : List (Stmt E) → List (FrozenDeclaration E)
  | [] => []
  | s :: ss => s.frozen b ++ frozenAll b ss

end

mutual

/-- The goto objects of the labels of a statement: it is inside the blocks `bh` and the loops `ls`, the
    declarations `ds` have been passed, and `rest` is what follows.  `after` says which declarations are
    added behind each statement of a list. -/
def Stmt.records (after : Int → Stmt E → List (FrozenDeclaration E)) (bh : List Int) (rest : KSeq E)
    (ls : LoopStack E) (ds : List (FrozenDeclaration E)) : Stmt E → GotoMap E
  | .simple _ => []
  | .decl _ => []
  | .block tag ss => recordsAll after (tag :: bh) (.popBlock :: rest) ls ds ss
  | .IfThenElse _ tagT t tagF f =>
    recordsAll after (tagT :: bh) (.popBlock :: rest) ls ds t ++
      recordsAll after (tagF :: bh) (.popBlock :: rest) ls ds f
  | .loop h tag ss =>
    recordsAll after (tag :: bh) (.popBlock :: (h.marked.again (blockSeq tag (elaborateAll ss)) ++ .popLoop :: rest))
      ((bh.headD 0, rest) :: ls) ds ss
  | .Switch _ _ tag ss =>
    recordsAll after (tag :: bh) (.popBlock :: .popLoop :: rest) ((bh.headD 0, rest) :: ls) ds ss
  | .labeled m ss => (m.labelId, ⟨bh, elaborateAll ss ++ rest, ls, ds⟩) :: recordsAll after bh rest ls ds ss

def recordsAll (after : Int → Stmt E → List (FrozenDeclaration E)) (bh : List Int) (rest : KSeq E)
    (ls : LoopStack E) (ds : List (FrozenDeclaration E)) : List (Stmt E) → GotoMap E
  | [] => []
  | s :: ss =>
    s.records after bh (elaborateAll ss ++ rest) ls ds ++ recordsAll after bh rest ls (ds ++ after (bh.headD 0) s) ss

end

/-- What `calculateGotoMap` writes down at the labels of a body. -/
def FunctionBody.records (f : FunctionBody E) : GotoMap E := f.stmt.records Stmt.frozen [] [] [] []

mutual

/-- The labels of the records are the labels of the statement. -/
theorem Stmt.map_fst_records (after : Int → Stmt E → List (FrozenDeclaration E)) (bh : List Int)
    (rest : KSeq E) (ls : LoopStack E) (ds : List (FrozenDeclaration E)) :
    ∀ s : Stmt E, (s.records after bh rest ls ds).map Prod.fst = s.labels
  | .simple _ => by rw [Stmt.records, Stmt.labels, List.map_nil]
  | .decl _ => by rw [Stmt.records, Stmt.labels, List.map_nil]
  | .block _ ss => by rw [Stmt.records, Stmt.labels, map_fst_recordsAll]
  | .IfThenElse _ _ t _ f => by
    rw [Stmt.records, Stmt.labels, List.map_append, map_fst_recordsAll, map_fst_recordsAll]
  | .loop _ _ ss => by rw [Stmt.records, Stmt.labels, map_fst_recordsAll]
  | .Switch _ _ _ ss => by rw [Stmt.records, Stmt.labels, map_fst_recordsAll]
  | .labeled _ ss => by rw [Stmt.records, Stmt.labels, List.map_cons, map_fst_recordsAll]

theorem map_fst_recordsAll (after : Int → Stmt E → List (FrozenDeclaration E)) (bh : List Int)
    (rest : KSeq E) (ls : LoopStack E) (ds : List (FrozenDeclaration E)) :
    ∀ ss : List (Stmt E), (recordsAll after bh rest ls ds ss).map Prod.fst = labelsAll ss
  | [] => by rw [recordsAll, labelsAll, List.map_nil]
  | s :: ss => by
    rw [recordsAll, labelsAll, List.map_append, Stmt.map_fst_records, map_fst_recordsAll]

end

mutual

/-- The block history of a record is the list of the blocks around the label. -/
theorem Stmt.map_history_records (after : Int → Stmt E → List (FrozenDeclaration E)) (bh : List Int)
    (rest : KSeq E) (ls : LoopStack E) (ds : List (FrozenDeclaration E)) :
    ∀ s : Stmt E, (s.records after bh rest ls ds).map (fun r => (r.1, r.2.blockHistory)) = s.enclosing bh
  | .simple _ => by rw [Stmt.records, Stmt.enclosing, List.map_nil]
  | .decl _ => by rw [Stmt.records, Stmt.enclosing, List.map_nil]
  | .block _ ss => by rw [Stmt.records, Stmt.enclosing, map_history_recordsAll]
  | .IfThenElse _ _ t _ f => by
    rw [Stmt.records, Stmt.enclosing, List.map_append, map_history_recordsAll, map_history_recordsAll]
  | .loop _ _ ss => by rw [Stmt.records, Stmt.enclosing, map_history_recordsAll]
  | .Switch _ _ _ ss => by rw [Stmt.records, Stmt.enclosing, map_history_recordsAll]
  | .labeled _ ss => by rw [Stmt.records, Stmt.enclosing, List.map_cons, map_history_recordsAll]

theorem map_history_recordsAll (after : Int → Stmt E → List (FrozenDeclaration E)) (bh : List Int)
    (rest : KSeq E) (ls : LoopStack E) (ds : List (FrozenDeclaration E)) :
    ∀ ss : List (Stmt E),
      (recordsAll after bh rest ls ds ss).map (fun r => (r.1, r.2.blockHistory)) = enclosingAll bh ss
  | [] => by rw [recordsAll, enclosingAll, List.map_nil]
  | s :: ss => by
    rw [recordsAll, enclosingAll, List.map_append, Stmt.map_history_records, map_history_recordsAll]

end

/-! ## What is pending -/

mutual

/-- How many steps a statement takes. -/
def Stmt.work : Stmt E → Nat
  | .simple _ => 1
  | .decl _ => 1
  | .block _ ss => workAll ss + 2
  | .IfThenElse _ _ t _ f => (workAll t + 3) + (workAll f + 3) + 1
  | .loop _ _ ss => workAll ss + 6
  | .Switch _ _ _ ss => workAll ss + 4
  | .labeled _ ss => workAll ss + 1

def workAll : List (Stmt E) → Nat
  | [] => 0
  | s :: ss => s.work + workAll ss

end

mutual

/-- Whether a statement can stand outside of all blocks: no declaration, loop or switch of it does. -/
def Stmt.free : Stmt E → Prop
  | .simple _ => True
  | .block _ _ => True
  | .IfThenElse _ _ _ _ _ => True
  | .labeled _ ss => freeAll ss
  | .decl _ => False
  | .loop _ _ _ => False
  | .Switch _ _ _ _ => False

def freeAll : List (Stmt E) → Prop
  | [] => True
  | s :: ss => s.free ∧ freeAll ss

end

/-- The records a calculation with the tail `tail` still owes, and how many steps it takes. -/
inductive Pending (tail : KSeq E) :
    KSeq E → List Int → LoopStack E → List (FrozenDeclaration E) → GotoMap E → Nat → Prop
  | nil {bh ls ds} : Pending tail [] bh ls ds [] 1
  | stmt {K bh ls ds es n} (s : Stmt E) (hs : bh ≠ [] ∨ s.free)
      (h : Pending tail K bh ls (ds ++ s.frozen (bh.headD 0)) es n) :
      Pending tail (s.elaborate ++ K) bh ls ds
        (s.records Stmt.frozen bh (K ++ tail) ls ds ++ es) (s.work + n)
  | popBlock {K b bh ls ds es n} (h : Pending tail K bh ls ds es n) :
      Pending tail (.popBlock :: K) (b :: bh) ls ds es (n + 1)
  | popLoop {K bh l ls ds es n} (h : Pending tail K bh ls ds es n) :
      Pending tail (.popLoop :: K) bh (l :: ls) ds es (n + 1)
  | marked {K bh ls ds es n} (b : Expr E) (s : KSeq E) (h : Pending tail (.popLoop :: K) bh ls ds es n) :
      Pending tail (.loopMarked :: .loop (.While b) s :: .popLoop :: K) bh ls ds es (n + 1)

/-- What one calculation owes. -/
def GotoCalc.Pends (c : GotoCalc E) (es : GotoMap E) (n : Nat) : Prop :=
  Pending c.computationTail c.computation c.gotoBlockHistory c.gotoLoopStack c.declStack es n

/-- What several owe. -/
inductive PendsAll : List (GotoCalc E) → GotoMap E → Nat → Prop
  | nil : PendsAll [] [] 0
  | cons {c cs es es' n n'} (h : GotoCalc.Pends c es n) (h' : PendsAll cs es' n') :
      PendsAll (c :: cs) (es ++ es') (n + n')

theorem PendsAll.single {c : GotoCalc E} {es : GotoMap E} {n : Nat} (h : c.Pends es n) : PendsAll [c] es n := by
  simpa using PendsAll.cons h .nil

theorem PendsAll.append {cs cs' : List (GotoCalc E)} {es es' : GotoMap E} {n n' : Nat}
    (h : PendsAll cs es n) (h' : PendsAll cs' es' n') : PendsAll (cs ++ cs') (es ++ es') (n + n') := by
  induction h with
  | nil => simpa using h'
  | cons hc _ ih => simpa [Nat.add_assoc] using PendsAll.cons hc ih

theorem PendsAll.append_inv {cs cs' : List (GotoCalc E)} {es : GotoMap E} {n : Nat}
    (h : PendsAll (cs ++ cs') es n) :
    ∃ es₁ es₂ n₁ n₂, PendsAll cs es₁ n₁ ∧ PendsAll cs' es₂ n₂ ∧ es = es₁ ++ es₂ ∧ n = n₁ + n₂ := by
  induction cs generalizing es n with
  | nil => exact ⟨[], es, 0, n, .nil, h, by simp, by omega⟩
  | cons c cs ih =>
    cases h with
    | cons hc h' =>
      obtain ⟨es₁, es₂, n₁, n₂, h₁, h₂, rfl, rfl⟩ := ih h'
      exact ⟨_, es₂, _, n₂, .cons hc h₁, h₂, by simp, by omega⟩

/-- A list of statements is walked through from the front. -/
theorem pending_all {tail K : KSeq E} {bh : List Int} {ls : LoopStack E}
    {ds : List (FrozenDeclaration E)} {es : GotoMap E} {n : Nat} (ss : List (Stmt E))
    (hss : bh ≠ [] ∨ freeAll ss) (h : Pending tail K bh ls (ds ++ frozenAll (bh.headD 0) ss) es n) :
    Pending tail (elaborateAll ss ++ K) bh ls ds
      (recordsAll Stmt.frozen bh (K ++ tail) ls ds ss ++ es) (workAll ss + n) := by
  induction ss generalizing ds with
  | nil => simpa [elaborateAll, recordsAll, frozenAll, workAll] using h
  | cons s ss ih =>
    rw [frozenAll, ← List.append_assoc] at h
    have hrest := ih (hss.imp id And.right) h
    have hs := Pending.stmt s (hss.imp id And.left) hrest
    simpa [elaborateAll, recordsAll, workAll, List.append_assoc, Nat.add_assoc] using hs

/-- The body of a branch or a loop, walked through by a calculation of its own. -/
theorem pending_body {tail : KSeq E} {bh : List Int} {ls : LoopStack E} {ds : List (FrozenDeclaration E)}
    (tag : Int) (ss : List (Stmt E)) :
    Pending tail (blockSeq tag (elaborateAll ss)) bh ls ds
      (recordsAll Stmt.frozen (tag :: bh) (.popBlock :: tail) ls ds ss) (workAll ss + 3) := by
  have h : Pending tail ((Stmt.block tag ss).elaborate ++ []) bh ls ds _ _ :=
    .stmt (.block tag ss) (.inr trivial) .nil
  rw [Stmt.elaborate, List.append_nil, Stmt.records, Stmt.work, List.append_nil] at h
  exact h

/-! ## Steps -/

section Steps

variable [DecidableEq E]

/-- What one step of a calculation that owes `es` does: it hands on all of it. -/
def HandsOn (M : GotoMap E) (c : GotoCalc E) (es : GotoMap E) (n : Nat) : Prop :=
  ∃ cs M' es' n', c.step M = some (cs, M') ∧ PendsAll cs es' n' ∧ n' < n ∧ (M' ++ es').Perm (M ++ es)

/-- A step that leaves one calculation and the map as it was. -/
theorem HandsOn.one {M : GotoMap E} {c c' : GotoCalc E} {es : GotoMap E} {n n' : Nat}
    (hstep : c.step M = some ([c'], M)) (h : c'.Pends es n') (hn : n' < n) : HandsOn M c es n :=
  ⟨[c'], M, es, n', hstep, .single h, hn, .refl _⟩

/-- A loop that is not walked through in place: its body gets a calculation of its own. -/
theorem HandsOn.split {M : GotoMap E} {K tail : KSeq E} {ds : List (FrozenDeclaration E)} {num : Int}
    {bh : List Int} {ls : LoopStack E} {es : GotoMap E} {n : Nat} (h : LoopHead E) (tag : Int) (ss : List (Stmt E))
    (hframe : (Stmt.loop h tag ss).frozen num = [])
    (hstep : GotoCalc.step M ⟨.loop h (blockSeq tag (elaborateAll ss)) :: K, tail, ds, num :: bh, ls⟩ =
      some ([⟨K, tail, ds, num :: bh, ls⟩, ⟨blockSeq tag (elaborateAll ss),
        h.marked.again (blockSeq tag (elaborateAll ss)) ++ .popLoop :: (K ++ tail), ds, num :: bh,
        (num, K ++ tail) :: ls⟩], M))
    (hK : Pending tail K (num :: bh) ls (ds ++ (Stmt.loop h tag ss).frozen num) es n) :
    HandsOn M ⟨.loop h (blockSeq tag (elaborateAll ss)) :: K, tail, ds, num :: bh, ls⟩
      ((Stmt.loop h tag ss).records Stmt.frozen (num :: bh) (K ++ tail) ls ds ++ es) (workAll ss + 6 + n) := by
  rw [hframe, List.append_nil] at hK
  refine ⟨_, M, _, _, hstep, .cons hK (.single (pending_body tag ss)), by omega, ?_⟩
  rw [Stmt.records]
  exact List.Perm.append_left M List.perm_append_comm

/-- A step can always be taken, and it hands on what is pending. -/
theorem step_pending {M : GotoMap E} {c : GotoCalc E} {es : GotoMap E} {n : Nat} (h : c.Pends es n)
    (hkeys : ((M ++ es).map Prod.fst).Nodup) : HandsOn M c es n := by
  obtain ⟨computation, tail, ds, bh, ls⟩ := c
  replace h : Pending tail computation bh ls ds es n := h
  cases h with
  | nil => exact ⟨[], M, [], 0, rfl, .nil, by omega, .refl _⟩
  | popBlock h => exact .one rfl h (by omega)
  | popLoop h => exact .one rfl h (by omega)
  | marked b s h => exact .one rfl h (by omega)
  | @stmt K _ _ _ es n s hs h =>
    cases s with
    | simple i =>
      rw [Stmt.frozen, List.append_nil] at h
      exact .one rfl h (by rw [Stmt.work]; omega)
    | decl d =>
      obtain ⟨num, bh, rfl⟩ := List.exists_cons_of_ne_nil (hs.resolve_right id)
      exact .one rfl h (by rw [Stmt.work]; omega)
    | block tag ss =>
      have hin : Pending tail (elaborateAll ss ++ .popBlock :: K) (tag :: bh) ls ds
          (recordsAll Stmt.frozen (tag :: bh) (.popBlock :: K ++ tail) ls ds ss ++ es) (workAll ss + (n + 1)) :=
        pending_all ss (.inl (by simp)) (.popBlock h)
      have hstep : GotoCalc.step M ⟨(Stmt.block tag ss).elaborate ++ K, tail, ds, bh, ls⟩ =
          some ([⟨elaborateAll ss ++ .popBlock :: K, tail, ds, tag :: bh, ls⟩], M) := by
        simp [Stmt.elaborate, blockSeq, GotoCalc.step]
      exact .one hstep hin (by rw [Stmt.work]; omega)
    | IfThenElse b tagT t tagF f =>
      rw [Stmt.frozen, List.append_nil] at h
      refine ⟨_, M, _, _, rfl, .cons h (.cons (pending_body tagT t) (.single (pending_body tagF f))),
        by rw [Stmt.work]; omega, ?_⟩
      rw [Stmt.records]
      exact List.Perm.append_left M List.perm_append_comm
    | loop head tag ss =>
      obtain ⟨num, bh, rfl⟩ := List.exists_cons_of_ne_nil (hs.resolve_right id)
      rw [Stmt.work]
      cases head with
      | For control post => exact .split (.For control post) tag ss rfl rfl h
      | DoWhile b => exact .split (.DoWhile b) tag ss rfl rfl h
      | While b =>
        -- the body, and then the three terms that end the loop
        have hin : Pending tail (blockSeq tag (elaborateAll ss) ++
            .loopMarked :: .loop (.While b) (blockSeq tag (elaborateAll ss)) :: .popLoop :: K) (num :: bh)
            ((num, K ++ tail) :: ls) ds _ (workAll ss + 2 + (n + 1 + 1)) :=
          .stmt (.block tag ss) (.inr trivial) (.marked b _ (.popLoop h))
        rw [Stmt.records] at hin
        rw [Stmt.records]
        exact .one rfl hin (by omega)
    | Switch sn v tag ss =>
      obtain ⟨num, bh, rfl⟩ := List.exists_cons_of_ne_nil (hs.resolve_right id)
      have hin : Pending tail (blockSeq tag (elaborateAll ss) ++ .popLoop :: K) (num :: bh)
          ((num, K ++ tail) :: ls) ds _ (workAll ss + 2 + (n + 1)) :=
        .stmt (.block tag ss) (.inr trivial) (.popLoop h)
      rw [Stmt.records] at hin
      rw [Stmt.records]
      exact .one rfl hin (by rw [Stmt.work]; omega)
    | labeled m ss =>
      have hin := pending_all ss (hs.imp id id) h
      rw [Stmt.records, List.cons_append] at hkeys ⊢
      -- the label is not there yet: it is still pending
      have hnew : m.labelId ∉ M.map Prod.fst := by
        rw [List.map_append, List.map_cons, List.nodup_append] at hkeys
        intro hmem
        exact hkeys.2.2 _ hmem _ List.mem_cons_self rfl
      have hstep : GotoCalc.step M ⟨(Stmt.labeled m ss).elaborate ++ K, tail, ds, bh, ls⟩ =
          some ([⟨elaborateAll ss ++ K, tail, ds, bh, ls⟩],
            M ++ [(m.labelId, ⟨bh, elaborateAll ss ++ (K ++ tail), ls, ds⟩)]) := by
        show (if m.labelId ∈ M.map Prod.fst then none else some (_, AssocMap.update M _ _)) = _
        rw [if_neg hnew, AssocMap.update, List.filter_eq_self.mpr, List.append_assoc]
        · rfl
        intro p hp
        have : p.1 ≠ m.labelId := fun hp' => hnew (List.mem_map.mpr ⟨p, hp, hp'⟩)
        simpa using this
      refine ⟨_, _, _, _, hstep, .single hin, by rw [Stmt.work]; omega, ?_⟩
      rw [List.append_assoc]
      exact .refl _

end Steps

/-! ## Every order of steps -/

section Runs

/-- The map and what the calculations owe are the records of the body; `n` bounds the steps left. -/
def GotoMapCalc.Owes (f : FunctionBody E) (n : Nat) (t : GotoMapCalc E) : Prop :=
  ∃ es, PendsAll t.calcs es n ∧ (t.gotoMap ++ es).Perm f.records

theorem FunctionBody.labels_eq (f : FunctionBody E) : f.stmt.labels = .funLabel :: labelsAll f.stmts := by
  simp [FunctionBody.stmt, Stmt.labels, labelsAll, Mark.labelId]

theorem FunctionBody.nodup_records (f : FunctionBody E) : (f.records.map Prod.fst).Nodup := by
  rw [FunctionBody.records, Stmt.map_fst_records, f.labels_eq]
  exact f.labels_nodup

/-- What a calculation in the middle owes, brought to the front. -/
theorem perm_bring_front {α : Type} (m a b c : List α) : (m ++ (a ++ (b ++ c))).Perm ((m ++ b) ++ (a ++ c)) := by
  rw [List.append_assoc, ← List.append_assoc a, ← List.append_assoc b]
  exact List.Perm.append_left m (List.Perm.append_right c List.perm_append_comm)

variable [DecidableEq E]

/-- Whichever calculation it is, it can take a step, and a step keeps the whole. -/
theorem owes_step {f : FunctionBody E} {n : Nat} {before after : List (GotoCalc E)} {c : GotoCalc E}
    {M : GotoMap E} (h : GotoMapCalc.Owes f n ⟨before ++ c :: after, M⟩) :
    ∃ cs M', c.step M = some (cs, M') ∧ ∃ m < n, GotoMapCalc.Owes f m ⟨before ++ cs ++ after, M'⟩ := by
  obtain ⟨es, hes, hperm⟩ := h
  obtain ⟨es₁, es₂, n₁, n₂, h₁, h₂, rfl, rfl⟩ := hes.append_inv
  cases h₂ with
  | @cons _ _ e e' m m' hc hafter =>
    have hfront : ((M ++ e) ++ (es₁ ++ e')).Perm f.records := (perm_bring_front M es₁ e e').symm.trans hperm
    have hkeys : ((M ++ e).map Prod.fst).Nodup := by
      have := (hfront.map Prod.fst).nodup_iff.mpr f.nodup_records
      rw [List.map_append] at this
      exact (List.nodup_append.mp this).1
    obtain ⟨cs, M', e'', k, hstep, hcs, hk, hstepPerm⟩ := step_pending hc hkeys
    have hpend : PendsAll (before ++ (cs ++ after)) (es₁ ++ (e'' ++ e')) (n₁ + (k + m')) :=
      h₁.append (hcs.append hafter)
    rw [← List.append_assoc] at hpend
    refine ⟨cs, M', hstep, _, by omega, _, hpend, ?_⟩
    exact (perm_bring_front M' es₁ e'' e').trans ((List.Perm.append_right _ hstepPerm).trans hfront)

/-- **The calculation ends**, in whatever order the steps are taken, with no calculation left and with
    the records of the body in the map. -/
theorem calculateGotoMap_ends (f : FunctionBody E) :
    Inevitably CalcStep (fun t => t.calcs = [] ∧ t.gotoMap.Perm f.records)
      (calculateGotoMap f.stmt.elaborate) := by
  have hstart : Pending [] (f.stmt.elaborate ++ []) [] [] [] (f.records ++ []) (f.stmt.work + 1) :=
    .stmt f.stmt (.inr ⟨trivial, trivial, trivial⟩) .nil
  rw [List.append_nil, List.append_nil] at hstart
  have howes : GotoMapCalc.Owes f (f.stmt.work + 1) (calculateGotoMap f.stmt.elaborate) :=
    ⟨f.records, .single hstart, .refl _⟩
  refine Inevitably.of_index (GotoMapCalc.Owes f) (fun n t ht => ?_) howes
  obtain ⟨calcs, M⟩ := t
  cases calcs with
  | nil =>
    obtain ⟨es, hes, hperm⟩ := ht
    cases hes with
    | nil => exact .inl ⟨rfl, by simpa using hperm⟩
  | cons c cs =>
    right
    constructor
    · have hc : GotoMapCalc.Owes f n ⟨[] ++ c :: cs, M⟩ := ht
      obtain ⟨cs', M', hstep, -⟩ := owes_step hc
      exact ⟨_, .one [] hstep⟩
    · intro t hstep
      generalize c :: cs = all at ht hstep
      cases hstep with
      | one before hc =>
        obtain ⟨cs', M', hstep', m, hm, hOwes⟩ := owes_step ht
        cases hc.symm.trans hstep'
        exact ⟨m, hm, hOwes⟩

end Runs

end CSemantics
