/-
  The execution of statements.

  The `<k>` cell holds the sequence of terms that is left to execute.  A loop DROPS what follows it from the cell
  and saves it on the loop stack; `popLoop`, at the end of the loop or put there by `break`, throws away
  the rest of the cell and takes back what was saved.  A `goto` throws everything away as well: it pops
  blocks until the blocks that are left are blocks of the target too, undoes and makes the declarations that the jump
  goes over, enters the blocks that are missing and goes on with the continuation of the target.

  What expressions evaluate to is left open: a condition may be true or false, a switch may go to any of
  its labels or past them all, and evaluating may change what is in memory (`Effect`).  So the rules are
  a relation, and what is shown of all its runs holds whatever the values are.

      Effect       what the evaluation of an expression may do to memory
      Store.rewind one variable of `rewindEnv`
      Step         the rules
-/
import CSemantics.Execution.Declaration

namespace CSemantics

variable {E : Type}

/-- Evaluation may write and make new objects, under new numbers. -/
structure Effect (M : Mem) (n : Nat) (M' : Mem) (n' : Nat) : Prop where
  le : n ≤ n'
  new : ∀ b, M' b ≠ none → M b ≠ none ∨ (n ≤ b.id ∧ b.id < n')

/-- The terms that wait for an expression. -/
def KItem.evaluates : KItem E → Bool
  | .simple (.Computation _) => true
  | .simple (.Return _) => true
  | .init _ => true
  | .IfThenElse _ _ _ => true
  | .Switch _ _ _ => true
  | _ => false

/-- The terms that go away without a trace in the cells of the model. -/
def KItem.passes : KItem E → Bool
  | .simple .Nop => true
  | .simple (.location _) => true
  | .init _ => true
  | .sequencePoint => true
  | _ => false

/-- The terms that `continue` does not just drop. -/
def KItem.stopsContinue : KItem E → Bool
  | .loopMarked => true
  | .popBlock => true
  | .pushBlock _ => true
  | .popLoop => true
  | .IfThenElse _ _ _ => true
  | _ => false

/-- `For(_, _, _)` -/
def KItem.isFor : KItem E → Bool
  | .loop (.For _ _) _ => true
  | _ => false

/-- Whether a sequence starts with `loopMarked`. -/
def startsMarked : KSeq E → Bool
  | .loopMarked :: _ => true
  | _ => false

/-- The labels of one switch. -/
def LabelId.ofSwitch (sn : Int) : LabelId E → Bool
  | .caseLabel sn' _ => sn = sn'
  | .defaultLabel sn' => sn = sn'
  | _ => false

/-! ## Goto -/

/-- `getStatics(Ids, Scope, Statics)` -/
def getStatics (c : Cells) (ids : Finset VarId) (S : Scope) : Finset VarId :=
  ids.filter fun x => (c.localStatics x S).isSome

/-- `filterIds(BlockNum, DeclStack)` -/
def filterIds (num : Int) : List (FrozenDeclaration E) → Finset VarId
  | [] => ∅
  | d :: ds => if d.blockNum = num then insert (getIdOfDecl d.decl) (filterIds num ds) else filterIds num ds

/-- `filterDecls(BlockNum, Locals, DeclStack)` -/
def filterDecls [DecidableEq E] (num : Int) (locals : Finset VarId) : List (FrozenDeclaration E) → Finset (Decl E)
  | [] => ∅
  | d :: ds =>
    if d.blockNum = num ∧ getIdOfDecl d.decl ∉ locals then insert d.decl (filterDecls num locals ds)
    else filterDecls num locals ds

namespace Store

/-- `keys(Env)` -/
def envKeys (s : Store) : Finset VarId := (s.blockControl.env.map Prod.fst).toFinset

/-- The environment around the current block: of the block around it, or of the file. -/
def outerEnv (c : Cells) (s : Store) : List (VarId × SymBase) × List (VarId × CType) :=
  match s.blockStack with
  | b :: _ => (b.env, b.types)
  | [] => (c.genv, c.gtypes)

/-- `revertLocal(X)` -/
def revertLocal (c : Cells) (s : Store) (x : VarId) : Eval Store :=
  if (s.blockControl.env.lookup x).isSome ∧ (s.blockControl.types.lookup x).isSome then
    match (s.outerEnv c).1.lookup x with
    | none =>
      .ok { s with blockControl := { s.blockControl with
        env := AssocMap.remove s.blockControl.env x, types := AssocMap.remove s.blockControl.types x } }
    | some b =>
      match (s.outerEnv c).2.lookup x with
      | some T =>
        .ok { s with blockControl := { s.blockControl with
          env := AssocMap.update s.blockControl.env x b, types := AssocMap.update s.blockControl.types x T } }
      | none => .error .stuck
  else .error .stuck

/-- What `rewindEnv` does to one of its variables. -/
def rewind (c : Cells) (s : Store) (x : VarId) : Eval Store :=
  if isCompoundLiteralId x then .ok s
  else if x ∈ s.blockControl.localVars then
    match s.blockControl.env.lookup x with
    | none => .error .stuck
    | some b =>
      if (s.blockControl.renv.lookup b).isSome ∧ b ∈ s.blockControl.localAddresses then
        revertLocal c ({ s with blockControl := { s.blockControl with
          renv := AssocMap.remove s.blockControl.renv b
          localVars := s.blockControl.localVars.erase x
          localAddresses := s.blockControl.localAddresses.erase b } }.deleteObjects {b}) x
      else .error .stuck
  else if (c.localStatics x s.currScope).isSome then revertLocal c s x
  else .error .stuck

/-- What `declVariables` does with one of its declarations: it is executed without its initialiser. -/
def declareUninit (c : Cells) (s : Store) (d : Decl E) : Eval (Store × KSeq E) := do
  let (s, code) ← declare c { s with shouldInit := false } d
  return ({ s with shouldInit := true }, code)

end Store

/-! ## The rules -/

/-- The cells of a thread inside a function. -/
structure Exec (E : Type) where
  k : KSeq E
  loopStack : LoopStack E
  store : Store

/-- `<block-history>` -/
abbrev Exec.blockHistory (s : Exec E) : List Int := s.store.blockControl.blockHistory

/-- One step of the thread, in a function with the map `G`. -/
inductive Step [DecidableEq E] (c : Cells) (G : GotoMap E) : Exec E → Exec E → Prop
  | evaluate {i K ls s M n} (hi : i.evaluates) (h : Effect s.mem s.next M n) :
      Step c G ⟨i :: K, ls, s⟩ ⟨i :: K, ls, { s with mem := M, next := n }⟩
  | pass {i K ls s} (hi : i.passes) : Step c G ⟨i :: K, ls, s⟩ ⟨K, ls, s⟩
  | computation {e K ls s} : Step c G ⟨.simple (.Computation e) :: K, ls, s⟩ ⟨.sequencePoint :: K, ls, s⟩
  | labeled {m t K ls s} : Step c G ⟨.labeled m t :: K, ls, s⟩ ⟨t ++ K, ls, s⟩
  | pushBlock {tag K ls s} : Step c G ⟨.pushBlock tag :: K, ls, s⟩ ⟨K, ls, s.pushBlock tag⟩
  | popBlock {K ls s s'} (h : s.popBlock = .ok s') : Step c G ⟨.popBlock :: K, ls, s⟩ ⟨K, ls, s'⟩
  | decl {d K ls s s' code} (T₁ : CType) (hT₁ : isVariablyModifiedType T₁ = false)
      (h : s.declare c (d.stabilize T₁) = .ok (s', code)) : Step c G ⟨.decl d :: K, ls, s⟩ ⟨code ++ K, ls, s'⟩
  -- branches
  | ifTrue {e t f K ls s} : Step c G ⟨.IfThenElse e t f :: K, ls, s⟩ ⟨.sequencePoint :: (t ++ K), ls, s⟩
  | ifFalse {e t f K ls s} : Step c G ⟨.IfThenElse e t f :: K, ls, s⟩ ⟨.sequencePoint :: (f ++ K), ls, s⟩
  | switchPast {sn v t K ls s} : Step c G ⟨.Switch sn v t :: K, ls, s⟩ ⟨.sequencePoint :: K, ls, s⟩
  | switchTo {sn v t K ls s l} (hl : l.ofSwitch sn) (hG : l ∈ G.map Prod.fst) :
      Step c G ⟨.Switch sn v t :: K, ls, s⟩ ⟨.sequencePoint :: .simple (.Goto l) :: K, ls, s⟩
  -- loops
  | mark {h t K ls s num bh} (hbh : s.blockControl.blockHistory = num :: bh) :
      Step c G ⟨.loop h t :: K, ls, s⟩ ⟨[.loopMarked, .loop h.marked t, .popLoop], (num, K) :: ls, s⟩
  | unfold {h t K ls s} : Step c G ⟨.loopMarked :: .loop h t :: K, ls, s⟩ ⟨h.unfold t ++ K, ls, s⟩
  | break_ {K ls s} : Step c G ⟨.simple .Break :: K, ls, s⟩ ⟨.popLoop :: K, ls, s⟩
  | popLoop {K K' ls s num bh} (hbh : s.blockControl.blockHistory = num :: bh) :
      Step c G ⟨.popLoop :: K, (num, K') :: ls, s⟩ ⟨K', ls, s⟩
  | popLoopPopBlock {K K' ls s num num' bh} (hbh : s.blockControl.blockHistory = num :: bh) (hne : num' ≠ num) :
      Step c G ⟨.popLoop :: K, (num', K') :: ls, s⟩ ⟨.popBlock :: .popLoop :: K, (num', K') :: ls, s⟩
  | continueDrop {i K ls s} (hi : i.stopsContinue = false) :
      Step c G ⟨.simple .Continue :: i :: K, ls, s⟩ ⟨.simple .Continue :: K, ls, s⟩
  | continueIf {e t f K ls s} (ht : t ≠ []) (ht' : startsMarked t = false) :
      Step c G ⟨.simple .Continue :: .IfThenElse e t f :: K, ls, s⟩ ⟨.simple .Continue :: K, ls, s⟩
  | continuePopBlock {K ls s} :
      Step c G ⟨.simple .Continue :: .popBlock :: K, ls, s⟩ ⟨.popBlock :: .simple .Continue :: K, ls, s⟩
  | continuePopLoop {K ls s} :
      Step c G ⟨.simple .Continue :: .popLoop :: K, ls, s⟩ ⟨.popLoop :: .simple .Continue :: K, ls, s⟩
  | continuePushBlock {tag K ls s} :
      Step c G ⟨.simple .Continue :: .pushBlock tag :: K, ls, s⟩ ⟨.pushBlock tag :: .simple .Continue :: K, ls, s⟩
  | continueFor {control post t K ls s} :
      Step c G ⟨.simple .Continue :: .loopMarked :: .loop (.For control post) t :: K, ls, s⟩
        ⟨.simple (.Computation post) :: .loopMarked :: .loop (.For control post) t :: K, ls, s⟩
  | continueDone {i K ls s} (hi : i.isFor = false) :
      Step c G ⟨.simple .Continue :: .loopMarked :: i :: K, ls, s⟩ ⟨.loopMarked :: i :: K, ls, s⟩
  | continueDo {e t f K ls s} (ht : startsMarked t) :
      Step c G ⟨.simple .Continue :: .IfThenElse e t f :: K, ls, s⟩ ⟨.IfThenElse e t f :: K, ls, s⟩
  -- goto
  | gotoFun {K ls s o} (hG : G.lookup .funLabel = some o) :
      Step c G ⟨.simple (.Goto .funLabel) :: K, ls, s⟩ ⟨o.k, ls, s⟩
  | goto {l K ls s o} (hl : l ≠ .funLabel) (hG : G.lookup l = some o) :
      Step c G ⟨.simple (.Goto l) :: K, ls, s⟩
        ⟨.gotoUp o.blockHistory o.k o.loopStack o.declStack :: K, ls, s⟩
  | gotoUpPop {target k l d K ls s}
      (h : ¬ (s.blockControl.blockHistory.isSuffixOf target ∧ s.blockControl.blockHistory.length ≤ target.length)) :
      Step c G ⟨.gotoUp target k l d :: K, ls, s⟩ ⟨.popBlock :: .gotoUp target k l d :: K, ls, s⟩
  | gotoUp {target k l d K ls s num bh} (hbh : s.blockControl.blockHistory = num :: bh)
      (h : (num :: bh).isSuffixOf target ∧ (num :: bh).length ≤ target.length) :
      Step c G ⟨.gotoUp target k l d :: K, ls, s⟩
        ⟨.declVariables (filterDecls num (s.blockControl.localVars ∪
              getStatics c s.blockControl.localVars s.currScope) d) ::
          .rewindEnv ((s.envKeys \ filterIds num d) ∩
              (s.blockControl.localVars ∪ getStatics c s.envKeys s.currScope)) ::
          .gotoDown (target.take (target.length - (num :: bh).length)).reverse k l d :: K, ls, s⟩
  | declVariables {ds d K ls s s' code} (hd : d ∈ ds) (T₁ : CType) (hT₁ : isVariablyModifiedType T₁ = false)
      (h : s.declareUninit c (d.stabilize T₁) = .ok (s', code)) :
      Step c G ⟨.declVariables ds :: K, ls, s⟩ ⟨code ++ .declVariables (ds.erase d) :: K, ls, s'⟩
  | declVariablesDone {K ls s} : Step c G ⟨.declVariables ∅ :: K, ls, s⟩ ⟨K, ls, s⟩
  | rewindEnv {xs x K ls s s'} (hx : x ∈ xs) (h : s.rewind c x = .ok s') :
      Step c G ⟨.rewindEnv xs :: K, ls, s⟩ ⟨.rewindEnv (xs.erase x) :: K, ls, s'⟩
  | rewindEnvDone {K ls s} : Step c G ⟨.rewindEnv ∅ :: K, ls, s⟩ ⟨K, ls, s⟩
  | gotoDown {num bh k l d K ls s} :
      Step c G ⟨.gotoDown (num :: bh) k l d :: K, ls, s⟩
        ⟨.pushBlock num :: .declVariables (filterDecls num ∅ d) :: .gotoDown bh k l d :: K, ls, s⟩
  | gotoDownDone {k l d K ls s} : Step c G ⟨.gotoDown [] k l d :: K, ls, s⟩ ⟨k, l, s⟩

end CSemantics
