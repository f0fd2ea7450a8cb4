/-
  Statements.

  The translator turns the body of a function into a SEQUENCE of terms.  A block becomes `pushBlock(Tag)`,
  what is in it and `popBlock`, one after the other; the body of a branch, a loop or a switch and what a
  label stands before stay inside their term.  The parser makes every body of a branch, a loop or a
  switch a block, with a number no other block has, and the translator declares a compound literal in
  front of the statement it occurs in.  So the tree of statements is there in the sequence:

      Stmt             the tree
      Stmt.elaborate   the sequence the translator makes of it
      FunctionBody     a body whose blocks and labels are told apart

  Expressions are not looked into: what is left of one after translation is a parameter.
-/
import CSemantics.Typing.Equality

namespace CSemantics

/-! ## Expressions and declarations -/

/-- An expression as the translator leaves it. -/
inductive Expr (E : Type)
  /-- no expression -/
  | emptyValue
  /-- `tv(V, utype(int))` -/
  | int (v : Int)
  | other (e : E)
  deriving DecidableEq

/-- A condition that is left out is true: `#if Control =/=K emptyValue #then Control #else tv(1, utype(int)) #fi`. -/
def Expr.orTrue {E : Type} : Expr E → Expr E
  | .emptyValue => .int 1
  | e => e

/-- What a variable is called: an identifier, or the number of a compound literal. -/
inductive VarId
  | id (x : CId)
  | compoundLiteral (n : Int)
  deriving DecidableEq, Repr

def isCompoundLiteralId : VarId → Bool
  | .compoundLiteral _ => true
  | .id _ => false

/-- The initialiser of a variable; of `initValue(X, T, Init)`, the type and the code, which may be `.K`. -/
inductive VarInit (E : Type)
  | NoInit
  | initValue (T : CType) (init : Option (Expr E))
  deriving DecidableEq

/-- A declaration in a block. -/
inductive Decl (E : Type)
  | declareInternalVariable (x : VarId) (T : CType) (init : VarInit E)
  | typedef (x : CId) (T : CType)
  deriving DecidableEq

def getIdOfDecl {E : Type} : Decl E → VarId
  | .declareInternalVariable x _ _ => x
  | .typedef x _ => .id x

/-- `frozenDeclaration(BlockNum, Decl)` -/
structure FrozenDeclaration (E : Type) where
  blockNum : Int
  decl : Decl E
  deriving DecidableEq

/-! ## The terms of a body -/

/-- What names a place in a function. -/
inductive LabelId (E : Type)
  | identifier (x : CId)
  /-- the start of the function -/
  | funLabel
  /-- `caseLabel(SwitchNum, Val)` -/
  | caseLabel (switchNum : Int) (val : Expr E)
  /-- `caseLabel(SwitchNum, defaultCase)` -/
  | defaultLabel (switchNum : Int)
  deriving DecidableEq

/-- `Label(X, _)`, `Case(SwitchNum, CaseNum, Val, _)` or `Default(SwitchNum, _)`, without what it stands before. -/
inductive Mark (E : Type)
  | Label (target : CId)
  | funLabel
  | Case (switchNum caseNum : Int) (val : Expr E)
  | Default (switchNum : Int)

/-- The key of a label in the map of labels. -/
def Mark.labelId {E : Type} : Mark E → LabelId E
  | Label x => .identifier x
  | funLabel => .funLabel
  | Case sn _ v => .caseLabel sn v
  | Default sn => .defaultLabel sn

/-- The statements with no statement inside, and the places in the program text. -/
inductive Simple (E : Type)
  | Nop
  | Computation (e : Expr E)
  | Break
  | Continue
  | Return (e : Expr E)
  | Goto (l : LabelId E)
  | location (l : CabsLoc)

/-- A loop without its body. -/
inductive LoopHead (E : Type)
  | For (control post : Expr E)
  | While (b : Expr E)
  | DoWhile (b : Expr E)

/-- A term of the `<k>` cell or of a `<computation>`.  What a `gotoUp` has is the goto object. -/
inductive KItem (E : Type)
  | simple (i : Simple E)
  | decl (d : Decl E)
  | pushBlock (tag : Int)
  | popBlock
  | loop (h : LoopHead E) (s : List (KItem E))
  | IfThenElse (c : Expr E) (t f : List (KItem E))
  | Switch (switchNum : Int) (v : Expr E) (s : List (KItem E))
  | labeled (m : Mark E) (s : List (KItem E))
  | loopMarked
  | popLoop
  -- those only execution makes
  | sequencePoint
  | init (e : Expr E)
  | gotoUp (blockHistory : List Int) (k : List (KItem E)) (loopStack : List (Int × List (KItem E)))
      (declStack : List (FrozenDeclaration E))
  | gotoDown (blockHistory : List Int) (k : List (KItem E)) (loopStack : List (Int × List (KItem E)))
      (declStack : List (FrozenDeclaration E))
  | rewindEnv (ids : Finset VarId)
  | declVariables (ds : Finset (Decl E))

/-- A sequence of terms, `_ ~> _`. -/
abbrev KSeq (E : Type) := List (KItem E)

/-- The loops around a place, innermost first: the number of the block each is in and what comes after it. -/
abbrev LoopStack (E : Type) := List (Int × KSeq E)

/-- `gotoObject(BlockHistory, K, LoopStack, DeclStack)` -/
structure GotoObject (E : Type) where
  blockHistory : List Int
  k : KSeq E
  loopStack : LoopStack E
  declStack : List (FrozenDeclaration E)

/-- The map of labels of a function object. -/
abbrev GotoMap (E : Type) := List (LabelId E × GotoObject E)

variable {E : Type}

/-! ## Loops -/

namespace LoopHead

/-- A loop once it has been entered: `for` without a condition has a true one. -/
def marked : LoopHead E → LoopHead E
  | For control post => For control.orTrue post
  | While b => While b
  | DoWhile b => DoWhile b

/-- What comes after the body of a loop, up to its end. -/
def again (s : KSeq E) : LoopHead E → KSeq E
  | For control post => [.simple (.Computation post), .loopMarked, .loop (For control post) s]
  | While b => [.loopMarked, .loop (While b) s]
  | DoWhile b => [.IfThenElse b [.loopMarked, .loop (DoWhile b) s] [.simple .Nop]]

/-- The right-hand side of `loopMarked ~> For(..)`, `loopMarked ~> While(..)` and `loopMarked ~> DoWhile(..)`. -/
def unfold (s : KSeq E) : LoopHead E → KSeq E
  | For control post => [.IfThenElse control (s ++ again s (For control post)) [.simple .Nop]]
  | While b => [.IfThenElse b (s ++ again s (While b)) [.simple .Nop]]
  | DoWhile b => s ++ again s (DoWhile b)

/-- Marking a loop twice is marking it once. -/
@[simp] theorem marked_marked (h : LoopHead E) : h.marked.marked = h.marked := by
  cases h with
  | For control post => cases control <;> rfl
  | While b => rfl
  | DoWhile b => rfl

end LoopHead

/-! ## The tree of statements -/

/-- A statement or a declaration.  The body of a branch, of a loop and of a switch is a block and has
    its number; a `for` is in a block with its first clause, which is not part of it here. -/
inductive Stmt (E : Type)
  | simple (i : Simple E)
  | decl (d : Decl E)
  | block (tag : Int) (ss : List (Stmt E))
  | IfThenElse (c : Expr E) (tagT : Int) (t : List (Stmt E)) (tagF : Int) (f : List (Stmt E))
  | loop (h : LoopHead E) (tag : Int) (ss : List (Stmt E))
  | Switch (switchNum : Int) (v : Expr E) (tag : Int) (ss : List (Stmt E))
  | labeled (m : Mark E) (ss : List (Stmt E))

/-- `pushBlock(Tag) ~> .. ~> popBlock` -/
def blockSeq (tag : Int) (s : KSeq E) : KSeq E := .pushBlock tag :: (s ++ [.popBlock])

mutual

/-- What the translator makes of a statement. -/
def Stmt.elaborate : Stmt E → KSeq E
  | .simple i => [.simple i]
  | .decl d => [.decl d]
  | .block tag ss => blockSeq tag (elaborateAll ss)
  | .IfThenElse c tagT t tagF f => [.IfThenElse c (blockSeq tagT (elaborateAll t)) (blockSeq tagF (elaborateAll f))]
  | .loop h tag ss => [.loop h (blockSeq tag (elaborateAll ss))]
  | .Switch sn v tag ss => [.Switch sn v (blockSeq tag (elaborateAll ss))]
  | .labeled m ss => [.labeled m (elaborateAll ss)]

def elaborateAll : List (Stmt E) → KSeq E
  | [] => []
  | s :: ss => s.elaborate ++ elaborateAll ss

end

mutual

/-- The labels of a statement, in the order of the text. -/
def Stmt.labels : Stmt E → List (LabelId E)
  | .simple _ => []
  | .decl _ => []
  | .block _ ss => labelsAll ss
  | .IfThenElse _ _ t _ f => labelsAll t ++ labelsAll f
  | .loop _ _ ss => labelsAll ss
  | .Switch _ _ _ ss => labelsAll ss
  | .labeled m ss => m.labelId :: labelsAll ss

def labelsAll : List (Stmt E) → List (LabelId E)
  | [] => []
  | s :: ss => s.labels ++ labelsAll ss

end

mutual

/-- The numbers of the blocks of a statement. -/
def Stmt.tags : Stmt E → List Int
  | .simple _ => []
  | .decl _ => []
  | .block tag ss => tag :: tagsAll ss
  | .IfThenElse _ tagT t tagF f => (tagT :: tagsAll t) ++ (tagF :: tagsAll f)
  | .loop _ tag ss => tag :: tagsAll ss
  | .Switch _ _ tag ss => tag :: tagsAll ss
  | .labeled _ ss => tagsAll ss

def tagsAll : List (Stmt E) → List Int
  | [] => []
  | s :: ss => s.tags ++ tagsAll ss

end

mutual

/-- The labels of a statement with the blocks around each, innermost first, in a statement inside `bh`. -/
def Stmt.enclosing (bh : List Int) : Stmt E → List (LabelId E × List Int)
  | .simple _ => []
  | .decl _ => []
  | .block tag ss => enclosingAll (tag :: bh) ss
  | .IfThenElse _ tagT t tagF f => enclosingAll (tagT :: bh) t ++ enclosingAll (tagF :: bh) f
  | .loop _ tag ss => enclosingAll (tag :: bh) ss
  | .Switch _ _ tag ss => enclosingAll (tag :: bh) ss
  | .labeled m ss => (m.labelId, bh) :: enclosingAll bh ss

def enclosingAll (bh : List Int) : List (Stmt E) → List (LabelId E × List Int)
  | [] => []
  | s :: ss => s.enclosing bh ++ enclosingAll bh ss

end

mutual

/-- The declarations of a statement that belong to the block the statement is in. -/
def Stmt.own : Stmt E → List (Decl E)
  | .decl d => [d]
  | .labeled _ ss => ownAll ss
  | .simple _ => []
  | .block _ _ => []
  | .IfThenElse _ _ _ _ _ => []
  | .loop _ _ _ => []
  | .Switch _ _ _ _ => []

def ownAll : List (Stmt E) → List (Decl E)
  | [] => []
  | s :: ss => s.own ++ ownAll ss

end

/-- The body of a function.  The parser numbers the blocks with a counter; two labels of one name are an error. -/
structure FunctionBody (E : Type) where
  tag : Int
  stmts : List (Stmt E)
  /-- the value `safeBody` returns at the end -/
  ret : Expr E
  tags_nodup : (tag :: tagsAll stmts).Nodup
  labels_nodup : (.funLabel :: labelsAll stmts : List (LabelId E)).Nodup

/-- `Label(funLabel, safeBody(X, Blk))` -/
def FunctionBody.stmt (f : FunctionBody E) : Stmt E :=
  .labeled .funLabel [.block f.tag f.stmts, .simple (.Return f.ret)]

end CSemantics
