/-
  Declarations in a block, and blocks.

  The cells of the current block are in `<block-control>`, those of the blocks around it wait on the
  block stack.  `<env>` and `<types>` are INHERITED: a new block starts with those of the block around
  it, and leaving it puts the old ones back.  `<local-vars>` and `<local-addresses>` are the block's own;
  they start empty, and leaving the block deletes the objects in `<local-addresses>`.

  A declaration of an automatic variable makes a new object, adds the variable to both sets and to the
  environment, and runs the initialiser unless a `goto` has switched initialisation off.  A `static` or
  `extern` declaration only adds an object that is already there to the environment.  A compound literal
  that is met again while it is in the environment keeps its object, and its initialiser runs.

      BlockControl, Store         the cells
      declareInternalVariable     the rules for declarations
      pushBlock, popBlock         the rules for blocks
      declareAndDefine_eq_ok      what the declaration of an automatic variable does
-/
import CSemantics.Statement
import CSemantics.Lib.AssocMap
import CSemantics.Typing.Common
import CSemantics.Memory.Alloc
import CSemantics.Linking.Init

namespace CSemantics

/-! ## Types -/

def CType.hasStorage (x : StorageClassSpecifier) (T : CType) : Bool := T.getModifiers.has (.storage x)

def isExternType (T : CType) : Bool := T.hasStorage .Extern
def isStaticType (T : CType) : Bool := T.hasStorage .Static
def isRegisterType (T : CType) : Bool := T.hasStorage .Register

def isFunctionType : CType → Bool
  | .t _ _ (.nonArray (.functionType _ _)) => true
  | _ => false

mutual

/-- `isVariablyModifiedType(T)`; of a function type, that a parameter or the result is. -/
def isVariablyModifiedType : CType → Bool
  | .t _ _ st => isVariablyModifiedSimple st

def isVariablyModifiedUType : UType → Bool
  | .ut _ st => isVariablyModifiedSimpleU st

def isVariablyModifiedSimple : SimpleType → Bool
  | .array k T =>
    match k with
    | .variableLength _ => true
    | .unspecified => true
    | _ => isVariablyModifiedType T
  | .nonArray n => isVariablyModifiedNonArray n

def isVariablyModifiedSimpleU : SimpleUType → Bool
  | .array k T =>
    match k with
    | .variableLength _ => true
    | .unspecified => true
    | _ => isVariablyModifiedUType T
  | .nonArray n => isVariablyModifiedNonArray n

def isVariablyModifiedNonArray : SimpleNonArrayType → Bool
  | .pointerType T => isVariablyModifiedType T
  | .functionType r ps => isVariablyModifiedParams ps || isVariablyModifiedUType r
  | .basic _ => false
  | .enumType _ => false
  | .structType _ => false
  | .unionType _ => false

def isVariablyModifiedParams : List ParamDecl → Bool
  | [] => false
  | p :: ps => isVariablyModifiedParam p || isVariablyModifiedParams ps

def isVariablyModifiedParam : ParamDecl → Bool
  | .type T => isVariablyModifiedType T
  | .typedDeclaration T _ => isVariablyModifiedType T
  | .variadic => false

end

mutual

/-- `tagRestrict(Tag, T)` -/
def tagRestrict (tag : Scope) : CType → CType
  | .t q m st => .t q (if q.restrict then m.add (.RestrictBlock tag) else m) (tagRestrictSimple tag st)

def tagRestrictSimple (tag : Scope) : SimpleType → SimpleType
  | .array k T => .array k (tagRestrict tag T)
  | .nonArray n => .nonArray (tagRestrictNonArray tag n)

def tagRestrictNonArray (tag : Scope) : SimpleNonArrayType → SimpleNonArrayType
  | .pointerType T => .pointerType (tagRestrict tag T)
  | .functionType r ps => .functionType r ps
  | .basic b => .basic b
  | .enumType s => .enumType s
  | .structType s => .structType s
  | .unionType s => .unionType s

end

/-- The type under the declarators: that is where an `alignas` is. -/
def underDeclarators : CType → CType
  | .t _ _ (.array _ T) => underDeclarators T
  | .t _ _ (.nonArray (.pointerType T)) => underDeclarators T
  | .t _ _ (.nonArray (.functionType (.ut m (.nonArray n)) _)) => .t noQuals m (.nonArray n)
  | T => T

/-- `getAlignas(T)` -/
def getAlignas (cfg : Settings) (tags : Tags) (T : CType) : Int :=
  if getAlignasMod (underDeclarators T).getModifiers = -1 then byteAlignofType cfg tags T
  else getAlignasMod (underDeclarators T).getModifiers

/-! ## The cells -/

/-- `<block-control>`, without the cells of C++. -/
structure BlockControl where
  env : List (VarId × SymBase)
  renv : List (SymBase × VarId)
  types : List (VarId × CType)
  localVars : Finset VarId
  localAddresses : Finset SymBase
  blockHistory : List Int

/-- The cells that declarations and blocks read and write; `next` is the number the next `!I` gets. -/
structure Store where
  blockControl : BlockControl
  blockStack : List BlockControl
  currScope : Scope
  shouldInit : Bool
  mem : Mem
  next : Nat

/-- The cells they only read.  Objects of the thread have the duration `auto(thread)`. -/
structure Cells where
  cfg : Settings
  tags : Tags
  thread : Int
  localStatics : VarId → Scope → Option (SymBase × CType)
  externalDefs : VarId → Option SymBase
  externalTypes : VarId → Option CType
  genv : List (VarId × SymBase)
  gtypes : List (VarId × CType)

/-! ## The rules -/

namespace BlockControl

/-- `addToEnv(X, Base)` -/
def addToEnv (c : BlockControl) (x : VarId) (b : SymBase) : BlockControl :=
  { c with env := AssocMap.update c.env x b, renv := AssocMap.update c.renv b x }

/-- `giveType(X, T)` in the scope `S` -/
def giveType (S : Scope) (c : BlockControl) (x : VarId) (T : CType) : BlockControl :=
  { c with types := AssocMap.update c.types x (tagRestrict S T) }

/-- A block that starts: it inherits the environment. -/
def enter (tag : Int) (c : BlockControl) : BlockControl :=
  { c with localVars := ∅, localAddresses := ∅, blockHistory := tag :: c.blockHistory }

end BlockControl

/-- `blockScope(F, Base, _ => Tag)` -/
def Scope.withBlock (tag : Int) : Scope → Scope
  | .blockScope f b _ => .blockScope f b tag
  | S => S

namespace Store

variable {E : Type}

def addToEnv (s : Store) (x : VarId) (b : SymBase) : Store := { s with blockControl := s.blockControl.addToEnv x b }

def giveType (s : Store) (x : VarId) (T : CType) : Store :=
  { s with blockControl := s.blockControl.giveType s.currScope x T }

/-- `deleteObjects(Bases)` -/
def deleteObjects (s : Store) (bs : Finset SymBase) : Store :=
  { s with mem := fun b => if b ∈ bs then none else s.mem b }

/-- `allocObject(Base, T)` -/
def allocObject (c : Cells) (s : Store) (b : SymBase) (T : CType) : Eval Store := do
  let n ← byteSizeofType c.cfg c.tags (utype T)
  let M ← alloc s.mem b T n.toNat
  return { s with mem := M }

/-- `linc(T, D)`, and `autoToRegister` of it for a register variable. -/
def newBase (c : Cells) (s : Store) (T : CType) : SymBase :=
  obj s.next (getAlignas c.cfg c.tags T).toNat (if isRegisterType T then .register c.thread else .auto c.thread)

/-- The code of an initialiser, when it is run. -/
def initCode (init : Option (Expr E)) : KSeq E :=
  match init with
  | none => []
  | some e => [.init e, .sequencePoint]

/-- `declareAndDefine(X, T, Init)`, with the code that is left to run. -/
def declareAndDefine (c : Cells) (s : Store) (x : VarId) (T : CType) (init : Option (Expr E)) :
    Eval (Store × KSeq E) := do
  let b := s.newBase c T
  let s := { s with
    next := s.next + 1
    blockControl := { s.blockControl with
      localVars := insert x s.blockControl.localVars
      localAddresses := insert b s.blockControl.localAddresses } }
  let s ← s.allocObject c b T
  return ((s.addToEnv x b).giveType x T, if s.shouldInit then initCode init else [])

/-- `declareInternalVariable(X, T, Init)` and `typedef(X, T)`.  A type that is variably modified has been
    given its size. -/
def declare (c : Cells) (s : Store) : Decl E → Eval (Store × KSeq E)
  | .typedef x T => .ok (s.giveType (.id (.typedef x)) T, [])
  | .declareInternalVariable x T .NoInit =>
    if isExternType T || isFunctionType T then
      match c.externalDefs x, c.externalTypes x with
      | some b, some T' => .ok ((s.addToEnv x b).giveType x T', [])
      | none, none => .ok (s.giveType x T, [])
      | _, _ => .error .stuck
    else if isStaticType T then
      match c.localStatics x s.currScope with
      | some (b, T') => .ok ((s.addToEnv x b).giveType x T', [])
      | none => .error .stuck
    else .error .stuck
  | .declareInternalVariable x T (.initValue T' init) =>
    if isStaticType T then
      match c.localStatics x s.currScope with
      | some (b, T'') => .ok ((s.addToEnv x b).giveType x T'', [])
      | none => .error .stuck
    else if isStaticType T' || isExternType T' || isFunctionType T' || isVariablyModifiedType T' then .error .stuck
    -- Compound literal encountered again after goto.
    else if isCompoundLiteralId x && (s.blockControl.env.lookup x).isSome then
      .ok (s, (match init with | none => [] | some e => [.init e]) ++ [.sequencePoint])
    else s.declareAndDefine c x T' init

/-- `pushBlock(Tag)` -/
def pushBlock (s : Store) (tag : Int) : Store :=
  { s with
    blockControl := s.blockControl.enter tag
    blockStack := s.blockControl :: s.blockStack
    currScope := s.currScope.withBlock tag }

/-- `popBlock`, with `updateScope`; there is no rule at the bottom of the block stack. -/
def popBlock (s : Store) : Eval Store :=
  match s.blockStack with
  | [] => .error .stuck
  | c :: cs =>
    .ok { s.deleteObjects s.blockControl.localAddresses with
      blockControl := c
      blockStack := cs
      currScope := s.currScope.withBlock (c.blockHistory.headD 0) }

end Store

/-- The size of a variable-length array is known when it is declared: `stabilizeInitType`. -/
def Decl.stabilize {E : Type} (T₁ : CType) : Decl E → Decl E
  | .declareInternalVariable x T (.initValue T' init) =>
    .declareInternalVariable x T (.initValue (if isVariablyModifiedType T' then T₁ else T') init)
  | d => d

/-! ## What a declaration does -/

section Declare

variable {E : Type} {c : Cells} {s s' : Store} {x : VarId} {T : CType} {init : Option (Expr E)} {code : KSeq E}

/-- A new object of the type `T`, no byte of which has been written. -/
def uninitObject (T : CType) (n : Nat) : Object :=
  ⟨if isNoType T then .dynamicType T else .type (stripStorageSpecifiers T), List.replicate n none⟩

theorem newBase_isLinkBase : isLinkBase (s.newBase c T) = false := by
  unfold Store.newBase obj isLinkBase
  by_cases h : isRegisterType T
  · simp [h]
  · simp [h]

/-- **The declaration of an automatic variable** makes a new object with nothing in it. -/
theorem declareAndDefine_eq_ok (h : s.declareAndDefine c x T init = .ok (s', code)) :
    ∃ n, s.mem (s.newBase c T) = none ∧ s' = { s with
      next := s.next + 1
      mem := Function.update s.mem (s.newBase c T) (some (uninitObject T n))
      blockControl := (({ s.blockControl with
        localVars := insert x s.blockControl.localVars
        localAddresses := insert (s.newBase c T) s.blockControl.localAddresses }).addToEnv x
          (s.newBase c T)).giveType s.currScope x T } ∧
      code = if s.shouldInit then Store.initCode init else [] := by
  unfold Store.declareAndDefine Store.allocObject at h
  obtain ⟨s₁, hs₁, h⟩ := Eval.bind_eq_ok.mp h
  obtain ⟨n, -, hs₁⟩ := Eval.bind_eq_ok.mp hs₁
  obtain ⟨M, hM, hs₁⟩ := Eval.bind_eq_ok.mp hs₁
  cases hs₁
  cases h
  have hnone := (alloc_eq_ok hM).1
  unfold alloc at hM
  rw [newBase_isLinkBase] at hM
  simp only [Bool.false_eq_true, if_false] at hM
  rw [hnone] at hM
  cases hM
  exact ⟨n.toNat, hnone, rfl, rfl⟩

/-- It succeeds when the type has a size and the number is new. -/
theorem exists_declareAndDefine {n : Int} (hsize : byteSizeofType c.cfg c.tags (utype T) = .ok n)
    (hnew : s.mem (s.newBase c T) = none) : ∃ r, s.declareAndDefine c x T init = .ok r := by
  obtain ⟨M, hM⟩ := exists_alloc hnew newBase_isLinkBase T n.toNat
  unfold Store.declareAndDefine Store.allocObject
  simp only [hsize, hM, Eval.ok_bind]
  exact ⟨_, rfl⟩

end Declare

end CSemantics
