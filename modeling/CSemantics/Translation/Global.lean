/-
  Declarations at file scope.

  A name with linkage goes through up to four states: DECLARED, COMPLETED, ALLOCATED, INITIALIZED, with a
  flag beside them that says whether a tentative definition has been seen.  Until the name is allocated
  the environment has a base that stands for an object of some unit, a LINK BASE; allocation makes a
  real base, puts it into the environment and writes into `<linkings>` that the one became the other.
  What has been compiled in between has the link base in it.

  Three things redeclare a name without the program saying so:

      a tag is completed          every name that is still declared, if its type is complete now
      the end of the unit         every name that is still declared, tentative, an array of no length;
                                  its entry is taken out FIRST, so that the name is new again
      a rule on redeclaration     begins with the recorded type, which has lost its storage class

  The dozen rules for a declaration differ in which of three steps they make; that is a table here, and
  one definition makes the steps.

      declare, declareExternalVariable     one declaration
      addGlobalTag                         a tag is completed
      allocateIncompleteTentatives         the end of the unit
      translationUnit                      the declarations of a unit, tags and uses, in order
-/
import CSemantics.Execution.Declaration
import CSemantics.Typing.Composite

namespace CSemantics

open AssocMap

/-! ## The cells -/

inductive DeclState
  | declared | completed | allocated | initialized
  deriving DecidableEq, Repr

inductive Linkage
  | external | internal
  deriving DecidableEq, Repr

/-- The storage class of a declaration as the rules count it: a function counts as `extern`. -/
inductive FileStorage
  | Naked | Extern | Static
  deriving DecidableEq, Repr

/-- `declState(Base, T, State, Tentative)` -/
structure DeclEntry where
  base : SymBase
  type : CType
  state : DeclState
  tentative : Bool

/-- What the declarations of a unit read and write.  `held` is not a cell: it is the link bases in the
    code compiled so far, each with the name it was compiled from. -/
structure TuState where
  tags : Tags
  incompleteTags : List CId
  genv : CId → Option SymBase
  types : CId → Option CType
  externals : List (CId × DeclEntry)
  internals : List (CId × DeclEntry)
  linkings : SymBase → Option SymBase
  /-- whether the unit is among the units in `<external-decls>` -/
  externalDecls : CId → Bool
  externalTypes : CId → Option CType
  externalDefs : CId → Option SymBase
  mem : Mem
  next : Nat
  uses : CId → Bool
  held : List (CId × SymBase)

/-- A unit before its first declaration. -/
def initialTu : TuState :=
  ⟨[], [], fun _ => none, fun _ => none, [], [], fun _ => none, fun _ => false, fun _ => none, fun _ => none,
    fun _ => none, 0, fun _ => false, []⟩

/-- The profile, the name of the unit, and which of two rules is taken where an internal name is
    redeclared `extern` with an incomplete type: both match. -/
structure TuConfig where
  cfg : Settings
  tu : String
  reportsIncompleteExtern : Bool

/-- An initialiser: the number of elements it gives to an array that has no length, and the names its
    expressions refer to. -/
structure FileInit where
  length : Int
  uses : List CId

/-- What a unit does at file scope.  A function definition is a declaration with an initialiser, and
    then the uses of its body. -/
inductive TuEvent
  | refer (S : CId)
  | addGlobalTag (S : CId) (info : TagInfo) (exts ints : List CId)
  | declare (T : CType) (X : CId) (init : Option FileInit)
  | use (X : CId)

/-! ## Types -/

/-- `isCompleteType(T)` -/
def isCompleteType (tags : Tags) : CType → Bool
  | .t _ _ (.array k _) => k != .incomplete
  | .t _ _ (.nonArray n) =>
    match n with
    | .enumType s | .structType s | .unionType s => !(getTagInfo tags s matches .incomplete)
    | .basic .void | .basic .noType => false
    | _ => true

def isArrayType : CType → Bool
  | .t _ _ (.array _ _) => true
  | .t _ _ (.nonArray _) => false

def isNaked (T : CType) : Bool := !(isExternType T || isStaticType T) && !isFunctionType T

/-- Naked function declarations are treated as though they were qualified extern. -/
def isExtern (T : CType) : Bool := (isExternType T || isFunctionType T) && !isStaticType T

def validStorageClass (T : CType) : Bool :=
  !(T.hasStorage .Static && T.hasStorage .Extern
    || T.hasStorage .Auto && T.hasStorage .Static
    || T.hasStorage .Auto && T.hasStorage .Extern
    || T.hasStorage .Auto && T.hasStorage .ThreadLocal
    || T.hasStorage .Register && T.hasStorage .Static
    || T.hasStorage .Register && T.hasStorage .Extern
    || T.hasStorage .Register && T.hasStorage .ThreadLocal)

def validGlobalStorageClass (T : CType) : Bool :=
  validStorageClass T && !(T.hasStorage .Auto || T.hasStorage .Register)

mutual

/-- `elideDeclParams(T)`: parameters lose their names, and those of variable length their length. -/
def elideDeclParams : CType → CType
  | .t q m st => .t q m (elideSimple st)

def elideSimple : SimpleType → SimpleType
  | .array k T => .array k (elideDeclParams T)
  | .nonArray n => .nonArray (elideNonArray n)

def elideNonArray : SimpleNonArrayType → SimpleNonArrayType
  | .pointerType T => .pointerType (elideDeclParams T)
  | .functionType r ps => .functionType (elideUType r) (elideParams ps)
  | .basic b => .basic b
  | .enumType s => .enumType s
  | .structType s => .structType s
  | .unionType s => .unionType s

def elideUType : UType → UType
  | .ut m st => .ut m (elideSimpleU st)

def elideSimpleU : SimpleUType → SimpleUType
  | .array k T => .array k (elideUType T)
  | .nonArray n => .nonArray (elideNonArray n)

def elideParams : List ParamDecl → List ParamDecl
  | [] => []
  | .typedDeclaration T _ :: ps => .type (elideDeclParams T) :: elideParams ps
  | .type (.t q m (.array (.variableLength _) T)) :: ps =>
    .type (.t q m (.array .unspecified (elideDeclParams T))) :: elideParams ps
  | .type T :: ps => .type (elideDeclParams T) :: elideParams ps
  | .variadic :: ps => .variadic :: elideParams ps

end

/-- The type with the length an initialiser gives. -/
def completeArray (n : Int) : CType → CType
  | .t q m (.array .incomplete T) => .t q m (.array (.fixed n) T)
  | T => T

/-- `addStorage(Static(), T)` -/
def addStatic : CType → CType
  | .t q m st => .t q (m.add (.storage .Static)) st

/-! ## Messages -/

def conflictingTypes (X : CId) : Stop := CV "TDG10" ("Conflicting types for " ++ showCId X ++ ".")

def redefinition (X : CId) : Stop := CV "TDG13" ("Redefinition of symbol: " ++ showCId X ++ ".")

/-! ## The steps of a rule -/

namespace TuState

/-- `addToEnv(X, T, Base)` -/
def addToEnv (σ : TuState) (X : CId) (b : SymBase) : TuState := { σ with genv := Function.update σ.genv X (some b) }

/-- `giveType(X, T)` at file scope.  A type without `restrict` is what tagging it leaves. -/
def giveType (σ : TuState) (X : CId) (T : CType) : TuState :=
  { σ with types := Function.update σ.types X (some (tagRestrict .fileScope (stripStorageSpecifiers T))) }

def entries (σ : TuState) : Linkage → List (CId × DeclEntry)
  | .external => σ.externals
  | .internal => σ.internals

/-- `<externals>` or `<internals>`, with `X |-> e`. -/
def setEntry (σ : TuState) (lnk : Linkage) (X : CId) (e : DeclEntry) : TuState :=
  match lnk with
  | .external => { σ with externals := update σ.externals X e }
  | .internal => { σ with internals := update σ.internals X e }

/-- The name `X` in an expression. -/
def use (σ : TuState) (X : CId) : Eval TuState :=
  match σ.genv X, σ.types X with
  | some b, some _ =>
    let σ' := { σ with uses := Function.update σ.uses X true }
    if isLinkBase b then
      if (σ.externals.lookup X).isSome then .ok { σ' with held := (X, b) :: σ.held } else .error .stuck
    else .ok σ'
  | _, _ => .error .stuck

/-- `allocObject(Base, T)` -/
def allocObject (c : TuConfig) (σ : TuState) (b : SymBase) (T : CType) : Eval TuState :=
  match byteSizeofType c.cfg σ.tags (utype T) with
  | .ok n => do
    let M ← alloc σ.mem b T n.toNat
    return { σ with mem := M }
  | .error _ => .error .stuck

/-- `bnew(!I, T, D)` -/
def newBase (c : TuConfig) (σ : TuState) (T : CType) (d : Duration) : SymBase :=
  obj σ.next (getAlignas c.cfg σ.tags T).toNat d

/-- `allocateDecl(X)`: in place of a link base a real one, and the link base is linked to it. -/
def allocateDecl (c : TuConfig) (σ : TuState) (X : CId) : Eval TuState :=
  match σ.types X, σ.genv X with
  | some T, some b =>
    if isLinkBase b then
      match σ.linkings b with
      | some _ => .error .stuck
      | none =>
        let b' := σ.newBase c T (.static c.tu)
        ({ σ with next := σ.next + 1, linkings := Function.update σ.linkings b (some b') }.addToEnv X b').allocObject
          c b' T
    else σ.allocObject c b T
  | _, _ => .error .stuck

/-- `giveCompositeType(X, T')` -/
def giveCompositeType (c : TuConfig) (σ : TuState) (X : CId) (T' : CType) : Eval TuState :=
  match σ.types X with
  | none => .ok (σ.giveType X T')
  | some T =>
    if areDeclCompat c.cfg σ.tags T T' then
      match compositeType σ.tags T (stripStorageSpecifiers T') with
      | .ok C => .ok (σ.giveType X C)
      | .error _ => .error .stuck
    else .error (conflictingTypes X)

/-- `updateLinkState(X, T', Base')` -/
def updateLinkState (σ : TuState) (X : CId) (T' : CType) (b : SymBase) : Eval TuState :=
  let typed := { σ with externalTypes := Function.update σ.externalTypes X (some T') }
  let declared := { typed with externalDecls := Function.update σ.externalDecls X true }
  if isLinkBase b then .ok declared
  else
    match σ.externalDefs X with
    | none => .ok { declared with externalDefs := Function.update σ.externalDefs X (some b) }
    | some b' => if b' = b then .ok typed else .error (redefinition X)

/-- `updateDecl(X, Linkage, State)` -/
def updateDecl (σ : TuState) (X : CId) (lnk : Linkage) (S : DeclState) : Eval TuState :=
  match σ.genv X, σ.types X, (σ.entries lnk).lookup X with
  | some b, some T, some e =>
    let σ' := σ.setEntry lnk X ⟨b, T, S, e.tentative⟩
    match lnk with
    | .external => σ'.updateLinkState X T b
    | .internal => .ok σ'
  | _, _, _ => .error .stuck

/-- `recordTentDef(X, Linkage)` -/
def recordTentDef (σ : TuState) (X : CId) (lnk : Linkage) : Eval TuState :=
  match (σ.entries lnk).lookup X with
  | some e => .ok (σ.setEntry lnk X { e with tentative := true })
  | none => .error .stuck

end TuState

/-! ## One declaration -/

/-- What a rule of `declareExternalVariable'` does besides giving the composite type: whether it
    allocates, the state it leaves, and whether it records a tentative definition. -/
structure DeclPlan where
  allocates : Bool
  state : DeclState
  tentative : Bool
  deriving DecidableEq, Repr

/-- The rules of `declareExternalVariable'`, for a type that is complete or not. -/
def declPlan (c : TuConfig) (X : CId) (noInit complete : Bool) (S : DeclState) (lnk : Linkage)
    (sto : FileStorage) : Eval DeclPlan :=
  match noInit with
  | true =>
    match complete with
    | false =>
      if lnk = .internal && (sto != .Extern || c.reportsIncompleteExtern) then
        .error (UNDEF "TDG12" ("Declaration for an object is a tentative definition with internal linkage" ++
          " and has an incomplete type."))
      else .ok ⟨false, S, sto != .Extern⟩
    | true =>
      match sto, S with
      | .Extern, .declared => .ok ⟨false, .completed, false⟩
      | .Extern, S => .ok ⟨false, S, false⟩
      | _, .declared => .ok ⟨true, .allocated, true⟩
      | _, .completed => .ok ⟨true, .allocated, true⟩
      -- Already encountered an allocated or initialized decl, no init.
      | _, S => .ok ⟨false, S, true⟩
  | false =>
    match S with
    | .initialized => .error (redefinition X)
    | S =>
      if complete then
        match S with
        | .allocated => .ok ⟨false, .initialized, false⟩
        | _ => .ok ⟨true, .initialized, false⟩
      else .error .stuck

namespace TuState

variable (c : TuConfig)

/-- The steps of a rule of `declareExternalVariable'`. -/
def carryOut (σ : TuState) (X : CId) (T : CType) (lnk : Linkage) (p : DeclPlan) : Eval TuState := do
  let σ ← σ.giveCompositeType c X T
  let σ ← (if p.allocates then σ.allocateDecl c X else .ok σ : Eval TuState)
  let σ ← σ.updateDecl X lnk p.state
  if p.tentative then σ.recordTentDef X lnk else .ok σ

/-- `figureInit(X, T, K)`, evaluated: the type the initialiser leaves. -/
def figureInit (σ : TuState) (X : CId) (T : CType) : Option FileInit → Eval (TuState × CType)
  | none => .ok (σ, T)
  | some init =>
    let T' := completeArray init.length T
    if isCompleteType σ.tags T' then do
      let σ ← init.uses.foldlM use (σ.giveType X T')
      return (σ, T')
    else .error .stuck

/-- What `declareExternalVariable` hands on to `declareExternalVariable'`. -/
structure Entered where
  state : TuState
  declState : DeclState
  linkage : Linkage
  storage : FileStorage

/-- The left half of the rules of `declareExternalVariable`: the name is entered, as it was recorded or
    as a new one. -/
def enter (σ : TuState) (X : CId) (T : CType) : Eval Entered :=
  match σ.externals.lookup X, σ.internals.lookup X with
  | none, none =>
    if isStaticType T then
      let b := σ.newBase c T (.static c.tu)
      .ok ⟨({ σ with next := σ.next + 1 }.addToEnv X b).setEntry .internal X ⟨b, T, .declared, false⟩,
        .declared, .internal, .Static⟩
    else
      let b := σ.newBase c T (.link c.tu)
      .ok ⟨({ σ with next := σ.next + 1 }.addToEnv X b).setEntry .external X ⟨b, T, .declared, false⟩,
        .declared, .external, if isExtern T then .Extern else .Static⟩
  | none, some e =>
    if !areDeclCompat c.cfg σ.tags T e.type then .error (conflictingTypes X)
    else if isNaked T then .error .stuck
    else
      .ok ⟨(σ.addToEnv X e.base).giveType X e.type, e.state, .internal, if isExtern T then .Extern else .Static⟩
  | some e, none =>
    if !areDeclCompat c.cfg σ.tags T e.type then .error (conflictingTypes X)
    else if isStaticType T then
      .error (UNDEF "TDG11" ("Static declaration of " ++ showCId X ++ " follows non-static declaration."))
    else if isNaked T then .ok ⟨(σ.addToEnv X e.base).giveType X e.type, e.state, .external, .Naked⟩
    else if isExtern T then .ok ⟨(σ.addToEnv X e.base).giveType X e.type, e.state, .external, .Extern⟩
    else .error .stuck
  | some _, some _ => .error .stuck

/-- `declareExternalVariable'(isNoInit(K), figureInit(X, T, K), State, Linkage, Storage)` -/
def Entered.declare (E : Entered) (X : CId) (T : CType) (init : Option FileInit) : Eval TuState := do
  let r ← E.state.figureInit X T init
  let p ← declPlan c X init.isNone (isCompleteType r.1.tags r.2) E.declState E.linkage E.storage
  r.1.carryOut c X r.2 E.linkage p

/-- `declareExternalVariable(X, T, K)` -/
def declareExternalVariable (σ : TuState) (X : CId) (T : CType) (init : Option FileInit) : Eval TuState := do
  let E ← σ.enter c X T
  E.declare c X T init

/-- The checks of `declare'` and `declare''` at file scope; where several report, the first. -/
def checkFileScope (tags : Tags) (T : CType) (X : CId) (init : Option FileInit) : Eval Unit :=
  let about := "Declaration for " ++ showCId X
  if init.isSome && !isCompleteType tags T && !isArrayType T then
    .error (CV "TDG8" "Declaration has initializer but incomplete type.")
  else if !validStorageClass T then
    .error (CV "TDG2" (about ++ " appears with multiple storage class specifiers."))
  else if !validGlobalStorageClass T then
    .error (CV "TDG4" (about ++ " appears with invalid storage class specifiers."))
  else if isFunctionType T then
    if getQualifiers T = noQuals then .ok ()
    else .error (UNDEF "TDG1" ("Declaration for the function " ++ showCId X ++ " appears with type qualifiers."))
  else if isVariablyModifiedType T then
    .error (CV "TDG9" ("file-scope declaration of " ++ showCId X ++ " with a variably-modified type."))
  else .ok ()

/-- `declare(typedDeclaration(T, X), K)` at file scope -/
def declare (σ : TuState) (T : CType) (X : CId) (init : Option FileInit) : Eval TuState := do
  let T := elideDeclParams T
  checkFileScope σ.tags T X init
  σ.declareExternalVariable c X T init

/-! ## A tag is completed -/

/-- Whether a completed tag redeclares a name: its recorded type has become complete. -/
def DeclEntry.becomesComplete (tags : Tags) (e : DeclEntry) : Bool :=
  !isFunctionType e.type && isCompleteType tags e.type && e.state = .declared

/-- `completeTagInExtDecl(Tag, Info, X)` and `completeTagInIntDecl(Tag, Info, X)`; the second adds the
    storage class again. -/
def completeTagInDecl (lnk : Linkage) (σ : TuState) (X : CId) : Eval TuState :=
  match (σ.entries lnk).lookup X with
  | none => .error .stuck
  | some e =>
    if DeclEntry.becomesComplete σ.tags e then
      σ.declare c (match lnk with | .external => e.type | .internal => addStatic e.type) X none
    else .ok σ

/-- `addGlobalTag(S, Info)`.  The names are gone through in some order. -/
def addGlobalTag (σ : TuState) (S : CId) (info : TagInfo) (exts ints : List CId) : Eval TuState :=
  let s : TagId := ⟨S, c.tu, .global⟩
  if (σ.tags.lookup s).isSome then
    .error (CV "TDG15" ("Redefinition of a struct, union, or enum: " ++ showCId S ++ "."))
  else
    let σ' := { σ with tags := update σ.tags s info }
    if S ∈ σ.incompleteTags then
      if exts.Perm (σ.externals.map Prod.fst) ∧ ints.Perm (σ.internals.map Prod.fst) then do
        let σ' ← exts.foldlM (completeTagInDecl c .external) { σ' with incompleteTags := σ.incompleteTags.erase S }
        ints.foldlM (completeTagInDecl c .internal) σ'
      else .error .stuck
    else .ok σ'

/-- A reference to a tag: one that is not complete is written down. -/
def referTag (σ : TuState) (S : CId) : TuState :=
  if (σ.tags.lookup ⟨S, c.tu, .global⟩).isSome || S ∈ σ.incompleteTags then σ
  else { σ with incompleteTags := S :: σ.incompleteTags }

/-! ## A unit -/

def step (σ : TuState) : TuEvent → Eval TuState
  | .refer S => .ok (σ.referTag c S)
  | .addGlobalTag S info exts ints => σ.addGlobalTag c S info exts ints
  | .declare T X init => σ.declare c T X init
  | .use X => σ.use X

def run (σ : TuState) (evs : List TuEvent) : Eval TuState := evs.foldlM (step c) σ

/-- `allocateIncompleteTentative(X, declState(...))` -/
def allocateIncompleteTentative (σ : TuState) (X : CId) (e : DeclEntry) : Eval TuState :=
  match e.type, e.state, e.tentative with
  | .t q m (.array .incomplete T), .declared, true => σ.declare c (.t q m (.array (.fixed 1) T)) X none
  | _, .declared, true => .error .stuck
  | T, .completed, _ =>
    if T.getModifiers.has (.function .Inline) then
      .error (UNDEF "TDR1" ("Declaration for inline function not defined in the same translation unit: " ++
        showCId X ++ "."))
    else .ok σ
  | _, _, _ => .ok σ

/-- `allocateIncompleteTentatives`: entries are taken out one by one, in some order, until there is none
    left.  What a step declares is an entry again. -/
def allocateIncompleteTentatives (σ : TuState) : List CId → Eval TuState
  | [] => if σ.externals.isEmpty then .ok σ else .error .stuck
  | X :: Xs =>
    match σ.externals.lookup X with
    | none => .error .stuck
    | some e => do
      let σ' ← { σ with externals := remove σ.externals X }.allocateIncompleteTentative c X e
      allocateIncompleteTentatives σ' Xs

/-- `removeUnusedIdentifiers(Tu)` -/
def removeUnusedIdentifiers (σ : TuState) : TuState :=
  { σ with
    genv := fun X => if σ.uses X then σ.genv X else none
    types := fun X => if σ.uses X then σ.types X else none
    externalDecls := fun X => σ.externalDecls X && σ.uses X }

end TuState

/-- **A translation unit.** -/
def translationUnit (c : TuConfig) (evs : List TuEvent) (order : List CId) : Eval TuState := do
  let σ ← initialTu.run c evs
  let σ ← σ.allocateIncompleteTentatives c order
  return σ.removeUnusedIdentifiers

end CSemantics
