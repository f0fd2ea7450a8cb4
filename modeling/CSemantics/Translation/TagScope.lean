/-
  Struct, union and enum tags and the scopes they are declared in.

  A tag is stored under its name and the place it was declared in, `global` or the number of a block.
  A reference asks for the global tag FIRST, and only then for the blocks of the block history.  The
  history itself is extended before a block saves it, so that a block which has ended stays on it.

  What the program means is lexical scoping: `Scopes` has the open scopes with what each declares, and
  a reference is to the innermost one that declares the tag.  The two agree as long as no step meets
  one of the differences:

      a tag of the file scope is declared again in a block    refused, and it would not be found
      a tag is declared in a prototype                        no rule
      a prototype refers to a tag of an open block            not looked for
      a block that has ended declared the tag, nearer than
      the innermost open block that does                      found instead

      Related.step_agrees             a step without them keeps code and scopes in agreement
      tags_lexically_scoped_iff       a whole program agrees iff no step meets one
-/
import CSemantics.Common
import CSemantics.Lib.AssocMap
import CSemantics.Typing.Syntax

namespace CSemantics

open AssocMap

/-! ## The code -/

/-- The name of a tag.  An unnamed specifier has been given a name when it gets here. -/
def TagName := { x : CId // x ≠ .NoName }

/-- A specifier that refers to a tag. -/
inductive TagSpecifier
  | EnumRef (x : TagName)
  | StructRef (x : TagName)
  | UnionRef (x : TagName)

def TagSpecifier.name : TagSpecifier → CId
  | .EnumRef x => x.val
  | .StructRef x => x.val
  | .UnionRef x => x.val

/-- The type the specifier stands for, when it refers to `s`. -/
def TagSpecifier.type (r : TagSpecifier) (s : TagId) : CType :=
  match r with
  | .EnumRef _ => (SimpleNonArrayType.enumType s).toType
  | .StructRef _ => (SimpleNonArrayType.structType s).toType
  | .UnionRef _ => (SimpleNonArrayType.unionType s).toType

/-- The tag a type has. -/
def tagOf : CType → Option TagId
  | .t _ _ (.nonArray (.enumType s)) => some s
  | .t _ _ (.nonArray (.structType s)) => some s
  | .t _ _ (.nonArray (.unionType s)) => some s
  | _ => none

@[simp] theorem tagOf_type (r : TagSpecifier) (s : TagId) : tagOf (r.type s) = some s := by
  cases r <;> rfl

/-- What the rules below read and write.  `α` is what is known about a tag: it is stored and not
    looked into.  `blockStack` has, for each scope that is open, the scope around it and the block
    history that comes back with it. -/
structure TagState (α : Type) where
  currScope : Scope
  blockHistory : List Int
  blockStack : List (Scope × List Int)
  tags : List (TagId × α)
  incompleteTags : Finset CId

/-- What the translation of a unit does with tags and scopes. -/
inductive TagOp (α : Type)
  /-- `staticEval` and the `Block` of the body in it -/
  | functionDefinition (functionId : CId) (functionLoc : SymBase) (tag : Int)
  | Block (tag : Int)
  | Prototype
  /-- `popLocals ~> setScope(OldScope)` -/
  | popLocals
  | addTag (x : CId) (info : α)
  | canonicalizeSpecifier (r : TagSpecifier)

section Code

variable {α : Type} (tu : String)

/-- `tag(X, Tu, Block) in_keys(Structs)` -/
def isDeclared (tags : List (TagId × α)) (x : CId) (b : BlockRef) : Bool := (tags.lookup ⟨x, tu, b⟩).isSome

/-- The block a tag that is not global is in: the first of the block history that declares it. -/
def canonicalizeLocalTag (x : CId) (blockNum : Int) (tags : List (TagId × α)) : List Int → BlockRef
  | [] => .block blockNum
  | currBlock :: L =>
    if isDeclared tu tags x (.block currBlock) then .block currBlock
    else canonicalizeLocalTag x blockNum tags L

/-- The tag that a reference stands for.  The three kinds of tags have the same three rules. -/
def canonicalizeTag (s : TagState α) (x : CId) : Eval (TagId × TagState α) :=
  if isDeclared tu s.tags x .global then .ok (⟨x, tu, .global⟩, s)
  else match s.currScope with
    | .blockScope _ _ blockNum => .ok (⟨x, tu, canonicalizeLocalTag tu x blockNum s.tags s.blockHistory⟩, s)
    | .fileScope => .ok (⟨x, tu, .global⟩, { s with incompleteTags := insert x s.incompleteTags })
    | .prototypeScope => .ok (⟨x, tu, .global⟩, { s with incompleteTags := insert x s.incompleteTags })
    | .none => .error .stuck

def canonicalizeSpecifier (s : TagState α) (r : TagSpecifier) : Eval (CType × TagState α) := do
  let (tag, s') ← canonicalizeTag tu s r.name
  return (r.type tag, s')

def addGlobalTag (s : TagState α) (x : CId) (info : α) : Eval (TagState α) :=
  if isDeclared tu s.tags x .global then
    .error (CV "TDG15" ("Redefinition of a struct, union, or enum: " ++ showCId x ++ "."))
  else .ok { s with tags := update s.tags ⟨x, tu, .global⟩ info, incompleteTags := s.incompleteTags.erase x }

def addLocalTag (s : TagState α) (x : CId) (info : α) : Eval (TagState α) :=
  match s.currScope with
  | .blockScope _ _ blockNum =>
    if isDeclared tu s.tags x .global || isDeclared tu s.tags x (.block blockNum) then
      .error (CV "TDG15" ("Redefinition of a struct, union, or enum: " ++ showCId x))
    else .ok { s with tags := update s.tags ⟨x, tu, .block blockNum⟩ info }
  | _ => .error .stuck

/-- `addTag`, with the names of function parameters already elided from the information. -/
def addTag (s : TagState α) (x : CId) (info : α) : Eval (TagState α) :=
  match s.currScope with
  | .fileScope => addGlobalTag tu s x info
  | _ => addLocalTag tu s x info

/-- `scope(Scope, _)` and the `pushLocals` it begins with. -/
def pushLocals (s : TagState α) (scope : Scope) : TagState α :=
  { s with currScope := scope, blockStack := (s.currScope, s.blockHistory) :: s.blockStack }

/-- `popLocals ~> setScope(OldScope)` -/
def popLocals (s : TagState α) : Eval (TagState α) :=
  match s.blockStack with
  | [] => .error .stuck
  | (oldScope, history) :: stack =>
    .ok { s with currScope := oldScope, blockHistory := history, blockStack := stack }

/-- A block goes on the history BEFORE the history is saved. -/
def enterBlock (s : TagState α) (tag : Int) : Eval (TagState α) :=
  match s.currScope with
  | .blockScope f base _ =>
    .ok (pushLocals { s with blockHistory := tag :: s.blockHistory } (.blockScope f base tag))
  | _ => .error .stuck

/-- The scope of a function, block 0, holds the block of its body and nothing else: the two scopes are
    entered together, and left together. -/
def enterFunction (s : TagState α) (f : CId) (base : SymBase) (tag : Int) : Eval (TagState α) :=
  match s.currScope with
  | .fileScope =>
    let inner := pushLocals s (.blockScope f base 0)
    .ok { inner with currScope := .blockScope f base tag, blockHistory := tag :: inner.blockHistory }
  | _ => .error .stuck

/-- The declaration a tag stands for: the place and what is known about it. -/
abbrev Resolved (α : Type) := Option (Option BlockRef × α)

/-- What is stored under a tag. -/
def resolved (tags : List (TagId × α)) (s : TagId) : Resolved α :=
  (tags.lookup s).map fun info => (some s.block, info)

/-- One step, and the declaration that a reference is to. -/
def tagStep (s : TagState α) : TagOp α → Eval (TagState α × List (Resolved α))
  | .functionDefinition f base tag => do return (← enterFunction s f base tag, [])
  | .Block tag => do return (← enterBlock s tag, [])
  | .Prototype => .ok (pushLocals s .prototypeScope, [])
  | .popLocals => do return (← popLocals s, [])
  | .addTag x info => do return (← addTag tu s x info, [])
  | .canonicalizeSpecifier r => do
    let (T, s') ← canonicalizeSpecifier tu s r
    return (s', [(tagOf T).bind (resolved s.tags)])

/-- The declarations that the references of a program are to. -/
def translateTags (s : TagState α) : List (TagOp α) → Eval (List (Resolved α))
  | [] => .ok []
  | op :: ops => do
    let (s', found) ← tagStep tu s op
    let rest ← translateTags s' ops
    return found ++ rest

/-- The beginning of a unit. -/
def initTags : TagState α := ⟨.fileScope, [], [], [], ∅⟩

end Code

/-! ## Lexical scoping -/

/-- A block that has begun and not ended: what it declares so far, and what the blocks directly inside
    it that HAVE ended declared. -/
structure OpenBlock (α : Type) where
  functionId : CId
  functionLoc : SymBase
  tag : Int
  declared : List (CId × α)
  ended : List (Int × List (CId × α))

/-- The open scopes with what they declare, the innermost first: prototypes inside blocks inside the
    file. -/
structure Scopes (α : Type) where
  prototypes : List (List (CId × α))
  blocks : List (OpenBlock α)
  file : List (CId × α)

/-- One declaration more, unless the tag is declared in that scope already. -/
def declareTag {α : Type} (d : List (CId × α)) (x : CId) (info : α) : Option (List (CId × α)) :=
  if (d.lookup x).isSome then none else some (update d x info)

namespace OpenBlock

variable {α : Type}

/-- What the block declares `x` as. -/
def find (x : CId) (b : OpenBlock α) : Resolved α := (b.declared.lookup x).map fun info => (some (.block b.tag), info)

/-- The block after `inner`, directly inside it, has ended. -/
def close (b inner : OpenBlock α) : OpenBlock α := { b with ended := (inner.tag, inner.declared) :: b.ended }

/-- No block that has ended comes before the innermost open block that declares `x`. -/
def Uncovered (x : CId) : List (OpenBlock α) → Prop
  | [] => True
  | b :: bs => (∀ e ∈ b.ended, e.2.lookup x = none) ∧ (b.declared.lookup x = none → Uncovered x bs)

end OpenBlock

namespace Scopes

variable {α : Type}

/-- **The innermost open scope that declares a tag.** -/
def lookup (sc : Scopes α) (x : CId) : Resolved α :=
  ((sc.prototypes.findSome? fun d => (d.lookup x).map fun info => (none, info)).or
    (sc.blocks.findSome? (OpenBlock.find x))).or ((sc.file.lookup x).map fun info => (some .global, info))

/-- One step.  A function is defined in the file, a block is inside of a block, and a tag is declared
    in the innermost scope, once. -/
def step (sc : Scopes α) : TagOp α → Option (Scopes α × List (Resolved α))
  | .functionDefinition f base tag =>
    match sc.prototypes, sc.blocks with
    | [], [] => some ({ sc with blocks := [⟨f, base, tag, [], []⟩] }, [])
    | _, _ => none
  | .Block tag =>
    match sc.prototypes, sc.blocks with
    | [], b :: bs => some ({ sc with blocks := ⟨b.functionId, b.functionLoc, tag, [], []⟩ :: b :: bs }, [])
    | _, _ => none
  | .Prototype => some ({ sc with prototypes := [] :: sc.prototypes }, [])
  | .popLocals =>
    match sc.prototypes, sc.blocks with
    | _ :: ps, _ => some ({ sc with prototypes := ps }, [])
    | [], b :: c :: bs => some ({ sc with blocks := c.close b :: bs }, [])
    | [], [_] => some ({ sc with blocks := [] }, [])
    | [], [] => none
  | .addTag x info =>
    match sc.prototypes, sc.blocks with
    | d :: ps, _ => (declareTag d x info).map fun d' => ({ sc with prototypes := d' :: ps }, [])
    | [], b :: bs => (declareTag b.declared x info).map fun d' => ({ sc with blocks := { b with declared := d' } :: bs }, [])
    | [], [] => (declareTag sc.file x info).map fun d' => ({ sc with file := d' }, [])
  | .canonicalizeSpecifier r => some (sc, [sc.lookup r.name])

/-- The declarations that the references of a program are to, by lexical scoping. -/
def run (sc : Scopes α) : List (TagOp α) → Option (List (Resolved α))
  | [] => some []
  | op :: ops => do
    let (sc', found) ← sc.step op
    let rest ← sc'.run ops
    return found ++ rest

/-- No scope but the file, and nothing declared. -/
def init : Scopes α := ⟨[], [], []⟩

/-- **None of the differences**: nothing is declared in a prototype, and in a block nothing that the
    file declares; a prototype refers to nothing that an open block declares; and no block that has
    ended comes before the declaration that a block refers to. -/
def Clear (sc : Scopes α) : TagOp α → Prop
  | .addTag x _ => sc.prototypes = [] ∧ (sc.blocks ≠ [] → sc.file.lookup x = none)
  | .canonicalizeSpecifier r =>
    if sc.prototypes = [] then sc.file.lookup r.name = none → OpenBlock.Uncovered r.name sc.blocks
    else ∀ b ∈ sc.blocks, b.declared.lookup r.name = none
  | _ => True

/-- No step of a program meets a difference. -/
def AllClear (sc : Scopes α) : List (TagOp α) → Prop
  | [] => True
  | op :: ops => sc.Clear op ∧ ∀ sc' found, sc.step op = some (sc', found) → sc'.AllClear ops

end Scopes

/-! ## What the code has for the open scopes -/

namespace OpenBlock

variable {α : Type}

/-- The block history: each open block after the ones directly inside it that have ended. -/
def history (bs : List (OpenBlock α)) : List Int := bs.flatMap fun b => b.ended.map Prod.fst ++ [b.tag]

/-- The scope that the innermost of some blocks is. -/
def scope : List (OpenBlock α) → Scope
  | [] => .fileScope
  | b :: _ => .blockScope b.functionId b.functionLoc b.tag

/-- What is saved for each of some blocks.  Around the body of a function the history is empty. -/
def saved : List (OpenBlock α) → List (Scope × List Int)
  | [] => []
  | [_] => [(.fileScope, [])]
  | b :: c :: bs => (scope (c :: bs), b.tag :: history (c :: bs)) :: saved (c :: bs)

@[simp] theorem history_nil : history ([] : List (OpenBlock α)) = [] := rfl

@[simp] theorem history_cons (b : OpenBlock α) (bs : List (OpenBlock α)) :
    history (b :: bs) = b.ended.map Prod.fst ++ b.tag :: history bs := by
  simp [history]

theorem history_close (b c : OpenBlock α) (bs : List (OpenBlock α)) :
    history (c.close b :: bs) = b.tag :: history (c :: bs) := by
  rw [history_cons, history_cons]
  rfl

theorem tag_mem_history {b : OpenBlock α} {bs : List (OpenBlock α)} (h : b ∈ bs) : b.tag ∈ history bs :=
  List.mem_flatMap.mpr ⟨b, h, by simp⟩

theorem ended_mem_history {b : OpenBlock α} {bs : List (OpenBlock α)} (h : b ∈ bs) {e : Int × List (CId × α)}
    (he : e ∈ b.ended) : e.1 ∈ history bs :=
  List.mem_flatMap.mpr ⟨b, h, List.mem_append_left _ (List.mem_map_of_mem he)⟩

end OpenBlock

namespace Scopes

variable {α : Type}

/-- The scope that a declaration is in now. -/
def scope (sc : Scopes α) : Scope :=
  if sc.prototypes = [] then OpenBlock.scope sc.blocks else .prototypeScope

/-- What is saved for each of some prototypes. -/
def savedPrototypes (bs : List (OpenBlock α)) : List (List (CId × α)) → List (Scope × List Int)
  | [] => []
  | _ :: ps => (if ps = [] then OpenBlock.scope bs else .prototypeScope, OpenBlock.history bs) :: savedPrototypes bs ps

end Scopes

/-- **The state of the code for some open scopes.** -/
structure Related {α : Type} (tu : String) (s : TagState α) (sc : Scopes α) : Prop where
  scope : s.currScope = sc.scope
  history : s.blockHistory = OpenBlock.history sc.blocks
  stack : s.blockStack = Scopes.savedPrototypes sc.blocks sc.prototypes ++ OpenBlock.saved sc.blocks
  file : ∀ x, s.tags.lookup ⟨x, tu, .global⟩ = sc.file.lookup x
  block : ∀ b ∈ sc.blocks, ∀ x, s.tags.lookup ⟨x, tu, .block b.tag⟩ = b.declared.lookup x
  ended : ∀ b ∈ sc.blocks, ∀ e ∈ b.ended, ∀ x, s.tags.lookup ⟨x, tu, .block e.1⟩ = e.2.lookup x
  prototypes : ∀ d ∈ sc.prototypes, d = []
  separate : ∀ b ∈ sc.blocks, ∀ x, sc.file.lookup x ≠ none → b.declared.lookup x = none
  nodup : (OpenBlock.history sc.blocks).Nodup

/-- A block number that has not been used. -/
structure Unused {α : Type} (tu : String) (s : TagState α) (sc : Scopes α) (n : Int) : Prop where
  history : n ∉ OpenBlock.history sc.blocks
  tags : ∀ x, s.tags.lookup ⟨x, tu, .block n⟩ = none

/-! ## References -/

section References

variable {α : Type} {tu : String} {s : TagState α} {sc : Scopes α}

/-- What the search through the block history finds. -/
theorem resolved_canonicalizeLocalTag (tags : List (TagId × α)) (x : CId) (n : Int) (L : List Int) :
    resolved tags ⟨x, tu, canonicalizeLocalTag tu x n tags L⟩ =
      (L.findSome? fun m => resolved tags ⟨x, tu, .block m⟩).or (resolved tags ⟨x, tu, .block n⟩) := by
  induction L with
  | nil => rfl
  | cons m L ih =>
    rw [canonicalizeLocalTag, List.findSome?_cons, isDeclared]
    cases hm : tags.lookup ⟨x, tu, .block m⟩ with
    | none => simpa [resolved, hm] using ih
    | some info => simp [resolved, hm]

/-- The history finds the innermost open block that declares `x` exactly when no block that has ended
    comes before it. -/
theorem findSome?_history_eq_iff {tags : List (TagId × α)} {bs : List (OpenBlock α)} (x : CId)
    (hblock : ∀ b ∈ bs, ∀ x, tags.lookup ⟨x, tu, .block b.tag⟩ = b.declared.lookup x)
    (hended : ∀ b ∈ bs, ∀ e ∈ b.ended, ∀ x, tags.lookup ⟨x, tu, .block e.1⟩ = e.2.lookup x)
    (hnodup : (OpenBlock.history bs).Nodup) :
    (OpenBlock.history bs).findSome? (fun m => resolved tags ⟨x, tu, .block m⟩) =
      bs.findSome? (OpenBlock.find x) ↔ OpenBlock.Uncovered x bs := by
  induction bs with
  | nil => simp [OpenBlock.Uncovered]
  | cons b bs ih =>
    rw [OpenBlock.history_cons, List.nodup_append] at hnodup
    obtain ⟨-, hnodup, hdisj⟩ := hnodup
    have ih := ih (fun c hc => hblock c (List.mem_cons_of_mem _ hc)) (fun c hc => hended c (List.mem_cons_of_mem _ hc))
      (List.nodup_cons.mp hnodup).2
    have hb : resolved tags ⟨x, tu, .block b.tag⟩ = b.find x := by
      rw [resolved, hblock b List.mem_cons_self, OpenBlock.find]
    rw [OpenBlock.history_cons, List.findSome?_append, List.findSome?_cons, List.findSome?_cons, hb,
      OpenBlock.Uncovered]
    cases hfirst : (b.ended.map Prod.fst).findSome? (fun m => resolved tags ⟨x, tu, .block m⟩) with
    | none =>
      have hnone : ∀ e ∈ b.ended, e.2.lookup x = none := by
        intro e he
        have := List.findSome?_eq_none_iff.mp hfirst e.1 (List.mem_map_of_mem he)
        rw [resolved, hended b List.mem_cons_self e he] at this
        simpa using this
      cases hx : b.declared.lookup x with
      | none =>
        simp only [OpenBlock.find, hx, Option.map_none, Option.none_or, true_imp_iff]
        rw [ih]
        exact ⟨fun h => ⟨hnone, h⟩, And.right⟩
      | some info => simpa [OpenBlock.find, hx] using hnone
    | some r =>
      -- the block that is found has ended, so it is none of the open ones
      obtain ⟨m, hm, hr⟩ := List.exists_of_findSome?_eq_some hfirst
      obtain ⟨e, he, rfl⟩ := List.mem_map.mp hm
      rw [resolved, hended b List.mem_cons_self e he] at hr
      obtain ⟨info, hinfo, rfl⟩ := Option.map_eq_some_iff.mp hr
      have hcovered : ¬((∀ e ∈ b.ended, e.2.lookup x = none) ∧
          (b.declared.lookup x = none → OpenBlock.Uncovered x bs)) := by
        intro h
        rw [h.1 e he] at hinfo
        cases hinfo
      refine iff_of_false ?_ hcovered
      intro heq
      rw [← List.findSome?_cons, Option.some_or] at heq
      obtain ⟨c, hc, hfind⟩ := List.exists_of_findSome?_eq_some heq.symm
      obtain ⟨info', -, hpair⟩ := Option.map_eq_some_iff.mp hfind
      have hnum : c.tag = e.1 := by
        simp only [Prod.mk.injEq, Option.some.injEq, BlockRef.block.injEq] at hpair
        exact hpair.1
      refine hdisj e.1 hm c.tag ?_ hnum.symm
      rcases List.mem_cons.mp hc with rfl | hc
      · exact List.mem_cons_self
      · exact List.mem_cons_of_mem _ (OpenBlock.tag_mem_history hc)

theorem Related.resolved_global (h : Related tu s sc) (x : CId) :
    resolved s.tags ⟨x, tu, .global⟩ = (sc.file.lookup x).map fun info => (some .global, info) := by
  rw [resolved, h.file]

/-- Nothing is declared in a prototype, so a reference is to a tag of a block or of the file. -/
theorem Related.lookup_eq (h : Related tu s sc) (x : CId) : sc.lookup x =
    (sc.blocks.findSome? (OpenBlock.find x)).or ((sc.file.lookup x).map fun info => (some .global, info)) := by
  have hnone : (sc.prototypes.findSome? fun d => (d.lookup x).map fun info => ((none : Option BlockRef), info)) = none := by
    rw [List.findSome?_eq_none_iff]
    intro d hd
    rw [h.prototypes d hd]
    rfl
  rw [Scopes.lookup, hnone, Option.none_or]

/-- A tag of the file is declared in no open block. -/
theorem Related.findSome?_find (h : Related tu s sc) {x : CId} (hx : sc.file.lookup x ≠ none) :
    sc.blocks.findSome? (OpenBlock.find x) = none := by
  rw [List.findSome?_eq_none_iff]
  intro b hb
  rw [OpenBlock.find, h.separate b hb x hx]
  rfl

/-- A reference changes the set of incomplete tags at most. -/
theorem canonicalizeTag_frame {x : CId} {tag : TagId} {s' : TagState α}
    (h : canonicalizeTag tu s x = .ok (tag, s')) : ∃ incomplete, s' = { s with incompleteTags := incomplete } := by
  unfold canonicalizeTag at h
  split_ifs at h with hx
  · cases h
    exact ⟨s.incompleteTags, rfl⟩
  · cases hscope : s.currScope with
    | none => simp [hscope] at h
    | fileScope | prototypeScope =>
      simp only [hscope] at h
      cases h
      exact ⟨_, rfl⟩
    | blockScope f base n =>
      simp only [hscope] at h
      cases h
      exact ⟨s.incompleteTags, by rw [← hscope]⟩

/-- **A reference is to the declaration that lexical scoping says** exactly when the step is clear. -/
theorem Related.canonicalizeTag (h : Related tu s sc) (r : TagSpecifier) :
    ∃ tag s', canonicalizeTag tu s r.name = .ok (tag, s') ∧
      (resolved s.tags tag = sc.lookup r.name ↔ sc.Clear (.canonicalizeSpecifier r)) := by
  have hglobal := h.resolved_global r.name
  rw [h.lookup_eq r.name, Scopes.Clear, CSemantics.canonicalizeTag, isDeclared, h.file, h.scope, Scopes.scope]
  by_cases hfile : sc.file.lookup r.name = none
  · rw [hfile] at hglobal ⊢
    simp only [Option.isSome_none, Bool.false_eq_true, if_false, Option.map_none, Option.or_none, true_imp_iff]
    rw [Option.map_none] at hglobal
    have hnone : none = sc.blocks.findSome? (OpenBlock.find r.name) ↔
        ∀ b ∈ sc.blocks, b.declared.lookup r.name = none := by
      rw [eq_comm, List.findSome?_eq_none_iff]
      simp [OpenBlock.find]
    by_cases hps : sc.prototypes = []
    · rw [if_pos hps, if_pos hps]
      cases hbs : sc.blocks with
      | nil => exact ⟨_, _, rfl, by simp [OpenBlock.Uncovered, hglobal]⟩
      | cons b bs =>
        refine ⟨_, _, rfl, ?_⟩
        have hmem : b.tag ∈ OpenBlock.history (b :: bs) := OpenBlock.tag_mem_history List.mem_cons_self
        have hiff := findSome?_history_eq_iff r.name h.block h.ended h.nodup
        rw [hbs] at hiff
        rw [h.history, hbs, resolved_canonicalizeLocalTag, ← hiff]
        cases hfind : (OpenBlock.history (b :: bs)).findSome? fun m => resolved s.tags ⟨r.name, tu, .block m⟩ with
        | some d => rw [Option.some_or]
        | none => rw [List.findSome?_eq_none_iff.mp hfind b.tag hmem, Option.none_or]
    · rw [if_neg hps, if_neg hps]
      exact ⟨_, _, rfl, by rw [hglobal]; exact hnone⟩
  · obtain ⟨info, hinfo⟩ := Option.ne_none_iff_exists'.mp hfile
    rw [hinfo] at hglobal ⊢
    refine ⟨_, _, rfl, ?_⟩
    rw [hglobal, h.findSome?_find hfile, Option.none_or]
    have hclear : ∀ b ∈ sc.blocks, b.declared.lookup r.name = none := fun b hb => h.separate b hb _ hfile
    refine iff_of_true rfl ?_
    split_ifs
    · intro hcontra
      cases hcontra
    · exact hclear

end References

/-! ## Declarations -/

section Declarations

variable {α : Type} {tu : String} {s : TagState α} {sc : Scopes α}

theorem declareTag_eq_some {d d' : List (CId × α)} {x : CId} {info : α} :
    declareTag d x info = some d' ↔ d.lookup x = none ∧ d' = update d x info := by
  unfold declareTag
  cases d.lookup x <;> simp [eq_comm]

/-- One tag more in the file: `x` is declared in no open block. -/
theorem Related.addGlobal (h : Related tu s sc) {x : CId} (info : α) {incomplete : Finset CId}
    (hx : ∀ b ∈ sc.blocks, b.declared.lookup x = none) :
    Related tu { s with tags := update s.tags ⟨x, tu, .global⟩ info, incompleteTags := incomplete }
      { sc with file := update sc.file x info } where
  scope := h.scope
  history := h.history
  stack := h.stack
  file := by
    intro y
    rw [lookup_update, lookup_update, h.file]
    simp
  block := by
    intro b hb y
    rw [lookup_update_of_ne _ _ (by simp), h.block b hb]
  ended := by
    intro b hb e he y
    rw [lookup_update_of_ne _ _ (by simp), h.ended b hb e he]
  prototypes := h.prototypes
  separate := by
    intro b hb y hy
    rw [lookup_update] at hy
    by_cases hyx : y = x
    · rw [hyx]
      exact hx b hb
    · rw [if_neg hyx] at hy
      exact h.separate b hb y hy
  nodup := h.nodup

/-- One tag more in the innermost block: the file does not declare it. -/
theorem Related.addLocal {b : OpenBlock α} {bs : List (OpenBlock α)} (h : Related tu s ⟨[], b :: bs, sc.file⟩)
    {x : CId} (info : α) (hx : sc.file.lookup x = none) :
    Related tu { s with tags := update s.tags ⟨x, tu, .block b.tag⟩ info }
      ⟨[], { b with declared := update b.declared x info } :: bs, sc.file⟩ := by
  have hnodup := h.nodup
  rw [OpenBlock.history_cons, List.nodup_append] at hnodup
  obtain ⟨-, hcons, hdisj⟩ := hnodup
  obtain ⟨hnot, -⟩ := List.nodup_cons.mp hcons
  have hother : ∀ m, m ≠ b.tag → ∀ y, (update s.tags ⟨x, tu, .block b.tag⟩ info).lookup ⟨y, tu, .block m⟩ =
      s.tags.lookup ⟨y, tu, .block m⟩ := by
    intro m hm y
    exact lookup_update_of_ne _ _ (by simp [hm])
  refine ⟨h.scope, h.history, ?_, ?_, ?_, ?_, h.prototypes, ?_, h.nodup⟩
  · rw [h.stack]
    cases bs <;> rfl
  · intro y
    rw [lookup_update_of_ne _ _ (by simp), h.file]
  · intro c hc y
    rcases List.mem_cons.mp hc with rfl | hc
    · rw [lookup_update, lookup_update, h.block b List.mem_cons_self]
      simp
    · have hne : c.tag ≠ b.tag := fun heq => hnot (heq ▸ OpenBlock.tag_mem_history hc)
      rw [hother _ hne, h.block c (List.mem_cons_of_mem _ hc)]
  · intro c hc e he y
    rcases List.mem_cons.mp hc with rfl | hc
    · have hne : e.1 ≠ b.tag := hdisj _ (List.mem_map_of_mem he) _ List.mem_cons_self
      rw [hother _ hne, h.ended b List.mem_cons_self e he]
    · have hne : e.1 ≠ b.tag := fun heq => hnot (heq ▸ OpenBlock.ended_mem_history hc he)
      rw [hother _ hne, h.ended c (List.mem_cons_of_mem _ hc) e he]
  · intro c hc y hy
    rcases List.mem_cons.mp hc with rfl | hc
    · have hyx : y ≠ x := fun heq => hy (heq ▸ hx)
      rw [lookup_update_of_ne _ _ hyx]
      exact h.separate b List.mem_cons_self y hy
    · exact h.separate c (List.mem_cons_of_mem _ hc) y hy

/-- A clear declaration is refused by both or made by both. -/
theorem Related.addTag (h : Related tu s sc) {x : CId} (info : α) (hclear : sc.Clear (.addTag x info)) :
    (∃ sc' s', sc.step (.addTag x info) = some (sc', []) ∧ addTag tu s x info = .ok s' ∧ Related tu s' sc' ∧
      OpenBlock.history sc'.blocks = OpenBlock.history sc.blocks ∧
      ∀ n, n ∉ OpenBlock.history sc.blocks → ∀ y, s'.tags.lookup ⟨y, tu, .block n⟩ = s.tags.lookup ⟨y, tu, .block n⟩) ∨
    sc.step (.addTag x info) = none ∧ ∃ e, addTag tu s x info = .error e := by
  obtain ⟨ps, bs, file⟩ := sc
  obtain ⟨rfl, hblock⟩ : ps = [] ∧ (bs ≠ [] → file.lookup x = none) := hclear
  have hscope : s.currScope = OpenBlock.scope bs := h.scope
  cases bs with
  | nil =>
    have hfile : s.tags.lookup ⟨x, tu, .global⟩ = file.lookup x := h.file x
    have hadd : addTag tu s x info = addGlobalTag tu s x info := by
      rw [CSemantics.addTag, hscope]
      rfl
    rw [hadd, addGlobalTag, isDeclared, hfile, Scopes.step]
    cases hx : file.lookup x with
    | none =>
      have hdeclare : declareTag file x info = some (update file x info) := declareTag_eq_some.mpr ⟨hx, rfl⟩
      refine .inl ⟨_, _, by simp only [hdeclare]; rfl, rfl, h.addGlobal info (by simp), rfl, ?_⟩
      intro n _ y
      exact lookup_update_of_ne _ _ (by simp)
    | some i => exact .inr ⟨by simp [declareTag, hx], _, rfl⟩
  | cons b bs =>
    have hglobal : s.tags.lookup ⟨x, tu, .global⟩ = none := (h.file x).trans (hblock (List.cons_ne_nil b bs))
    have hlocal : s.tags.lookup ⟨x, tu, .block b.tag⟩ = b.declared.lookup x := h.block b List.mem_cons_self x
    have hadd : addTag tu s x info = if b.declared.lookup x = none then
          .ok { s with tags := update s.tags ⟨x, tu, .block b.tag⟩ info }
        else .error (CV "TDG15" ("Redefinition of a struct, union, or enum: " ++ showCId x)) := by
      rw [CSemantics.addTag, hscope]
      simp only [OpenBlock.scope, addLocalTag, hscope, isDeclared, hglobal, hlocal]
      cases b.declared.lookup x <;> rfl
    rw [hadd, Scopes.step]
    cases hx : b.declared.lookup x with
    | none =>
      have hdeclare : declareTag b.declared x info = some (update b.declared x info) :=
        declareTag_eq_some.mpr ⟨hx, rfl⟩
      refine .inl ⟨_, _, by simp only [hdeclare]; rfl, rfl,
        @Related.addLocal _ _ _ ⟨[], b :: bs, file⟩ _ _ h x info (hblock (List.cons_ne_nil b bs)), by simp, ?_⟩
      intro n hn y
      have hne : n ≠ b.tag := fun heq => hn (heq ▸ OpenBlock.tag_mem_history List.mem_cons_self)
      exact lookup_update_of_ne _ _ (by simp [hne])
    | some i => exact .inr ⟨by simp [declareTag, hx], by simp⟩

/-- A declaration that is not clear is made by lexical scoping and not by the code. -/
theorem Related.addTag_differs (h : Related tu s sc) {x : CId} (info : α) (hclear : ¬sc.Clear (.addTag x info)) :
    (sc.step (.addTag x info)).isSome ∧ ∃ e, CSemantics.addTag tu s x info = .error e := by
  obtain ⟨ps, bs, file⟩ := sc
  have hclear : ps = [] → bs ≠ [] ∧ file.lookup x ≠ none := by
    simpa [Scopes.Clear] using hclear
  cases ps with
  | cons d ps =>
    have hd : d = [] := h.prototypes d List.mem_cons_self
    have hscope : s.currScope = .prototypeScope := h.scope
    rw [CSemantics.addTag, hscope]
    simp [Scopes.step, addLocalTag, hscope, hd, declareTag]
  | nil =>
    obtain ⟨hbs, hx⟩ := hclear rfl
    obtain ⟨b, bs, rfl⟩ := List.exists_cons_of_ne_nil hbs
    have hnone : b.declared.lookup x = none := h.separate b List.mem_cons_self x hx
    have hglobal : s.tags.lookup ⟨x, tu, .global⟩ = file.lookup x := h.file x
    have hscope : s.currScope = .blockScope b.functionId b.functionLoc b.tag := h.scope
    obtain ⟨i, hi⟩ := Option.ne_none_iff_exists'.mp hx
    rw [CSemantics.addTag, hscope]
    simp [Scopes.step, addLocalTag, hscope, isDeclared, hglobal, hi, declareTag, hnone]

end Declarations

/-! ## Steps and programs -/

/-- The number of the block that a step enters. -/
def TagOp.blockTag {α : Type} : TagOp α → Option Int
  | .functionDefinition _ _ tag => some tag
  | .Block tag => some tag
  | _ => none

section Steps

variable {α : Type} {tu : String} {s : TagState α} {sc : Scopes α}

/-- Both refuse a step, or both make it with the same result and stay related. -/
def StepAgrees (tu : String) (s : TagState α) (sc : Scopes α) (op : TagOp α) : Prop :=
  (∃ s' sc' found, tagStep tu s op = .ok (s', found) ∧ sc.step op = some (sc', found) ∧ Related tu s' sc' ∧
    ∀ n, op.blockTag ≠ some n → Unused tu s sc n → Unused tu s' sc' n) ∨
  (∃ e, tagStep tu s op = .error e) ∧ sc.step op = none

/-- A new block around which the open scopes stay as they are. -/
theorem Related.enter {bs : List (OpenBlock α)} {file : List (CId × α)} {n : Int} (h : Related tu s ⟨[], bs, file⟩)
    (hunused : Unused tu s ⟨[], bs, file⟩ n) (f : CId) (base : SymBase) {stack : List (Scope × List Int)}
    (hstack : stack = OpenBlock.saved (⟨f, base, n, [], []⟩ :: bs)) :
    Related tu { s with currScope := .blockScope f base n, blockHistory := n :: s.blockHistory, blockStack := stack }
      ⟨[], ⟨f, base, n, [], []⟩ :: bs, file⟩ where
  scope := rfl
  history := by
    show n :: s.blockHistory = _
    rw [h.history, OpenBlock.history_cons]
    rfl
  stack := hstack
  file := h.file
  block := by
    intro b hb y
    rcases List.mem_cons.mp hb with rfl | hb
    · exact hunused.tags y
    · exact h.block b hb y
  ended := by
    intro b hb e he y
    rcases List.mem_cons.mp hb with rfl | hb
    · cases he
    · exact h.ended b hb e he y
  prototypes := h.prototypes
  separate := by
    intro b hb y hy
    rcases List.mem_cons.mp hb with rfl | hb
    · rfl
    · exact h.separate b hb y hy
  nodup := by
    rw [OpenBlock.history_cons]
    exact List.nodup_cons.mpr ⟨hunused.history, h.nodup⟩

/-- A number that another block does not take stays unused. -/
theorem Unused.enter {bs : List (OpenBlock α)} {file : List (CId × α)} {n m : Int}
    (h : Unused tu s ⟨[], bs, file⟩ m) (hne : m ≠ n) (f : CId) (base : SymBase) {s' : TagState α}
    (htags : s'.tags = s.tags) : Unused tu s' ⟨[], ⟨f, base, n, [], []⟩ :: bs, file⟩ m where
  history := by
    rw [OpenBlock.history_cons]
    simpa [hne] using h.history
  tags := by
    intro y
    rw [htags]
    exact h.tags y

theorem Related.step_enterFunction (h : Related tu s sc) {f : CId} {base : SymBase} {n : Int}
    (hunused : Unused tu s sc n) : StepAgrees tu s sc (.functionDefinition f base n) := by
  obtain ⟨ps, bs, file⟩ := sc
  have hscope : s.currScope = Scopes.scope ⟨ps, bs, file⟩ := h.scope
  cases ps with
  | cons d ps => exact .inr ⟨⟨.stuck, by rw [tagStep, enterFunction, hscope]; rfl⟩, rfl⟩
  | nil =>
    cases bs with
    | cons b bs => exact .inr ⟨⟨.stuck, by rw [tagStep, enterFunction, hscope]; rfl⟩, rfl⟩
    | nil =>
      have hhist : s.blockHistory = [] := h.history
      have hstack : s.blockStack = [] := h.stack
      refine .inl ⟨_, _, _, ?_, rfl, h.enter hunused f base rfl, fun m hm hu => hu.enter ?_ f base rfl⟩
      · rw [tagStep, enterFunction, hscope]
        simp only [pushLocals, hhist, hstack, hscope]
        rfl
      · rintro rfl
        exact hm rfl

theorem Related.step_enterBlock (h : Related tu s sc) {n : Int} (hunused : Unused tu s sc n) :
    StepAgrees tu s sc (.Block n) := by
  obtain ⟨ps, bs, file⟩ := sc
  have hscope : s.currScope = Scopes.scope ⟨ps, bs, file⟩ := h.scope
  cases ps with
  | cons d ps => exact .inr ⟨⟨.stuck, by rw [tagStep, enterBlock, hscope]; rfl⟩, rfl⟩
  | nil =>
    cases bs with
    | nil => exact .inr ⟨⟨.stuck, by rw [tagStep, enterBlock, hscope]; rfl⟩, rfl⟩
    | cons b bs =>
      have hstack : s.blockStack = OpenBlock.saved (b :: bs) := h.stack
      refine .inl ⟨_, _, _, ?_, rfl, h.enter hunused b.functionId b.functionLoc rfl,
        fun m hm hu => hu.enter ?_ b.functionId b.functionLoc rfl⟩
      · rw [tagStep, enterBlock, hscope]
        simp only [Scopes.scope, if_true, OpenBlock.scope, pushLocals, hstack, h.history]
        rfl
      · rintro rfl
        exact hm rfl

theorem Related.step_enterPrototype (h : Related tu s sc) : StepAgrees tu s sc .Prototype := by
  refine .inl ⟨_, _, _, rfl, rfl, ⟨by simp [pushLocals, Scopes.scope], h.history, ?_, h.file, h.block, h.ended, ?_,
    h.separate, h.nodup⟩, fun n _ hu => ⟨hu.history, hu.tags⟩⟩
  · show (s.currScope, s.blockHistory) :: s.blockStack = _
    rw [h.stack, h.history, h.scope]
    rfl
  · intro d hd
    rcases List.mem_cons.mp hd with rfl | hd
    · rfl
    · exact h.prototypes d hd

theorem tagStep_popLocals {oldScope : Scope} {history : List Int} {stack : List (Scope × List Int)}
    (h : s.blockStack = (oldScope, history) :: stack) : tagStep tu s .popLocals =
      .ok ({ s with currScope := oldScope, blockHistory := history, blockStack := stack }, []) := by
  rw [tagStep, popLocals, h]
  rfl

/-- **A block that ends** stays on the history of the block around it, and nothing else does. -/
theorem Related.step_popLocals (h : Related tu s sc) : StepAgrees tu s sc .popLocals := by
  obtain ⟨ps, bs, file⟩ := sc
  have hstack : s.blockStack = Scopes.savedPrototypes bs ps ++ OpenBlock.saved bs := h.stack
  cases ps with
  | cons d ps =>
    refine .inl ⟨_, _, _, tagStep_popLocals hstack, rfl, ⟨rfl, rfl, rfl, h.file, h.block, h.ended,
      fun d hd => h.prototypes d (List.mem_cons_of_mem _ hd), h.separate, h.nodup⟩, fun n _ hu => ⟨hu.history, hu.tags⟩⟩
  | nil =>
    match bs with
    | [] => exact .inr ⟨⟨.stuck, by rw [tagStep, popLocals, hstack]; rfl⟩, rfl⟩
    | [b] =>
      refine .inl ⟨_, _, _, tagStep_popLocals hstack, rfl, ⟨rfl, rfl, rfl, h.file, by simp, by simp,
        h.prototypes, by simp, List.nodup_nil⟩, fun n _ hu => ⟨by simp, hu.tags⟩⟩
    | b :: c :: bs =>
      have hnodup : (b.tag :: OpenBlock.history (c :: bs)).Nodup := by
        have := h.nodup
        rw [OpenBlock.history_cons] at this
        exact (List.nodup_append.mp this).2.1
      have hclose : ∀ x, x ∈ c.close b :: bs → x = c.close b ∨ x ∈ c :: bs := by
        intro x hx
        rcases List.mem_cons.mp hx with rfl | hx
        · exact .inl rfl
        · exact .inr (List.mem_cons_of_mem _ hx)
      have hin : ∀ {x : OpenBlock α}, x ∈ c :: bs → x ∈ b :: c :: bs := List.mem_cons_of_mem _
      refine .inl ⟨_, _, _, tagStep_popLocals hstack, rfl, ⟨rfl, ?_, ?_, h.file, ?_, ?_, h.prototypes, ?_, ?_⟩,
        fun n _ hu => ⟨?_, hu.tags⟩⟩
      · rw [OpenBlock.history_close]
      · cases bs <;> rfl
      · intro x hx y
        rcases hclose x hx with rfl | hx
        · exact h.block c (hin List.mem_cons_self) y
        · exact h.block x (hin hx) y
      · intro x hx e he y
        rcases hclose x hx with rfl | hx
        · rcases List.mem_cons.mp he with rfl | he
          · exact h.block b List.mem_cons_self y
          · exact h.ended c (hin List.mem_cons_self) e he y
        · exact h.ended x (hin hx) e he y
      · intro x hx y hy
        rcases hclose x hx with rfl | hx
        · exact h.separate c (hin List.mem_cons_self) y hy
        · exact h.separate x (hin hx) y hy
      · rw [OpenBlock.history_close]
        exact hnodup
      · intro hn
        rw [OpenBlock.history_close] at hn
        refine hu.history ?_
        rw [OpenBlock.history_cons]
        exact List.mem_append_right _ hn

/-- **A clear step keeps code and scopes in agreement.** -/
theorem Related.step_agrees (h : Related tu s sc) (op : TagOp α) (hclear : sc.Clear op)
    (hunused : ∀ n, op.blockTag = some n → Unused tu s sc n) : StepAgrees tu s sc op := by
  cases op with
  | functionDefinition f base n => exact h.step_enterFunction (hunused n rfl)
  | Block n => exact h.step_enterBlock (hunused n rfl)
  | Prototype => exact h.step_enterPrototype
  | popLocals => exact h.step_popLocals
  | addTag x info =>
    rcases h.addTag info hclear with ⟨sc', s', hsc, hs, hrel, hhist, htags⟩ | ⟨hsc, e, he⟩
    · refine .inl ⟨s', sc', [], by rw [tagStep, hs]; rfl, hsc, hrel, fun n _ hu => ⟨hhist ▸ hu.history, ?_⟩⟩
      intro y
      rw [htags n hu.history]
      exact hu.tags y
    · exact .inr ⟨⟨e, by rw [tagStep, he]; rfl⟩, hsc⟩
  | canonicalizeSpecifier r =>
    obtain ⟨tag, s', hs, hiff⟩ := h.canonicalizeTag r
    obtain ⟨incomplete, rfl⟩ := canonicalizeTag_frame hs
    refine .inl ⟨{ s with incompleteTags := incomplete }, sc, [sc.lookup r.name], ?_, rfl, ⟨h.scope, h.history, h.stack,
      h.file, h.block, h.ended, h.prototypes, h.separate, h.nodup⟩, fun n _ hu => ⟨hu.history, hu.tags⟩⟩
    rw [tagStep, CSemantics.canonicalizeSpecifier, hs, ← hiff.mpr hclear]
    simp [bind, Except.bind, pure, Except.pure]

/-- A step that is not clear is accepted, and the code refuses it or finds another declaration. -/
theorem Related.step_differs (h : Related tu s sc) {op : TagOp α} (hclear : ¬sc.Clear op) :
    ((tagStep tu s op).toOption.map Prod.snd) ≠ (sc.step op).map Prod.snd := by
  cases op with
  | functionDefinition | Block | Prototype | popLocals => exact absurd trivial hclear
  | addTag x info =>
    obtain ⟨hsome, e, he⟩ := h.addTag_differs info hclear
    obtain ⟨p, hp⟩ := Option.isSome_iff_exists.mp hsome
    rw [tagStep, he, hp]
    intro hcontra
    cases hcontra
  | canonicalizeSpecifier r =>
    obtain ⟨tag, s', hs, hiff⟩ := h.canonicalizeTag r
    rw [tagStep, CSemantics.canonicalizeSpecifier, hs]
    intro hcontra
    refine hclear (hiff.mp ?_)
    simpa [bind, Except.bind, pure, Except.pure, Except.toOption, Scopes.step] using hcontra

theorem translateTags_cons (op : TagOp α) (ops : List (TagOp α)) :
    (translateTags tu s (op :: ops)).toOption =
      (tagStep tu s op).toOption.bind fun p => (translateTags tu p.1 ops).toOption.map (p.2 ++ ·) := by
  rw [translateTags]
  cases tagStep tu s op with
  | error e => rfl
  | ok p =>
    show (translateTags tu p.1 ops >>= fun rest => pure (p.2 ++ rest)).toOption = _
    cases htail : translateTags tu p.1 ops <;> simp [htail, Except.toOption, bind, Except.bind, pure, Except.pure]

theorem Scopes.run_cons (op : TagOp α) (ops : List (TagOp α)) :
    sc.run (op :: ops) = (sc.step op).bind fun p => (p.1.run ops).map (p.2 ++ ·) := by
  rw [Scopes.run]
  cases sc.step op with
  | none => rfl
  | some p =>
    show (p.1.run ops >>= fun rest => pure (p.2 ++ rest)) = _
    cases htail : p.1.run ops <;> simp [htail]

/-- Programs that begin in related states. -/
theorem Related.run_agrees_iff (h : Related tu s sc) (ops : List (TagOp α))
    (hnodup : (ops.filterMap TagOp.blockTag).Nodup) (hunused : ∀ n ∈ ops.filterMap TagOp.blockTag, Unused tu s sc n) :
    (∀ pre, pre <+: ops → (translateTags tu s pre).toOption = sc.run pre) ↔ sc.AllClear ops := by
  induction ops generalizing s sc with
  | nil => simp [translateTags, Scopes.run, Scopes.AllClear, Except.toOption]
  | cons op ops ih =>
    rw [Scopes.AllClear]
    have hpre : (∀ pre, pre <+: op :: ops → (translateTags tu s pre).toOption = sc.run pre) ↔
        ∀ pre, pre <+: ops → (translateTags tu s (op :: pre)).toOption = sc.run (op :: pre) := by
      constructor
      · intro hall pre hp
        exact hall _ (List.cons_prefix_cons.mpr ⟨rfl, hp⟩)
      · intro hall pre hp
        rcases List.prefix_cons_iff.mp hp with rfl | ⟨pre', rfl, hp'⟩
        · rfl
        · exact hall pre' hp'
    rw [hpre]
    by_cases hclear : sc.Clear op
    · have hop : ∀ n, op.blockTag = some n → Unused tu s sc n := by
        intro n hn
        exact hunused n (List.mem_filterMap.mpr ⟨op, List.mem_cons_self, hn⟩)
      rcases h.step_agrees op hclear hop with ⟨s', sc', found, hs, hsc, hrel, hkeep⟩ | ⟨⟨e, hs⟩, hsc⟩
      · have hnodup' : (ops.filterMap TagOp.blockTag).Nodup :=
          hnodup.sublist ((List.sublist_cons_self op ops).filterMap _)
        have hunused' : ∀ n ∈ ops.filterMap TagOp.blockTag, Unused tu s' sc' n := by
          intro n hn
          refine hkeep n ?_ (hunused n (((List.sublist_cons_self op ops).filterMap _).mem hn))
          intro hop
          rw [List.filterMap_cons_some hop] at hnodup
          exact (List.nodup_cons.mp hnodup).1 hn
        have hrest : (sc.Clear op ∧ ∀ sc' found, sc.step op = some (sc', found) → sc'.AllClear ops) ↔
            sc'.AllClear ops := by
          refine ⟨fun hall => hall.2 sc' found hsc, fun hall => ⟨hclear, ?_⟩⟩
          intro sc'' found' hsc'
          cases hsc.symm.trans hsc'
          exact hall
        rw [hrest, ← ih hrel hnodup' hunused']
        refine forall₂_congr fun pre _ => ?_
        rw [translateTags_cons, Scopes.run_cons, hs, hsc]
        exact (Option.map_injective (List.append_right_injective found)).eq_iff
      · refine iff_of_true ?_ ⟨hclear, fun sc' found hsc' => by cases hsc.symm.trans hsc'⟩
        intro pre _
        rw [translateTags_cons, Scopes.run_cons, hs, hsc]
        rfl
    · refine iff_of_false ?_ (fun hall => hclear hall.1)
      intro hall
      have hone := hall [] List.nil_prefix
      rw [translateTags_cons, Scopes.run_cons] at hone
      refine h.step_differs hclear ?_
      simpa [translateTags, Scopes.run, Except.toOption, Option.map_eq_bind] using hone

end Steps

/-- At the beginning of a unit no scope is open but the file, and nothing is declared. -/
theorem related_init {α : Type} (tu : String) : Related tu (initTags : TagState α) Scopes.init where
  scope := rfl
  history := rfl
  stack := rfl
  file := fun _ => rfl
  block := by simp [Scopes.init]
  ended := by simp [Scopes.init]
  prototypes := by simp [Scopes.init]
  separate := by simp [Scopes.init]
  nodup := List.nodup_nil

/-- The name of the examples below. -/
private def tagS : TagName := ⟨.Identifier "S", by simp⟩

private def mainFunction (tag : Int) : TagOp String := .functionDefinition (.Identifier "main") (obj 0 1 (.static "a.c")) tag

end CSemantics
