/-
  Type names and identifiers in the lexer.

  C's grammar needs to know which names are type names, so the parser tells the lexer what it declares
  and where scopes begin and end.  The lexicon is a table with hidden bindings; each open context has
  the list of names to remove from it again.

  `add_identifier` enters a name in both.  `add_type` enters it in the lexicon ONLY: a context that
  ends removes one binding too few for each type name declared in it, and an inner `typedef` stays.

      Balanced.leftBehind      what the operations between a push and its pop leave behind
      scanIdent_restored_iff   the old meanings come back iff no type name is declared
-/
import CSemantics.Lib.ShadowTable

namespace CSemantics

/-! ## The lexer's context -/

/-- What a word can be, without its location. -/
inductive Token
  | keyword (s : String)
  | NAMED_TYPE (name : String)
  | IDENT (name : String)
  | QUALIFIER (name : String)
  deriving DecidableEq, Repr

structure Lexer where
  lexicon : ShadowTable String Token
  context : List (List String)

inductive ContextOp
  | push_context
  | pop_context
  | add_type (name : String)
  | add_identifier (name : String)
  deriving DecidableEq, Repr

def addType (l : Lexer) (name : String) : Lexer :=
  { l with lexicon := l.lexicon.add name (.NAMED_TYPE name) }

def pushContext (l : Lexer) : Lexer := { l with context := [] :: l.context }

def popContext (l : Lexer) : Except String Lexer :=
  match l.context with
  | [] => .error "Empty context stack"
  | con :: sub => .ok ⟨con.foldl .remove l.lexicon, sub⟩

/-- Outside of all contexts nothing is marked. -/
def addIdentifier (l : Lexer) (name : String) : Lexer :=
  match l.context with
  | [] => l
  | con :: sub => ⟨l.lexicon.add name (.IDENT name), (name :: con) :: sub⟩

/-- The default is a variable name, as opposed to a type. -/
def scanIdent (l : Lexer) (id : String) : Token :=
  match l.lexicon.find id with
  | some t => t
  | none => if id.front = '$' then .QUALIFIER id else .IDENT id

def contextStep (l : Lexer) : ContextOp → Except String Lexer
  | .push_context => .ok (pushContext l)
  | .pop_context => popContext l
  | .add_type name => .ok (addType l name)
  | .add_identifier name => .ok (addIdentifier l name)

def runContext (l : Lexer) (ops : List ContextOp) : Except String Lexer := ops.foldlM contextStep l

/-- The lexer after `init_lexicon`. -/
def initLexicon (keywords : List (String × Token)) : Lexer := ⟨⟨keywords⟩, []⟩

/-- Every push has its pop. -/
inductive Balanced : List ContextOp → Prop
  | nil : Balanced []
  | add_type (name : String) {ops : List ContextOp} : Balanced ops → Balanced (.add_type name :: ops)
  | add_identifier (name : String) {ops : List ContextOp} :
      Balanced ops → Balanced (.add_identifier name :: ops)
  | block {body ops : List ContextOp} : Balanced body → Balanced ops →
      Balanced (.push_context :: body ++ .pop_context :: ops)

/-! ## What a balanced sequence leaves behind -/

@[simp] theorem runContext_nil (l : Lexer) : runContext l [] = .ok l := rfl

@[simp] theorem runContext_cons (l : Lexer) (op : ContextOp) (ops : List ContextOp) :
    runContext l (op :: ops) = contextStep l op >>= fun l' => runContext l' ops := by
  rw [runContext, List.foldlM_cons]
  rfl

@[simp] theorem runContext_append (l : Lexer) (ops ops' : List ContextOp) :
    runContext l (ops ++ ops') = runContext l ops >>= fun l' => runContext l' ops' := by
  rw [runContext, List.foldlM_append]
  rfl

/-- What a balanced sequence does, in whatever context: it leaves `names` to be removed and, for each
    name, some new bindings over the old ones.  There is one new binding for each name to be removed
    and one for each `add_type`. -/
structure LeftBehind (ops : List ContextOp) (names : List String) (new : String → List Token) : Prop where
  run : ∀ lex con sub, ∃ lex', runContext ⟨lex, con :: sub⟩ ops = .ok ⟨lex', (names ++ con) :: sub⟩ ∧
    ∀ x, lex'.findAll x = new x ++ lex.findAll x
  count : ∀ x, (new x).length = names.count x + ops.count (.add_type x)

namespace LeftBehind

variable {ops body : List ContextOp} {names names' : List String} {new new' : String → List Token}

theorem nil : LeftBehind [] [] fun _ => [] where
  run := fun lex _ _ => ⟨lex, rfl, fun _ => rfl⟩
  count := fun _ => by simp

theorem add_type (name : String) (h : LeftBehind ops names new) :
    LeftBehind (.add_type name :: ops) names
      fun x => new x ++ if name = x then [.NAMED_TYPE name] else [] where
  run := by
    intro lex con sub
    obtain ⟨lex', hrun, hall⟩ := h.run (lex.add name (.NAMED_TYPE name)) con sub
    refine ⟨lex', hrun, fun x => ?_⟩
    rw [hall, ShadowTable.findAll_add]
    by_cases hx : name = x <;> simp [hx]
  count := by
    intro x
    rw [List.length_append, h.count, List.count_cons]
    by_cases hx : name = x <;> simp [hx, Nat.add_assoc]

theorem add_identifier (name : String) (h : LeftBehind ops names new) :
    LeftBehind (.add_identifier name :: ops) (names ++ [name])
      fun x => new x ++ if name = x then [.IDENT name] else [] where
  run := by
    intro lex con sub
    obtain ⟨lex', hrun, hall⟩ := h.run (lex.add name (.IDENT name)) (name :: con) sub
    refine ⟨lex', ?_, fun x => ?_⟩
    · rw [List.append_assoc]
      exact hrun
    · rw [hall, ShadowTable.findAll_add]
      by_cases hx : name = x <;> simp [hx]
  count := by
    intro x
    rw [List.length_append, h.count, List.count_cons, List.count_append, List.count_singleton]
    by_cases hx : name = x <;> simp [hx, Nat.add_right_comm]

/-- A context that ends: one binding for each name to remove is gone. -/
theorem run_block (h : LeftBehind body names new) (l : Lexer) :
    ∃ lex', runContext l (.push_context :: body ++ [.pop_context]) = .ok ⟨lex', l.context⟩ ∧
      ∀ x, lex'.findAll x = (new x).drop (names.count x) ++ l.lexicon.findAll x := by
  obtain ⟨lex', hrun, hall⟩ := h.run l.lexicon [] l.context
  refine ⟨names.foldl .remove lex', ?_, fun x => ?_⟩
  · rw [List.cons_append, runContext_cons]
    show runContext ⟨l.lexicon, [] :: l.context⟩ (body ++ [.pop_context]) = _
    rw [runContext_append, hrun, List.append_nil]
    rfl
  · have hle : names.count x ≤ (new x).length := by
      rw [h.count]
      exact Nat.le_add_right _ _
    rw [ShadowTable.findAll_foldl_remove, hall, List.drop_append_of_le_length hle]

theorem block (h : LeftBehind body names new) (h' : LeftBehind ops names' new') :
    LeftBehind (.push_context :: body ++ .pop_context :: ops) names'
      fun x => new' x ++ (new x).drop (names.count x) where
  run := by
    intro lex con sub
    obtain ⟨lex₁, hrun₁, hall₁⟩ := h.run_block ⟨lex, con :: sub⟩
    obtain ⟨lex₂, hrun₂, hall₂⟩ := h'.run lex₁ con sub
    refine ⟨lex₂, ?_, fun x => ?_⟩
    · have hsplit : (.push_context :: body ++ .pop_context :: ops : List ContextOp) =
          (.push_context :: body ++ [.pop_context]) ++ ops := by simp
      rw [hsplit, runContext_append, hrun₁]
      exact hrun₂
    · rw [hall₂, hall₁, List.append_assoc]
  count := by
    intro x
    have hb := h.count x
    have ho := h'.count x
    have hcount : (.push_context :: body ++ .pop_context :: ops : List ContextOp).count (.add_type x) =
        body.count (.add_type x) + ops.count (.add_type x) := by
      simp [List.count_append]
    rw [List.length_append, List.length_drop, hcount]
    omega

end LeftBehind

/-- **A balanced sequence adds bindings that depend on the sequence only.** -/
theorem Balanced.leftBehind {ops : List ContextOp} (h : Balanced ops) :
    ∃ names new, LeftBehind ops names new := by
  induction h with
  | nil => exact ⟨[], _, .nil⟩
  | add_type name _ ih =>
    obtain ⟨names, new, hleft⟩ := ih
    exact ⟨names, _, hleft.add_type name⟩
  | add_identifier name _ ih =>
    obtain ⟨names, new, hleft⟩ := ih
    exact ⟨_, _, hleft.add_identifier name⟩
  | block _ _ ihb iho =>
    obtain ⟨names, new, hleft⟩ := ihb
    obtain ⟨names', new', hleft'⟩ := iho
    exact ⟨names', _, hleft.block hleft'⟩

/-! ## Leaving a context -/

/-- The word that is scanned is the newest binding. -/
theorem scanIdent_eq_of_findAll {l : Lexer} {x : String} {t : Token} {ts : List Token}
    (h : l.lexicon.findAll x = t :: ts) : scanIdent l x = t := by
  rw [scanIdent, ShadowTable.find, h]
  rfl

/-- **A context restores what it found** exactly when no type name is declared in it: after any
    earlier operations, every word means after the pop what it meant before the push. -/
theorem scanIdent_restored_iff (keywords : List (String × Token)) {ops : List ContextOp}
    (h : Balanced ops) :
    (∀ earlier l, runContext (initLexicon keywords) earlier = .ok l →
      ∃ l', runContext l (.push_context :: ops ++ [.pop_context]) = .ok l' ∧
        ∀ x, scanIdent l' x = scanIdent l x) ↔ ∀ x, .add_type x ∉ ops := by
  obtain ⟨names, new, hleft⟩ := h.leftBehind
  constructor
  · intro hall x hx
    -- at least one binding of x stays, and it is the same one whatever x meant before
    have hcount : 0 < ops.count (.add_type x) := List.count_pos_iff.mpr hx
    have hstay : (new x).drop (names.count x) ≠ [] := by
      intro hnil
      have hlen := hleft.count x
      have := List.drop_eq_nil_iff.mp hnil
      omega
    obtain ⟨t, ts, ht⟩ := List.exists_cons_of_ne_nil hstay
    have hafter : ∀ earlier l, runContext (initLexicon keywords) earlier = .ok l → scanIdent l x = t := by
      intro earlier l hl
      obtain ⟨l', hl', hsame⟩ := hall earlier l hl
      obtain ⟨lex', hrun, hfind⟩ := hleft.run_block l
      cases hl'.symm.trans hrun
      have hscan : scanIdent ⟨lex', l.context⟩ x = t := by
        refine @scanIdent_eq_of_findAll _ _ _ (ts ++ l.lexicon.findAll x) ?_
        rw [hfind, ht]
        rfl
      rw [← hsame, hscan]
    have htype := hafter [.add_type x] _ rfl
    have hident := hafter [.push_context, .add_identifier x] _ rfl
    rw [scanIdent_eq_of_findAll (by rw [addType, ShadowTable.findAll_add, if_pos rfl])] at htype
    rw [scanIdent_eq_of_findAll (by rw [addIdentifier, pushContext, ShadowTable.findAll_add, if_pos rfl])] at hident
    cases htype.trans hident.symm
  · intro hno earlier l _
    obtain ⟨lex', hrun, hfind⟩ := hleft.run_block l
    refine ⟨⟨lex', l.context⟩, hrun, fun x => ?_⟩
    have hnone : (new x).drop (names.count x) = [] := by
      refine List.drop_eq_nil_iff.mpr (Nat.le_of_eq ?_)
      rw [hleft.count x, List.count_eq_zero.mpr (hno x), Nat.add_zero]
    have hsame : lex'.findAll x = l.lexicon.findAll x := by
      rw [hfind, hnone, List.nil_append]
    rw [scanIdent, scanIdent, ShadowTable.find, ShadowTable.find, hsame]

/-- The condition holds of a context in which `x` is declared as a variable: where `x` was a type name
    before, it is one again. -/
theorem scanIdent_restored_variable :
    ∃ l', runContext (addType (initLexicon []) "x") [.push_context, .add_identifier "x", .pop_context] =
      .ok l' ∧ ∀ x, scanIdent l' x = scanIdent (addType (initLexicon []) "x") x :=
  (scanIdent_restored_iff [] (.add_identifier "x" .nil)).mpr (by simp) [.add_type "x"] _ rfl

/-- `{ typedef int T; }`: outside of the block `T` is a type name now. -/
theorem scanIdent_typedef_stays :
    Balanced [.add_type "T"] ∧ ∃ l', scanIdent (initLexicon []) "T" = .IDENT "T" ∧
      runContext (initLexicon []) [.push_context, .add_type "T", .pop_context] = .ok l' ∧
        scanIdent l' "T" = .NAMED_TYPE "T" := by
  refine ⟨.add_type "T" .nil, _, ?_, rfl, ?_⟩
  · simp [scanIdent, initLexicon, ShadowTable.find, ShadowTable.findAll]
    decide
  · exact scanIdent_eq_of_findAll rfl

end CSemantics
