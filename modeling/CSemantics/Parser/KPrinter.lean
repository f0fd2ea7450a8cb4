/-
  The printer of the C parser.

  A tree is printed as a term of K.  The printer carries a counter, from which every switch, case, block, for loop
  and compound literal takes an id, and the ids of the switches around what is printed: a stack, and the id of
  the innermost one, which its cases and its default repeat.

  A printer fails where the tree has a node that no branch matches.
-/
import CSemantics.Parser.Cabs

namespace CSemantics.Parser

/-! ## Terms -/

/-- What is printed.  In KAST and in Kore it is spelled differently. -/
inductive Kast
  | kapply (label : String) (children : List Kast)
  | string (s : String)
  | int (i : Int)
  | bool (b : Bool)
  | raw (s : String)

structure PrinterState where
  counter : Nat
  currentSwitchId : Nat
  switchStack : List Nat
  stringLiterals : List Kast

def initState : PrinterState := ⟨0, 0, [0], []⟩

/-- A printer fails where OCaml raises an exception. -/
abbrev Printer (α : Type) := StateT PrinterState Option α

def newCounter : Printer Nat := fun s => some (s.counter + 1, { s with counter := s.counter + 1 })

def pushSwitch : Printer Nat := do
  let counter ← newCounter
  fun s => some (counter, { s with switchStack := s.currentSwitchId :: s.switchStack, currentSwitchId := counter })

def popSwitch : Printer Unit := fun s =>
  match s.switchStack with
  | [] => none
  | i :: is => some ((), { s with switchStack := is, currentSwitchId := i })

def currentSwitch : Printer Nat := fun s => some (s.currentSwitchId, s)

def saveStringLiteral (t : Kast) : Printer Kast := fun s =>
  some (t, { s with stringLiterals := t :: s.stringLiterals })

/-- One after the other. -/
def sequence : List (Printer Kast) → Printer (List Kast)
  | [] => pure []
  | p :: ps => do
    let t ← p
    let ts ← sequence ps
    pure (t :: ts)

def kapply (label : String) (children : List (Printer Kast)) : Printer Kast := do
  let ts ← sequence children
  pure (.kapply label ts)

/-- `ktoken_int`, `ktoken_string`, `ktoken_bool` -/
def ktoken (t : Kast) : Printer Kast := pure t

def listItems : List (Printer Kast) → Printer Kast
  | [] => kapply ".List" []
  | elem :: remainder => kapply "_List_" [kapply "ListItem" [elem], listItems remainder]

def listOf (elems : List (Printer Kast)) : Printer Kast := kapply "list" [listItems elems]

/-! ## Leaves -/

/-- What is not in the tree: the directory, and the text of numerals, which some patterns do not match. -/
structure Setting where
  getcwd : String
  numeral : Constant → Option String

variable (env : Setting)

def cabsLoc (a : CabsLoc) : Printer Kast :=
  let filename := if a.filename.startsWith "/" then a.filename else env.getcwd ++ "/" ++ a.filename
  kapply "CabsLoc" [ktoken (.string a.filename), ktoken (.string filename), ktoken (.int a.lineno),
    ktoken (.int a.lineOffsetStart), ktoken (.bool a.systemHeader)]

def identifier (x : String) : Printer Kast :=
  if x = "" ∨ x = "___missing_field_name" then kapply "AnonymousName" []
  else kapply "Identifier" [ktoken (.string x)]

def reduceMultichar (radix : Nat) (cs : List (BitVec 64)) : BitVec 64 :=
  cs.foldl (fun acc c => acc <<< radix + c) 0

/-- `Int64.to_int`: an `int` has 63 bits. -/
def toInt (v : BitVec 64) : Int := v.toInt.bmod (2 ^ 63)

def constant : Constant → Printer Kast
  | .CONST_INT i => fun s => (env.numeral (.CONST_INT i)).map fun t => (.raw t, s)
  | .CONST_FLOAT r => fun s => (env.numeral (.CONST_FLOAT r)).map fun t => (.raw t, s)
  | .CONST_CHAR c => kapply "CharLiteral" [ktoken (.int (toInt (reduceMultichar 8 c)))]
  | .CONST_WCHAR c => kapply "WCharLiteral" [ktoken (.int (toInt (reduceMultichar 32 c)))]
  | .CONST_STRING s => do
    let t ← kapply "StringLiteral" [ktoken (.string s)]
    saveStringLiteral t
  | .CONST_WSTRING ws => do
    let t ← kapply "WStringLiteral" [listOf (ws.map fun x => ktoken (.int (toInt x)))]
    saveStringLiteral t

def typeSpecifier : BasicType → String
  | .Tvoid => "Void" | .Tchar => "Char" | .Tbool => "Bool" | .Tshort => "Short" | .Tint => "Int" | .Tlong => "Long"
  | .ToversizedInt => "OversizedInt" | .Tfloat => "Float" | .Tdouble => "Double"
  | .ToversizedFloat => "OversizedFloat" | .Tsigned => "Signed" | .Tunsigned => "Unsigned"
  | .TautoType => "AutoType" | .Tcomplex => "Complex" | .Timaginary => "Imaginary"

def cvSpec : CvSpec → Printer Kast
  | .CV_CONST => kapply "Const" []
  | .CV_VOLATILE => kapply "Volatile" []
  | .CV_ATOMIC => kapply "Atomic" []
  | .CV_RESTRICT => kapply "Restrict" []
  | .CV_RESTRICT_RESERVED kwd loc => kapply "RestrictReserved" [ktoken (.string kwd), cabsLoc env loc]

def storage : Storage → String
  | .NO_STORAGE => "NoStorage" | .THREAD_LOCAL => "ThreadLocal" | .AUTO => "Auto" | .STATIC => "Static"
  | .EXTERN => "Extern" | .REGISTER => "Register"

def unaryOperator : UnaryOperator → String
  | .MINUS => "Negative" | .PLUS => "Positive" | .NOT => "LogicalNot" | .BNOT => "BitwiseNot"
  | .MEMOF => "Dereference" | .ADDROF => "Reference" | .PREINCR => "PreIncrement" | .PREDECR => "PreDecrement"
  | .POSINCR => "PostIncrement" | .POSDECR => "PostDecrement"

def binaryOperator : BinaryOperator → String
  | .MUL => "Multiply" | .DIV => "Divide" | .MOD => "Modulo" | .ADD => "Plus" | .SUB => "Minus" | .SHL => "LeftShift"
  | .SHR => "RightShift" | .LT => "LessThan" | .LE => "LessThanOrEqual" | .GT => "GreaterThan"
  | .GE => "GreaterThanOrEqual" | .EQ => "Equality" | .NE => "NotEquality" | .BAND => "BitwiseAnd"
  | .XOR => "BitwiseXor" | .BOR => "BitwiseOr" | .AND => "LogicalAnd" | .OR => "LogicalOr" | .ASSIGN => "Assign"
  | .ADD_ASSIGN => "AssignPlus" | .SUB_ASSIGN => "AssignMinus" | .MUL_ASSIGN => "AssignMultiply"
  | .DIV_ASSIGN => "AssignDivide" | .MOD_ASSIGN => "AssignModulo" | .BAND_ASSIGN => "AssignBitwiseAnd"
  | .BOR_ASSIGN => "AssignBitwiseOr" | .XOR_ASSIGN => "AssignBitwiseXor" | .SHL_ASSIGN => "AssignLeftShift"
  | .SHR_ASSIGN => "AssignRightShift"

/-! ## Nodes with an id -/

def block (blabels : List String) (bstmts : List (Printer Kast)) : Printer Kast := do
  let blockNum ← newCounter
  kapply "Block3" [ktoken (.int blockNum), listOf (blabels.map fun l => ktoken (.string l)), listOf bstmts]

def blockStatement (blk : Printer Kast) : Printer Kast := kapply "BlockStatement" [blk]

def newBlockStatement (s : Printer Kast) : Printer Kast := blockStatement (block [] [s])

def forStatement (fc1 exp2 exp3 stat : Printer Kast) : Printer Kast := do
  let counter ← newCounter
  kapply "For5" [ktoken (.int counter), fc1, exp2, exp3, newBlockStatement stat]

def switch (exp stat : Printer Kast) : Printer Kast := do
  let id ← pushSwitch
  let t ← kapply "Switch" [ktoken (.int id), exp, newBlockStatement stat]
  popSwitch
  pure t

def case (exp stat : Printer Kast) : Printer Kast := do
  let switchId ← currentSwitch
  let caseId ← newCounter
  kapply "Case" [ktoken (.int switchId), ktoken (.int caseId), exp, stat]

def default (stat : Printer Kast) : Printer Kast := do
  let switchId ← currentSwitch
  kapply "Default" [ktoken (.int switchId), stat]

/-- An initializer, with its parts printed: a cast prints them in its own way. -/
inductive InitShape (P : Type)
  | noInit
  | singleInit (exp : P)
  | compoundInit (a : List P)

def initExpression : InitShape (Printer Kast) → Printer Kast
  | .noInit => kapply "NoInit" []
  | .singleInit exp => kapply "SingleInit" [exp]
  | .compoundInit a => kapply "CompoundInit" [listOf a]

def cast (spec declType : Printer Kast) (initExp : InitShape (Printer Kast)) : Printer Kast := do
  let id ← newCounter
  match initExp with
  | .noInit => kapply "Error" [ktoken (.raw "cast with a NO_INIT inside doesn't make sense")]
  | .singleInit exp => kapply "#Cast" [spec, declType, exp, ktoken (.bool true)]
  | .compoundInit a =>
    kapply "CompoundLiteral" [ktoken (.int id), spec, declType, kapply "CompoundInit" [listOf a]]

/-! ## Trees -/

/-- What a tree of a kind gives, where a tree gives `P`. -/
abbrev Shape (P : Type) : Kind → Type
  | .list k => List (Shape P k)
  | .option k => Option (Shape P k)
  | .initExpression => InitShape P
  | _ => P

def expressionLoc (s : Printer Kast) (l : CabsLoc) : Printer Kast := kapply "ExpressionLoc" [s, cabsLoc env l]

def statementLoc (s : Printer Kast) (l : CabsLoc) : Printer Kast := kapply "StatementLoc" [s, cabsLoc env l]

def initLoc (a : Printer Kast) (l : CabsLoc) : Printer Kast := kapply "InitLoc" [a, cabsLoc env l]

def definitionLoc (a : Printer Kast) (l : CabsLoc) : Printer Kast :=
  if l.lineno ≠ -10 then kapply "DefinitionLoc" [a, cabsLoc env l] else a

def definitionLocRange (a : Printer Kast) (b c : CabsLoc) : Printer Kast :=
  kapply "DefinitionLocRange" [a, cabsLoc env b, cabsLoc env c]

def specifier (a : List (Printer Kast)) : Printer Kast := kapply "Specifier" [listOf a]

/-- `struct_type` and the others: a reference to the type, or its definition. -/
def taggedType (ref defn : String) (a : String) (c : List (Printer Kast)) :
    Option (List (Printer Kast)) → Printer Kast
  | .none => kapply ref [identifier a, listOf c]
  | .some b => kapply defn [identifier a, listOf b, listOf c]

def field (n : Printer Kast) : Option (Printer Kast) → Printer Kast
  | .none => kapply "FieldName" [n]
  | .some exp => kapply "BitFieldName" [n, exp]

def isNothing : {k : Kind} → Cabs k → Bool
  | _, .NOTHING => true
  | _, _ => false

def print : {k : Kind} → Cabs k → Shape (Printer Kast) k
  | _, .Tbasic t => kapply (typeSpecifier t) []
  | _, .Tnamed s => kapply "Named" [identifier s]
  | _, .Tstruct a b c => taggedType "StructRef" "StructDef" a (print c) (print b)
  | _, .Tunion a b c => taggedType "UnionRef" "UnionDef" a (print c) (print b)
  | _, .Tenum a b c => taggedType "EnumRef" "EnumDef" a (print c) (print b)
  | _, .TtypeofE e => kapply "TypeofExpression" [print e]
  | _, .TtypeofT s d => kapply "TypeofType" [specifier (print s), print d]
  | _, .Tatomic s d => kapply "TAtomic" [specifier (print s), print d]
  -- specifier_elem
  | _, .SpecTypedef => kapply "SpecTypedef" []
  | _, .SpecCV cv => cvSpec env cv
  | _, .SpecAttr a b => kapply "Attribute" [ktoken (.string a), listOf (print b)]
  | _, .SpecStorage sto => kapply (storage sto) []
  | _, .SpecInline => kapply "Inline" []
  | _, .SpecNoReturn => kapply "Noreturn" []
  | _, .SpecAlignment a => (print a : Printer Kast)
  | _, .SpecType bt => (print bt : Printer Kast)
  | _, .SpecMissingType => kapply "MissingType" []
  | _, .SpecPattern n => kapply "SpecPattern" [identifier n]
  | _, .EXPR_ALIGNAS e => kapply "AlignasExpression" [print e]
  | _, .TYPE_ALIGNAS s d => kapply "AlignasType" [specifier (print s), print d]
  -- decl_type
  | _, .JUSTBASE => kapply "JustBase" []
  | _, .PARENTYPE _ b _ => kapply "FunctionType" [print b]
  | _, .ARRAY a b c d => kapply "ArrayType" [print a, print c, specifier (print b ++ print d)]
  | _, .PTR a b => kapply "PointerType" [specifier (print a), print b]
  | _, .PROTO a b c => kapply "Prototype" [print a, listOf (print b), ktoken (.bool c)]
  | _, .NOPROTO a b c => kapply "NoPrototype" [print a, listOf (print b), ktoken (.bool c)]
  | _, .Name a b c _ => kapply "Name" [identifier a, print b, listOf (print c)]
  | _, .SingleName a b => kapply "SingleName" [specifier (print a), print b]
  | _, .InitName a b loc => kapply "InitName" [print a, initLoc env (initExpression (print b)) loc]
  | _, .Field n exp => field (print n) (print exp)
  | _, .FieldGroup spec fields => kapply "FieldGroup" [specifier (print spec), listOf (print fields)]
  | _, .EnumItem str exp _ =>
    if isNothing exp then kapply "EnumItem" [identifier str] else kapply "EnumItemInit" [identifier str, print exp]
  -- definition
  | _, .FUNDEF a b c d => definitionLocRange env (kapply "FunctionDefinition" [print a, print b]) c d
  | _, .DECDEF a b l =>
    definitionLoc env
      (kapply "DeclarationDefinition" [kapply "InitNameGroup" [specifier (print a), listOf (print b)]]) l
  | _, .TYPEDEF a b l =>
    definitionLoc env (kapply "Typedef" [kapply "NameGroup" [specifier (print a), listOf (print b)]]) l
  | _, .ONLYTYPEDEF a l => definitionLoc env (kapply "OnlyTypedef" [specifier (print a)]) l
  | _, .GLOBASM a l => definitionLoc env (kapply "GlobAsm" [ktoken (.string a)]) l
  | _, .PRAGMA a l => definitionLoc env (kapply "Pragma" [print a]) l
  | _, .LINKAGE a l c => definitionLoc env (kapply "Linkage" [ktoken (.string a), listOf (print c)]) l
  | _, .STATIC_ASSERT a b l => definitionLoc env (kapply "StaticAssert" [print a, constant env b]) l
  | _, .TRANSFORMER _ _ _ => failure
  | _, .EXPRTRANSFORMER _ _ _ => failure
  | _, .LTL_ANNOTATION _ _ _ => failure
  -- statement
  | _, .Block blabels _ bstmts => block blabels (print bstmts)
  | _, .NOP loc => statementLoc env (kapply "Nop" []) loc
  | _, .COMPUTATION exp loc => statementLoc env (kapply "Computation" [print exp]) loc
  | _, .BLOCK blk loc => statementLoc env (blockStatement (print blk)) loc
  | _, .IF exp s1 s2 loc =>
    statementLoc env
      (kapply "IfThenElse" [print exp, newBlockStatement (print s1), newBlockStatement (print s2)]) loc
  | _, .WHILE exp stat loc => statementLoc env (kapply "While" [print exp, newBlockStatement (print stat)]) loc
  | _, .DOWHILE exp stat loc wloc =>
    statementLoc env (kapply "DoWhile3" [print exp, newBlockStatement (print stat), cabsLoc env wloc]) loc
  | _, .FOR fc1 exp2 exp3 stat loc =>
    statementLoc env (forStatement (print fc1) (print exp2) (print exp3) (print stat)) loc
  | _, .BREAK loc => statementLoc env (kapply "Break" []) loc
  | _, .CONTINUE loc => statementLoc env (kapply "Continue" []) loc
  | _, .RETURN exp loc => statementLoc env (kapply "Return" [print exp]) loc
  | _, .SWITCH exp stat loc => statementLoc env (switch (print exp) (print stat)) loc
  | _, .CASE exp stat loc => statementLoc env (case (print exp) (print stat)) loc
  | _, .CASERANGE exp1 exp2 stat loc =>
    statementLoc env (kapply "CaseRange" [print exp1, print exp2, print stat]) loc
  | _, .DEFAULT stat loc => statementLoc env (default (print stat)) loc
  | _, .LABEL str stat loc => statementLoc env (kapply "Label" [identifier str, print stat]) loc
  | _, .GOTO name loc => statementLoc env (kapply "Goto" [identifier name]) loc
  | _, .COMPGOTO exp loc => statementLoc env (kapply "CompGoto" [print exp]) loc
  | _, .DEFINITION d => (print d : Printer Kast)
  | _, .ASM _ _ _ => kapply "OtherStatement" []
  | _, .TRY_EXCEPT _ _ _ _ => kapply "OtherStatement" []
  | _, .TRY_FINALLY _ _ _ => kapply "OtherStatement" []
  | _, .FC_EXP exp1 => kapply "ForClauseExpression" [print exp1]
  | _, .FC_DECL dec1 => (print dec1 : Printer Kast)
  -- expression
  | _, .OFFSETOF spec declType exp loc =>
    expressionLoc env (kapply "OffsetOf" [specifier (print spec), print declType, print exp]) loc
  | _, .TYPES_COMPAT spec1 declType1 spec2 declType2 loc =>
    expressionLoc env
      (kapply "TypesCompat" [specifier (print spec1), print declType1, specifier (print spec2), print declType2]) loc
  | _, .GENERIC exp assocs => kapply "Generic" [print exp, listOf (print assocs)]
  | _, .LOCEXP exp loc => expressionLoc env (print exp) loc
  | _, .UNARY op exp => kapply (unaryOperator op) [print exp]
  | _, .BINARY op exp1 exp2 => kapply (binaryOperator op) [print exp1, print exp2]
  | _, .NOTHING => kapply "NothingExpression" []
  | _, .UNSPECIFIED => kapply "UnspecifiedSizeExpression" []
  | _, .PAREN exp1 => print exp1
  | _, .QUESTION exp1 exp2 exp3 => kapply "Conditional" [print exp1, print exp2, print exp3]
  | _, .CAST spec declType initExp => cast (specifier (print spec)) (print declType) (print initExp)
  | _, .CALL exp1 expList => kapply "Call" [print exp1, listOf (print expList)]
  | _, .COMMA expList => kapply "Comma" [listOf (print expList)]
  | _, .CONSTANT const => kapply "Constant" [constant env const]
  | _, .VARIABLE name => identifier name
  | _, .EXPR_SIZEOF exp => kapply "SizeofExpression" [print exp]
  | _, .TYPE_SIZEOF spec declType => kapply "SizeofType" [specifier (print spec), print declType]
  | _, .EXPR_ALIGNOF exp => kapply "AlignofExpression" [print exp]
  | _, .TYPE_ALIGNOF spec declType => kapply "AlignofType" [specifier (print spec), print declType]
  | _, .INDEX exp idx => kapply "ArrayIndex" [print exp, print idx]
  | _, .MEMBEROF exp fld => kapply "Dot" [print exp, identifier fld]
  | _, .MEMBEROFPTR exp fld => kapply "Arrow" [print exp, identifier fld]
  | _, .GNU_BODY blk => kapply "GnuBody" [print blk]
  | _, .BITMEMBEROF exp fld => kapply "DotBit" [print exp, identifier fld]
  | _, .EXPR_PATTERN s => kapply "ExpressionPattern" [ktoken (.string s)]
  | _, .PACK exp => kapply "PragmaPack" [print exp]
  | _, .LABELADDR _ => failure
  | _, .LTL _ _ => failure
  | _, .GENERIC_PAIR spec declType exp => kapply "GenericPair" [specifier (print spec), print declType, print exp]
  | _, .GENERIC_DEFAULT exp => kapply "GenericDefault" [print exp]
  -- init_expression
  | _, .NO_INIT => .noInit
  | _, .SINGLE_INIT exp => .singleInit (print exp)
  | _, .COMPOUND_INIT a => .compoundInit (print a)
  | _, .NEXT_INIT => kapply "NextInit" []
  | _, .INFIELD_INIT id what => kapply "InFieldInit" [identifier id, print what]
  | _, .ATINDEX_INIT exp what => kapply "AtIndexInit" [print exp, print what]
  | _, .ATINDEXRANGE_INIT exp1 exp2 => kapply "AtIndexRangeInit" [print exp1, print exp2]
  | _, .InitFragment a b loc => kapply "InitFragment" [print a, initLoc env (initExpression (print b)) loc]
  -- lists and options
  | _, .nil => []
  | _, .cons x xs => print x :: print xs
  | _, .none => .none
  | _, .some x => .some (print x)

/-- The tree is printed from the state it is given, and its string literals after it. -/
def translationUnit (filename : String) (defs : Cabs (.list .definition)) : Printer Kast := do
  let ast ← listOf (print env defs)
  let strings ← fun s => some (s.stringLiterals, s)
  kapply "TranslationUnit"
    [ktoken (.string filename), listOf (strings.map fun t => kapply "Constant" [ktoken t]), ktoken ast]

end CSemantics.Parser
