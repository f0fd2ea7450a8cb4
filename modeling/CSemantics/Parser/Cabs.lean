/-
  The syntax trees that the C parser builds.

  The types of the trees refer to each other, and to lists of each other.  They are ONE family here: `Cabs k` are the
  trees of kind `k`, and lists and options of trees are kinds too.
-/
import Mathlib

namespace CSemantics.Parser

/-! ## Kinds of trees -/

inductive Kind
  | typeSpecifier | specElem | alignmentSpec | declType | name | singleName | initName | field | fieldGroup | enumItem
  | definition | block | statement | forClause | expression | genericAssociation | initExpression | initWhat
  | initFragment
  | list (k : Kind)
  | option (k : Kind)

structure CabsLoc where
  lineno : Int
  filename : String
  lineOffsetStart : Int
  systemHeader : Bool

/-- The type specifiers that are one word. -/
inductive BasicType
  | Tvoid | Tchar | Tbool | Tshort | Tint | Tlong | ToversizedInt | Tfloat | Tdouble | ToversizedFloat
  | Tsigned | Tunsigned | TautoType | Tcomplex | Timaginary

inductive CvSpec
  | CV_CONST | CV_VOLATILE | CV_RESTRICT
  | CV_RESTRICT_RESERVED (kwd : String) (loc : CabsLoc)
  | CV_ATOMIC

inductive Storage
  | NO_STORAGE | AUTO | STATIC | EXTERN | REGISTER | THREAD_LOCAL

inductive UnaryOperator
  | MINUS | PLUS | NOT | BNOT | MEMOF | ADDROF | PREINCR | PREDECR | POSINCR | POSDECR

inductive BinaryOperator
  | ADD | SUB | MUL | DIV | MOD | AND | OR | BAND | BOR | XOR | SHL | SHR | EQ | NE | LT | GT | LE | GE | ASSIGN
  | ADD_ASSIGN | SUB_ASSIGN | MUL_ASSIGN | DIV_ASSIGN | MOD_ASSIGN
  | BAND_ASSIGN | BOR_ASSIGN | XOR_ASSIGN | SHL_ASSIGN | SHR_ASSIGN

inductive Constant
  | CONST_INT (i : String)
  | CONST_FLOAT (r : String)
  | CONST_CHAR (c : List (BitVec 64))
  | CONST_WCHAR (c : List (BitVec 64))
  | CONST_STRING (s : String)
  | CONST_WSTRING (ws : List (BitVec 64))

/-- The operators of LTL formulas. -/
inductive LtlOperator
  | LTL_TRUE | LTL_FALSE | LTL_ATOM | LTL_NOT | LTL_AND | LTL_OR | LTL_ALWAYS | LTL_IMPLIES | LTL_EVENTUALLY
  | LTL_BUILTIN (s : String)
  | LTL_URW (s : String)
  | LTL_O (s : String)

/-! ## Trees -/

inductive Cabs : Kind → Type
  -- type specifiers
  | Tbasic (t : BasicType) : Cabs .typeSpecifier
  | Tnamed (s : String) : Cabs .typeSpecifier
  | Tstruct (a : String) (b : Cabs (.option (.list .fieldGroup))) (c : Cabs (.list .specElem)) : Cabs .typeSpecifier
  | Tunion (a : String) (b : Cabs (.option (.list .fieldGroup))) (c : Cabs (.list .specElem)) : Cabs .typeSpecifier
  | Tenum (a : String) (b : Cabs (.option (.list .enumItem))) (c : Cabs (.list .specElem)) : Cabs .typeSpecifier
  | TtypeofE (e : Cabs .expression) : Cabs .typeSpecifier
  | TtypeofT (s : Cabs (.list .specElem)) (d : Cabs .declType) : Cabs .typeSpecifier
  | Tatomic (s : Cabs (.list .specElem)) (d : Cabs .declType) : Cabs .typeSpecifier
  -- specifiers; an attribute is one of them
  | SpecTypedef : Cabs .specElem
  | SpecCV (cv : CvSpec) : Cabs .specElem
  | SpecAttr (a : String) (b : Cabs (.list .expression)) : Cabs .specElem
  | SpecStorage (sto : Storage) : Cabs .specElem
  | SpecInline : Cabs .specElem
  | SpecNoReturn : Cabs .specElem
  | SpecAlignment (a : Cabs .alignmentSpec) : Cabs .specElem
  | SpecType (bt : Cabs .typeSpecifier) : Cabs .specElem
  | SpecMissingType : Cabs .specElem
  | SpecPattern (n : String) : Cabs .specElem
  | EXPR_ALIGNAS (e : Cabs .expression) : Cabs .alignmentSpec
  | TYPE_ALIGNAS (s : Cabs (.list .specElem)) (d : Cabs .declType) : Cabs .alignmentSpec
  -- declarators
  | JUSTBASE : Cabs .declType
  | PARENTYPE (a : Cabs (.list .specElem)) (b : Cabs .declType) (c : Cabs (.list .specElem)) : Cabs .declType
  | ARRAY (a : Cabs .declType) (b : Cabs (.list .specElem)) (c : Cabs .expression) (d : Cabs (.list .specElem)) :
      Cabs .declType
  | PTR (a : Cabs (.list .specElem)) (b : Cabs .declType) : Cabs .declType
  | PROTO (a : Cabs .declType) (b : Cabs (.list .singleName)) (c : Bool) : Cabs .declType
  | NOPROTO (a : Cabs .declType) (b : Cabs (.list .singleName)) (c : Bool) : Cabs .declType
  | Name (a : String) (b : Cabs .declType) (c : Cabs (.list .specElem)) (d : CabsLoc) : Cabs .name
  | SingleName (a : Cabs (.list .specElem)) (b : Cabs .name) : Cabs .singleName
  | InitName (a : Cabs .name) (b : Cabs .initExpression) (loc : CabsLoc) : Cabs .initName
  | Field (n : Cabs .name) (exp : Cabs (.option .expression)) : Cabs .field
  | FieldGroup (spec : Cabs (.list .specElem)) (fields : Cabs (.list .field)) : Cabs .fieldGroup
  | EnumItem (str : String) (exp : Cabs .expression) (loc : CabsLoc) : Cabs .enumItem
  -- definitions
  | FUNDEF (a : Cabs .singleName) (b : Cabs .block) (c d : CabsLoc) : Cabs .definition
  | DECDEF (a : Cabs (.list .specElem)) (b : Cabs (.list .initName)) (l : CabsLoc) : Cabs .definition
  | TYPEDEF (a : Cabs (.list .specElem)) (b : Cabs (.list .name)) (l : CabsLoc) : Cabs .definition
  | ONLYTYPEDEF (a : Cabs (.list .specElem)) (l : CabsLoc) : Cabs .definition
  | GLOBASM (a : String) (l : CabsLoc) : Cabs .definition
  | PRAGMA (a : Cabs .expression) (l : CabsLoc) : Cabs .definition
  | LINKAGE (a : String) (l : CabsLoc) (c : Cabs (.list .definition)) : Cabs .definition
  | TRANSFORMER (a : Cabs .definition) (b : Cabs (.list .definition)) (l : CabsLoc) : Cabs .definition
  | EXPRTRANSFORMER (a b : Cabs .expression) (l : CabsLoc) : Cabs .definition
  | STATIC_ASSERT (a : Cabs .expression) (b : Constant) (l : CabsLoc) : Cabs .definition
  | LTL_ANNOTATION (name : String) (claim : Cabs .expression) (l : CabsLoc) : Cabs .definition
  -- statements
  | Block (blabels : List String) (battrs : Cabs (.list .specElem)) (bstmts : Cabs (.list .statement)) : Cabs .block
  | NOP (loc : CabsLoc) : Cabs .statement
  | COMPUTATION (exp : Cabs .expression) (loc : CabsLoc) : Cabs .statement
  | BLOCK (blk : Cabs .block) (loc : CabsLoc) : Cabs .statement
  | IF (exp : Cabs .expression) (s1 s2 : Cabs .statement) (loc : CabsLoc) : Cabs .statement
  | WHILE (exp : Cabs .expression) (stat : Cabs .statement) (loc : CabsLoc) : Cabs .statement
  | DOWHILE (exp : Cabs .expression) (stat : Cabs .statement) (loc wloc : CabsLoc) : Cabs .statement
  | FOR (fc1 : Cabs .forClause) (exp2 exp3 : Cabs .expression) (stat : Cabs .statement) (loc : CabsLoc) :
      Cabs .statement
  | BREAK (loc : CabsLoc) : Cabs .statement
  | CONTINUE (loc : CabsLoc) : Cabs .statement
  | RETURN (exp : Cabs .expression) (loc : CabsLoc) : Cabs .statement
  | SWITCH (exp : Cabs .expression) (stat : Cabs .statement) (loc : CabsLoc) : Cabs .statement
  | CASE (exp : Cabs .expression) (stat : Cabs .statement) (loc : CabsLoc) : Cabs .statement
  | CASERANGE (exp1 exp2 : Cabs .expression) (stat : Cabs .statement) (loc : CabsLoc) : Cabs .statement
  | DEFAULT (stat : Cabs .statement) (loc : CabsLoc) : Cabs .statement
  | LABEL (str : String) (stat : Cabs .statement) (loc : CabsLoc) : Cabs .statement
  | GOTO (name : String) (loc : CabsLoc) : Cabs .statement
  | COMPGOTO (exp : Cabs .expression) (loc : CabsLoc) : Cabs .statement
  | DEFINITION (d : Cabs .definition) : Cabs .statement
  /-- Without its details, which are for GCC. -/
  | ASM (attrs : Cabs (.list .specElem)) (template : List String) (loc : CabsLoc) : Cabs .statement
  | TRY_EXCEPT (b1 : Cabs .block) (exp : Cabs .expression) (b2 : Cabs .block) (loc : CabsLoc) : Cabs .statement
  | TRY_FINALLY (b1 b2 : Cabs .block) (loc : CabsLoc) : Cabs .statement
  | FC_EXP (exp1 : Cabs .expression) : Cabs .forClause
  | FC_DECL (dec1 : Cabs .definition) : Cabs .forClause
  -- expressions
  | NOTHING : Cabs .expression
  | UNSPECIFIED : Cabs .expression
  | OFFSETOF (spec : Cabs (.list .specElem)) (declType : Cabs .declType) (exp : Cabs .expression) (loc : CabsLoc) :
      Cabs .expression
  | TYPES_COMPAT (spec1 : Cabs (.list .specElem)) (declType1 : Cabs .declType) (spec2 : Cabs (.list .specElem))
      (declType2 : Cabs .declType) (loc : CabsLoc) : Cabs .expression
  | LOCEXP (exp : Cabs .expression) (loc : CabsLoc) : Cabs .expression
  | UNARY (op : UnaryOperator) (exp : Cabs .expression) : Cabs .expression
  | LABELADDR (s : String) : Cabs .expression
  | BINARY (op : BinaryOperator) (exp1 exp2 : Cabs .expression) : Cabs .expression
  | QUESTION (exp1 exp2 exp3 : Cabs .expression) : Cabs .expression
  | CAST (spec : Cabs (.list .specElem)) (declType : Cabs .declType) (initExp : Cabs .initExpression) : Cabs .expression
  | CALL (exp1 : Cabs .expression) (expList : Cabs (.list .expression)) : Cabs .expression
  | COMMA (expList : Cabs (.list .expression)) : Cabs .expression
  | CONSTANT (const : Constant) : Cabs .expression
  | PAREN (exp1 : Cabs .expression) : Cabs .expression
  | VARIABLE (name : String) : Cabs .expression
  | EXPR_SIZEOF (exp : Cabs .expression) : Cabs .expression
  | TYPE_SIZEOF (spec : Cabs (.list .specElem)) (declType : Cabs .declType) : Cabs .expression
  | EXPR_ALIGNOF (exp : Cabs .expression) : Cabs .expression
  | TYPE_ALIGNOF (spec : Cabs (.list .specElem)) (declType : Cabs .declType) : Cabs .expression
  | INDEX (exp idx : Cabs .expression) : Cabs .expression
  | MEMBEROF (exp : Cabs .expression) (fld : String) : Cabs .expression
  | MEMBEROFPTR (exp : Cabs .expression) (fld : String) : Cabs .expression
  | GNU_BODY (blk : Cabs .block) : Cabs .expression
  | BITMEMBEROF (exp : Cabs .expression) (fld : String) : Cabs .expression
  | EXPR_PATTERN (s : String) : Cabs .expression
  | GENERIC (exp : Cabs .expression) (assocs : Cabs (.list .genericAssociation)) : Cabs .expression
  | LTL (op : LtlOperator) (exps : Cabs (.list .expression)) : Cabs .expression
  | PACK (exp : Cabs .expression) : Cabs .expression
  | GENERIC_PAIR (spec : Cabs (.list .specElem)) (declType : Cabs .declType) (exp : Cabs .expression) :
      Cabs .genericAssociation
  | GENERIC_DEFAULT (exp : Cabs .expression) : Cabs .genericAssociation
  -- initializers
  | NO_INIT : Cabs .initExpression
  | SINGLE_INIT (exp : Cabs .expression) : Cabs .initExpression
  | COMPOUND_INIT (a : Cabs (.list .initFragment)) : Cabs .initExpression
  | NEXT_INIT : Cabs .initWhat
  | INFIELD_INIT (id : String) (what : Cabs .initWhat) : Cabs .initWhat
  | ATINDEX_INIT (exp : Cabs .expression) (what : Cabs .initWhat) : Cabs .initWhat
  | ATINDEXRANGE_INIT (exp1 exp2 : Cabs .expression) : Cabs .initWhat
  | InitFragment (a : Cabs .initWhat) (b : Cabs .initExpression) (loc : CabsLoc) : Cabs .initFragment
  -- lists and options
  | nil {k : Kind} : Cabs (.list k)
  | cons {k : Kind} (x : Cabs k) (xs : Cabs (.list k)) : Cabs (.list k)
  | none {k : Kind} : Cabs (.option k)
  | some {k : Kind} (x : Cabs k) : Cabs (.option k)

end CSemantics.Parser
