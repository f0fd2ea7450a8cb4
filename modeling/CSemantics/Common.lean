/-
  What every part of the model shares: how a rewriting function can fail to give a value, and the
  implementation-defined settings.

  A function of the semantics is a set of rewrite rules.  On an argument that no rule matches the
  term STAYS where it is and the program is stuck; a rule may instead put a message in front of the
  term.  Both are modelled as a stopped evaluation, so "reduces to a value" is `= .ok v` and a
  missing rule is `= .error .stuck`.

  The settings are the `cfg:` symbols of the profile.  Their values are a parameter of the model;
  what the semantics needs of them, that bytes and objects have a positive size, is part of the
  type.
-/
import Mathlib

namespace CSemantics

/-! ## Evaluation -/

/-- The category of a message, as `UNDEF`, `UNSPEC`, `IMPL` and the others build it. -/
inductive ErrorCategory
  | undef | unspec | impl | implub | constraint
  deriving DecidableEq, Repr

/-- A message: its category, its code and its text. -/
structure ErrorMsg where
  category : ErrorCategory
  code : String
  description : String
  deriving DecidableEq, Repr

/-- Why an evaluation has no value: no rule applies, or a message is reported. -/
inductive Stop
  | stuck
  | report (msg : ErrorMsg)
  deriving DecidableEq, Repr

/-- The outcome of rewriting a term to a value. -/
abbrev Eval (α : Type) := Except Stop α

/-- A computation that goes on after another gives a value when both do. -/
theorem Eval.bind_eq_ok {α β : Type} {x : Eval α} {f : α → Eval β} {b : β} :
    x >>= f = .ok b ↔ ∃ a, x = .ok a ∧ f a = .ok b := by
  cases x with
  | error e => simp [bind, Except.bind]
  | ok a => simp [bind, Except.bind]

@[simp] theorem Eval.ok_bind {α β : Type} (a : α) (f : α → Eval β) : ((.ok a : Eval α) >>= f) = f a := rfl

def UNDEF (code description : String) : Stop := .report ⟨.undef, code, description⟩
def UNSPEC (code description : String) : Stop := .report ⟨.unspec, code, description⟩
def IMPL (code description : String) : Stop := .report ⟨.impl, code, description⟩
def IMPLUB (code description : String) : Stop := .report ⟨.implub, code, description⟩
def CV (code description : String) : Stop := .report ⟨.constraint, code, description⟩

/-! ## Identifiers -/

/-- Identifiers, and the names the translator gives to what has none in the program. -/
inductive CId
  | Identifier (name : String)
  /-- `#NoName`, an unnamed struct or union field -/
  | NoName
  /-- `#NoName(I)`, the same field once it has been numbered -/
  | NoNameI (i : Int)
  /-- an unnamed struct, union or enum -/
  | unnamed (i : Int) (tu : String)
  | typedef (x : CId)
  | vararg (i : Int)
  deriving DecidableEq, Repr

/-- `X:NoName` -/
def CId.isNoName : CId → Bool
  | .NoName => true
  | .NoNameI _ => true
  | _ => false

/-- `showCId(X)` -/
def showCId : CId → String
  | .Identifier s => s
  | .NoName => "<anonymous>"
  | .NoNameI _ => "<anonymous>"
  | .vararg n => "<vararg " ++ toString n ++ ">"
  | _ => "<unknown>"

/-! ## Places in the program text -/

inductive CabsLoc
  | cabsLoc (rel abs : String) (line col : Int) (systemHeader : Bool)
  | UnknownCabsLoc
  deriving DecidableEq, Repr

/-! ## Settings -/

/-- The implementation-defined sizes, in bytes unless the name says bits.  A size is a POSITIVE
    natural number, so no setting can make a byte, an integer or a pointer empty. -/
structure Settings where
  bitsPerByte : ℕ+
  sizeofBool : ℕ+
  sizeofSignedChar : ℕ+
  sizeofShortInt : ℕ+
  sizeofInt : ℕ+
  sizeofLongInt : ℕ+
  sizeofLongLongInt : ℕ+
  sizeofOversizedInt : ℕ+
  sizeofFloat : ℕ+
  sizeofDouble : ℕ+
  sizeofLongDouble : ℕ+
  sizeofOversizedFloat : ℕ+
  precisionofFloat : Nat
  precisionofDouble : Nat
  precisionofLongDouble : Nat
  precisionofOversizedFloat : Nat
  exponentofFloat : Nat
  exponentofDouble : Nat
  exponentofLongDouble : Nat
  exponentofOversizedFloat : Nat
  ptrsize : ℕ+
  alignofBool : ℕ+
  alignofSignedChar : ℕ+
  alignofShortInt : ℕ+
  alignofInt : ℕ+
  alignofLongInt : ℕ+
  alignofLongLongInt : ℕ+
  alignofOversizedInt : ℕ+
  alignofFloat : ℕ+
  alignofDouble : ℕ+
  alignofLongDouble : ℕ+
  alignofOversizedFloat : ℕ+
  alignofPointer : ℕ+
  alignofMalloc : ℕ+
  /-- The largest object the heap gives out. -/
  maxHeapBound : Nat

/-- The profile `x86-gcc-limited-libc`. -/
def x86GccLimitedLibc : Settings where
  bitsPerByte := 8
  sizeofBool := 1
  sizeofSignedChar := 1
  sizeofShortInt := 2
  sizeofInt := 4
  sizeofLongInt := 8
  sizeofLongLongInt := 8
  sizeofOversizedInt := 16
  sizeofFloat := 4
  sizeofDouble := 8
  sizeofLongDouble := 16
  sizeofOversizedFloat := 16
  precisionofFloat := 24
  precisionofDouble := 53
  precisionofLongDouble := 65
  precisionofOversizedFloat := 113
  exponentofFloat := 8
  exponentofDouble := 11
  exponentofLongDouble := 15
  exponentofOversizedFloat := 15
  ptrsize := 8
  alignofBool := 1
  alignofSignedChar := 1
  alignofShortInt := 2
  alignofInt := 4
  alignofLongInt := 8
  alignofLongLongInt := 8
  alignofOversizedInt := 16
  alignofFloat := 4
  alignofDouble := 8
  alignofLongDouble := 16
  alignofOversizedFloat := 16
  alignofPointer := 8
  alignofMalloc := 16
  maxHeapBound := 2 ^ 32 - 2

/-- The profile has no lint checks. -/
def hasLint : Bool := false

end CSemantics
