/-
  Symbolic locations.

  A pointer of the semantics is not a number: it is the identity of an object (`SymBase`), a byte
  offset into it and a set of facts about where the pointer came from (`Provenance`).  Two objects
  are never adjacent, so every question about addresses is a question about ONE base.
-/
import CSemantics.Common

namespace CSemantics

/-! ## Bases -/

/-- The storage duration of an object; `link` is an object another unit still has to provide. -/
inductive Duration
  | libc | libcFixed
  | alloc
  | static (tu : String)
  | string (s : String)
  | wstring (s : List Int)
  | builtinSymbol (name : String)
  | nativeSymbol (name : String)
  | threadLocal (thread : Int)
  | auto (thread : Int)
  | argv
  | register (thread : Int)
  | nativeAddress
  | hardwareAddress
  | link (tu : String)
  deriving DecidableEq, Repr

/-- An object: its identity, the alignment it was allocated with and its storage duration. -/
structure SymBase where
  id : Nat
  align : Nat
  d : Duration
  deriving DecidableEq, Repr

/-- `obj(Id, Align, Duration)` -/
def obj (id align : Nat) (d : Duration) : SymBase := ⟨id, align, d⟩

/-- The scope a declaration is in. -/
inductive Scope
  | none
  | fileScope
  | prototypeScope
  | blockScope (functionId : CId) (functionLoc : SymBase) (block : Int)
  deriving DecidableEq, Repr

def isNativeBase (b : SymBase) : Bool :=
  match b.d with
  | .nativeAddress => true
  | .nativeSymbol _ => true
  | _ => false

def isLinkBase (b : SymBase) : Bool :=
  match b.d with
  | .link _ => true
  | _ => false

def isThreadDuration (b : SymBase) : Bool :=
  match b.d with
  | .threadLocal _ => true
  | _ => false

def isAutoDuration (b : SymBase) : Bool :=
  match b.d with
  | .auto _ => true
  | .argv => true
  | .register _ => true
  | _ => false

def isLibcFixedDuration (b : SymBase) : Bool :=
  match b.d with
  | .libcFixed => true
  | _ => false

/-- `getThreadId`; `none` is `no-thread`. -/
def getThreadId (b : SymBase) : Option Int :=
  match b.d with
  | .threadLocal th => some th
  | .auto th => some th
  | .register th => some th
  | .argv => some 0
  | _ => none

/-! ## Locations -/

/-- What is known about where a pointer came from. -/
inductive Provenance
  | fromArray (offset length : Int)
  | basedOn (base : SymBase) (scope : Scope)
  /-- used to tag bit fields so that we know how many bits into the current byte they begin -/
  | bits (offset : Nat)
  deriving DecidableEq, Repr

/-- A base with a byte offset, possibly with provenance, or the null pointer. -/
inductive SymLoc
  | loc (base : SymBase) (offset : Int)
  | loc3 (base : SymBase) (offset : Int) (prov : List Provenance)
  | NullPointer
  deriving DecidableEq, Repr

namespace SymLoc

/-- `base(Loc)`; there is no rule for the null pointer. -/
def base : SymLoc → Eval SymBase
  | loc b _ => .ok b
  | loc3 b _ _ => .ok b
  | NullPointer => .error .stuck

/-- `offset(Loc)` -/
def offset : SymLoc → Eval Int
  | loc _ o => .ok o
  | loc3 _ o _ => .ok o
  | NullPointer => .error .stuck

/-- `Loc +bytes N` -/
def plusBytes : SymLoc → Int → SymLoc
  | loc b o, n => loc b (o + n)
  | loc3 b o p, n => loc3 b (o + n) p
  | NullPointer, _ => NullPointer

def prov : SymLoc → List Provenance
  | loc3 _ _ p => p
  | _ => []

def addProv (p : Provenance) : SymLoc → SymLoc
  | loc3 b o ps => loc3 b o (p :: ps)
  | loc b o => loc3 b o [p]
  | NullPointer => NullPointer

def stripProv : SymLoc → SymLoc
  | loc3 b o _ => loc b o
  | loc b o => loc b o
  | NullPointer => NullPointer

/-- The offset a `bits` provenance records. -/
def bitsOf : List Provenance → Nat
  | [] => 0
  | .bits i :: _ => i
  | _ :: ps => bitsOf ps

def getBitOffset (l : SymLoc) : Nat := bitsOf l.prov

def bitOffsetIntoLastByte (l : SymLoc) : Nat := l.getBitOffset

/-- Given a loc (with a bit offset) and a size in bits, calculate the number of bytes from the
    loc's byte offset required to cover all bits. -/
def byteRange (cfg : Settings) (l : SymLoc) (bits : Nat) : Nat :=
  (l.bitOffsetIntoLastByte + bits + cfg.bitsPerByte - 1) / cfg.bitsPerByte

def isNativeLoc : SymLoc → Bool
  | loc b _ => isNativeBase b
  | loc3 b _ _ => isNativeBase b
  | NullPointer => false

/-- The restrict bases a pointer is based on. -/
def getBases (l : SymLoc) : List (SymBase × Scope) :=
  l.prov.filterMap fun
    | .basedOn b s => some (b, s)
    | _ => none

end SymLoc

end CSemantics
