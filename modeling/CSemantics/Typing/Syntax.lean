/-
  The types of C as the semantics represents them.

  A `CType` is a qualified type `t(Quals, Mods, SimpleType)`; a `UType` is an unqualified one, in
  which an array has lost the qualifiers of its elements too.  Struct and union types are NOT
  unfolded: they carry a tag, and the members are found in the table of tags, or in a `FieldInfo`
  modifier when the type has been specialised.  That is what lets a struct refer to itself.

  The five kinds of array differ only in what they know about the length, so they are one
  constructor with an `ArrayKind`.  Modifiers are a set: everything that holds no type is in
  `flags`, the one modifier that does is in `fields`.
-/
import CSemantics.Symloc

namespace CSemantics

/-! ## Qualifiers and modifiers -/

/-- The set of type qualifiers. -/
structure Quals where
  const : Bool
  volatile : Bool
  restrict : Bool
  atomic : Bool
  deriving DecidableEq, Repr

def noQuals : Quals := ⟨false, false, false, false⟩

/-- `Qs +Quals Qs'` -/
def Quals.plus (q q' : Quals) : Quals :=
  ⟨q.const || q'.const, q.volatile || q'.volatile, q.restrict || q'.restrict, q.atomic || q'.atomic⟩

@[simp] theorem Quals.plus_self (q : Quals) : q.plus q = q := by
  simp [Quals.plus]

theorem Quals.plus_comm (q q' : Quals) : q.plus q' = q'.plus q := by
  simp [Quals.plus, Bool.or_comm]

inductive StorageClassSpecifier
  | Static | Extern | Auto | Register | ThreadLocal
  deriving DecidableEq, Repr

inductive FunctionSpecifier
  | Inline | Noreturn
  deriving DecidableEq, Repr

/-- The modifiers that hold no type of their own. -/
inductive Modifier
  | storage (s : StorageClassSpecifier)
  | function (f : FunctionSpecifier)
  | Packed
  /-- Tag for old-style function defs. -/
  | oldStyle
  /-- For function array parameters with a static-qualified size. -/
  | arrayStatic (n : Int)
  | alignas (n : Int)
  | activeVariant (x : CId)
  | readFrom (loc : SymLoc) (len : Int)
  /-- Special restrict modifier tagged with a block num. -/
  | RestrictBlock (s : Scope)
  | IntegerConstant
  deriving DecidableEq, Repr

/-! ## Basic types -/

/-- The integer types, enumerations and bit-fields apart. -/
inductive IntType
  | bool
  | char | signedChar | unsignedChar
  | shortInt | unsignedShortInt
  | int | signedInt | unsignedInt
  | longInt | unsignedLongInt
  | longLongInt | unsignedLongLongInt
  | oversizedInt | unsignedOversizedInt
  deriving DecidableEq, Repr

inductive FloatType
  | float | double | longDouble | oversizedFloat
  deriving DecidableEq, Repr

/-- `SimpleSignedType`: plain `char` is signed in this profile. -/
def IntType.isSigned : IntType → Bool
  | .char | .signedChar | .shortInt | .int | .signedInt | .longInt | .longLongInt | .oversizedInt => true
  | _ => false

def IntType.isChar : IntType → Bool
  | .char | .signedChar | .unsignedChar => true
  | _ => false

inductive SimpleBasicType
  | noType
  | void
  | float (f : FloatType)
  | integer (i : IntType)
  | bitfieldType (i : IntType) (width : Int)
  deriving DecidableEq, Repr

/-- The block a tag is declared in. -/
inductive BlockRef
  | global
  | block (n : Int)
  deriving DecidableEq, Repr

/-- `tag(X, Tu, Block)` -/
structure TagId where
  name : CId
  tu : String
  block : BlockRef
  deriving DecidableEq, Repr

/-- The unevaluated size of a variable-length array.  No rule of the type system looks into it. -/
structure SizeExp where
  id : Nat
  deriving DecidableEq, Repr

/-- What an array type knows about its length. -/
inductive ArrayKind
  /-- `arrayType(_, N)` -/
  | fixed (n : Int)
  /-- `incompleteArrayType(_)` -/
  | incomplete
  /-- `flexibleArrayType(_)` -/
  | flexible
  /-- `unspecifiedArrayType(_)` -/
  | unspecified
  /-- `variableLengthArrayType(_, E)` -/
  | variableLength (e : SizeExp)
  deriving DecidableEq, Repr

/-! ## Types -/

mutual

/-- possibly-qualified type -/
inductive CType where
  | t (q : Quals) (m : Mods) (st : SimpleType)

/-- unqualified type -/
inductive UType where
  | ut (m : Mods) (st : SimpleUType)

inductive SimpleType where
  | array (k : ArrayKind) (elem : CType)
  | nonArray (n : SimpleNonArrayType)

inductive SimpleUType where
  | array (k : ArrayKind) (elem : UType)
  | nonArray (n : SimpleNonArrayType)

inductive SimpleNonArrayType where
  | basic (b : SimpleBasicType)
  | enumType (s : TagId)
  | structType (s : TagId)
  | unionType (s : TagId)
  | pointerType (inner : CType)
  | functionType (ret : UType) (params : List ParamDecl)

inductive ParamDecl where
  | type (T : CType)
  | typedDeclaration (T : CType) (x : CId)
  | variadic

/-- The set of modifiers of a type. -/
inductive Mods where
  | mods (flags : Finset Modifier) (fields : Option FieldInfo)

/-- Members in order, size in bits, types and bit offsets by name, the offsets of padding bytes,
    and the alignment. -/
inductive FieldInfo where
  | fieldInfo (decls : List (CType × CId)) (size : Int) (types : List (CId × CType))
      (offsets : List (CId × Int)) (padding : List Int) (maxAlign : Int)

end

/-- `enumInfo` and `fieldInfo`, or nothing known yet. -/
inductive TagInfo
  | fields (f : FieldInfo)
  /-- An enumeration: the integer type it is represented as. -/
  | enumInfo (enumAlias : IntType)
  | incomplete

/-- The `<tags>` cells of all units. -/
abbrev Tags := List (TagId × TagInfo)

def noMods : Mods := .mods ∅ none

def Mods.flags : Mods → Finset Modifier
  | .mods f _ => f

def Mods.fields : Mods → Option FieldInfo
  | .mods _ fs => fs

/-- `Mods Mods'`, the union of two sets of modifiers. -/
def Mods.union : Mods → Mods → Mods
  | .mods f fs, .mods f' fs' => .mods (f ∪ f') (fs.or fs')

/-- Membership of a modifier that holds no type. -/
def Mods.has (x : Modifier) (m : Mods) : Bool := decide (x ∈ m.flags)

/-- `addModifier` -/
def Mods.add (x : Modifier) : Mods → Mods
  | .mods f fs => .mods (insert x f) fs

/-- Whether a modifier is a `readFrom(_, _)`. -/
def Modifier.isReadFrom : Modifier → Bool
  | .readFrom _ _ => true
  | _ => false

def Mods.stripReadFrom : Mods → Mods
  | .mods f fs => .mods (f.filter fun x => !x.isReadFrom) fs

namespace FieldInfo

def decls : FieldInfo → List (CType × CId)
  | fieldInfo ds _ _ _ _ _ => ds

def size : FieldInfo → Int
  | fieldInfo _ n _ _ _ _ => n

def types : FieldInfo → List (CId × CType)
  | fieldInfo _ _ ts _ _ _ => ts

def offsets : FieldInfo → List (CId × Int)
  | fieldInfo _ _ _ os _ _ => os

def padding : FieldInfo → List Int
  | fieldInfo _ _ _ _ ps _ => ps

def maxAlign : FieldInfo → Int
  | fieldInfo _ _ _ _ _ a => a

end FieldInfo

namespace CType

/-- `getModifiers(T)` -/
def getModifiers : CType → Mods
  | t _ m _ => m

end CType

def UType.getModifiers : UType → Mods
  | .ut m _ => m

/-! ## Qualified and unqualified types -/

mutual

/-- `utype(T)`: drop the qualifiers, of the elements of an array too. -/
def utype : CType → UType
  | .t _ m st => .ut m (unqualSimple st)

def unqualSimple : SimpleType → SimpleUType
  | .array k T => .array k (utype T)
  | .nonArray n => .nonArray n

end

mutual

/-- `type(T)`: the type without qualifiers. -/
def type : UType → CType
  | .ut m st => .t noQuals m (qualSimple st)

def qualSimple : SimpleUType → SimpleType
  | .array k T => .array k (type T)
  | .nonArray n => .nonArray n

end

def stripQualifiers (T : CType) : CType := type (utype T)

mutual

@[simp] theorem utype_type : ∀ T : UType, utype (type T) = T
  | .ut m st => by rw [type, utype, unqualSimple_qualSimple st]

@[simp] theorem unqualSimple_qualSimple : ∀ st : SimpleUType, unqualSimple (qualSimple st) = st
  | .array k T => by rw [qualSimple, unqualSimple, utype_type T]
  | .nonArray n => by rw [qualSimple, unqualSimple]

end

/-- `getQualifiers(T)`: those of an array are those of its elements. -/
def getQualifiers : CType → Quals
  | .t _ _ (.array _ T) => getQualifiers T
  | .t q _ (.nonArray _) => q

/-- `innerType(T)`; there is no rule for a type that is not made of another. -/
def innerType : CType → Option CType
  | .t _ _ (.array _ T) => some T
  | .t _ _ (.nonArray (.basic (.bitfieldType i _))) => some (type (.ut noMods (.nonArray (.basic (.integer i)))))
  | .t _ _ (.nonArray (.functionType T _)) => some (type T)
  | .t _ _ (.nonArray (.pointerType T)) => some T
  | _ => none

def isConstType (T : CType) : Bool := (getQualifiers T).const

/-- `storageSpecifiers`; `Packed` is a pseudo-storage specifier. -/
def Modifier.isStorageSpecifier : Modifier → Bool
  | .storage _ => true
  | .Packed => true
  | _ => false

def stripStorageSpecifiers : CType → CType
  | .t q (.mods f fs) st => .t q (.mods (f.filter fun x => !x.isStorageSpecifier) fs) st

def isNoType : CType → Bool
  | .t _ _ (.nonArray (.basic .noType)) => true
  | _ => false

/-! ## Short forms -/

/-- An unqualified type with no modifiers, for a non-array. -/
def SimpleNonArrayType.toUType (n : SimpleNonArrayType) : UType := .ut noMods (.nonArray n)

/-- A type with no qualifiers and no modifiers, for a non-array. -/
def SimpleNonArrayType.toType (n : SimpleNonArrayType) : CType := .t noQuals noMods (.nonArray n)

def IntType.toSimple (i : IntType) : SimpleNonArrayType := .basic (.integer i)

end CSemantics
