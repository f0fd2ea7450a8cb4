/-
  Sizes, alignments and ranges of types.

  Every question about a type that depends on the implementation is answered here from the
  settings and the table of tags.  A question no rule answers (the range of a pointer, the size of
  a variable-length array before it is evaluated) stops with `stuck`.

  **What the rest of the development uses of an integer type is its shape**, `IntShape`: a width in
  bits and a signedness, from which both bounds follow.  `intShape_of_integer` gives the shape of
  every integer type that is not a bit-field, enumerations included; `intShape_bitfield` gives the
  shape of a bit-field from its declared width.
-/
import CSemantics.Typing.Syntax

namespace CSemantics

/-! ## Predicates -/

def isBitfieldType : CType → Bool
  | .t _ _ (.nonArray (.basic (.bitfieldType _ _))) => true
  | _ => false

namespace UType

/-- `unsignedIntegerUType` -/
def isUnsignedInteger : UType → Bool
  | ut _ (.nonArray (.basic (.integer i))) => !i.isSigned
  | ut _ (.nonArray (.basic (.bitfieldType i _))) => !i.isSigned
  | _ => false

/-- `signedIntegerUType` -/
def isSignedInteger : UType → Bool
  | ut _ (.nonArray (.basic (.integer i))) => i.isSigned
  | ut _ (.nonArray (.basic (.bitfieldType i _))) => i.isSigned
  | _ => false

def isEnum : UType → Bool
  | ut _ (.nonArray (.enumType _)) => true
  | _ => false

/-- `integerUType` -/
def isInteger (T : UType) : Bool := T.isUnsignedInteger || T.isSignedInteger || T.isEnum

def isChar : UType → Bool
  | ut _ (.nonArray (.basic (.integer i))) => i.isChar
  | _ => false

def isBool : UType → Bool
  | ut _ (.nonArray (.basic (.integer .bool))) => true
  | _ => false

def isFloat : UType → Bool
  | ut _ (.nonArray (.basic (.float _))) => true
  | _ => false

def isPointer : UType → Bool
  | ut _ (.nonArray (.pointerType _)) => true
  | _ => false

def isStructOrUnion : UType → Bool
  | ut _ (.nonArray (.structType _)) => true
  | ut _ (.nonArray (.unionType _)) => true
  | _ => false

/-- The integer types, as `isInteger` has them. -/
theorem isInteger_cases {T : UType} (h : T.isInteger = true) :
    (∃ m i, T = .ut m (.nonArray (.basic (.integer i)))) ∨
      (∃ m i n, T = .ut m (.nonArray (.basic (.bitfieldType i n)))) ∨
      ∃ m s, T = .ut m (.nonArray (.enumType s)) := by
  cases T with
  | ut m st =>
    cases st with
    | array k e => simp [isInteger, isUnsignedInteger, isSignedInteger, isEnum] at h
    | nonArray n =>
      cases n with
      | basic b =>
        cases b with
        | integer i => exact .inl ⟨m, i, rfl⟩
        | bitfieldType i n => exact .inr (.inl ⟨m, i, n, rfl⟩)
        | noType | void | float f => simp [isInteger, isUnsignedInteger, isSignedInteger, isEnum] at h
      | enumType s => exact .inr (.inr ⟨m, s, rfl⟩)
      | structType s | unionType s | pointerType p | functionType r ps =>
        simp [isInteger, isUnsignedInteger, isSignedInteger, isEnum] at h

theorem isFloat_cases {T : UType} (h : T.isFloat = true) :
    ∃ m f, T = .ut m (.nonArray (.basic (.float f))) := by
  unfold isFloat at h
  split at h
  · exact ⟨_, _, rfl⟩
  · cases h

end UType

/-! ## Tags -/

def getTagInfo (tags : Tags) (s : TagId) : TagInfo := (tags.lookup s).getD .incomplete

/-- `getEnumAlias(S)`; there is no rule for a tag that is not an enumeration. -/
def getEnumAlias (tags : Tags) (s : TagId) : Eval IntType :=
  match getTagInfo tags s with
  | .enumInfo a => .ok a
  | _ => .error .stuck

def toFieldInfo : TagInfo → FieldInfo
  | .fields f => f
  | _ => .fieldInfo [] 0 [] [] [] 0

def getFieldInfo (tags : Tags) (s : TagId) : FieldInfo := toFieldInfo (getTagInfo tags s)

/-- `getFields` of a struct or union type: a `FieldInfo` modifier wins over the table. -/
def getFields (tags : Tags) (m : Mods) (s : TagId) : FieldInfo :=
  m.fields.getD (getFieldInfo tags s)

/-! ## Sizes -/

section Sizes

variable (cfg : Settings) (tags : Tags)

/-- `numBytesArithmetic` at an integer type. -/
def numBytesArithmetic : IntType → ℕ+
  | .bool => cfg.sizeofBool
  | .char | .signedChar | .unsignedChar => cfg.sizeofSignedChar
  | .shortInt | .unsignedShortInt => cfg.sizeofShortInt
  | .int | .signedInt | .unsignedInt => cfg.sizeofInt
  | .longInt | .unsignedLongInt => cfg.sizeofLongInt
  | .longLongInt | .unsignedLongLongInt => cfg.sizeofLongLongInt
  | .oversizedInt | .unsignedOversizedInt => cfg.sizeofOversizedInt

/-- `numBytesArithmetic` at a floating type. -/
def numBytesFloat : FloatType → ℕ+
  | .float => cfg.sizeofFloat
  | .double => cfg.sizeofDouble
  | .longDouble => cfg.sizeofLongDouble
  | .oversizedFloat => cfg.sizeofOversizedFloat

def numBits (i : IntType) : Nat := numBytesArithmetic cfg i * cfg.bitsPerByte

theorem numBits_pos (i : IntType) : 0 < numBits cfg i :=
  Nat.mul_pos (PNat.pos _) (PNat.pos _)

/-- The size in bits of a type that is neither an array, a struct nor a union. -/
def bitSizeofNonArray : SimpleNonArrayType → Int
  | .functionType _ _ => cfg.bitsPerByte
  | .pointerType _ => cfg.ptrsize * cfg.bitsPerByte
  | .basic (.bitfieldType _ n) => n
  | .basic (.integer i) => numBits cfg i
  | .basic (.float f) => numBytesFloat cfg f * cfg.bitsPerByte
  | .basic .void => 0
  | .basic .noType => 0
  | .enumType s =>
    -- an incomplete enumeration has size 0, like every incomplete type
    match getTagInfo tags s with
    | .enumInfo a => numBits cfg a
    | _ => 0
  | .structType s => (getFieldInfo tags s).size
  | .unionType s => (getFieldInfo tags s).size

/-- `bitSizeofType`; the size of an array whose length is not known yet is not a value. -/
def bitSizeofType : UType → Eval Int
  | .ut m (.nonArray (.structType s)) => .ok (getFields tags m s).size
  | .ut m (.nonArray (.unionType s)) => .ok (getFields tags m s).size
  | .ut _ (.nonArray n) => .ok (bitSizeofNonArray cfg tags n)
  | .ut _ (.array (.fixed n) T) => do return (← bitSizeofType T) * n
  | .ut _ (.array .incomplete _) => .ok 0
  | .ut _ (.array .flexible _) => .ok 0
  | .ut _ (.array _ _) => .error .stuck

/-- `byteSizeofType`: round up to whole bytes. -/
def byteSizeofType (T : UType) : Eval Int := do
  return ((← bitSizeofType cfg tags T) + cfg.bitsPerByte - 1).tdiv cfg.bitsPerByte

/-- The members of a struct or a union type. -/
def aggregateFields : UType → Option FieldInfo
  | .ut m (.nonArray (.structType s)) => some (getFields tags m s)
  | .ut m (.nonArray (.unionType s)) => some (getFields tags m s)
  | _ => none

end Sizes

theorem bitSizeofType_of_aggregateFields {cfg : Settings} {tags : Tags} {T : UType}
    {f : FieldInfo} (hT : aggregateFields tags T = some f) : bitSizeofType cfg tags T = .ok f.size := by
  unfold aggregateFields at hT
  split at hT
  · injection hT with hT
    subst hT
    rfl
  · injection hT with hT
    subst hT
    rfl
  · cases hT

/-! ## Alignments -/

section Alignments

variable (cfg : Settings) (tags : Tags)

/-- The alignment of an integer type. -/
def alignofInteger : IntType → ℕ+
  | .bool => cfg.alignofBool
  | .char | .signedChar | .unsignedChar => cfg.alignofSignedChar
  | .shortInt | .unsignedShortInt => cfg.alignofShortInt
  | .int | .signedInt | .unsignedInt => cfg.alignofInt
  | .longInt | .unsignedLongInt => cfg.alignofLongInt
  | .longLongInt | .unsignedLongLongInt => cfg.alignofLongLongInt
  | .oversizedInt | .unsignedOversizedInt => cfg.alignofOversizedInt

/-- The alignment of a floating type. -/
def alignofFloating : FloatType → ℕ+
  | .float => cfg.alignofFloat
  | .double => cfg.alignofDouble
  | .longDouble => cfg.alignofLongDouble
  | .oversizedFloat => cfg.alignofOversizedFloat

def byteAlignofTagged : TagInfo → Int
  | .fields f => f.maxAlign
  | .enumInfo a => alignofInteger cfg a
  | .incomplete => 1

/-- `byteAlignofType'` of a type that is not an array. -/
def byteAlignofNonArray : SimpleNonArrayType → Int
  | .basic (.integer i) => alignofInteger cfg i
  | .basic (.bitfieldType i _) => alignofInteger cfg i
  | .basic (.float f) => alignofFloating cfg f
  | .basic .noType => cfg.alignofMalloc
  | .basic .void => 1
  | .pointerType _ => cfg.alignofPointer
  | .enumType s => byteAlignofTagged cfg (getTagInfo tags s)
  | .structType s => byteAlignofTagged cfg (getTagInfo tags s)
  | .unionType s => byteAlignofTagged cfg (getTagInfo tags s)
  | .functionType _ _ => 0

/-- `byteAlignofType`: a packed member can be anywhere, an array is aligned as its elements. -/
def byteAlignofType : CType → Int
  | .t _ m (.array _ T) => if m.has .Packed then 1 else byteAlignofType T
  | .t _ m (.nonArray n) => if m.has .Packed then 1 else byteAlignofNonArray cfg tags n

end Alignments

/-! ## Ranges -/

section Ranges

variable (cfg : Settings) (tags : Tags)

/-- `imin` -/
def imin : SimpleBasicType → Eval Int
  | .integer i => .ok (if i.isSigned then 0 - (1 : Int) <<< ((numBits cfg i : Int) - 1).natAbs else 0)
  | .bitfieldType i n => .ok (if i.isSigned then 0 - (1 : Int) <<< (n - 1).natAbs else 0)
  | _ => .error .stuck

/-- `imax` -/
def imax : SimpleBasicType → Eval Int
  | .integer i =>
    .ok (if i.isSigned then (1 : Int) <<< ((numBits cfg i : Int) - 1).natAbs - 1
      else (1 : Int) <<< (numBits cfg i : Int).natAbs - 1)
  | .bitfieldType i n =>
    .ok (if i.isSigned then (1 : Int) <<< (n - 1).natAbs - 1 else (1 : Int) <<< n.natAbs - 1)
  | _ => .error .stuck

/-- `min(T)`: an enumeration has the range of its alias. -/
def UType.min : UType → Eval Int
  | .ut _ (.nonArray (.enumType s)) => do imin cfg (.integer (← getEnumAlias tags s))
  | .ut _ (.nonArray (.basic b)) => imin cfg b
  | _ => .error .stuck

/-- `max(T)` -/
def UType.max : UType → Eval Int
  | .ut _ (.nonArray (.enumType s)) => do imax cfg (.integer (← getEnumAlias tags s))
  | .ut _ (.nonArray (.basic b)) => imax cfg b
  | _ => .error .stuck

/-- `intInRange(V, T)` -/
def intInRange (V : Int) (T : UType) : Eval Bool := do
  let hi ← T.max cfg tags
  let lo ← T.min cfg tags
  return decide (V ≤ hi) && decide (V ≥ lo)

/-- `flipSignedness` -/
def flipSignedness : IntType → IntType
  | .unsignedChar => .signedChar
  | .unsignedShortInt => .shortInt
  | .unsignedInt => .int
  | .unsignedLongInt => .longInt
  | .unsignedLongLongInt => .longLongInt
  | .unsignedOversizedInt => .oversizedInt
  | .char | .signedChar => .unsignedChar
  | .shortInt => .unsignedShortInt
  | .int | .signedInt => .unsignedInt
  | .longInt => .unsignedLongInt
  | .longLongInt => .unsignedLongLongInt
  | .oversizedInt => .unsignedOversizedInt
  | .bool => .bool

/-- `correspondingUnsignedType` -/
def correspondingUnsignedType : UType → Eval UType
  | .ut m (.nonArray (.basic (.integer i))) =>
    .ok (.ut m (.nonArray (.basic (.integer (if i.isSigned then flipSignedness i else i)))))
  | .ut m (.nonArray (.basic (.bitfieldType i n))) =>
    .ok (.ut m (.nonArray (.basic (.bitfieldType (if i.isSigned then flipSignedness i else i) n))))
  | .ut m (.nonArray (.enumType s)) => do
    let i ← getEnumAlias tags s
    return .ut m (.nonArray (.basic (.integer (if i.isSigned then flipSignedness i else i))))
  | T => .ok T

/-- `correspondingSignedType` -/
def correspondingSignedType : UType → Eval UType
  | .ut m (.nonArray (.basic (.integer i))) =>
    .ok (.ut m (.nonArray (.basic (.integer (if i.isSigned then i else flipSignedness i)))))
  | .ut m (.nonArray (.basic (.bitfieldType i n))) =>
    .ok (.ut m (.nonArray (.basic (.bitfieldType (if i.isSigned then i else flipSignedness i) n))))
  | .ut m (.nonArray (.enumType s)) => do
    let i ← getEnumAlias tags s
    return .ut m (.nonArray (.basic (.integer (if i.isSigned then i else flipSignedness i))))
  | T => .ok T

end Ranges

/-! ## The shape of an integer type -/

/-- The least number of a two's-complement (`s`) or binary format of `w` bits. -/
def shapeMin (w : Nat) (s : Bool) : Int := if s then -2 ^ (w - 1) else 0

/-- The greatest number of a two's-complement (`s`) or binary format of `w` bits. -/
def shapeMax (w : Nat) (s : Bool) : Int := if s then 2 ^ (w - 1) - 1 else 2 ^ w - 1

/-- **`T` is an integer format of `w` bits**, signed or not: all its size and its bounds say. -/
structure IntShape (cfg : Settings) (tags : Tags) (T : UType) (w : Nat) (s : Bool) : Prop where
  integer : T.isInteger = true
  pos : 0 < w
  size : bitSizeofType cfg tags T = .ok w
  min : T.min cfg tags = .ok (shapeMin w s)
  max : T.max cfg tags = .ok (shapeMax w s)

section Shape

variable {cfg : Settings} {tags : Tags}

private theorem natAbs_pred {w : Nat} (h : 0 < w) : ((w : Int) - 1).natAbs = w - 1 := by
  omega

theorem imin_integer (i : IntType) :
    imin cfg (.integer i) = .ok (shapeMin (numBits cfg i) i.isSigned) := by
  cases h : i.isSigned
  · simp [imin, shapeMin, h]
  · simp [imin, shapeMin, h, natAbs_pred (numBits_pos cfg i), Int.shiftLeft_eq]

theorem imax_integer (i : IntType) :
    imax cfg (.integer i) = .ok (shapeMax (numBits cfg i) i.isSigned) := by
  cases h : i.isSigned
  · simp [imax, shapeMax, h, Int.shiftLeft_eq]
  · simp [imax, shapeMax, h, natAbs_pred (numBits_pos cfg i), Int.shiftLeft_eq]

/-- An integer type that is neither an enumeration nor a bit-field. -/
theorem intShape_integer (m : Mods) (i : IntType) :
    IntShape cfg tags (.ut m (.nonArray i.toSimple)) (numBits cfg i) i.isSigned where
  integer := by
    cases h : i.isSigned <;>
      simp [UType.isInteger, UType.isUnsignedInteger, UType.isSignedInteger, IntType.toSimple, h]
  pos := numBits_pos cfg i
  size := rfl
  min := imin_integer i
  max := imax_integer i

/-- An enumeration has the shape of its alias. -/
theorem intShape_enum (m : Mods) (s : TagId) (a : IntType) (h : getTagInfo tags s = .enumInfo a) :
    IntShape cfg tags (.ut m (.nonArray (.enumType s))) (numBits cfg a) a.isSigned where
  integer := by simp [UType.isInteger, UType.isEnum]
  pos := numBits_pos cfg a
  size := by simp [bitSizeofType, bitSizeofNonArray, h]
  min := by simp [UType.min, getEnumAlias, h, imin_integer, bind, Except.bind]
  max := by simp [UType.max, getEnumAlias, h, imax_integer, bind, Except.bind]

/-- A bit-field of positive width has the shape its declaration gives. -/
theorem intShape_bitfield (m : Mods) (i : IntType) (w : Nat) (h : 0 < w) :
    IntShape cfg tags (.ut m (.nonArray (.basic (.bitfieldType i w)))) w i.isSigned where
  integer := by
    cases h : i.isSigned <;>
      simp [UType.isInteger, UType.isUnsignedInteger, UType.isSignedInteger, h]
  pos := h
  size := rfl
  min := by
    cases hs : i.isSigned <;> simp [UType.min, imin, shapeMin, hs, natAbs_pred h, Int.shiftLeft_eq]
  max := by
    cases hs : i.isSigned <;> simp [UType.max, imax, shapeMax, hs, natAbs_pred h, Int.shiftLeft_eq]

/-- **Every integer type has a shape**: an enumeration once it is complete, a bit-field once its
    width is positive. -/
theorem exists_intShape {T : UType} (h : T.isInteger = true)
    (henum : ∀ m s, T = .ut m (.nonArray (.enumType s)) → ∃ a, getTagInfo tags s = .enumInfo a)
    (hbits : ∀ m i n, T = .ut m (.nonArray (.basic (.bitfieldType i n))) → 0 < n) :
    ∃ w s, IntShape cfg tags T w s := by
  rcases UType.isInteger_cases h with ⟨m, i, rfl⟩ | ⟨m, i, n, rfl⟩ | ⟨m, s, rfl⟩
  · exact ⟨_, _, intShape_integer m i⟩
  · obtain ⟨w, rfl⟩ : ∃ w : Nat, n = w := ⟨n.toNat, by have := hbits m i n rfl; omega⟩
    exact ⟨w, i.isSigned, intShape_bitfield m i w (by have := hbits m i w rfl; omega)⟩
  · obtain ⟨a, ha⟩ := henum m s rfl
    exact ⟨_, _, intShape_enum m s a ha⟩

theorem intInRange_eq {T : UType} {w : Nat} {s : Bool} (h : IntShape cfg tags T w s) (V : Int) :
    intInRange cfg tags V T = .ok (decide (shapeMin w s ≤ V ∧ V ≤ shapeMax w s)) := by
  simp [intInRange, h.max, h.min, bind, Except.bind, pure, Except.pure, and_comm]

theorem intInRange_iff {T : UType} {w : Nat} {s : Bool} (h : IntShape cfg tags T w s) (V : Int) :
    intInRange cfg tags V T = .ok true ↔ shapeMin w s ≤ V ∧ V ≤ shapeMax w s := by
  rw [intInRange_eq h V]
  simp

theorem shapeMin_le_zero (w : Nat) (s : Bool) : shapeMin w s ≤ 0 := by
  have h : (0 : Int) ≤ 2 ^ (w - 1) := by positivity
  cases s
  · exact le_refl 0
  · show -(2 : Int) ^ (w - 1) ≤ 0
    omega

theorem shapeMax_nonneg (w : Nat) (s : Bool) : 0 ≤ shapeMax w s := by
  have h1 : (1 : Int) ≤ 2 ^ (w - 1) := one_le_pow₀ (by norm_num)
  have h2 : (1 : Int) ≤ 2 ^ w := one_le_pow₀ (by norm_num)
  cases s
  · show 0 ≤ (2 : Int) ^ w - 1
    omega
  · show 0 ≤ (2 : Int) ^ (w - 1) - 1
    omega

/-- A format of `w` bits has `2 ^ w` numbers. -/
theorem shapeMax_sub_shapeMin {w : Nat} (h : 0 < w) (s : Bool) :
    shapeMax w s - shapeMin w s = 2 ^ w - 1 := by
  obtain ⟨v, rfl⟩ : ∃ v, w = v + 1 := ⟨w - 1, by omega⟩
  have hpow : (2 : Int) ^ (v + 1) = 2 * 2 ^ v := by ring
  cases s
  · show (2 : Int) ^ (v + 1) - 1 - 0 = 2 ^ (v + 1) - 1
    omega
  · show (2 : Int) ^ v - 1 - (-2 ^ v) = 2 ^ (v + 1) - 1
    omega

end Shape

end CSemantics
