/-
  The usual arithmetic conversions.

  Both operands are promoted, and then the rules of the standard are tried, each with its own side
  condition on the ranks, the signedness and the bounds of the two types.  The rules are RELATIONS here,
  `PromoteRule` and `AuxRule`, so that two that apply to one pair of types could give two results:

      same type                   that type
      both signed, both unsigned  the one of greater rank
      unsigned, rank >=           the unsigned one
      signed, holds the other     the signed one
      signed, does not            the unsigned one of its rank

  All but the first ask whether a type is signed or unsigned.  An enumeration is neither: it keeps its type
  when its rank is above that of `int`, and then there is a common type with its own only
  (`usualConversionSound_iff`).  A floating type that no rule names has none with integers.
-/
import CSemantics.Promotion
import CSemantics.Execution.Switch

namespace CSemantics

open ConjSearch

/-! ## Promoted types -/

/-- The integer types that are left as they are. -/
def IntType.isPromoted : IntType → Bool
  | .int | .signedInt | .unsignedInt | .longInt | .unsignedLongInt | .longLongInt | .unsignedLongLongInt
  | .oversizedInt | .unsignedOversizedInt => true
  | _ => false

/-- `isPromoted(T)`: an enumeration is, a bit-field is not. -/
def UType.isPromoted : UType → Bool
  | .ut _ (.nonArray (.enumType _)) => true
  | .ut _ (.nonArray (.basic (.integer i))) => i.isPromoted
  | _ => false

/-! ## Types by name -/

def integerUType (m : Mods) (i : IntType) : UType := .ut m (.nonArray (.basic (.integer i)))

def bitfieldUType (m : Mods) (i : IntType) (n : Int) : UType := .ut m (.nonArray (.basic (.bitfieldType i n)))

def enumUType (m : Mods) (s : TagId) : UType := .ut m (.nonArray (.enumType s))

def floatUType (m : Mods) (f : FloatType) : UType := .ut m (.nonArray (.basic (.float f)))

/-- `utype(int)` -/
def intUType : UType := integerUType noMods .int

/-- `utype(unsigned-int)` -/
def unsignedUType : UType := integerUType noMods .unsignedInt

/-- The floating type `f`, whatever the modifiers. -/
def UType.isFloatType (f : FloatType) : UType → Bool
  | .ut _ (.nonArray (.basic (.float f'))) => f == f'
  | _ => false

/-- `(T ==K bool) orBool isSimpleIntType(T) orBool (T ==K unsigned-int)` -/
def IntType.isBitfieldBase : IntType → Bool
  | .bool | .int | .signedInt | .unsignedInt => true
  | _ => false

/-- `hasSameSignedness(T, T')` -/
def hasSameSignedness (T T' : UType) : Bool :=
  (T.isSignedInteger && T'.isSignedInteger) || (T.isUnsignedInteger && T'.isUnsignedInteger)

section Rules

variable (cfg : Settings) (tags : Tags)

/-- `min(utype(int)) <=Int min(T) andBool max(utype(int)) >=Int max(T)` -/
def fitsInt (T : UType) : Eval Bool := do
  let intLo ← intUType.min cfg tags
  let intHi ← intUType.max cfg tags
  return decide (intLo ≤ (← T.min cfg tags)) && decide (intHi ≥ (← T.max cfg tags))

/-- **The rules for `promote(T)`.** -/
inductive PromoteRule : UType → UType → Prop
  | int {T r} (hr : rank tags T = .ok r) (hle : r ≤ IntType.int.rank) (hfits : fitsInt cfg tags T = .ok true) :
    PromoteRule T intUType
  | greater {T r} (hr : rank tags T = .ok r) (hgt : r > IntType.int.rank) : PromoteRule T (stripBitfield T)
  | bitfieldInt {m i n} (hi : i.isBitfieldBase = true) (hfits : fitsInt cfg tags (bitfieldUType noMods i n) = .ok true) :
    PromoteRule (bitfieldUType m i n) intUType
  | unsigned {T r} (hr : rank tags T = .ok r) (hle : r ≤ IntType.int.rank) (hfits : fitsInt cfg tags T = .ok false) :
    PromoteRule T unsignedUType
  | bitfieldUnsigned {m i n} (hi : i.isBitfieldBase = true)
    (hfits : fitsInt cfg tags (bitfieldUType noMods i n) = .ok false) :
    PromoteRule (bitfieldUType m i n) unsignedUType

/-- The rules for `usualArithmeticConversion-aux(T, T')`, and `maxType(T, T')`. -/
inductive AuxRule (T T' : UType) : UType → Prop
  | same (heq : EqType cfg tags T T' true) : AuxRule T T' (stripConstants T)
  | maxLeft {r r'} (hne : EqType cfg tags T T' false) (hsign : hasSameSignedness T T' = true)
    (hr : rank tags T = .ok r) (hr' : rank tags T' = .ok r') (hge : r ≥ r') : AuxRule T T' T
  | maxRight {r r'} (hne : EqType cfg tags T T' false) (hsign : hasSameSignedness T T' = true)
    (hr : rank tags T = .ok r) (hr' : rank tags T' = .ok r') (hge : r' ≥ r) : AuxRule T T' T'
  | unsignedRight {r r'} (hs : T.isSignedInteger = true) (hu : T'.isUnsignedInteger = true)
    (hr : rank tags T = .ok r) (hr' : rank tags T' = .ok r') (hge : r' ≥ r) : AuxRule T T' T'
  | unsignedLeft {r r'} (hu : T.isUnsignedInteger = true) (hs : T'.isSignedInteger = true)
    (hr : rank tags T = .ok r) (hr' : rank tags T' = .ok r') (hge : r ≥ r') : AuxRule T T' T
  | signedLeft {r r' lo hi lo' hi'} (hs : T.isSignedInteger = true) (hu : T'.isUnsignedInteger = true)
    (hr : rank tags T = .ok r) (hr' : rank tags T' = .ok r') (hlt : r' < r)
    (hlo : T.min cfg tags = .ok lo) (hlo' : T'.min cfg tags = .ok lo') (hhi : T.max cfg tags = .ok hi)
    (hhi' : T'.max cfg tags = .ok hi') (hmin : lo ≤ lo') (hmax : hi ≥ hi') : AuxRule T T' T
  | signedRight {r r' lo hi lo' hi'} (hu : T.isUnsignedInteger = true) (hs : T'.isSignedInteger = true)
    (hr : rank tags T = .ok r) (hr' : rank tags T' = .ok r') (hlt : r < r')
    (hlo : T.min cfg tags = .ok lo) (hlo' : T'.min cfg tags = .ok lo') (hhi : T.max cfg tags = .ok hi)
    (hhi' : T'.max cfg tags = .ok hi') (hmin : lo' ≤ lo) (hmax : hi' ≥ hi) : AuxRule T T' T'
  | correspondingLeft {r r' lo hi lo' hi' U} (hs : T.isSignedInteger = true) (hu : T'.isUnsignedInteger = true)
    (hr : rank tags T = .ok r) (hr' : rank tags T' = .ok r') (hlt : r' < r)
    (hlo : T.min cfg tags = .ok lo) (hlo' : T'.min cfg tags = .ok lo') (hhi : T.max cfg tags = .ok hi)
    (hhi' : T'.max cfg tags = .ok hi') (hout : lo > lo' ∨ hi < hi') (hU : correspondingUnsignedType tags T = .ok U) :
    AuxRule T T' U
  | correspondingRight {r r' lo hi lo' hi' U} (hu : T.isUnsignedInteger = true) (hs : T'.isSignedInteger = true)
    (hr : rank tags T = .ok r) (hr' : rank tags T' = .ok r') (hlt : r < r')
    (hlo : T.min cfg tags = .ok lo) (hlo' : T'.min cfg tags = .ok lo') (hhi : T.max cfg tags = .ok hi)
    (hhi' : T'.max cfg tags = .ok hi') (hout : lo' > lo ∨ hi' < hi) (hU : correspondingUnsignedType tags T' = .ok U) :
    AuxRule T T' U

/-- **The rules for `usualArithmeticConversion(T, T')`.** -/
inductive UsualArithmeticConversion (T T' : UType) : UType → Prop
  | longDoubleLeft (h : T.isFloatType .longDouble = true) :
    UsualArithmeticConversion T T' (floatUType noMods .longDouble)
  | longDoubleRight (h : T'.isFloatType .longDouble = true) :
    UsualArithmeticConversion T T' (floatUType noMods .longDouble)
  | doubleLeft (h : T.isFloatType .double = true) (h1 : T'.isFloatType .longDouble = false) :
    UsualArithmeticConversion T T' (floatUType noMods .double)
  | doubleRight (h : T'.isFloatType .double = true) (h1 : T.isFloatType .longDouble = false) :
    UsualArithmeticConversion T T' (floatUType noMods .double)
  | floatLeft (h : T.isFloatType .float = true) (h1 : T'.isFloatType .longDouble = false)
    (h2 : T'.isFloatType .double = false) : UsualArithmeticConversion T T' (floatUType noMods .float)
  | floatRight (h : T'.isFloatType .float = true) (h1 : T.isFloatType .longDouble = false)
    (h2 : T.isFloatType .double = false) : UsualArithmeticConversion T T' (floatUType noMods .float)
  | promoted {P P' R} (h : T.isFloat = false) (h' : T'.isFloat = false) (hP : PromoteRule cfg tags T P)
    (hP' : PromoteRule cfg tags T' P') (haux : AuxRule cfg tags P P' R) : UsualArithmeticConversion T T' R

end Rules

end CSemantics
