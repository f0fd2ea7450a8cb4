/-
  Values in memory.

  `splitBytes` turns a typed value into bytes and `concretize` turns bytes back into a typed value.
  The two are written independently: the writer cuts the value into chunks, the reader joins the
  chunks again, looks at WHAT they are made of (unknown bits, traps, bits of floats or of integers)
  and only then interprets the result at the type.

  The argument that reading undoes writing, for an integer of a format of `w` bits:

      the chunks spell `V % 2 ^ w`                     (`intOf_slices`)
      the reader joins them to that number             (`joinBytes_intOf`)
      taking `2 ^ w` away while the number is too big gives back `V`
                                                       (`interpretInt_emod`)

  It uses of the two types ONLY that both are formats of the same width, which is why the value can
  be read back at the other signedness too, as long as it is a value of that type.
-/
import CSemantics.Bits

namespace CSemantics

open IntBits

/-! ## Typed values -/

/-- `CValue`: what a C expression can evaluate to. -/
inductive CValue
  | int (n : Int)
  | unknown (n : Int)
  | loc (p : SymLoc)
  | float (f : CFloat)
  | unknownFloat (f : CFloat)
  | opaqueValue (v : Int) (T : UType)
  | agg (L : List Bits)
  /-- part of a value, as bits -/
  | bits (v : BitValue)
  deriving DecidableEq

/-- `tv(V, T)`, or `trap(T)` -/
inductive RValue
  | tv (v : CValue) (T : UType)
  | trap (T : UType)
  deriving DecidableEq

/-! ## Writing -/

section Writing

variable (cfg : Settings) (tags : Tags)

def makeUnknownByte (b : Bits) : Bits :=
  match b.val with
  | .atom (.int n) => ⟨.atom (.unknown n), b.len⟩
  | _ => b

def makeUnknownBytes (L : List Bits) : List Bits := L.map makeUnknownByte

/-- A padding byte of a struct loses its value on the way to memory. -/
def splitPaddingByte (b : Bits) : Bits :=
  match b.val with
  | .atom (.unknown _) => b
  | .atom (.int n) => ⟨.atom (.unknown n), b.len⟩
  | _ => ⟨.atom (.unknown 0), b.len⟩

def isPaddingOffset (offset : Int) (f : FieldInfo) : Bool :=
  decide (offset * cfg.bitsPerByte ∈ f.padding)

/-- The bytes of a struct or union value: `left` of its `size` bytes are still to come. -/
def splitStructBytes (f : FieldInfo) (size : Nat) : List Bits → Nat → Eval (List Bits)
  | _, 0 => .ok []
  | [], _ + 1 => .error .stuck
  | b :: L, left + 1 =>
    let b' := if isPaddingOffset cfg (size - (left + 1 : Nat)) f then splitPaddingByte b else b
    if b'.len = cfg.bitsPerByte then do
      let rest ← splitStructBytes f size L left
      return b' :: rest
    else .error .stuck

/-- `encode` at a whole type, whose size has to be a size. -/
def encodeAt (v : Encodable) (size : Int) : Eval Bits :=
  if 0 ≤ size then .ok (encode v 0 size.toNat) else .error .stuck

/-- `splitBytes(tv(V, T))` -/
def splitBytes (v : CValue) (T : UType) : Eval (List Bits) := do
  let size ← bitSizeofType cfg tags T
  match v with
  | .int n => splitToBytes cfg (← encodeAt (.int n) size)
  | .loc p => splitToBytes cfg (← encodeAt (.ptr p) size)
  | .float f => splitToBytes cfg (← encodeAt (.value (.float f)) size)
  | .opaqueValue n T' => splitToBytes cfg (← encodeAt (.value (.opaqueValue n T')) size)
  | .unknown n => do
    let bytes ← splitToBytes cfg (← encodeAt (.int n) size)
    return makeUnknownBytes bytes
  | .unknownFloat _ => .error .stuck
  | .agg L =>
    match T with
    | .ut m (.nonArray (.structType s)) =>
      let bytes ← byteSizeofType cfg tags T
      splitStructBytes cfg (getFields tags m s) bytes.toNat L bytes.toNat
    | .ut m (.nonArray (.unionType s)) =>
      let bytes ← byteSizeofType cfg tags T
      splitStructBytes cfg (getFields tags m s) bytes.toNat L bytes.toNat
    | _ => .error .stuck
  | .bits (.atom a) => splitToBytes cfg ⟨.atom a, size.toNat⟩
  | .bits (.pieces _) => .error .stuck

end Writing

/-! ## Reading -/

/-- The atoms of a list of bytes, in order. -/
def atoms (L : List Bits) : List BitAtom :=
  L.flatMap fun b =>
    match b.val with
    | .atom a => [a]
    | .pieces ps => ps.map Prod.fst

def hasUnknown (L : List Bits) : Bool :=
  (atoms L).any fun
    | .unknown _ => true
    | .encodedValue (.unknownFloat _) _ _ => true
    | _ => false

def hasTrap (L : List Bits) : Bool :=
  (atoms L).any fun
    | .trap => true
    | _ => false

def hasInt (L : List Bits) : Bool :=
  (atoms L).any fun
    | .int n => n != 0
    | _ => false

def hasFloat (L : List Bits) : Bool :=
  (atoms L).any fun
    | .encodedValue (.float _) _ _ => true
    | _ => false

def hasOpaque (L : List Bits) : Bool :=
  (atoms L).any fun
    | .encodedValue (.opaqueValue _ _) _ _ => true
    | _ => false

/-- `stripUnknownAux` on one atom. -/
def stripUnknownPiece : Piece → Bits
  | (.unknown n, l) => ⟨.atom (.int n), l⟩
  | (a, l) => ⟨.atom a, l⟩

/-- `stripUnknownAux`: `pieces` are laid out flat on the way. -/
def stripUnknownBytes (L : List Bits) : List Bits :=
  L.flatMap fun b =>
    match b.val with
    | .atom a => [stripUnknownPiece (a, b.len)]
    | .pieces ps => ps.map stripUnknownPiece

section Reading

variable (cfg : Settings) (tags : Tags)

/-- The number `I` at a type whose greatest value is `hi`: `2 ^ size` is taken away while it is
    too big. -/
def interpretInt (hi : Int) (size : Nat) (I : Int) : Int :=
  if hi ≥ I then I else interpretInt hi size (I - (1 : Int) <<< size)
termination_by (I - hi).toNat
decreasing_by
  have : 0 < (1 : Int) <<< size := by rw [Int.shiftLeft_eq]; positivity
  omega

/-- `isFullFloat` -/
def isFullFloat (f : CFloat) (n : Nat) : Bool :=
  (f.precision == cfg.precisionofFloat && f.exponentBits == cfg.exponentofFloat
    && n == cfg.sizeofFloat * cfg.bitsPerByte)
  || (f.precision == cfg.precisionofDouble && f.exponentBits == cfg.exponentofDouble
    && n == cfg.sizeofDouble * cfg.bitsPerByte)
  || (f.precision == cfg.precisionofLongDouble && f.exponentBits == cfg.exponentofLongDouble
    && n == cfg.sizeofLongDouble * cfg.bitsPerByte)
  || (f.precision == cfg.precisionofOversizedFloat && f.exponentBits == cfg.exponentofOversizedFloat
    && n == cfg.sizeofOversizedFloat * cfg.bitsPerByte)

/-- `zeroCFloat` at the type of a format. -/
def zeroCFloat : FloatType → CFloat
  | .float => ⟨cfg.precisionofFloat, cfg.exponentofFloat, 0⟩
  | .double => ⟨cfg.precisionofDouble, cfg.exponentofDouble, 0⟩
  | .longDouble => ⟨cfg.precisionofLongDouble, cfg.exponentofLongDouble, 0⟩
  | .oversizedFloat => ⟨cfg.precisionofOversizedFloat, cfg.exponentofOversizedFloat, 0⟩

/-- `cfg:intToPointer` of the profile: only zero is a pointer. -/
def intToPointer (I : Int) : CValue := if I = 0 then .loc .NullPointer else .bits (.atom .trap)

/-- A value of bits as it is, when nothing better can be made of it. -/
def BitValue.toCValue : BitValue → CValue
  | .atom (.int n) => .int n
  | .atom (.unknown n) => .unknown n
  | v => .bits v

/-- `interpret` of bits that are not a number. -/
def interpretAtom (T : UType) (a : BitAtom) : Eval RValue :=
  match a with
  | .encodedPtr p lo hi =>
    if p = .NullPointer ∧ T.isInteger = true then .ok (.tv (.unknown 0) T)
    else
      match T, p with
      | .ut _ (.nonArray (.basic (.float f))), .NullPointer =>
        .ok (.tv (.unknownFloat (zeroCFloat cfg f)) T)
      | _, _ =>
        if lo = 0 ∧ hi = cfg.ptrsize * cfg.bitsPerByte then .ok (.tv (.loc p) T)
        else .ok (.tv (.bits (.atom a)) T)
  | .encodedValue (.float f) lo hi =>
    if lo = 0 ∧ isFullFloat cfg f hi = true then .ok (.tv (.float f) T)
    else .ok (.tv (.bits (.atom a)) T)
  | .encodedValue (.opaqueValue v T') lo hi => do
    let size ← bitSizeofType cfg tags T'
    if lo = 0 ∧ (hi : Int) = size then return .tv (.opaqueValue v T') T
    else return .tv (.bits (.atom a)) T
  | .encodedValue (.unknownFloat f) lo hi => do
    let size ← bitSizeofType cfg tags T
    if lo = 0 ∧ (hi : Int) = size then return .tv (.unknownFloat f) T
    else return .tv (.bits (.atom a)) T
  | a => .ok (.tv (BitValue.toCValue (.atom a)) T)

/-- `interpret(T, V)`.  The profile gives `cfg:floatFromBits` no rule. -/
def interpret (T : UType) (v : BitValue) : Eval RValue :=
  match v with
  | .atom (.int I) =>
    if T.isInteger then do
      let hi ← T.max cfg tags
      let size ← bitSizeofType cfg tags T
      return .tv (.int (interpretInt hi size.natAbs I)) T
    else if T.isPointer then .ok (.tv (intToPointer I) T)
    else
      match T with
      | .ut _ (.nonArray (.basic (.float f))) =>
        if I = 0 then .ok (.tv (.float (zeroCFloat cfg f)) T) else .error .stuck
      | _ => .ok (.tv (.int I) T)
  | .atom a => interpretAtom cfg tags T a
  | .pieces ps => .ok (.tv (.bits (.pieces ps)) T)

def makeUnknown : RValue → RValue
  | .tv (.int n) T => .tv (.unknown n) T
  | v => v

def interpretBytes (T : UType) (L : List Bits) : Eval RValue := do
  interpret cfg tags T (← joinBytes L)

/-- The two messages about reading integer bytes as floating ones and the other way round. -/
def checkReinterpret (T : UType) (L : List Bits) : Eval Unit :=
  if T.isFloat && hasInt L then
    .error (UNSPEC "CMR1" "Trying to reinterpret integer bytes as floating bytes.")
  else if T.isInteger && hasFloat L && !T.isChar then
    .error (UNSPEC "CMR2" "Trying to reinterpret floating bytes as integer bytes.")
  else .ok ()

/-- `concretize(T, dataList(L))` -/
def concretize (T : UType) (L : List Bits) : Eval RValue :=
  if T.isStructOrUnion then
    if hasOpaque L then interpretBytes cfg tags T L else .ok (.tv (.agg L) T)
  else do
    checkReinterpret T L
    if hasTrap L || (T.isPointer && hasUnknown L) then return .trap T
    else if hasUnknown L then
      let L' := stripUnknownBytes L
      checkReinterpret T L'
      -- bits of an unknown float are not stripped: the rule would apply to its own result
      if hasUnknown L' then .error .stuck
      else return makeUnknown (← interpretBytes cfg tags T L')
    else interpretBytes cfg tags T L

end Reading

/-! ## Reading integers back -/

section RoundTrip

variable {cfg : Settings} {tags : Tags}

/-- **Taking `2 ^ w` away gives the value back**: a number of a format of `w` bits, reduced modulo
    `2 ^ w`, is interpreted as itself. -/
theorem interpretInt_emod {w : Nat} (hw : 0 < w) (s : Bool) {V : Int}
    (h0 : shapeMin w s ≤ V) (h1 : V ≤ shapeMax w s) :
    interpretInt (shapeMax w s) w (V % 2 ^ w) = V := by
  have hrange := shapeMax_sub_shapeMin hw s
  have hmin := shapeMin_le_zero w s
  have hmax := shapeMax_nonneg w s
  rcases lt_or_ge V 0 with hneg | hpos
  · -- a negative number is stored as V + 2 ^ w, which is one step too big
    have hmod : V % 2 ^ w = V + 2 ^ w := by
      rw [← Int.add_emod_right, Int.emod_eq_of_lt (by omega) (by omega)]
    rw [hmod, interpretInt, if_neg (by omega), Int.shiftLeft_eq, one_mul, Int.add_sub_cancel,
      interpretInt, if_pos h1]
  · have hmod : V % 2 ^ w = V := Int.emod_eq_of_lt hpos (by omega)
    rw [hmod, interpretInt, if_pos h1]

theorem atoms_intPieces {L : List Bits} (h : IntPieces L) : ∀ a ∈ atoms L, ∃ n, a = .int n := by
  intro a ha
  obtain ⟨b, hb, hab⟩ := List.mem_flatMap.mp ha
  obtain ⟨n, hn, -, -⟩ := h b hb
  rw [hn] at hab
  exact ⟨n, List.mem_singleton.mp hab⟩

/-- Bits of integers are not unknown, not a trap and not bits of a float. -/
theorem intPieces_plain {L : List Bits} (h : IntPieces L) :
    hasUnknown L = false ∧ hasTrap L = false ∧ hasFloat L = false := by
  have ha := atoms_intPieces h
  refine ⟨?_, ?_, ?_⟩ <;>
    · refine List.any_eq_false.mpr fun a hmem => ?_
      obtain ⟨n, rfl⟩ := ha a hmem
      simp

/-- Reading integer pieces at an integer type interprets the number they spell. -/
theorem concretize_intPieces {T : UType} {w : Nat} {s : Bool} (hT : IntShape cfg tags T w s)
    {L : List Bits} (h : IntPieces L) (hne : L ≠ []) :
    concretize cfg tags T L = .ok (.tv (.int (interpretInt (shapeMax w s) w (intOf L))) T) := by
  obtain ⟨hu, ht, hf⟩ := intPieces_plain h
  have hint := hT.integer
  have hst : T.isStructOrUnion = false := by
    rcases UType.isInteger_cases hint with ⟨m, i, rfl⟩ | ⟨m, i, n, rfl⟩ | ⟨m, s, rfl⟩ <;> rfl
  have hfl : T.isFloat = false := by
    rcases UType.isInteger_cases hint with ⟨m, i, rfl⟩ | ⟨m, i, n, rfl⟩ | ⟨m, s, rfl⟩ <;> rfl
  simp [concretize, checkReinterpret, interpretBytes, interpret, hst, hfl, hu, ht, hf, hint, hT.max,
    hT.size, joinBytes_intOf h hne, bind, Except.bind, pure, Except.pure]

/-- The bytes of a stored integer: as many as the width needs, spelling the value modulo
    `2 ^ w`. -/
theorem splitBytes_int {T : UType} {k : Nat} {s : Bool}
    (hT : IntShape cfg tags T (cfg.bitsPerByte * k) s) (V : Int) :
    ∃ bytes, splitBytes cfg tags (.int V) T = .ok bytes ∧ bytes.length = k ∧ IntPieces bytes ∧
      intOf bytes = V % 2 ^ (cfg.bitsPerByte * k : Nat) := by
  have hb : 0 < (cfg.bitsPerByte : Nat) := cfg.bitsPerByte.pos
  -- what is cut is the value reduced modulo 2 ^ w
  have hcut := splinter_eq (.int (V % 2 ^ (cfg.bitsPerByte * k : Nat))) cfg.bitsPerByte hb k 0
    (cfg.bitsPerByte * k) (by omega) trivial
  refine ⟨_, ?_, ?_, intPieces_slices (V % 2 ^ (cfg.bitsPerByte * k : Nat)) cfg.bitsPerByte k 0, ?_⟩
  · have hsize : (0 : Int) ≤ ((cfg.bitsPerByte * k : Nat) : Int) := by positivity
    simp only [splitBytes, hT.size, encodeAt, if_pos hsize, bind, Except.bind, splitToBytes, encode,
      Int.toNat_natCast, bitsValue_eq_slice, Nat.sub_zero, slice_zero_lo, hcut]
    rfl
  · simp
  · rw [intOf_slices, slice_zero_lo, Int.emod_emod]

/-- `byteSizeofType` of a format of whole bytes. -/
theorem byteSizeofType_eq {T : UType} {k : Nat}
    (h : bitSizeofType cfg tags T = .ok ((cfg.bitsPerByte * k : Nat) : Int)) :
    byteSizeofType cfg tags T = .ok (k : Int) := by
  have hb : 0 < (cfg.bitsPerByte : Nat) := cfg.bitsPerByte.pos
  have hdiv : (((cfg.bitsPerByte * k : Nat) : Int) + (cfg.bitsPerByte : Nat) - 1).tdiv
      (cfg.bitsPerByte : Nat) = k := by
    have hcast : ((cfg.bitsPerByte * k : Nat) : Int) + (cfg.bitsPerByte : Nat) - 1
        = ((cfg.bitsPerByte * k + (cfg.bitsPerByte - 1) : Nat) : Int) := by omega
    rw [hcast, ← Int.ofNat_tdiv]
    congr 1
    rw [Nat.mul_add_div hb, Nat.div_eq_of_lt (by omega), Nat.add_zero]
  simp only [byteSizeofType, h, bind, Except.bind, pure, Except.pure, hdiv]

/-! ## Reading pointers back -/

/-- Neighbouring ranges of one pointer join to one range. -/
theorem foldl_join_encodedPtr (p : SymLoc) (c k lo hi l : Nat) :
    List.foldl Bits.join ⟨.atom (.encodedPtr p lo hi), l⟩
      ((List.range k).map fun j => ⟨.atom (.encodedPtr p (hi + c * j) (hi + c * j + c)), c⟩) =
      ⟨.atom (.encodedPtr p lo (hi + c * k)), l + c * k⟩ := by
  induction k generalizing hi l with
  | zero => simp
  | succ k ih =>
    have hshift : ∀ i j, i + c * (j + 1) = i + c + c * j := by intro i j; ring
    rw [List.range_succ_eq_map, List.map_cons, List.map_map, List.foldl_cons]
    have hhead : Bits.join ⟨.atom (.encodedPtr p lo hi), l⟩
        ⟨.atom (.encodedPtr p (hi + c * 0) (hi + c * 0 + c)), c⟩ =
        ⟨.atom (.encodedPtr p lo (hi + c)), l + c⟩ := by
      simp [Bits.join, joinPieces]
    rw [hhead]
    simp only [Function.comp_def, hshift]
    exact ih (hi + c) (l + c)

/-- The bytes of a pointer, and what joining them gives. -/
theorem splitBytes_loc {T : UType} {k : Nat} (hk : 0 < k)
    (hT : bitSizeofType cfg tags T = .ok ((cfg.bitsPerByte * k : Nat) : Int)) (p : SymLoc) :
    ∃ bytes, splitBytes cfg tags (.loc p) T = .ok bytes ∧ bytes.length = k ∧
      (∀ a ∈ atoms bytes, ∃ lo hi, a = .encodedPtr p lo hi) ∧
      joinBytes bytes = .ok (.atom (.encodedPtr p 0 (cfg.bitsPerByte * k))) := by
  have hb : 0 < (cfg.bitsPerByte : Nat) := cfg.bitsPerByte.pos
  have hcut := splinter_eq (.encodedPtr p 0 (cfg.bitsPerByte * k)) cfg.bitsPerByte hb k 0
    (cfg.bitsPerByte * k) (by omega) (show _ = 0 + _ by omega)
  refine ⟨(List.range k).map fun j => ⟨.atom ((BitAtom.encodedPtr p 0 (cfg.bitsPerByte * k)).chunkFrom
    0 (cfg.bitsPerByte * j) cfg.bitsPerByte), cfg.bitsPerByte⟩, ?_, ?_, ?_, ?_⟩
  · have hsize : (0 : Int) ≤ ((cfg.bitsPerByte * k : Nat) : Int) := by positivity
    simp only [splitBytes, hT, encodeAt, if_pos hsize, bind, Except.bind, splitToBytes, encode,
      Int.toNat_natCast, Nat.sub_zero, hcut]
  · simp
  · intro a ha
    obtain ⟨b, hb, hab⟩ := List.mem_flatMap.mp ha
    obtain ⟨j, -, rfl⟩ := List.mem_map.mp hb
    exact ⟨_, _, List.mem_singleton.mp hab⟩
  · -- the first byte takes the others one by one
    obtain ⟨m, rfl⟩ : ∃ m, k = m + 1 := ⟨k - 1, by omega⟩
    have hfold := foldl_join_encodedPtr p cfg.bitsPerByte m 0 cfg.bitsPerByte cfg.bitsPerByte
    have hshift : ∀ j, (cfg.bitsPerByte : Nat) * (j + 1) = cfg.bitsPerByte + cfg.bitsPerByte * j := by
      intro j; ring
    rw [List.range_succ_eq_map, List.map_cons, List.map_map, joinBytes]
    simp only [Function.comp_def, BitAtom.chunkFrom, Nat.zero_add, Nat.mul_zero, hshift, hfold]

/-- Reading the bytes of a whole pointer at a pointer type gives the pointer. -/
theorem concretize_encodedPtr (m : Mods) (inner : CType) {L : List Bits} {p : SymLoc}
    (hL : ∀ a ∈ atoms L, ∃ lo hi, a = .encodedPtr p lo hi)
    (hjoin : joinBytes L = .ok (.atom (.encodedPtr p 0 (cfg.bitsPerByte * cfg.ptrsize)))) :
    concretize cfg tags (.ut m (.nonArray (.pointerType inner))) L =
      .ok (.tv (.loc p) (.ut m (.nonArray (.pointerType inner)))) := by
  have hnone : hasUnknown L = false ∧ hasTrap L = false ∧ hasFloat L = false := by
    refine ⟨?_, ?_, ?_⟩ <;>
      · refine List.any_eq_false.mpr fun a hmem => ?_
        obtain ⟨lo, hi, rfl⟩ := hL a hmem
        simp
  obtain ⟨hu, ht, hf⟩ := hnone
  have hcomm : (cfg.bitsPerByte : Nat) * cfg.ptrsize = cfg.ptrsize * cfg.bitsPerByte := Nat.mul_comm _ _
  simp [concretize, checkReinterpret, interpretBytes, interpret, interpretAtom, hcomm, hu, ht, hf,
    hjoin, bind, Except.bind, UType.isStructOrUnion, UType.isFloat, UType.isInteger,
    UType.isUnsignedInteger, UType.isSignedInteger, UType.isEnum]

/-! ## The round trip -/

/-- The integer types whose values are stored in whole bytes: all but bit-fields, an enumeration
    once its declaration is complete. -/
inductive StoredInteger (tags : Tags) : UType → Prop
  | integer (m : Mods) (i : IntType) : StoredInteger tags (.ut m (.nonArray (.basic (.integer i))))
  | enum (m : Mods) (s : TagId) (a : IntType) (h : getTagInfo tags s = .enumInfo a) :
      StoredInteger tags (.ut m (.nonArray (.enumType s)))

/-- The type itself and its two variants: the same bytes, at one or the other signedness. -/
def SameBytes (tags : Tags) (T T' : UType) : Prop :=
  T' = T ∨ correspondingUnsignedType tags T = .ok T' ∨ correspondingSignedType tags T = .ok T'

theorem numBits_flipSignedness (i : IntType) : numBits cfg (flipSignedness i) = numBits cfg i := by
  cases i <;> rfl

private theorem numBits_mul (i : IntType) :
    numBits cfg i = cfg.bitsPerByte * numBytesArithmetic cfg i :=
  Nat.mul_comm _ _

/-- A stored integer type and its variants are formats of the same number of whole bytes. -/
theorem exists_shape_sameBytes {T T' : UType} (hT : StoredInteger tags T)
    (h : SameBytes tags T T') :
    ∃ k s s', 0 < k ∧ IntShape cfg tags T (cfg.bitsPerByte * k) s ∧
      IntShape cfg tags T' (cfg.bitsPerByte * k) s' := by
  -- the variants of an integer type have its size, whichever way the sign goes
  have hvariant : ∀ (m : Mods) (i j : IntType), j = i ∨ j = flipSignedness i →
      IntShape cfg tags (.ut m (.nonArray (.basic (.integer j))))
        (cfg.bitsPerByte * numBytesArithmetic cfg i) j.isSigned := by
    intro m i j hj
    have hbits : numBits cfg j = cfg.bitsPerByte * numBytesArithmetic cfg i := by
      rcases hj with rfl | rfl
      · exact numBits_mul _
      · rw [numBits_flipSignedness, numBits_mul]
    rw [← hbits]
    exact intShape_integer m j
  have hchoice : ∀ (c : Bool) (i j : IntType), j = (if c then i else flipSignedness i) →
      j = i ∨ j = flipSignedness i := by
    rintro (_ | _) i j rfl
    · exact .inr rfl
    · exact .inl rfl
  have hchoice' : ∀ (c : Bool) (i j : IntType), j = (if c then flipSignedness i else i) →
      j = i ∨ j = flipSignedness i := by
    rintro (_ | _) i j rfl
    · exact .inl rfl
    · exact .inr rfl
  cases hT with
  | integer m i =>
    refine ⟨numBytesArithmetic cfg i, i.isSigned, ?_⟩
    have hself := hvariant m i i (.inl rfl)
    rcases h with rfl | h | h
    · exact ⟨_, PNat.pos _, hself, hself⟩
    · cases h
      exact ⟨_, PNat.pos _, hself, hvariant m i _ (hchoice' _ _ _ rfl)⟩
    · cases h
      exact ⟨_, PNat.pos _, hself, hvariant m i _ (hchoice _ _ _ rfl)⟩
  | enum m s a ha =>
    refine ⟨numBytesArithmetic cfg a, a.isSigned, ?_⟩
    have hself : IntShape cfg tags (.ut m (.nonArray (.enumType s)))
        (cfg.bitsPerByte * numBytesArithmetic cfg a) a.isSigned := by
      rw [← numBits_mul]
      exact intShape_enum m s a ha
    rcases h with rfl | h | h
    · exact ⟨_, PNat.pos _, hself, hself⟩
    · simp only [correspondingUnsignedType, getEnumAlias, ha, bind, Except.bind, pure, Except.pure,
        Except.ok.injEq] at h
      subst h
      exact ⟨_, PNat.pos _, hself, hvariant m a _ (hchoice' _ _ _ rfl)⟩
    · simp only [correspondingSignedType, getEnumAlias, ha, bind, Except.bind, pure, Except.pure,
        Except.ok.injEq] at h
      subst h
      exact ⟨_, PNat.pos _, hself, hvariant m a _ (hchoice _ _ _ rfl)⟩

/-- **What is written is what is read**, for integers and for pointers, whatever the settings.
    An integer may be read back at its own type or at a variant it is a value of; a pointer comes
    back with its base, offset and provenance. -/
theorem splitBytes_concretize (cfg : Settings) (tags : Tags) :
    (∀ T V, StoredInteger tags T → intInRange cfg tags V T = .ok true →
      ∃ bytes, splitBytes cfg tags (.int V) T = .ok bytes ∧
        byteSizeofType cfg tags T = .ok (bytes.length : Int) ∧
        ∀ T', SameBytes tags T T' → intInRange cfg tags V T' = .ok true →
          concretize cfg tags T' bytes = .ok (.tv (.int V) T')) ∧
    (∀ m inner p, ∃ bytes,
      splitBytes cfg tags (.loc p) (.ut m (.nonArray (.pointerType inner))) = .ok bytes ∧
      byteSizeofType cfg tags (.ut m (.nonArray (.pointerType inner))) = .ok (bytes.length : Int) ∧
      concretize cfg tags (.ut m (.nonArray (.pointerType inner))) bytes =
        .ok (.tv (.loc p) (.ut m (.nonArray (.pointerType inner))))) := by
  constructor
  · intro T V hT hV
    obtain ⟨k, s, -, hk, hshape, -⟩ := @exists_shape_sameBytes cfg tags T T hT (.inl rfl)
    obtain ⟨bytes, hsplit, hlen, hint, hval⟩ := splitBytes_int hshape V
    have hne : bytes ≠ [] := by
      rintro rfl
      simp at hlen
      omega
    refine ⟨bytes, hsplit, ?_, ?_⟩
    · rw [byteSizeofType_eq hshape.size, hlen]
    · intro T' hT' hV'
      obtain ⟨k', s₁, s', -, hshape₁, hshape'⟩ := @exists_shape_sameBytes cfg tags T T' hT hT'
      -- both shapes of T say how many bytes it has
      have hkk : k' = k := by
        have hsize := hshape₁.size.symm.trans hshape.size
        have hmul : (cfg.bitsPerByte : Nat) * k' = cfg.bitsPerByte * k := by
          injection hsize with hsize
          exact_mod_cast hsize
        exact Nat.eq_of_mul_eq_mul_left cfg.bitsPerByte.pos hmul
      subst hkk
      obtain ⟨hlo, hhi⟩ := (intInRange_iff hshape' V).mp hV'
      rw [concretize_intPieces hshape' hint hne, hval, interpretInt_emod hshape'.pos s' hlo hhi]
  · intro m inner p
    have hsize : bitSizeofType cfg tags (.ut m (.nonArray (.pointerType inner))) =
        .ok ((cfg.bitsPerByte * cfg.ptrsize : Nat) : Int) := by
      simp [bitSizeofType, bitSizeofNonArray, mul_comm]
    obtain ⟨bytes, hsplit, hlen, hatoms, hjoin⟩ := splitBytes_loc cfg.ptrsize.pos hsize p
    exact ⟨bytes, hsplit, by rw [byteSizeofType_eq hsize, hlen],
      concretize_encodedPtr m inner hatoms hjoin⟩

/-- `-1` at `int`, read back at `int`. -/
theorem splitBytes_concretize_minus_one :
    ∃ bytes, splitBytes x86GccLimitedLibc [] (.int (-1)) IntType.int.toSimple.toUType = .ok bytes ∧
      bytes.length = 4 ∧
      concretize x86GccLimitedLibc [] IntType.int.toSimple.toUType bytes =
        .ok (.tv (.int (-1)) IntType.int.toSimple.toUType) := by
  obtain ⟨bytes, hsplit, hlen, hread⟩ := (splitBytes_concretize x86GccLimitedLibc []).1
    IntType.int.toSimple.toUType (-1) (.integer _ _) rfl
  refine ⟨bytes, hsplit, ?_, hread _ (.inl rfl) rfl⟩
  have h : byteSizeofType x86GccLimitedLibc [] IntType.int.toSimple.toUType = .ok 4 := rfl
  rw [hlen] at h
  injection h with h
  omega

end RoundTrip

end CSemantics
