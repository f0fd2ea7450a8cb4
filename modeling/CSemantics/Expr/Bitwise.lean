/-
  Bitwise operations on symbolic addresses.

  The number a location stands for is not known, but its object lies at a multiple of its alignment
  `A`, so the bits of the address below `A` are those of the offset.  Two rules for `&` use that:

      the mask has ones wherever it could meet the address of the object      mask the offset
      0 <= mask < A                                                            the result is 0

  and one for `|` sets bits below `A` in the offset.  The first and the last are right because they
  compute with the offset.  The second does not look at it: `getAlign` was to count it in, and gives
  the alignment of the object alone, so 9 bytes after an object aligned to 16 the mask 8 gives 0.

      Denotes                  the numbers of a type that an address is
      AndRule, OrRule          the rules
      bitwise_location_iff     where they are right
-/
import CSemantics.Lib.Bitwise
import CSemantics.Expr.Additive

namespace CSemantics

open IntBits

/-! ## The rules -/

/-- The side a location stands on. -/
inductive Side
  | left
  | right
  deriving DecidableEq

/-- The sum that the rules make of the location and a number. -/
def Side.sum : Side → PointerOp
  | left => .plus
  | right => .plusPointer

/-- What a rule makes of a location under a bitwise operator. -/
inductive AddressValue
  | location (L : SymLoc)
  | integer (n : Int)
  /-- `unknown(maxIntPtrValue(Loc))` in place of the location -/
  | unknown
  deriving DecidableEq

section Rules

variable (cfg : Settings) (tags : Tags) (c : UseContext) (side : Side) (L : SymLoc) (T : UType) (E : Int) (T' : UType)

/-- `isPromoted(T) andBool T ==Type T'`, of the operands as they stand. -/
def OperandTypes : Prop :=
  (side.sum.leftType T T').isPromoted = true ∧
    EqType cfg tags (side.sum.leftType T T') (side.sum.rightType T T') true

/-- `(~Int (A -Int 1) &Int ~Int E) &Int max(correspondingUnsignedType(T)) ==Int 0` -/
def OnesAbove (A : Int) (hi : Int) : Prop := Int.land (Int.land (Int.lnot (A - 1)) (Int.lnot E)) hi = 0

/-- `getAlign(L) >Int E andBool E >=Int 0` -/
def BelowAlign (A : Int) : Prop := A > E ∧ E ≥ 0

/-- **The rules for `&`** of a location of type `T` and a number of type `T'`. -/
inductive AndRule : Eval (AddressValue × UType) → Prop
  | masked {A o hi : Int} {U : UType} {r : Eval (SymLoc × UType)} (htypes : OperandTypes cfg tags side T T')
    (hA : GetAlign cfg c.linkings L A) (hU : correspondingUnsignedType tags (side.sum.leftType T T') = .ok U)
    (hhi : U.max cfg tags = .ok hi) (hguard : OnesAbove E A hi) (ho : L.offset = .ok o)
    (hsum : AdditiveRule cfg tags c side.sum L T (Int.land o E - o) T' r) :
    AndRule (r.map fun v => (.location v.1, v.2))
  | below {A : Int} (htypes : OperandTypes cfg tags side T T') (hA : GetAlign cfg c.linkings L A)
    (hguard : BelowAlign E A) : AndRule (.ok (.integer 0, side.sum.leftType T T'))
  | unknown {A hi : Int} {U : UType} (htypes : OperandTypes cfg tags side T T') (hA : GetAlign cfg c.linkings L A)
    (hU : correspondingUnsignedType tags (side.sum.leftType T T') = .ok U) (hhi : U.max cfg tags = .ok hi)
    (hbelow : ¬BelowAlign E A) (hones : ¬OnesAbove E A hi) : AndRule (.ok (.unknown, T))

/-- **The rules for `|`** of a location of type `T` and a number of type `T'`. -/
inductive OrRule : Eval (AddressValue × UType) → Prop
  | below {A o : Int} {r : Eval (SymLoc × UType)} (htypes : OperandTypes cfg tags side T T')
    (hA : GetAlign cfg c.linkings L A) (hguard : BelowAlign E A) (hnull : L ≠ .NullPointer) (ho : L.offset = .ok o)
    (hsum : AdditiveRule cfg tags c side.sum L T (Int.lor o E - o) T' r) :
    OrRule (r.map fun v => (.location v.1, v.2))
  | null (htypes : OperandTypes cfg tags side T T') (hnull : L = .NullPointer) : OrRule (.ok (.integer E, T'))

end Rules

/-! ## Addresses as numbers of a type -/

/-- **`a` is the number of a format of `w` bits that the address `n` is**: the one in the format that
    differs from `n` by a multiple of `2 ^ w`. -/
def Denotes (w : ℕ) (s : Bool) (n a : Int) : Prop := Represents w s a ∧ a ≡ n [ZMOD 2 ^ w]

/-- The number a value stands for when the object of the location lies at `x`. -/
def AddressValue.Denotes (w : ℕ) (s : Bool) (x : Int) : AddressValue → Int → Prop
  | location L, a => ∃ o, L.offset = .ok o ∧ CSemantics.Denotes w s (x + o) a
  | integer n, a => a = n
  | unknown, _ => False

section Numbers

variable {w : ℕ} {s : Bool} {n n' a a' : Int}

/-- No operation on bits leaves a format; without a sign, if it makes no ones of zeros. -/
theorem Represents.bitwise (f : Bool → Bool → Bool) (hf : s = false → f false false = false)
    (ha : Represents w s a) (ha' : Represents w s a') : Represents w s (Int.bitwise f a a') := by
  cases s with
  | false =>
    have hlt : ∀ z, Represents w false z → 0 ≤ z ∧ z < 2 ^ w := by
      rintro z ⟨hlo, hhi⟩
      have hhi' : z ≤ 2 ^ w - 1 := hhi
      exact ⟨hlo, by omega⟩
    obtain ⟨hlo, hhi⟩ := bitwise_unsigned f (hf rfl) (hlt a ha) (hlt a' ha')
    refine ⟨hlo, ?_⟩
    show _ ≤ (2 : Int) ^ w - 1
    omega
  | true =>
    have hlt : ∀ z, Represents w true z → -2 ^ (w - 1) ≤ z ∧ z < 2 ^ (w - 1) := by
      rintro z ⟨hlo, hhi⟩
      have hhi' : z ≤ 2 ^ (w - 1) - 1 := hhi
      exact ⟨hlo, by omega⟩
    obtain ⟨hlo, hhi⟩ := bitwise_signed f (hlt a ha) (hlt a' ha')
    refine ⟨hlo, ?_⟩
    show _ ≤ (2 : Int) ^ (w - 1) - 1
    omega

/-- Every address is a number of every format. -/
theorem exists_denotes (hw : 0 < w) (n : Int) : ∃ a, Denotes w s n a := by
  have hpow : (0 : Int) < 2 ^ w := by positivity
  have hspan := shapeMax_sub_shapeMin hw s
  refine ⟨(n - shapeMin w s) % 2 ^ w + shapeMin w s, ⟨?_, ?_⟩, ?_⟩
  · have := Int.emod_nonneg (n - shapeMin w s) (ne_of_gt hpow)
    omega
  · have := Int.emod_lt_of_pos (n - shapeMin w s) hpow
    omega
  · have hmod : (n - shapeMin w s) % 2 ^ w ≡ n - shapeMin w s [ZMOD 2 ^ w] := Int.mod_modEq _ _
    have hadd := hmod.add_right (shapeMin w s)
    rwa [Int.sub_add_cancel] at hadd

end Numbers

/-! ## Sums of an address -/

section Sums

variable {cfg : Settings} {tags : Tags} {c : UseContext} {side : Side} {L L' : SymLoc} {T T' U : UType} {S I o : Int}
  {r : Eval (SymLoc × UType)}

/-- What adding to an address gives, spec lemma of `addToIntptr`. -/
theorem addToIntptr_iff (hU : U.isPointer = false) :
    AddTo c S 1 L U I r ↔
      (IfFromArrayInBounds S I L.prov true ∧ r = .ok ((newFromArray S I L).plusBytes (I * 1), U)) ∨
        (IfFromArrayInBounds S I L.prov false ∧ r = .error CEA1) := by
  have huse : c.checkUse ((newFromArray S I L).plusBytes (I * 1)) U = .ok ((newFromArray S I L).plusBytes (I * 1), U) := by
    rw [UseContext.checkUse, hU]
    rfl
  constructor
  · intro h
    cases h with
    | inBounds hin => exact .inl ⟨hin, huse⟩
    | outside hout => exact .inr ⟨hout, rfl⟩
  · rintro (⟨hin, rfl⟩ | ⟨hout, rfl⟩)
    · rw [← huse]
      exact .inBounds hin
    · exact .outside hout

theorem offset_moved (ho : L.offset = .ok o) : ((newFromArray S I L).plusBytes (I * 1)).offset = .ok (o + I) := by
  rw [Int.mul_one]
  cases L with
  | loc b o' => cases ho; rfl
  | loc3 b o' p => cases ho; rfl
  | NullPointer => cases ho

/-- Only one rule is for an address in an integer type. -/
theorem intptrRule_iff (hT : T.isInteger = true) (htypes : OperandTypes cfg tags side T T')
    (hS : byteSizeofType cfg tags charUType = .ok S) :
    AdditiveRule cfg tags c side.sum L T I T' r ↔ AddTo c S 1 L (side.sum.leftType T T') I r := by
  have hplus : side.sum.addend I = I := by cases side <;> rfl
  constructor
  · intro h
    cases h with
    | pointer hptr => rw [hptr] at hT; cases hT
    | intptr _ _ hS' hadd =>
      rw [hS] at hS'
      cases hS'
      rwa [hplus] at hadd
    | incomplete hptr => rw [hptr] at hT; cases hT
  · intro h
    rw [← hplus] at h
    exact .intptr htypes.1 htypes.2 hS h

/-- The greatest number of the unsigned type of the same width. -/
theorem max_correspondingUnsignedType {w : ℕ} {s : Bool} (h : IntShape cfg tags U w s) :
    ∃ V, correspondingUnsignedType tags U = .ok V ∧ V.max cfg tags = .ok (2 ^ w - 1) := by
  have hunsigned : ∀ i : IntType, (if i.isSigned then flipSignedness i else i).isSigned = false ∧
      numBits cfg (if i.isSigned then flipSignedness i else i) = numBits cfg i := by
    intro i
    cases i <;> exact ⟨rfl, rfl⟩
  have hmax : ∀ (m : Mods) (i : IntType), UType.max cfg tags
      (.ut m (.nonArray (.basic (.integer (if i.isSigned then flipSignedness i else i))))) =
        .ok (2 ^ numBits cfg i - 1) := by
    intro m i
    obtain ⟨hs, hn⟩ := hunsigned i
    have hshape : UType.max cfg tags (.ut m (.nonArray (if i.isSigned then flipSignedness i else i).toSimple)) = _ :=
      (intShape_integer m _).max
    rwa [hs, hn] at hshape
  have hsize := h.size
  rcases UType.isInteger_cases h.integer with ⟨m, i, rfl⟩ | ⟨m, i, n, rfl⟩ | ⟨m, t, rfl⟩
  · injection hsize with hw
    have hw' : numBits cfg i = w := Int.ofNat.inj hw
    exact ⟨_, rfl, hw' ▸ hmax m i⟩
  · injection hsize with hw
    have hw' : n = w := hw
    subst hw'
    have hshape : UType.max cfg tags
        (.ut m (.nonArray (.basic (.bitfieldType (if i.isSigned then flipSignedness i else i) w)))) = _ :=
      (intShape_bitfield m _ w h.pos).max
    rw [(hunsigned i).1] at hshape
    exact ⟨_, rfl, hshape⟩
  · cases ha : getEnumAlias tags t with
    | error e =>
      have hmin := h.min
      simp [UType.min, ha, bind, Except.bind] at hmin
    | ok i =>
      have hinfo : getTagInfo tags t = .enumInfo i := by
        unfold getEnumAlias at ha
        split at ha
        · next heq => cases ha; exact heq
        · cases ha
      have hw : bitSizeofType cfg tags (.ut m (.nonArray (.enumType t))) = .ok (numBits cfg i) :=
        (intShape_enum m t i hinfo).size
      rw [hsize] at hw
      injection hw with hw
      have hw' : w = numBits cfg i := Int.ofNat.inj hw
      refine ⟨_, by simp [correspondingUnsignedType, ha, bind, Except.bind, pure, Except.pure]; rfl, ?_⟩
      rw [hw']
      exact hmax m i

end Sums

/-! ## Where the rules are right -/

section Soundness

variable {cfg : Settings} {tags : Tags} {c : UseContext} {side : Side} {L L' : SymLoc} {b : SymBase} {o x E a : Int}
  {T T' U : UType} {k w : ℕ} {s : Bool} {v : AddressValue}

/-- Both rules for `&` apply only where the alignment is more than the type has room for. -/
theorem onesAbove_iff_of_below (hE0 : 0 ≤ E) (hE1 : E < 2 ^ k) :
    OnesAbove E (2 ^ k) (2 ^ w - 1) ↔ (2 : Int) ^ w ≤ 2 ^ k := by
  unfold OnesAbove
  rw [land_lnot_mask_eq_zero_iff, Int.ediv_eq_zero_of_lt hE0 hE1]
  show (2 : Int) ^ w ∣ 2 ^ k * -1 ↔ _
  rw [Int.mul_neg, Int.mul_one, Int.dvd_neg]
  constructor
  · exact Int.le_of_dvd (by positivity)
  · intro hle
    exact pow_dvd_pow 2 ((pow_le_pow_iff_right₀ (by decide : (1 : Int) < 2)).mp hle)

/-- A location in an integer type, the object of which is aligned to `2 ^ k`, and a mask of the same
    type of `w` bits. -/
structure Masked (cfg : Settings) (tags : Tags) (c : UseContext) (side : Side) (L L' : SymLoc) (b : SymBase) (o : Int)
    (k : ℕ) (T T' : UType) (w : ℕ) (s : Bool) (E : Int) : Prop where
  resolved : LinkResolved c.linkings L L'
  base : L'.base = .ok b
  align : b.align = 2 ^ k
  offset : L.offset = .ok o
  shape : IntShape cfg tags T w s
  shape' : IntShape cfg tags T' w s
  types : OperandTypes cfg tags side T T'
  mask : Represents w s E

namespace Masked

variable (h : Masked cfg tags c side L L' b o k T T' w s E)

include h

theorem align_eq : (b.align : Int) = 2 ^ k := by
  rw [h.align]
  exact Nat.cast_pow 2 k

theorem getAlign_iff {A : Int} : GetAlign cfg c.linkings L A ↔ A = 2 ^ k := by
  rw [CSemantics.getAlign_iff h.resolved h.base, h.align_eq]

theorem isInteger_left : (side.sum.leftType T T').isInteger = true := by
  cases side
  · exact h.shape.integer
  · exact h.shape'.integer

theorem exists_max : ∃ V, correspondingUnsignedType tags (side.sum.leftType T T') = .ok V ∧
    V.max cfg tags = .ok (2 ^ w - 1) := by
  cases side
  · exact max_correspondingUnsignedType h.shape
  · exact max_correspondingUnsignedType h.shape'

/-- A mask has no bits above the type. -/
theorem mask_lt : E < 2 ^ w := by
  have hspan := shapeMax_sub_shapeMin h.shape.pos s
  have hmin := shapeMin_le_zero w s
  have hmax := h.mask.2
  omega

/-- **A mask below the alignment** meets the offset alone. -/
theorem land_below (hE0 : 0 ≤ E) (hE1 : E < 2 ^ k) (hx : (b.align : Int) ∣ x) (ha : Denotes w s (x + o) a) :
    Int.land a E = Int.land o E := by
  rw [h.align_eq] at hx
  have hlt : E < 2 ^ min k w := by
    rcases le_total k w with hle | hle
    · rwa [min_eq_left hle]
    · rw [min_eq_right hle]
      exact h.mask_lt
  refine land_of_lt hE0 hlt ?_
  have hax : a ≡ x + o [ZMOD 2 ^ min k w] := ha.2.of_dvd (pow_dvd_pow 2 (min_le_right k w))
  have hxo : x + o ≡ 0 + o [ZMOD 2 ^ min k w] := by
    refine Int.ModEq.add_right o ?_
    exact (Int.modEq_zero_iff_dvd.mpr hx).of_dvd (pow_dvd_pow 2 (min_le_left k w))
  rw [zero_add] at hxo
  exact hax.trans hxo

theorem belowAlign_iff {A : Int} (hA : GetAlign cfg c.linkings L A) : BelowAlign E A ↔ 0 ≤ E ∧ E < 2 ^ k := by
  rw [h.getAlign_iff.mp hA]
  exact and_comm

/-- **The rule that masks the offset is right.** -/
theorem denotes_masked (hguard : OnesAbove E (2 ^ k) (2 ^ w - 1)) (hx : (b.align : Int) ∣ x)
    (ha : Denotes w s (x + o) a) : Denotes w s (x + Int.land o E) (Int.land a E) := by
  rw [h.align_eq] at hx
  constructor
  · rw [land_eq_bitwise]
    exact Represents.bitwise and (fun _ => rfl) ha.1 h.mask
  · have hcongr : Int.land a E ≡ Int.land (x + o) E [ZMOD 2 ^ w] := by
      rw [land_eq_bitwise, land_eq_bitwise]
      exact bitwise_congr and ha.2 (Int.ModEq.refl E)
    exact hcongr.trans (land_aligned_add hx (land_lnot_mask_eq_zero_iff.mp hguard))

/-- **The rule that sets bits of the offset is right.** -/
theorem denotes_set (hE0 : 0 ≤ E) (hE1 : E < 2 ^ k) (hx : (b.align : Int) ∣ x) (ha : Denotes w s (x + o) a) :
    Denotes w s (x + Int.lor o E) (Int.lor a E) := by
  rw [h.align_eq] at hx
  constructor
  · rw [lor_eq_bitwise]
    exact Represents.bitwise or (fun _ => rfl) ha.1 h.mask
  · have hcongr : Int.lor a E ≡ Int.lor (x + o) E [ZMOD 2 ^ w] := by
      rw [lor_eq_bitwise, lor_eq_bitwise]
      exact bitwise_congr or ha.2 (Int.ModEq.refl E)
    rwa [lor_aligned_add hx hE0 hE1] at hcongr

/-- The value of a sum, if there is one: the location with the new offset. -/
theorem sum_value {I S : Int} {V : UType} {r : Eval (SymLoc × UType)} (hS : byteSizeofType cfg tags charUType = .ok S)
    (hsum : AdditiveRule cfg tags c side.sum L T I T' r)
    (hv : (r.map fun u => ((.location u.1, u.2) : AddressValue × UType)) = .ok (v, V)) :
    IfFromArrayInBounds S I L.prov true ∧ v = .location ((newFromArray S I L).plusBytes (I * 1)) := by
  have hadd := (intptrRule_iff h.shape.integer h.types hS).mp hsum
  rcases (addToIntptr_iff (isPointer_of_isInteger h.isInteger_left)).mp hadd with ⟨hin, rfl⟩ | ⟨_, rfl⟩
  · injection hv with hv
    injection hv with hv _
    exact ⟨hin, hv.symm⟩
  · cases hv

/-- What the rules for `&` give. -/
theorem andRule_iff {S : Int} (hS : byteSizeofType cfg tags charUType = .ok S) (hv : v ≠ .unknown) :
    (∃ V, AndRule cfg tags c side L T E T' (.ok (v, V))) ↔
      (OnesAbove E (2 ^ k) (2 ^ w - 1) ∧ IfFromArrayInBounds S (Int.land o E - o) L.prov true ∧
        v = .location ((newFromArray S (Int.land o E - o) L).plusBytes ((Int.land o E - o) * 1))) ∨
      (0 ≤ E ∧ E < 2 ^ k ∧ v = .integer 0) := by
  obtain ⟨W, hW, hWmax⟩ := h.exists_max
  constructor
  · rintro ⟨V, hrule⟩
    generalize hr : (Except.ok (v, V) : Eval (AddressValue × UType)) = res at hrule
    cases hrule with
    | masked _ hA hU hhi hguard ho hsum =>
      rw [h.offset] at ho
      cases ho
      rw [hW] at hU
      cases hU
      rw [hWmax] at hhi
      cases hhi
      rw [h.getAlign_iff.mp hA] at hguard
      exact .inl ⟨hguard, h.sum_value hS hsum hr.symm⟩
    | below _ hA hguard =>
      cases hr
      obtain ⟨hE0, hE1⟩ := (h.belowAlign_iff hA).mp hguard
      exact .inr ⟨hE0, hE1, rfl⟩
    | unknown _ _ _ _ _ _ =>
      cases hr
      exact absurd rfl hv
  · have hA : GetAlign cfg c.linkings L (2 ^ k) := h.getAlign_iff.mpr rfl
    rintro (⟨hguard, hin, rfl⟩ | ⟨hE0, hE1, rfl⟩)
    · exact ⟨_, .masked h.types hA hW hWmax hguard h.offset ((intptrRule_iff h.shape.integer h.types hS).mpr
        ((addToIntptr_iff (isPointer_of_isInteger h.isInteger_left)).mpr (.inl ⟨hin, rfl⟩)))⟩
    · exact ⟨_, .below h.types hA ((h.belowAlign_iff hA).mpr ⟨hE0, hE1⟩)⟩

/-- What the rules for `|` give. -/
theorem orRule_iff {S : Int} (hS : byteSizeofType cfg tags charUType = .ok S) :
    (∃ V, OrRule cfg tags c side L T E T' (.ok (v, V))) ↔
      0 ≤ E ∧ E < 2 ^ k ∧ IfFromArrayInBounds S (Int.lor o E - o) L.prov true ∧
        v = .location ((newFromArray S (Int.lor o E - o) L).plusBytes ((Int.lor o E - o) * 1)) := by
  have hnull : L ≠ .NullPointer := by
    rintro rfl
    cases h.offset
  constructor
  · rintro ⟨V, hrule⟩
    generalize hr : (Except.ok (v, V) : Eval (AddressValue × UType)) = res at hrule
    cases hrule with
    | below _ hA hguard _ ho hsum =>
      rw [h.offset] at ho
      cases ho
      obtain ⟨hE0, hE1⟩ := (h.belowAlign_iff hA).mp hguard
      exact ⟨hE0, hE1, h.sum_value hS hsum hr.symm⟩
    | null _ hL => exact absurd hL hnull
  · have hA : GetAlign cfg c.linkings L (2 ^ k) := h.getAlign_iff.mpr rfl
    rintro ⟨hE0, hE1, hin, rfl⟩
    exact ⟨_, .below h.types hA ((h.belowAlign_iff hA).mpr ⟨hE0, hE1⟩) hnull h.offset
      ((intptrRule_iff h.shape.integer h.types hS).mpr
        ((addToIntptr_iff (isPointer_of_isInteger h.isInteger_left)).mpr (.inl ⟨hin, rfl⟩)))⟩

end Masked

/-- **The rules for `&` are right** about a location: whatever the address of the object, the value a
    rule gives is the address masked, and rules that apply to the same operands give the same value. -/
def AndSound (cfg : Settings) (tags : Tags) (c : UseContext) (side : Side) (L : SymLoc) (b : SymBase) (o : Int) (T : UType)
    (E : Int) (T' : UType) (w : ℕ) (s : Bool) : Prop :=
  (∀ v, v ≠ .unknown → (∃ V, AndRule cfg tags c side L T E T' (.ok (v, V))) →
    ∀ x a, (b.align : Int) ∣ x → Denotes w s (x + o) a → v.Denotes w s x (Int.land a E)) ∧
  ∀ v v', v ≠ .unknown → v' ≠ .unknown → (∃ V, AndRule cfg tags c side L T E T' (.ok (v, V))) →
    (∃ V, AndRule cfg tags c side L T E T' (.ok (v', V))) → v = v'

/-- **The rules for `|` are right** about a location. -/
def OrSound (cfg : Settings) (tags : Tags) (c : UseContext) (side : Side) (L : SymLoc) (b : SymBase) (o : Int) (T : UType)
    (E : Int) (T' : UType) (w : ℕ) (s : Bool) : Prop :=
  (∀ v, (∃ V, OrRule cfg tags c side L T E T' (.ok (v, V))) →
    ∀ x a, (b.align : Int) ∣ x → Denotes w s (x + o) a → v.Denotes w s x (Int.lor a E)) ∧
  ∀ v v', (∃ V, OrRule cfg tags c side L T E T' (.ok (v, V))) →
    (∃ V, OrRule cfg tags c side L T E T' (.ok (v', V))) → v = v'

/-- **Bitwise operations on a symbolic address**, `S` being the size of `char`: the rules for `|` are
    right, and those for `&` exactly if a mask from 0 up to the alignment of the object has no bit in
    common with the offset, and the alignment is less than the type has room for unless the new offset
    is out of the array. -/
theorem bitwise_location_iff (cfg : Settings) (tags : Tags) (c : UseContext) (side : Side) (L L' : SymLoc) (b : SymBase)
    (o : Int) (k : ℕ) (T T' : UType) (w : ℕ) (s : Bool) (E S : Int) (h : Masked cfg tags c side L L' b o k T T' w s E)
    (hS : byteSizeofType cfg tags charUType = .ok S) :
    (AndSound cfg tags c side L b o T E T' w s ↔
      (0 ≤ E → E < b.align → Int.land o E = 0 ∧
        (IfFromArrayInBounds S (0 - o) L.prov true → (b.align : Int) < 2 ^ w))) ∧
    OrSound cfg tags c side L b o T E T' w s := by
  have hoffset : ∀ I, ((newFromArray S I L).plusBytes (I * 1)).offset = .ok (o + I) := fun I => offset_moved h.offset
  refine ⟨⟨fun hsound hE0 hE1 => ?_, fun hcond => ⟨fun v hv hrule x a hx ha => ?_, fun v v' hv hv' hrule hrule' => ?_⟩⟩,
    fun v hrule x a hx ha => ?_, fun v v' hrule hrule' => ?_⟩
  · rw [h.align_eq] at hE1 ⊢
    have hbelow : ∃ V, AndRule cfg tags c side L T E T' (.ok (.integer 0, V)) :=
      (h.andRule_iff hS (by decide)).mpr (.inr ⟨hE0, hE1, rfl⟩)
    obtain ⟨a, ha⟩ := exists_denotes (s := s) h.shape.pos (0 + o)
    have hzero : Int.land a E = 0 := hsound.1 _ (by decide) hbelow 0 a (dvd_zero _) ha
    rw [h.land_below hE0 hE1 (dvd_zero _) ha] at hzero
    refine ⟨hzero, fun hin => ?_⟩
    by_contra hle
    have hguard := (onesAbove_iff_of_below hE0 hE1).mpr (not_lt.mp hle)
    rw [← hzero] at hin
    have hmasked := (h.andRule_iff hS (by simp)).mpr (.inl ⟨hguard, hin, rfl⟩)
    cases hsound.2 _ _ (by simp) (by decide) hmasked hbelow
  · rcases (h.andRule_iff hS hv).mp hrule with ⟨hguard, _, rfl⟩ | ⟨hE0, hE1, rfl⟩
    · refine ⟨_, hoffset _, ?_⟩
      rw [add_sub_cancel]
      exact h.denotes_masked hguard hx ha
    · show Int.land a E = 0
      rw [h.land_below hE0 hE1 hx ha]
      rw [← h.align_eq] at hE1
      exact (hcond hE0 hE1).1
  · -- the rule that masks the offset and the one that gives 0 do not both apply
    have hnot : OnesAbove E (2 ^ k) (2 ^ w - 1) → IfFromArrayInBounds S (Int.land o E - o) L.prov true → 0 ≤ E →
        E < 2 ^ k → False := by
      intro hguard hin hE0 hE1
      have hle := (onesAbove_iff_of_below hE0 hE1).mp hguard
      rw [← h.align_eq] at hE1 hle
      obtain ⟨hzero, hroom⟩ := hcond hE0 hE1
      rw [hzero] at hin
      exact absurd (hroom hin) (not_lt.mpr hle)
    rcases (h.andRule_iff hS hv).mp hrule with ⟨hguard, hin, rfl⟩ | ⟨hE0, hE1, rfl⟩
    · rcases (h.andRule_iff hS hv').mp hrule' with ⟨_, _, rfl⟩ | ⟨hE0, hE1, rfl⟩
      · rfl
      · exact (hnot hguard hin hE0 hE1).elim
    · rcases (h.andRule_iff hS hv').mp hrule' with ⟨hguard, hin, rfl⟩ | ⟨_, _, rfl⟩
      · exact (hnot hguard hin hE0 hE1).elim
      · rfl
  · obtain ⟨hE0, hE1, _, rfl⟩ := (h.orRule_iff hS).mp hrule
    refine ⟨_, hoffset _, ?_⟩
    rw [add_sub_cancel]
    exact h.denotes_set hE0 hE1 hx ha
  · obtain ⟨_, _, _, rfl⟩ := (h.orRule_iff hS).mp hrule
    obtain ⟨_, _, _, rfl⟩ := (h.orRule_iff hS).mp hrule'
    rfl

/-- No objects, and so no linkings. -/
private def noObjects : UseContext := ⟨fun _ => none, fun _ => none, true⟩

/-- The byte `o` after the start of an object aligned to 16, in `unsigned long`, and the mask 8. -/
private theorem byte_masked (o : Int) :
    Masked x86GccLimitedLibc [] noObjects .left (.loc (obj 0 16 .alloc) o) (.loc (obj 0 16 .alloc) o) (obj 0 16 .alloc) o
      4 IntType.unsignedLongInt.toSimple.toUType IntType.unsignedLongInt.toSimple.toUType 64 false 8 where
  resolved := .done rfl
  base := rfl
  align := rfl
  offset := rfl
  shape := intShape_integer noMods .unsignedLongInt
  shape' := intShape_integer noMods .unsignedLongInt
  types := ⟨rfl, decides_self [] _⟩
  mask := by decide +kernel

/-- The mask 8 is right about the byte 16. -/
theorem bitwise_location_iff_byte :
    AndSound x86GccLimitedLibc [] noObjects .left (.loc (obj 0 16 .alloc) 16) (obj 0 16 .alloc) 16
      IntType.unsignedLongInt.toSimple.toUType 8 IntType.unsignedLongInt.toSimple.toUType 64 false := by
  have h := bitwise_location_iff x86GccLimitedLibc [] noObjects .left _ _ _ _ 4 _ _ 64 false 8 1 (byte_masked 16)
    (by decide +kernel)
  exact h.1.mpr fun _ _ => ⟨by decide +kernel, fun _ => by decide +kernel⟩

/-- **What the second rule gets wrong**: the mask 8 is below the alignment 16, so the byte 9 masked is 0;
    but where the object lies at 0 the byte has the address 9, and that masked is 8. -/
theorem byte_nine_masked :
    (∃ V, AndRule x86GccLimitedLibc [] noObjects .left (.loc (obj 0 16 .alloc) 9)
      IntType.unsignedLongInt.toSimple.toUType 8 IntType.unsignedLongInt.toSimple.toUType (.ok (.integer 0, V))) ∧
    Denotes 64 false (0 + 9) 9 ∧ Int.land 9 8 = 8 ∧
    ¬AndSound x86GccLimitedLibc [] noObjects .left (.loc (obj 0 16 .alloc) 9) (obj 0 16 .alloc) 9
      IntType.unsignedLongInt.toSimple.toUType 8 IntType.unsignedLongInt.toSimple.toUType 64 false := by
  have hrule : ∃ V, AndRule x86GccLimitedLibc [] noObjects .left (.loc (obj 0 16 .alloc) 9)
      IntType.unsignedLongInt.toSimple.toUType 8 IntType.unsignedLongInt.toSimple.toUType (.ok (.integer 0, V)) :=
    ((byte_masked 9).andRule_iff (S := 1) (by decide +kernel) (by decide)).mpr (.inr ⟨by decide, by decide, rfl⟩)
  have hnumber : Denotes 64 false (0 + 9) 9 := ⟨by decide +kernel, rfl⟩
  refine ⟨hrule, hnumber, by decide +kernel, fun hsound => ?_⟩
  have hzero : Int.land 9 8 = 0 := hsound.1 _ (by decide) hrule 0 9 (dvd_zero _) hnumber
  exact absurd hzero (by decide +kernel)

end Soundness

end CSemantics
