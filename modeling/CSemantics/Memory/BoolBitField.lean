/-
  Bit-fields of type `_Bool`.

  Conversion to `_Bool` is a test: 1 for every value but 0.  The rule for it matches the type `bool`
  alone; a BIT-FIELD of `bool` is only an unsigned type, so a value is reduced modulo `2 ^ width` like
  that of any other unsigned bit-field, and 2 becomes 0 in a field of one bit.
-/
import CSemantics.Conversion
import CSemantics.Memory.BitField

namespace CSemantics

/-- `ut(Mods, bitfieldType(bool, Len))` -/
def boolBitfield (m : Mods) (len : ℕ) : UType := .ut m (.nonArray (.basic (.bitfieldType .bool len)))

section Field

variable {cfg : Settings} {tags : Tags} {m : Mods} {len w : ℕ} {s : Bool} {T : UType} {V : Int} {explicit : Bool}
  {r : Eval (Int × UType)}

/-- **What the conversion gives**: the value modulo `2 ^ width`. -/
theorem castRule_boolBitfield (hlen : 0 < len) (hT : IntShape cfg tags T w s) (hV : Represents w s V) :
    CastRule cfg tags (boolBitfield m len) V T explicit r ↔ r = .ok (V % 2 ^ len, castTypes (boolBitfield m len) T) := by
  have hfield : IntShape cfg tags (boolBitfield m len) len false := intShape_bitfield m .bool len hlen
  by_cases hin : Represents len false V
  · have hmod : V % 2 ^ len = V := by
      have hhi : V ≤ 2 ^ len - 1 := hin.2
      exact Int.emod_eq_of_lt hin.1 (by omega)
    rw [hmod]
    exact castRule_represents hfield hT.integer rfl hin
  · exact castRule_unsigned hfield hT rfl rfl hV hin

/-- What is left of a value is in the range of the field. -/
theorem emod_mem_boolBitfield (V : Int) : shapeMin len false ≤ V % 2 ^ len ∧ V % 2 ^ len ≤ shapeMax len false := by
  have hpow : (0 : Int) < 2 ^ len := by positivity
  refine ⟨Int.emod_nonneg V (ne_of_gt hpow), ?_⟩
  show V % 2 ^ len ≤ 2 ^ len - 1
  have := Int.emod_lt_of_pos V hpow
  omega

/-- A stored value reads back, with the bits of the object around it as they were. -/
theorem readBitField_boolBitfield (hlen : 0 < len) {object : List Bits} (hobj : ∀ b ∈ object, IsByte cfg b)
    {loc : SymLoc} {off : ℕ} (hoff : loc.offset = .ok (off : Int)) (hin : off + loc.byteRange cfg len ≤ object.length)
    (V : Int) :
    ∃ object' U, writeBitField cfg tags object loc (V % 2 ^ len) (boolBitfield m len) = .ok object' ∧
      readBitField cfg tags object' loc (boolBitfield m len) = .ok (.tv (.int (V % 2 ^ len)) U) := by
  obtain ⟨hlo, hhi⟩ := @emod_mem_boolBitfield len V
  obtain ⟨object', bits, hwrite, ⟨holen, hobytes⟩, ⟨hblen, hunit, hint, hval⟩, hplace, hexp⟩ :=
    @writeBitField_spec cfg tags m .bool len hlen object hobj loc off hoff hin _ hlo hhi
  obtain ⟨U, hU⟩ : ∃ U, updateReadFrom cfg tags (boolBitfield m len) loc = .ok U := ⟨_, rfl⟩
  refine ⟨object', U, hwrite, ?_⟩
  refine readBitField_spec hlen hobytes hoff (by rw [holen]; exact hin) hlo hhi hblen hunit hint hval ?_ hexp hU
  rw [List.length_take, Nat.min_eq_left (by omega)]

end Field

/-- The value a conversion to `_Bool` is to give. -/
def truthValue (V : Int) : Int := if V = 0 then 0 else 1

/-- **The conversion to a `_Bool` bit-field is that to `_Bool`**: some rule applies, every rule gives the
    truth value, and the field reads back as what was stored. -/
def ConvertsAsBool (cfg : Settings) (tags : Tags) (m : Mods) (len : ℕ) (V : Int) (T : UType) (explicit : Bool)
    (object : List Bits) (loc : SymLoc) : Prop :=
  (∃ r, CastRule cfg tags (boolBitfield m len) V T explicit r) ∧
  ∀ r, CastRule cfg tags (boolBitfield m len) V T explicit r →
    ∃ N U, r = .ok (N, U) ∧ N = truthValue V ∧
      ∃ object' U', writeBitField cfg tags object loc N (boolBitfield m len) = .ok object' ∧
        readBitField cfg tags object' loc (boolBitfield m len) = .ok (.tv (.int N) U')

/-- **Conversion to a `_Bool` bit-field**, of any width and at any place of any object: it is that to
    `_Bool` exactly for 0 and for the values that are 1 modulo `2 ^ width`. -/
theorem convertsAsBool_iff (cfg : Settings) (tags : Tags) (m : Mods) (len : ℕ) (hlen : 0 < len) (T : UType) (w : ℕ)
    (s : Bool) (hT : IntShape cfg tags T w s) (V : Int) (hV : Represents w s V) (explicit : Bool) (object : List Bits)
    (hobj : ∀ b ∈ object, IsByte cfg b) (loc : SymLoc) (off : ℕ) (hoff : loc.offset = .ok (off : Int))
    (hin : off + loc.byteRange cfg len ≤ object.length) :
    ConvertsAsBool cfg tags m len V T explicit object loc ↔ V = 0 ∨ V % 2 ^ len = 1 := by
  have htwo : (2 : Int) ≤ 2 ^ len := by
    calc (2 : Int) = 2 ^ 1 := (pow_one 2).symm
      _ ≤ 2 ^ len := pow_le_pow_right₀ (by decide) hlen
  constructor
  · rintro ⟨-, hall⟩
    obtain ⟨N, U, hr, hN, -⟩ := hall _ ((castRule_boolBitfield hlen hT hV).mpr rfl)
    injection hr with hr
    injection hr with hmod _
    by_cases hzero : V = 0
    · exact .inl hzero
    · rw [hN, truthValue, if_neg hzero] at hmod
      exact .inr hmod
  · intro hcond
    have htruth : V % 2 ^ len = truthValue V := by
      rcases hcond with rfl | hone
      · rfl
      · have hne : V ≠ 0 := by
          rintro rfl
          rw [Int.zero_emod] at hone
          cases hone
        rw [hone, truthValue, if_neg hne]
    refine ⟨⟨_, (castRule_boolBitfield hlen hT hV).mpr rfl⟩, fun r hr => ?_⟩
    rw [castRule_boolBitfield hlen hT hV] at hr
    exact ⟨_, _, hr, htruth, readBitField_boolBitfield hlen hobj hoff hin V⟩

/-- An object of one byte. -/
private theorem oneByte : ∀ b ∈ ([⟨.atom (.unknown 255), 8⟩] : List Bits), IsByte x86GccLimitedLibc b := by
  intro b hb
  obtain rfl := List.mem_singleton.mp hb
  exact ⟨⟨by norm_num, by norm_num⟩, rfl⟩

/-- 3 becomes 1 in a field of one bit. -/
theorem convertsAsBool_three :
    ConvertsAsBool x86GccLimitedLibc [] noMods 1 3 IntType.int.toSimple.toUType false [⟨.atom (.unknown 255), 8⟩]
      (.loc3 (obj 0 4 (.auto 0)) 0 [.bits 6]) :=
  (convertsAsBool_iff x86GccLimitedLibc [] noMods 1 (by decide) IntType.int.toSimple.toUType 32 true
    (intShape_integer noMods .int) 3 (by decide) false _ oneByte _ 0 rfl (by decide)).mpr (.inr (by decide))

/-- **What is not a test**: 2 becomes 0 in a field of one bit, and stays 2 in one of eight. -/
theorem two_not_truthValue :
    CastRule x86GccLimitedLibc [] (boolBitfield noMods 1) 2 IntType.int.toSimple.toUType false
      (.ok (0, boolBitfield noMods 1)) ∧
    CastRule x86GccLimitedLibc [] (boolBitfield noMods 8) 2 IntType.int.toSimple.toUType false
      (.ok (2, boolBitfield noMods 8)) ∧
    ¬ConvertsAsBool x86GccLimitedLibc [] noMods 1 2 IntType.int.toSimple.toUType false [⟨.atom (.unknown 255), 8⟩]
      (.loc3 (obj 0 4 (.auto 0)) 0 [.bits 6]) := by
  have hshape : IntShape x86GccLimitedLibc [] IntType.int.toSimple.toUType 32 true := intShape_integer noMods .int
  have hone : CastRule x86GccLimitedLibc [] (boolBitfield noMods 1) 2 IntType.int.toSimple.toUType false
      (.ok (0, boolBitfield noMods 1)) := (castRule_boolBitfield (by decide) hshape (by decide)).mpr rfl
  refine ⟨hone, (castRule_boolBitfield (by decide) hshape (by decide)).mpr rfl, fun h => ?_⟩
  obtain ⟨N, U, hr, hN, -⟩ := h.2 _ hone
  injection hr with hr
  injection hr with hmod _
  rw [hN] at hmod
  exact absurd hmod (by decide)

end CSemantics
