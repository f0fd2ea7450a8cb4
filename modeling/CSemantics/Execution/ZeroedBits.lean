/-
  Zeroed memory, byte by byte.

  The bytes of an object with static or thread storage duration that nobody has written are made up
  when they are read: `getZeroedBits` walks down the type of the object to the members that the byte
  overlaps and puts the byte together from theirs.

      pointer, arithmetic type     zeros
      array                        its element at the byte
      union                        its first flat field
      struct                       of each flat field that overlaps the byte, in order, the bits in
                                   the byte: a trap when the field has no name, and else what the
                                   field has there; and zeros for what is left at the end

  **What a walk returns** is stated bit by bit: `Reads P off n b` says that `b` is `n` bits, the
  `k`-th of which is a trap when `P (off + k)` and a zero when not.  `Reads` composes along `bit::`
  (`Reads.join`), and the whole function is one statement about `Reads` and `InitialTrap`, which says
  what the unnamed bit-fields of an object are.

  The end of the walk over a struct is right only because a byte has no gap before a field that
  starts inside it: what does not start at a byte starts where the field before it ends
  (`ByteLayout`), as the translator lays it out (`makeStructFieldInfo_byteLayout`).
-/
import CSemantics.Bits
import CSemantics.Typing.FlatFields
import CSemantics.Translation.Tagged

namespace CSemantics.ZeroedBits

open AssocMap FlatFields

/-! ## The code -/

section Code

variable (cfg : Settings) (tags : Tags)

def isPointerType (T : CType) : Bool := (utype T).isPointer

/-- `arithmeticType`: an integer, bit-field or enumeration type, or a floating type. -/
def isArithmeticType (T : CType) : Bool := (utype T).isInteger || (utype T).isFloat

/-- `getZeroedBits(Offset, N, BaseT, fieldInfo(decls, …))`, where `zeroed` is `getZeroedBits` of the
    fields. -/
def getZeroedBits2 (zeroed : Int → Int → CType → Eval Bits) (baseT : CType) (fields : FieldInfo) :
    List (CType × CId) → Int → Int → Eval Bits
  | [], _, n => .ok ⟨.atom (.int 0), n.toNat⟩
  | (T, F) :: decls, offset, n =>
    if n = 0 then .ok ⟨.atom (.int 0), 0⟩
    else if isStructType baseT = false then zeroed offset n T
    else
      match fields.types.lookup F, fields.offsets.lookup F with
      | some T', some fOffset => do
        let size ← bitSizeofType cfg tags (utype T')
        if fOffset + size ≤ offset ∨ offset + n ≤ fOffset then
          getZeroedBits2 zeroed baseT fields decls offset n
        else do
          let lo := max fOffset offset
          let hi := min (fOffset + size) (offset + n)
          -- a field without a name is an unnamed bit-field
          let bits ← if F.isNoName then .ok ⟨.atom .trap, (hi - lo).toNat⟩
            else zeroed (lo - fOffset) (hi - lo) T'
          let rest ← getZeroedBits2 zeroed baseT fields decls hi (n - (hi - lo))
          return bits.join rest
      | _, _ => .error .stuck

/-- `getZeroedBits(Offset, N, T)`, with a bound on how deep the type is nested. -/
def getZeroedBits : ℕ → Int → Int → CType → Eval Bits
  | 0, _, _, _ => .error .stuck
  | depth + 1, offset, n, T =>
    if isPointerType T || isArithmeticType T || n = 0 then .ok ⟨.atom (.int 0), n.toNat⟩
    else
      match T with
      | .t _ _ (.array (.fixed _) E) => do
        let size ← bitSizeofType cfg tags (utype E)
        if size = 0 then .error .stuck else getZeroedBits depth (offset.tmod size) n E
      | _ =>
        if (utype T).isStructOrUnion then do
          let fields ← FlatFields.getFlatFields tags depth T
          getZeroedBits2 cfg tags (getZeroedBits depth) T fields fields.decls offset n
        else .error .stuck

/-- `isStaticDuration(Base)` -/
def isStaticDuration (b : SymBase) : Bool :=
  match b.d with
  | .static _ | .link _ | .string _ | .wstring _ | .builtinSymbol _ | .hardwareAddress => true
  | _ => false

/-- `getUninitializedBits(loc(Base, Offset), T)` -/
def getUninitializedBits (depth : ℕ) (b : SymBase) (offset : Int) (T : CType) : Eval Bits :=
  if isStaticDuration b || isThreadDuration b then
    getZeroedBits cfg tags depth (offset * cfg.bitsPerByte) cfg.bitsPerByte T
  else .ok ⟨.atom .trap, cfg.bitsPerByte⟩

end Code

/-! ## Bits that are read -/

/-- `b` is `n` bits, each a trap where `P` holds and a zero where it does not. -/
structure Reads (P : Int → Prop) (off : Int) (n : ℕ) (b : Bits) : Prop where
  wf : b.WF
  len : b.len = n
  bits : ∀ k < n, P (off + k) ∧ (explode b)[k]? = some ⟨.atom .trap, 1⟩ ∨
    ¬P (off + k) ∧ (explode b)[k]? = some ⟨.atom (.int 0), 1⟩

section Reads

variable {P Q : Int → Prop} {off : Int} {n m : ℕ} {x y : Bits}

theorem explode_zeros (n : ℕ) :
    explode ⟨.atom (.int 0), n⟩ = List.replicate n ⟨.atom (.int 0), 1⟩ := by
  have hzero : BitAtom.WF n (.int 0) := ⟨le_refl 0, by positivity⟩
  show explodePiece (.int 0, n) = _
  rw [explodePiece_eq (p := (.int 0, n)) hzero]
  refine List.ext_getElem (by simp) fun k hk _ => ?_
  simp [BitAtom.sub, BitAtom.chunkFrom, IntBits.slice]

theorem explode_traps (n : ℕ) :
    explode ⟨.atom .trap, n⟩ = List.replicate n ⟨.atom .trap, 1⟩ := by
  have htrap : BitAtom.WF n .trap := trivial
  show explodePiece (.trap, n) = _
  rw [explodePiece_eq (p := (.trap, n)) htrap]
  refine List.ext_getElem (by simp) fun k hk _ => ?_
  simp [BitAtom.sub, BitAtom.chunkFrom]

theorem reads_zeros (h : ∀ k < n, ¬P (off + k)) : Reads P off n ⟨.atom (.int 0), n⟩ where
  wf := ⟨le_refl 0, by positivity⟩
  len := rfl
  bits k hk := .inr ⟨h k hk, by rw [explode_zeros, List.getElem?_replicate, if_pos hk]⟩

theorem reads_traps (h : ∀ k < n, P (off + k)) : Reads P off n ⟨.atom .trap, n⟩ where
  wf := trivial
  len := rfl
  bits k hk := .inl ⟨h k hk, by rw [explode_traps, List.getElem?_replicate, if_pos hk]⟩

/-- **Bits next to each other.** -/
theorem Reads.join (hx : Reads P off n x) (hy : Reads P (off + n) m y) :
    Reads P off (n + m) (x.join y) := by
  obtain ⟨hwf, hlen, hexplode⟩ := join_spec hx.wf hy.wf
  have hxlen : (explode x).length = n := by rw [explode_length hx.wf, hx.len]
  refine ⟨hwf, by rw [hlen, hx.len, hy.len], fun k hk => ?_⟩
  rw [hexplode]
  rcases Nat.lt_or_ge k n with hlt | hge
  · rw [List.getElem?_append_left (by omega)]
    exact hx.bits k hlt
  · rw [List.getElem?_append_right (by omega), hxlen]
    have hpos : off + (k : Int) = off + n + ((k - n : ℕ) : Int) := by omega
    rw [hpos]
    exact hy.bits (k - n) (by omega)

/-- The same bits, seen from elsewhere. -/
theorem Reads.shift {off' : Int} (h : Reads Q off' n x) (hPQ : ∀ k < n, P (off + k) ↔ Q (off' + k)) :
    Reads P off n x where
  wf := h.wf
  len := h.len
  bits k hk := by
    rw [hPQ k hk]
    exact h.bits k hk

end Reads

/-! ## Unnamed bit-fields -/

section Spec

variable (cfg : Settings) (tags : Tags)

/-- Bit `b` of an object of type `T` belongs to an unnamed bit-field, of `T` or of an element or a
    member of it. -/
inductive UnnamedBit : CType → Int → Prop
  | field {T : CType} {fields : FieldInfo} {d : CType × CId} {o n b : Int}
      (hT : aggregateFields tags (utype T) = some fields) (hd : d ∈ fields.decls)
      (hname : d.2.isNoName = true) (hbit : isBitfieldType d.1 = true)
      (ho : fields.offsets.lookup d.2 = some o) (hn : bitSizeofType cfg tags (utype d.1) = .ok n)
      (hlo : o ≤ b) (hhi : b < o + n) : UnnamedBit T b
  | member {T : CType} {fields : FieldInfo} {d : CType × CId} {o b : Int}
      (hT : aggregateFields tags (utype T) = some fields) (hd : d ∈ fields.decls)
      (ho : fields.offsets.lookup d.2 = some o) (h : UnnamedBit d.1 (b - o)) : UnnamedBit T b
  | element {q : Quals} {m : Mods} {n : Int} {E : CType} {s i b : Int}
      (hs : bitSizeofType cfg tags (utype E) = .ok s) (h0 : 0 ≤ i) (hi : i < n)
      (h : UnnamedBit E (b - i * s)) : UnnamedBit (.t q m (.array (.fixed n) E)) b

/-- The same of the members that are initialised: all of a struct, the first of a union.  An unnamed
    bit-field of a union is not a member to leave out. -/
inductive InitialTrap : CType → Int → Prop
  | field {T : CType} {fields : FieldInfo} {d : CType × CId} {o n b : Int}
      (hstruct : isStructType T = true) (hT : aggregateFields tags (utype T) = some fields)
      (hd : d ∈ fields.decls) (hname : d.2.isNoName = true) (hbit : isBitfieldType d.1 = true)
      (ho : fields.offsets.lookup d.2 = some o) (hn : bitSizeofType cfg tags (utype d.1) = .ok n)
      (hlo : o ≤ b) (hhi : b < o + n) : InitialTrap T b
  | member {T : CType} {fields : FieldInfo} {d : CType × CId} {o b : Int}
      (hstruct : isStructType T = true) (hT : aggregateFields tags (utype T) = some fields)
      (hd : d ∈ fields.decls) (ho : fields.offsets.lookup d.2 = some o) (h : InitialTrap d.1 (b - o)) :
      InitialTrap T b
  | first {T : CType} {fields : FieldInfo} {d : CType × CId} {b : Int}
      (hunion : isStructType T = false) (hT : aggregateFields tags (utype T) = some fields)
      (hd : fields.decls.head? = some d) (h : InitialTrap d.1 b) : InitialTrap T b
  | element {q : Quals} {m : Mods} {n : Int} {E : CType} {s i b : Int}
      (hs : bitSizeofType cfg tags (utype E) = .ok s) (h0 : 0 ≤ i) (hi : i < n)
      (h : InitialTrap E (b - i * s)) : InitialTrap (.t q m (.array (.fixed n) E)) b

/-- How declarations share bytes: what has no name is an anonymous member or a bit-field, a flexible
    array is not the first member, sizes are whole bytes, and what does not start at a byte is a
    bit-field that starts where the declaration before it ends. -/
structure ByteLayout (T : CType) (fields : FieldInfo) : Prop where
  nonempty : fields.decls ≠ []
  unnamed : ∀ d ∈ fields.decls, d.2.isNoName = true → isAnonymous d = true ∨ isBitfieldType d.1 = true
  nonneg : ∀ d ∈ fields.decls, ∀ n, bitSizeofType cfg tags (utype d.1) = .ok n → 0 ≤ n
  size : (cfg.bitsPerByte : Int) ∣ fields.size
  flexible : ∀ d, fields.decls.head? = some d → isFlexibleArrayType d.1 = false
  union : isStructType T = false → ∀ d ∈ fields.decls, fields.offsets.lookup d.2 = some 0
  aligned : ∀ i d o, fields.decls[i]? = some d → fields.offsets.lookup d.2 = some o →
    (cfg.bitsPerByte : Int) ∣ o ∨ isBitfieldType d.1 = true ∧ ∃ j e o' n, i = j + 1 ∧
      fields.decls[j]? = some e ∧ fields.offsets.lookup e.2 = some o' ∧
      bitSizeofType cfg tags (utype e.1) = .ok n ∧ o' + n = o

/-- A complete object type, as the translator declares it. -/
inductive ObjectType : CType → Prop
  | scalar {T : CType} (h : (isPointerType T || isArithmeticType T) = true) : ObjectType T
  | array {q : Quals} {m : Mods} {n s : Int} {E : CType} (hE : ObjectType E) (hn : 0 < n)
      (hs : bitSizeofType cfg tags (utype E) = .ok s) (hpos : 0 < s)
      (hbyte : (cfg.bitsPerByte : Int) ∣ s) : ObjectType (.t q m (.array (.fixed n) E))
  | aggregate {T : CType} {fields : FieldInfo} (hT : aggregateFields tags (utype T) = some fields)
      (hlayout : RecordLayout cfg tags T fields) (hbytes : ByteLayout cfg tags T fields)
      (hdist : DistinctMembers tags T)
      (hsub : ∀ d ∈ fields.decls, isFlexibleArrayType d.1 = false → ObjectType d.1) : ObjectType T

/-- `X` is `T`, or the type of an element or a member inside it. -/
inductive Within : CType → CType → Prop
  | refl {T : CType} : Within T T
  | member {T X : CType} {fields : FieldInfo} {d : CType × CId}
      (hT : aggregateFields tags (utype T) = some fields) (hd : d ∈ fields.decls)
      (h : Within d.1 X) : Within T X
  | element {q : Quals} {m : Mods} {n : Int} {E X : CType} (h : Within E X) :
      Within (.t q m (.array (.fixed n) E)) X

/-- No bit belongs to an unnamed bit-field. -/
def Clean (T : CType) : Prop := ∀ b, ¬UnnamedBit cfg tags T b

/-- Where the first FLAT field of a union stands for its first member: if there is an unnamed
    bit-field in it, the member is not anonymous, and is a struct or fills the union.  And no unnamed
    bit-field is in an anonymous union of a struct, whose members are flattened side by side. -/
structure Plain (T : CType) : Prop where
  anonymous : ∀ X fields d, Within tags T X → isStructType X = true →
    aggregateFields tags (utype X) = some fields → d ∈ fields.decls → isAnonymous d = true →
    isStructType d.1 = false → Clean cfg tags d.1
  first : ∀ X fields d, Within tags T X → isStructType X = false →
    aggregateFields tags (utype X) = some fields → fields.decls.head? = some d →
    Clean cfg tags d.1 ∨ isAnonymous d = false ∧
      (isStructType d.1 = true ∨ bitSizeofType cfg tags (utype d.1) = .ok fields.size)

/-- What a flat field traps: all its bits when it is an unnamed bit-field, and else what its type
    does. -/
def Traps (P : CType → Int → Prop) (M : FlatMember) (b : Int) : Prop :=
  (M.name.isNoName = true ∧ isBitfieldType M.type = true ∧
    ∃ n, bitSizeofType cfg tags (utype M.type) = .ok n ∧ M.offset ≤ b ∧ b < M.offset + n) ∨
  P M.type (b - M.offset)

end Spec

section Proofs

variable {cfg : Settings} {tags : Tags} {T : CType} {fields : FieldInfo} {b : Int}

theorem Plain.member (h : Plain cfg tags T) (hT : aggregateFields tags (utype T) = some fields)
    {d : CType × CId} (hd : d ∈ fields.decls) : Plain cfg tags d.1 where
  anonymous X fields' d' hX := h.anonymous X fields' d' (.member hT hd hX)
  first X fields' d' hX := h.first X fields' d' (.member hT hd hX)

theorem Plain.element {q : Quals} {m : Mods} {n : Int} {E : CType}
    (h : Plain cfg tags (.t q m (.array (.fixed n) E))) : Plain cfg tags E where
  anonymous X fields' d' hX := h.anonymous X fields' d' (.element hX)
  first X fields' d' hX := h.first X fields' d' (.element hX)

theorem not_aggregate_of_scalar (h : (isPointerType T || isArithmeticType T) = true) :
    aggregateFields tags (utype T) = none := by
  unfold aggregateFields
  split
  all_goals simp_all [isPointerType, isArithmeticType, UType.isPointer, UType.isInteger,
    UType.isUnsignedInteger, UType.isSignedInteger, UType.isEnum, UType.isFloat]

theorem ObjectType.of_fields (h : ObjectType cfg tags T)
    (hT : aggregateFields tags (utype T) = some fields) :
    RecordLayout cfg tags T fields ∧ ByteLayout cfg tags T fields ∧ DistinctMembers tags T ∧
      ∀ d ∈ fields.decls, isFlexibleArrayType d.1 = false → ObjectType cfg tags d.1 := by
  cases h with
  | scalar h =>
    rw [not_aggregate_of_scalar h] at hT
    cases hT
  | array => simp [utype, unqualSimple, aggregateFields] at hT
  | aggregate hT' hlayout hbytes hdist hsub =>
    rw [hT] at hT'
    cases hT'
    exact ⟨hlayout, hbytes, hdist, hsub⟩

theorem not_scalar_of_array {q : Quals} {m : Mods} {n : Int} {E : CType} :
    (isPointerType (.t q m (.array (.fixed n) E)) || isArithmeticType (.t q m (.array (.fixed n) E))) =
      false := by
  simp [isPointerType, isArithmeticType, utype, unqualSimple, UType.isPointer, UType.isInteger,
    UType.isUnsignedInteger, UType.isSignedInteger, UType.isEnum, UType.isFloat]

theorem ObjectType.of_array {q : Quals} {m : Mods} {n : Int} {E : CType}
    (h : ObjectType cfg tags (.t q m (.array (.fixed n) E))) :
    ObjectType cfg tags E ∧ 0 < n ∧ ∃ s, bitSizeofType cfg tags (utype E) = .ok s ∧ 0 < s ∧
      (cfg.bitsPerByte : Int) ∣ s := by
  cases h with
  | scalar h =>
    rw [not_scalar_of_array] at h
    cases h
  | array hE hn hs hpos hbyte => exact ⟨hE, hn, _, hs, hpos, hbyte⟩
  | aggregate hT => simp [utype, unqualSimple, aggregateFields] at hT

theorem not_aggregate_of_flexible (h : isFlexibleArrayType T = true) :
    aggregateFields tags (utype T) = none := by
  unfold isFlexibleArrayType at h
  split at h
  · rfl
  · cases h

theorem not_unnamedBit_of_flexible (h : isFlexibleArrayType T = true) : ¬UnnamedBit cfg tags T b := by
  intro hb
  cases hb with
  | field hT | member hT =>
    rw [not_aggregate_of_flexible h] at hT
    cases hT
  | element => cases h

/-- An anonymous member is a struct or a union. -/
theorem not_flexible_of_anonymous {d : CType × CId} (h : isAnonymous d = true) :
    isFlexibleArrayType d.1 = false := by
  by_contra hflex
  rw [Bool.not_eq_false] at hflex
  unfold isFlexibleArrayType at hflex
  split at hflex
  · simp_all [isAnonymous, utype, unqualSimple, UType.isStructOrUnion]
  · cases hflex

theorem not_bitfield_of_anonymous {d : CType × CId} (h : isAnonymous d = true) :
    isBitfieldType d.1 = false := by
  by_contra hbit
  rw [Bool.not_eq_false] at hbit
  unfold isBitfieldType at hbit
  split at hbit
  · simp_all [isAnonymous, utype, unqualSimple, UType.isStructOrUnion]
  · cases hbit

theorem exists_fields_of_anonymous {d : CType × CId} (h : isAnonymous d = true) :
    ∃ fields, aggregateFields tags (utype d.1) = some fields := by
  simp only [isAnonymous, Bool.and_eq_true] at h
  exact isStructOrUnion_iff.mp h.1

theorem ObjectType.laidOut (h : ObjectType cfg tags T)
    (hT : aggregateFields tags (utype T) = some fields) : LaidOut cfg tags T := by
  induction h generalizing fields with
  | scalar h =>
    rw [not_aggregate_of_scalar h] at hT
    cases hT
  | array => simp [utype, unqualSimple, aggregateFields] at hT
  | aggregate hT' hlayout _ _ _ ih =>
    refine .mk hT' hlayout fun d hd hanon => ?_
    obtain ⟨fields', hfields'⟩ := exists_fields_of_anonymous hanon
    exact ih d hd (not_flexible_of_anonymous hanon) hfields'

/-! ## Where the unnamed bit-fields are -/

/-- A bit of an unnamed bit-field of an object is a bit of the object. -/
theorem UnnamedBit.inside (h : UnnamedBit cfg tags T b) (hT : ObjectType cfg tags T) {n : Int}
    (hn : bitSizeofType cfg tags (utype T) = .ok n) : 0 ≤ b ∧ b < n := by
  induction h generalizing n with
  | @field T fields d o k b hT' hd _ _ ho hk hlo hhi =>
    obtain ⟨hlayout, -⟩ := hT.of_fields hT'
    obtain ⟨k', o', hk', ho', h0, hend⟩ := hlayout.inside d hd
    rw [hk] at hk'
    rw [ho] at ho'
    cases hk'
    cases ho'
    rw [bitSizeofType_of_aggregateFields hT'] at hn
    cases hn
    omega
  | @member T fields d o b hT' hd ho hb ih =>
    obtain ⟨hlayout, -, -, hsub⟩ := hT.of_fields hT'
    obtain ⟨k, o', hk, ho', h0, hend⟩ := hlayout.inside d hd
    rw [ho] at ho'
    cases ho'
    rw [bitSizeofType_of_aggregateFields hT'] at hn
    cases hn
    cases hflex : isFlexibleArrayType d.1 with
    | true => exact absurd hb (not_unnamedBit_of_flexible hflex)
    | false =>
      obtain ⟨hlo, hhi⟩ := ih (hsub d hd hflex) hk
      omega
  | @element q m k E s i b hs h0 hi _ ih =>
    obtain ⟨hE, -⟩ := hT.of_array
    obtain ⟨hlo, hhi⟩ := ih hE hs
    have hsize : n = s * k := by
      simp only [utype, unqualSimple, bitSizeofType, hs, Eval.ok_bind] at hn
      cases hn
      rfl
    have hmul : (i + 1) * s ≤ k * s := by
      have hs0 : 0 ≤ s := by omega
      exact mul_le_mul_of_nonneg_right hi hs0
    have hi0 : 0 ≤ i * s := mul_nonneg h0 (by omega)
    rw [hsize, mul_comm s k]
    rw [add_mul, one_mul] at hmul
    omega

theorem not_initialTrap_of_flexible (h : isFlexibleArrayType T = true) : ¬InitialTrap cfg tags T b := by
  intro hb
  cases hb with
  | field _ hT | member _ hT | first _ hT =>
    rw [not_aggregate_of_flexible h] at hT
    cases hT
  | element => cases h

/-- What is initialised to a trap is an unnamed bit-field. -/
theorem InitialTrap.unnamedBit (h : InitialTrap cfg tags T b) (hT : ObjectType cfg tags T) :
    UnnamedBit cfg tags T b := by
  induction h with
  | field _ hT' hd hname hbit ho hn hlo hhi => exact .field hT' hd hname hbit ho hn hlo hhi
  | @member T fields d o b _ hT' hd ho hb ih =>
    obtain ⟨-, -, -, hsub⟩ := hT.of_fields hT'
    cases hflex : isFlexibleArrayType d.1 with
    | false => exact .member hT' hd ho (ih (hsub d hd hflex))
    | true => exact absurd hb (not_initialTrap_of_flexible hflex)
  | @first T fields d b hunion hT' hd hb ih =>
    obtain ⟨-, hbytes, -, hsub⟩ := hT.of_fields hT'
    have hmem := List.mem_of_mem_head? hd
    cases hflex : isFlexibleArrayType d.1 with
    | false =>
      refine .member hT' hmem (hbytes.union hunion d hmem) ?_
      rw [sub_zero]
      exact ih (hsub d hmem hflex)
    | true => exact absurd hb (not_initialTrap_of_flexible hflex)
  | element hs h0 hi _ ih => exact .element hs h0 hi (ih hT.of_array.1)

theorem traps_shift (P : CType → Int → Prop) (M : FlatMember) (i : ℕ) (o : Int) :
    Traps cfg tags P (M.shift i o) b ↔ Traps cfg tags P M (b - o) := by
  have hsub : b - (M.offset + o) = b - o - M.offset := by omega
  simp only [Traps, FlatMember.shift, hsub]
  constructor
  · rintro (⟨hname, hbit, n, hn, hlo, hhi⟩ | h)
    · exact .inl ⟨hname, hbit, n, hn, by omega, by omega⟩
    · exact .inr h
  · rintro (⟨hname, hbit, n, hn, hlo, hhi⟩ | h)
    · exact .inl ⟨hname, hbit, n, hn, by omega, by omega⟩
    · exact .inr h

/-- The type of a flat field is that of a member. -/
theorem objectType_of_member {M : FlatMember} (h : MemberAt tags T M) (hT : ObjectType cfg tags T)
    (hflex : isFlexibleArrayType M.type = false) : ObjectType cfg tags M.type := by
  induction h with
  | here hT' hi _ _ => exact (hT.of_fields hT').2.2.2 _ (List.mem_of_getElem? hi) hflex
  | under hT' hi hd _ _ ih =>
    exact ih ((hT.of_fields hT').2.2.2 _ (List.mem_of_getElem? hi) (not_flexible_of_anonymous hd)) hflex

/-- What a flat field traps belongs to an unnamed bit-field. -/
theorem unnamedBit_of_member {M : FlatMember} (h : MemberAt tags T M)
    (hb : Traps cfg tags (UnnamedBit cfg tags) M b) : UnnamedBit cfg tags T b := by
  induction h generalizing b with
  | here hT hi _ ho =>
    rcases hb with ⟨hname, hbit, n, hn, hlo, hhi⟩ | hb
    · exact .field hT (List.mem_of_getElem? hi) hname hbit ho hn hlo hhi
    · exact .member hT (List.mem_of_getElem? hi) ho hb
  | under hT hi _ ho _ ih =>
    rw [traps_shift] at hb
    exact .member hT (List.mem_of_getElem? hi) ho (ih hb)

theorem Traps.unnamedBit {M : FlatMember} (h : MemberAt tags T M) (hT : ObjectType cfg tags T)
    (hb : Traps cfg tags (InitialTrap cfg tags) M b) : Traps cfg tags (UnnamedBit cfg tags) M b := by
  refine hb.imp_right fun hb => ?_
  cases hflex : isFlexibleArrayType M.type with
  | true => exact absurd hb (not_initialTrap_of_flexible hflex)
  | false => exact hb.unnamedBit (objectType_of_member h hT hflex)

/-- No flat field of an anonymous union traps a bit. -/
theorem not_traps_of_clean {M : FlatMember} (h : MemberAt tags T M) (hT : ObjectType cfg tags T)
    (hclean : Clean cfg tags T) : ¬Traps cfg tags (InitialTrap cfg tags) M b :=
  fun hb => hclean b (unnamedBit_of_member h (hb.unnamedBit h hT))

/-- What a flat field of a struct traps is a trap of the struct. -/
theorem initialTrap_of_member {M : FlatMember} (h : MemberAt tags T M) (hT : ObjectType cfg tags T)
    (hplain : Plain cfg tags T) (hstruct : isStructType T = true)
    (hb : Traps cfg tags (InitialTrap cfg tags) M b) : InitialTrap cfg tags T b := by
  induction h generalizing b with
  | here hT' hi _ ho =>
    rcases hb with ⟨hname, hbit, n, hn, hlo, hhi⟩ | hb
    · exact .field hstruct hT' (List.mem_of_getElem? hi) hname hbit ho hn hlo hhi
    · exact .member hstruct hT' (List.mem_of_getElem? hi) ho hb
  | @under T fields i d o M hT' hi hd ho hM ih =>
    have hmem := List.mem_of_getElem? hi
    have hobject := (hT.of_fields hT').2.2.2 d hmem (not_flexible_of_anonymous hd)
    rw [traps_shift] at hb
    cases hkind : isStructType d.1 with
    | true => exact .member hstruct hT' hmem ho (ih hobject (hplain.member hT' hmem) hkind hb)
    | false =>
      have hclean := hplain.anonymous T fields d .refl hstruct hT' hmem hd hkind
      exact absurd hb (not_traps_of_clean hM hobject hclean)

/-- **Every trap of a struct is in a flat field.** -/
theorem InitialTrap.exists_member (h : InitialTrap cfg tags T b) (hT : ObjectType cfg tags T)
    (hplain : Plain cfg tags T) (hstruct : isStructType T = true) :
    ∃ M, MemberAt tags T M ∧ Traps cfg tags (InitialTrap cfg tags) M b := by
  induction h with
  | @field T fields d o n b _ hT' hd hname hbit ho hn hlo hhi =>
    obtain ⟨i, hi⟩ := List.getElem?_of_mem hd
    cases hanon : isAnonymous d with
    | true => rw [not_bitfield_of_anonymous hanon] at hbit; cases hbit
    | false => exact ⟨_, .here hT' hi hanon ho, .inl ⟨hname, hbit, n, hn, hlo, hhi⟩⟩
  | @member T fields d o b _ hT' hd ho hb ih =>
    obtain ⟨i, hi⟩ := List.getElem?_of_mem hd
    cases hanon : isAnonymous d with
    | false => exact ⟨_, .here hT' hi hanon ho, .inr hb⟩
    | true =>
      have hobject := (hT.of_fields hT').2.2.2 d hd (not_flexible_of_anonymous hanon)
      cases hkind : isStructType d.1 with
      | true =>
        obtain ⟨M, hM, htraps⟩ := ih hobject (hplain.member hT' hd) hkind
        exact ⟨M.shift i o, .under hT' hi hanon ho hM, (traps_shift _ M i o).mpr htraps⟩
      | false =>
        have hclean := hplain.anonymous T fields d .refl hstruct hT' hd hanon hkind
        exact absurd (hb.unnamedBit hobject) (hclean _)
  | first hunion => rw [hstruct] at hunion; cases hunion
  | element => cases hstruct

/-- The bits of a flat field. -/
def Covers (cfg : Settings) (tags : Tags) (M : FlatMember) (b : Int) : Prop :=
  ∃ n, bitSizeofType cfg tags (utype M.type) = .ok n ∧ M.offset ≤ b ∧ b < M.offset + n

theorem Traps.covers {M : FlatMember} (h : MemberAt tags T M) (hT : ObjectType cfg tags T)
    (hfields : aggregateFields tags (utype T) = some fields)
    (hb : Traps cfg tags (InitialTrap cfg tags) M b) : Covers cfg tags M b := by
  rcases hb with ⟨-, -, n, hn, hlo, hhi⟩ | hb
  · exact ⟨n, hn, hlo, hhi⟩
  · cases hflex : isFlexibleArrayType M.type with
    | true => exact absurd hb (not_initialTrap_of_flexible hflex)
    | false =>
      have hobject := objectType_of_member h hT hflex
      obtain ⟨n, hn, -, -⟩ := h.inside (hT.laidOut hfields) hfields
      obtain ⟨hlo, hhi⟩ := (hb.unnamedBit hobject).inside hobject hn
      exact ⟨n, hn, by omega, by omega⟩

/-- Two declarations of a struct have no bit in common. -/
theorem decl_unique (hlayout : RecordLayout cfg tags T fields) (hstruct : isStructType T = true)
    {i j : ℕ} {d e : CType × CId} {o o' n n' : Int} (hi : fields.decls[i]? = some d)
    (hj : fields.decls[j]? = some e) (ho : fields.offsets.lookup d.2 = some o)
    (ho' : fields.offsets.lookup e.2 = some o') (hn : bitSizeofType cfg tags (utype d.1) = .ok n)
    (hn' : bitSizeofType cfg tags (utype e.1) = .ok n') (hlo : o ≤ b) (hhi : b < o + n) (hlo' : o' ≤ b)
    (hhi' : b < o' + n') : i = j := by
  have horder := List.pairwise_iff_getElem.mp (hlayout.inOrder hstruct)
  obtain ⟨hil, hi⟩ := List.getElem?_eq_some_iff.mp hi
  obtain ⟨hjl, hj⟩ := List.getElem?_eq_some_iff.mp hj
  rcases Nat.lt_trichotomy i j with hlt | heq | hgt
  · obtain ⟨k, p, p', hk, hp, hp', hle⟩ := horder i j hil hjl hlt
    rw [hi] at hk hp
    rw [hj] at hp'
    rw [hn] at hk
    rw [ho] at hp
    rw [ho'] at hp'
    cases hk
    cases hp
    cases hp'
    omega
  · exact heq
  · obtain ⟨k, p, p', hk, hp, hp', hle⟩ := horder j i hjl hil hgt
    rw [hj] at hk hp
    rw [hi] at hp'
    rw [hn'] at hk
    rw [ho'] at hp
    rw [ho] at hp'
    cases hk
    cases hp
    cases hp'
    omega

/-- Flat fields of a struct share no bit that one of them traps. -/
theorem member_unique {M M' : FlatMember} (h : MemberAt tags T M) (h' : MemberAt tags T M')
    (hT : ObjectType cfg tags T) (hplain : Plain cfg tags T) (hstruct : isStructType T = true)
    (hb : Traps cfg tags (InitialTrap cfg tags) M b) (hb' : Covers cfg tags M' b) : M = M' := by
  induction h generalizing b M' with
  | @here T fields i d o hT' hi hd ho =>
    obtain ⟨hlayout, -⟩ := hT.of_fields hT'
    obtain ⟨n, hn, hlo, hhi⟩ := hb.covers (.here hT' hi hd ho) hT hT'
    obtain ⟨j, p, e, o', n', k, hpath, hj, ho', hn', hk, hle, hend⟩ := h'.inside_head (hT.laidOut hT') hT'
    obtain ⟨k', hk', hlo', hhi'⟩ := hb'
    rw [hk] at hk'
    cases hk'
    obtain rfl := decl_unique hlayout hstruct hi hj ho ho' hn hn' hlo hhi (by omega) (by omega)
    obtain ⟨j', e', o'', hj', ho'', ⟨-, rfl⟩ | ⟨he, M'', -, rfl⟩⟩ := h'.cases_head hT'
    · cases hpath
      rw [hi] at hj'
      cases hj'
      rw [ho] at ho''
      cases ho''
      rfl
    · cases hpath
      rw [hi] at hj'
      cases hj'
      rw [hd] at he
      cases he
  | @under T fields i d o M hT' hi hd ho hM ih =>
    obtain ⟨hlayout, -, -, hsub⟩ := hT.of_fields hT'
    have hmem := List.mem_of_getElem? hi
    have hobject := hsub d hmem (not_flexible_of_anonymous hd)
    obtain ⟨k₀, hk₀, hlo₀, hhi₀⟩ := hb.covers (.under hT' hi hd ho hM) hT hT'
    obtain ⟨i', p', d', o₁, n, k, hpath₁, hi', ho₁, hn, hk, hle₁, hend₁⟩ :=
      (MemberAt.under hT' hi hd ho hM).inside_head (hT.laidOut hT') hT'
    cases hpath₁
    rw [hi] at hi'
    cases hi'
    rw [hk₀] at hk
    cases hk
    obtain ⟨j, p, e, o', n', k, hpath, hj, ho', hn', hk, hle, hend⟩ := h'.inside_head (hT.laidOut hT') hT'
    obtain ⟨k', hk', hlo', hhi'⟩ := hb'
    rw [hk] at hk'
    cases hk'
    obtain rfl := decl_unique (b := b) hlayout hstruct hi hj ho₁ ho' hn hn' (by omega) (by omega) (by omega)
      (by omega)
    rw [traps_shift] at hb
    cases hkind : isStructType d.1 with
    | false =>
      have hclean := hplain.anonymous T fields d .refl hstruct hT' hmem hd hkind
      exact absurd hb (not_traps_of_clean hM hobject hclean)
    | true =>
      obtain ⟨j', e', o'', hj', ho'', ⟨he, rfl⟩ | ⟨-, M'', hM'', rfl⟩⟩ := h'.cases_head hT'
      · cases hpath
        rw [hi] at hj'
        cases hj'
        rw [hd] at he
        cases he
      · cases hpath
        rw [hi] at hj'
        cases hj'
        rw [ho] at ho''
        cases ho''
        have hcovers : Covers cfg tags M'' (b - o) := by
          simp only [FlatMember.shift] at hk hlo' hhi'
          exact ⟨k, hk, by omega, by omega⟩
        rw [ih hM'' hobject (hplain.member hT' hmem) hkind hb hcovers]

/-- A flat field that is not a bit-field starts at a byte. -/
theorem member_aligned {M : FlatMember} (h : MemberAt tags T M) (hT : ObjectType cfg tags T)
    (hbit : isBitfieldType M.type = false) : (cfg.bitsPerByte : Int) ∣ M.offset := by
  induction h with
  | @here T fields i d o hT' hi _ ho =>
    obtain ⟨-, hbytes, -⟩ := hT.of_fields hT'
    rcases hbytes.aligned i d o hi ho with hdvd | ⟨hbit', -⟩
    · exact hdvd
    · simp only at hbit
      rw [hbit] at hbit'
      cases hbit'
  | @under T fields i d o M hT' hi hd ho hM ih =>
    obtain ⟨-, hbytes, -, hsub⟩ := hT.of_fields hT'
    have hobject := hsub d (List.mem_of_getElem? hi) (not_flexible_of_anonymous hd)
    rcases hbytes.aligned i d o hi ho with hdvd | ⟨hbit', -⟩
    · exact dvd_add (ih hobject hbit) hdvd
    · rw [not_bitfield_of_anonymous hd] at hbit'
      cases hbit'

/-- **No gap before a flat field inside a byte**: it starts at a byte, or where a field before it
    ends. -/
theorem member_follows {M : FlatMember} (h : MemberAt tags T M) (hT : ObjectType cfg tags T) :
    (cfg.bitsPerByte : Int) ∣ M.offset ∨ ∃ G, MemberAt tags T G ∧ G.path < M.path ∧
      ∃ n, bitSizeofType cfg tags (utype G.type) = .ok n ∧ G.offset + n = M.offset := by
  induction h with
  | @here T fields i d o hT' hi _ ho =>
    obtain ⟨-, hbytes, -, hsub⟩ := hT.of_fields hT'
    rcases hbytes.aligned i d o hi ho with hdvd | ⟨-, j, e, o', n, rfl, hj, ho', hn, hend⟩
    · exact .inl hdvd
    · cases he : isAnonymous e with
      | false =>
        refine .inr ⟨_, .here hT' hj he ho', ?_, n, hn, hend⟩
        exact List.cons_lt_cons_iff.mpr (.inl (Nat.lt_succ_self j))
      | true =>
        -- an anonymous member starts at a byte and is whole bytes long
        obtain ⟨fields', he'⟩ := @exists_fields_of_anonymous tags e he
        have hobject := hsub e (List.mem_of_getElem? hj) (not_flexible_of_anonymous he)
        rw [bitSizeofType_of_aggregateFields he'] at hn
        cases hn
        left
        rw [← hend]
        refine dvd_add ?_ (hobject.of_fields he').2.1.size
        rcases hbytes.aligned j e o' hj ho' with hdvd | ⟨hbit, -⟩
        · exact hdvd
        · rw [not_bitfield_of_anonymous he] at hbit
          cases hbit
  | @under T fields i d o M hT' hi hd ho hM ih =>
    obtain ⟨-, hbytes, -, hsub⟩ := hT.of_fields hT'
    have hobject := hsub d (List.mem_of_getElem? hi) (not_flexible_of_anonymous hd)
    rcases ih hobject with hdvd | ⟨G, hG, hlt, n, hn, hend⟩
    · left
      rcases hbytes.aligned i d o hi ho with hdvd' | ⟨hbit, -⟩
      · exact dvd_add hdvd hdvd'
      · rw [not_bitfield_of_anonymous hd] at hbit
        cases hbit
    · refine .inr ⟨G.shift i o, .under hT' hi hd ho hG, ?_, n, hn, ?_⟩
      · exact List.cons_lt_cons_iff.mpr (.inr ⟨rfl, hlt⟩)
      · simp only [FlatMember.shift]
        omega

/-! ## The records of the translator -/

/-- While a struct is laid out: the last declaration ends at `V`, and what does not start at a byte is
    a bit-field that starts where the declaration before it ends. -/
structure LaidBytes (cfg : Settings) (tags : Tags) (V : Int) (offsets : List (CId × Int))
    (NL : List (CType × CId)) : Prop where
  start : NL = [] → V = 0
  last : ∀ j e, NL[j]? = some e → j + 1 = NL.length → ∃ o n, offsets.lookup e.2 = some o ∧
    bitSizeofType cfg tags (utype e.1) = .ok n ∧ o + n = V
  aligned : ∀ i d o, NL[i]? = some d → offsets.lookup d.2 = some o →
    (cfg.bitsPerByte : Int) ∣ o ∨ isBitfieldType d.1 = true ∧ ∃ j e o' n, i = j + 1 ∧
      NL[j]? = some e ∧ offsets.lookup e.2 = some o' ∧ bitSizeofType cfg tags (utype e.1) = .ok n ∧ o' + n = o

/-- One more declaration. -/
theorem LaidBytes.step {V o n : Int} {offsets : List (CId × Int)} {NL : List (CType × CId)} {X : CType}
    {x : CId} (h : LaidBytes cfg tags V offsets NL) (hx : ∀ d ∈ NL, d.2 ≠ x)
    (hsize : bitSizeofType cfg tags (utype X) = .ok n)
    (ho : (cfg.bitsPerByte : Int) ∣ o ∨ isBitfieldType X = true ∧ o = V) :
    LaidBytes cfg tags (o + n) (update offsets x o) (NL ++ [(X, x)]) := by
  have hkeep : ∀ {i : ℕ} {d : CType × CId}, NL[i]? = some d →
      (update offsets x o).lookup d.2 = offsets.lookup d.2 := fun hd =>
    lookup_update_of_ne offsets o (hx _ (List.mem_of_getElem? hd))
  refine ⟨by simp, ?_, ?_⟩
  · intro j e he hj
    obtain rfl : j = NL.length := by simpa using hj
    rw [List.getElem?_concat_length] at he
    cases he
    exact ⟨o, n, lookup_update_self offsets x o, hsize, rfl⟩
  · intro i d o' hd ho'
    rcases lt_or_ge i NL.length with hi | hi
    · -- an earlier declaration is where it was
      rw [List.getElem?_append_left hi] at hd
      rw [hkeep hd] at ho'
      refine (h.aligned i d o' hd ho').imp_right fun ⟨hbit, j, e, oe, m, hij, he, hoe, hm, hend⟩ => ?_
      exact ⟨hbit, j, e, oe, m, hij, by rw [List.getElem?_append_left (by omega), he],
        by rw [hkeep he, hoe], hm, hend⟩
    · obtain ⟨rfl, rfl⟩ : i = NL.length ∧ d = (X, x) := by
        have hlt := (List.getElem?_eq_some_iff.mp hd).1
        rw [List.length_append, List.length_singleton] at hlt
        obtain rfl : i = NL.length := by omega
        rw [List.getElem?_concat_length] at hd
        cases hd
        exact ⟨rfl, rfl⟩
      rw [lookup_update_self] at ho'
      cases ho'
      rcases ho with hdvd | ⟨hbit, rfl⟩
      · exact .inl hdvd
      · by_cases hNL : NL = []
        · rw [h.start hNL]
          exact .inl (dvd_zero _)
        · have hlen := List.length_pos_of_ne_nil hNL
          have hlast : NL[NL.length - 1]? = some NL[NL.length - 1] := List.getElem?_eq_getElem (by omega)
          obtain ⟨oe, m, hoe, hm, hend⟩ := h.last _ _ hlast (by omega)
          refine .inr ⟨hbit, NL.length - 1, _, oe, m, by omega, ?_, by rw [hkeep hlast, hoe], hm, hend⟩
          rw [List.getElem?_append_left (by omega), hlast]

/-- The walk over the members of a struct. -/
theorem makeStructFieldInfo'_bytes {pack : Bool} {packV : Int} (hpack : 1 ≤ packV) (L : List (CType × CId))
    {V : Int} {types : List (CId × CType)} {offsets : List (CId × Int)} {NL : List (CType × CId)}
    {info : FieldInfo} (hL : ∀ d ∈ members L, Sized cfg tags d.1)
    (hnames : ((NL ++ members L).map Prod.snd).Nodup) (hV : 0 ≤ V) (h : LaidBytes cfg tags V offsets NL)
    (hinfo : makeStructFieldInfo' cfg tags pack packV L V types offsets NL = .ok info) :
    ∃ V', LaidBytes cfg tags V' info.offsets info.decls := by
  induction L generalizing V types offsets NL with
  | nil =>
    rw [makeStructFieldInfo', finishStruct] at hinfo
    obtain ⟨size, -, hinfo⟩ := Eval.bind_eq_ok.mp hinfo
    obtain ⟨padding, -, hinfo⟩ := Eval.bind_eq_ok.mp hinfo
    cases hinfo
    exact ⟨V, h⟩
  | cons d L ih =>
    obtain ⟨X, x⟩ := d
    rw [makeStructFieldInfo'] at hinfo
    cases hskip : declaresNothing (X, x) with
    | true =>
      have hmem : members ((X, x) :: L) = members L := by simp [members, hskip]
      rw [hmem] at hL hnames
      rw [hskip, if_pos rfl] at hinfo
      exact ih hL hnames hV h hinfo
    | false =>
      have hmem : members ((X, x) :: L) = (X, x) :: members L := by simp [members, hskip]
      rw [hmem] at hL hnames
      have hX := hL (X, x) (by simp)
      obtain ⟨n, hn, hsize⟩ := hX.1
      obtain ⟨o, ho, hVo, -⟩ := pad_spec hpack hV hX
      have hx : ∀ d ∈ NL, d.2 ≠ x := by
        intro d hd heq
        rw [List.map_append, List.map_cons] at hnames
        exact (List.nodup_append.mp hnames).2.2 d.2 (List.mem_map_of_mem hd) x (by simp) heq
      rw [hskip, if_neg (by simp)] at hinfo
      simp only [ho, hsize, Eval.ok_bind] at hinfo
      exact ih (fun d hd => hL d (by simp [hd])) (by rwa [List.append_assoc, List.singleton_append])
        (by omega) (h.step hx hsize (pad_aligned hpack hV hX ho)) hinfo

/-- A declaration without a name that declares a member is an anonymous member or a bit-field. -/
theorem unnamed_of_mem_members {Fs : List (CType × CId)} {d : CType × CId} (hd : d ∈ members Fs)
    (hname : d.2.isNoName = true) : isAnonymous d = true ∨ isBitfieldType d.1 = true := by
  have hdeclares : declaresNothing d = false := by
    have := (List.mem_filter.mp hd).2
    simpa using this
  cases hbit : isBitfieldType d.1 with
  | true => exact .inr rfl
  | false =>
    left
    simp only [declaresNothing, hname, hbit, Bool.true_and, Bool.not_false, Bool.and_true,
      Bool.not_eq_false'] at hdeclares
    unfold isUnnamedStructOrUnionType at hdeclares
    rw [isAnonymous, hname, Bool.and_true]
    split at hdeclares
    · rename_i heq
      rw [heq]
      rfl
    · rename_i heq
      rw [heq]
      rfl
    · cases hdeclares

/-- **The record of a struct** shares bytes so: every list of declarations with sizes, alignments and
    different names that does not start with a flexible array is laid out in a `ByteLayout`. -/
theorem makeStructFieldInfo_byteLayout (pack : Bool) {packV : Int} (hpack : 1 ≤ packV) {T : CType}
    (hT : isStructType T = true) (Fs : List (CType × CId)) (hFs : ∀ d ∈ members Fs, Sized cfg tags d.1)
    (hnames : ((members Fs).map Prod.snd).Nodup) (hne : members Fs ≠ [])
    (hflex : ∀ d, (members Fs).head? = some d → isFlexibleArrayType d.1 = false) :
    ∃ info, makeStructFieldInfo cfg tags pack packV Fs = .ok info ∧ ByteLayout cfg tags T info := by
  obtain ⟨info, hinfo, hlayout⟩ := makeStructFieldInfo_layout cfg tags pack packV hpack Fs hFs hnames
  obtain ⟨V, hbytes⟩ := makeStructFieldInfo'_bytes hpack Fs hFs (by simpa using hnames) (le_refl 0)
    ⟨fun _ => rfl, by simp, by simp⟩ hinfo
  refine ⟨info, hinfo, ?_⟩
  rw [← hlayout.decls] at hne hflex hFs
  refine ⟨hne, fun d hd => unnamed_of_mem_members (hlayout.decls ▸ hd), ?_, ?_, hflex, ?_, hbytes.aligned⟩
  · intro d hd n hn
    obtain ⟨⟨m, hm, hsize⟩, -⟩ := hFs d hd
    rw [hsize] at hn
    cases hn
    exact hm
  · exact (Dvd.intro_left _ rfl).trans hlayout.size
  · intro h
    rw [hT] at h
    cases h

/-- **The record of a union** shares its first byte among all its members. -/
theorem makeUnionFieldInfo_byteLayout (pack : Bool) (packV : Int) {T : CType} (hT : isStructType T = false)
    (Fs : List (CType × CId)) (hFs : ∀ d ∈ members Fs, ∃ n, 0 ≤ n ∧ bitSizeofType cfg tags (utype d.1) = .ok n)
    (hnames : ((members Fs).map Prod.snd).Nodup) (hne : members Fs ≠ [])
    (hflex : ∀ d, (members Fs).head? = some d → isFlexibleArrayType d.1 = false) :
    ∃ info, makeUnionFieldInfo cfg tags pack packV Fs = .ok info ∧ ByteLayout cfg tags T info := by
  obtain ⟨info, hinfo, -, hdecls, hoffsets, hsize⟩ := @makeUnionFieldInfo'_spec cfg tags pack packV T hT Fs
    [] [] [] (by simpa using hFs) (by simpa using hnames) (by simp) (by simp)
  rw [List.nil_append] at hdecls
  refine ⟨info, hinfo, ?_⟩
  rw [← hdecls] at hne hflex hFs
  refine ⟨hne, fun d hd => unnamed_of_mem_members (hdecls ▸ hd), ?_, hsize, hflex, fun _ => hoffsets, ?_⟩
  · intro d hd n hn
    obtain ⟨m, hm, hsize⟩ := hFs d hd
    rw [hsize] at hn
    cases hn
    exact hm
  · intro i d o hd ho
    rw [hoffsets d (List.mem_of_getElem? hd)] at ho
    cases ho
    exact .inl (dvd_zero _)

/-! ## The walk over a struct -/

/-- The bits `[off, off + n)` lie in one byte. -/
def InByte (cfg : Settings) (off n : Int) : Prop :=
  ∃ q : Int, q * cfg.bitsPerByte ≤ off ∧ off + n ≤ (q + 1) * cfg.bitsPerByte

/-- What starts at a byte and before the end of a stretch inside one byte starts before it. -/
theorem InByte.le_of_dvd {off n o : Int} (h : InByte cfg off n) (hdvd : (cfg.bitsPerByte : Int) ∣ o)
    (hlt : o < off + n) : o ≤ off := by
  obtain ⟨q, hlo, hhi⟩ := h
  obtain ⟨c, rfl⟩ := hdvd
  have hb : (0 : Int) < (cfg.bitsPerByte : Nat) := by exact_mod_cast cfg.bitsPerByte.pos
  have hcq : (cfg.bitsPerByte : Int) * c < cfg.bitsPerByte * (q + 1) := by
    rw [mul_comm _ (q + 1)]
    omega
  have hle : c ≤ q := by
    have := lt_of_mul_lt_mul_left hcq (le_of_lt hb)
    omega
  have hmul : (cfg.bitsPerByte : Int) * c ≤ cfg.bitsPerByte * q := mul_le_mul_of_nonneg_left hle (le_of_lt hb)
  rw [mul_comm _ q] at hmul
  omega

theorem InByte.sub {off n o : Int} (h : InByte cfg off n) (hdvd : (cfg.bitsPerByte : Int) ∣ o) :
    InByte cfg (off - o) n := by
  obtain ⟨q, hlo, hhi⟩ := h
  obtain ⟨c, rfl⟩ := hdvd
  refine ⟨q - c, ?_, ?_⟩
  · rw [sub_mul, mul_comm c]
    omega
  · have heq : (q - c + 1) * (cfg.bitsPerByte : Int) = (q + 1) * cfg.bitsPerByte - cfg.bitsPerByte * c := by
      ring
    rw [heq]
    omega

theorem InByte.part {off n off' n' : Int} (h : InByte cfg off n) (hlo : off ≤ off')
    (hhi : off' + n' ≤ off + n) : InByte cfg off' n' := by
  obtain ⟨q, hq, hq'⟩ := h
  exact ⟨q, by omega, by omega⟩

/-- A flat field without a name is a bit-field. -/
theorem bitfield_of_unnamed {M : FlatMember} (h : MemberAt tags T M) (hT : ObjectType cfg tags T)
    (hname : M.name.isNoName = true) : isBitfieldType M.type = true := by
  induction h with
  | @here T fields i d o hT' hi hd _ =>
    obtain ⟨-, hbytes, -⟩ := hT.of_fields hT'
    rcases hbytes.unnamed d (List.mem_of_getElem? hi) hname with hanon | hbit
    · rw [hd] at hanon
      cases hanon
    · exact hbit
  | under hT' hi hd _ _ ih =>
    obtain ⟨-, -, -, hsub⟩ := hT.of_fields hT'
    exact ih (hsub _ (List.mem_of_getElem? hi) (not_flexible_of_anonymous hd)) hname

theorem bitSizeofType_flexible (h : isFlexibleArrayType T = true) :
    bitSizeofType cfg tags (utype T) = .ok 0 := by
  unfold isFlexibleArrayType at h
  split at h
  · rfl
  · cases h

theorem size_nonneg_of_member {M : FlatMember} (h : MemberAt tags T M) (hT : ObjectType cfg tags T)
    {n : Int} (hn : bitSizeofType cfg tags (utype M.type) = .ok n) : 0 ≤ n := by
  induction h with
  | here hT' hi _ _ => exact (hT.of_fields hT').2.1.nonneg _ (List.mem_of_getElem? hi) n hn
  | under hT' hi hd _ _ ih =>
    exact ih ((hT.of_fields hT').2.2.2 _ (List.mem_of_getElem? hi) (not_flexible_of_anonymous hd)) hn

/-- `zeroed` reads the bits of `T` in a stretch of one byte inside `T`. -/
def ReadsType (cfg : Settings) (tags : Tags) (zeroed : Int → Int → CType → Eval Bits) (T : CType) : Prop :=
  ∀ off n : Int, 0 ≤ off → 0 ≤ n → (isBitfieldType T = true ∨ InByte cfg off n) →
    (∃ s, bitSizeofType cfg tags (utype T) = .ok s ∧ off + n ≤ s) →
    ∃ bits, zeroed off n T = .ok bits ∧ Reads (InitialTrap cfg tags T) off n.toNat bits

/-- One step of the walk, at a member of the struct. -/
theorem getZeroedBits2_step {zeroed : Int → Int → CType → Eval Bits} (hstruct : isStructType T = true)
    (hdist : DistinctMembers tags T) {ms : List FlatMember} (hms : ListsMembers tags T ms) {M : FlatMember}
    (hmem : M ∈ ms) (size : Int) (padding : List Int) (maxAlign : Int) {s : Int}
    (hs : bitSizeofType cfg tags (utype M.type) = .ok s) (after : List FlatMember) (off : Int) {n : Int}
    (hzero : n ≠ 0) :
    getZeroedBits2 cfg tags zeroed T (ofMembers ms size padding maxAlign)
        ((M :: after).map fun M => (M.type, M.name)) off n =
      if M.offset + s ≤ off ∨ off + n ≤ M.offset then
        getZeroedBits2 cfg tags zeroed T (ofMembers ms size padding maxAlign)
          (after.map fun M => (M.type, M.name)) off n
      else
        (if M.name.isNoName then
            .ok ⟨.atom .trap, (min (M.offset + s) (off + n) - max M.offset off).toNat⟩
          else zeroed (max M.offset off - M.offset)
            (min (M.offset + s) (off + n) - max M.offset off) M.type : Eval Bits) >>= fun bits =>
        getZeroedBits2 cfg tags zeroed T (ofMembers ms size padding maxAlign)
          (after.map fun M => (M.type, M.name)) (min (M.offset + s) (off + n))
          (n - (min (M.offset + s) (off + n) - max M.offset off)) >>= fun rest =>
        .ok (bits.join rest) := by
  have hM := (hms.complete M).mp hmem
  have hunique : ∀ M' ∈ ms, M'.name = M.name → M' = M := fun M' hM' hname =>
    hdist M' M ((hms.complete M').mp hM') hM hname
  have htype := lookup_of_members FlatMember.type hmem hunique
  have hoffset := lookup_of_members FlatMember.offset hmem hunique
  rw [List.map_cons, getZeroedBits2, if_neg hzero, if_neg (by simp [hstruct])]
  simp only [ofMembers, FieldInfo.types, FieldInfo.offsets, htype, hoffset, hs, Eval.ok_bind]
  cases M.name.isNoName <;> rfl

/-- A field that is not behind the stretch that is left starts at or before it: what is before the
    field in the byte has been read. -/
theorem field_starts_before (hobject : ObjectType cfg tags T) {ms before after : List FlatMember}
    {M : FlatMember} (hms : ListsMembers tags T ms) (hsplit : ms = before ++ M :: after) {off n : Int}
    (hn : 0 < n) (hbyte : InByte cfg off n) (hstart : M.offset < off + n)
    (hdone : ∀ G ∈ before, ∀ k, bitSizeofType cfg tags (utype G.type) = .ok k →
      G.offset + k ≤ off ∨ off + n ≤ G.offset ∨ n = 0) : M.offset ≤ off := by
  have hM := (hms.complete M).mp (by simp [hsplit])
  rcases member_follows hM hobject with hdvd | ⟨G, hG, hlt, k, hk, hend⟩
  · exact hbyte.le_of_dvd hdvd hstart
  · have hk0 := size_nonneg_of_member hG hobject hk
    have hGms : G ∈ before ++ M :: after := hsplit ▸ (hms.complete G).mpr hG
    have hordered := hsplit ▸ hms.ordered
    have hGbefore : G ∈ before := by
      rcases List.mem_append.mp hGms with hG | hG
      · exact hG
      · exfalso
        rcases List.mem_cons.mp hG with rfl | hG
        · exact lt_irrefl _ hlt
        · have hlater := (List.pairwise_cons.mp (List.pairwise_append.mp hordered).2.1).1 G hG
          exact lt_asymm hlt hlater
    rcases hdone G hGbefore k hk with h | h | h <;> omega

/-- The bits of one field are those of the struct. -/
theorem field_reads {zeroed : Int → Int → CType → Eval Bits} (hobject : ObjectType cfg tags T)
    (hplain : Plain cfg tags T) (hstruct : isStructType T = true) {M : FlatMember} (hM : MemberAt tags T M)
    {s : Int} (hs : bitSizeofType cfg tags (utype M.type) = .ok s)
    (hzeroed : isFlexibleArrayType M.type = false → ReadsType cfg tags zeroed M.type) {off hi : Int}
    (hle : M.offset ≤ off) (hlt : off < hi) (hend : hi ≤ M.offset + s) (hbyte : InByte cfg off (hi - off)) :
    ∃ bits, (if M.name.isNoName then .ok ⟨.atom .trap, (hi - off).toNat⟩
        else zeroed (off - M.offset) (hi - off) M.type : Eval Bits) = .ok bits ∧
      Reads (InitialTrap cfg tags T) off (hi - off).toNat bits := by
  cases hname : M.name.isNoName with
  | true =>
    refine ⟨_, rfl, reads_traps fun k hk => ?_⟩
    refine initialTrap_of_member hM hobject hplain hstruct (.inl ?_)
    exact ⟨hname, bitfield_of_unnamed hM hobject hname, s, hs, by omega, by omega⟩
  | false =>
    have hflex : isFlexibleArrayType M.type = false := by
      by_contra hflex
      rw [Bool.not_eq_false] at hflex
      rw [bitSizeofType_flexible hflex] at hs
      cases hs
      omega
    have hwindow : isBitfieldType M.type = true ∨ InByte cfg (off - M.offset) (hi - off) := by
      cases hbit : isBitfieldType M.type with
      | true => exact .inl rfl
      | false => exact .inr (hbyte.sub (member_aligned hM hobject hbit))
    obtain ⟨bits, hbits, hreads⟩ := hzeroed hflex (off - M.offset) (hi - off) (by omega) (by omega)
      hwindow ⟨s, hs, by omega⟩
    refine ⟨bits, hbits, hreads.shift fun k hk => ?_⟩
    have hpos : off - M.offset + (k : Int) = off + k - M.offset := by omega
    rw [hpos]
    constructor
    · intro htrap
      obtain ⟨M', hM', htraps⟩ := htrap.exists_member hobject hplain hstruct
      have hcovers : Covers cfg tags M (off + k) := ⟨s, hs, by omega, by omega⟩
      obtain rfl := member_unique hM' hM hobject hplain hstruct htraps hcovers
      rcases htraps with ⟨hname', -⟩ | htrap
      · rw [hname] at hname'
        cases hname'
      · exact htrap
    · intro htrap
      exact initialTrap_of_member hM hobject hplain hstruct (.inr htrap)

/-- **The walk over the flat fields of a struct** reads the bits of the struct.  The fields behind it
    end before the stretch that is left or start after it. -/
theorem getZeroedBits2_spec {zeroed : Int → Int → CType → Eval Bits}
    (hT : aggregateFields tags (utype T) = some fields) (hobject : ObjectType cfg tags T)
    (hplain : Plain cfg tags T) (hstruct : isStructType T = true) {ms : List FlatMember}
    (hms : ListsMembers tags T ms) (size : Int) (padding : List Int) (maxAlign : Int)
    (hzeroed : ∀ M ∈ ms, isFlexibleArrayType M.type = false → ReadsType cfg tags zeroed M.type)
    {before after : List FlatMember} (hsplit : ms = before ++ after) {off n : Int} (h0 : 0 ≤ off)
    (hn : 0 ≤ n) (hbyte : InByte cfg off n)
    (hdone : ∀ G ∈ before, ∀ k, bitSizeofType cfg tags (utype G.type) = .ok k →
      G.offset + k ≤ off ∨ off + n ≤ G.offset ∨ n = 0) :
    ∃ bits, getZeroedBits2 cfg tags zeroed T (ofMembers ms size padding maxAlign)
        (after.map fun M => (M.type, M.name)) off n = .ok bits ∧
      Reads (InitialTrap cfg tags T) off n.toNat bits := by
  obtain ⟨-, -, hdist, -⟩ := hobject.of_fields hT
  induction after generalizing before off n with
  | nil =>
    refine ⟨_, rfl, reads_zeros fun k hk htrap => ?_⟩
    obtain ⟨M, hM, htraps⟩ := htrap.exists_member hobject hplain hstruct
    obtain ⟨s, hs, hlo, hhi⟩ := htraps.covers hM hobject hT
    rw [List.append_nil] at hsplit
    have hmem : M ∈ before := hsplit ▸ (hms.complete M).mpr hM
    rcases hdone M hmem s hs with hend | hstart | hzero <;> omega
  | cons M after ih =>
    have hmem : M ∈ ms := by simp [hsplit]
    have hM := (hms.complete M).mp hmem
    obtain ⟨s, hs, hM0, -⟩ := hM.inside (hobject.laidOut hT) hT
    by_cases hzero : n = 0
    · subst hzero
      refine ⟨⟨.atom (.int 0), 0⟩, ?_, reads_zeros fun k hk => absurd hk (Nat.not_lt_zero k)⟩
      rw [List.map_cons, getZeroedBits2, if_pos rfl]
    have hsplit' : ms = (before ++ [M]) ++ after := by simp [hsplit]
    rw [getZeroedBits2_step hstruct hdist hms hmem size padding maxAlign hs after off hzero]
    by_cases hskip : M.offset + s ≤ off ∨ off + n ≤ M.offset
    · rw [if_pos hskip]
      refine ih hsplit' h0 hn hbyte fun G hG k hk => ?_
      rcases List.mem_append.mp hG with hG | hG
      · exact hdone G hG k hk
      · obtain rfl := List.mem_singleton.mp hG
        rw [hs] at hk
        cases hk
        omega
    have hle := field_starts_before hobject hms hsplit (by omega) hbyte (by omega) hdone
    rw [if_neg hskip, max_eq_right hle]
    obtain ⟨hi, hhi⟩ : ∃ hi, min (M.offset + s) (off + n) = hi := ⟨_, rfl⟩
    rw [hhi]
    have hhi' : off < hi ∧ hi ≤ M.offset + s ∧ hi ≤ off + n ∧ (hi = M.offset + s ∨ hi = off + n) := by omega
    obtain ⟨hlt, hhis, hhin, hcases⟩ := hhi'
    -- the bits of the field, and the rest
    obtain ⟨bits, hbits, hreads⟩ := field_reads hobject hplain hstruct hM hs (hzeroed M hmem) hle hlt hhis
      (hbyte.part (le_refl off) (by omega))
    obtain ⟨rest, hrest, hreads'⟩ := @ih (before ++ [M]) hsplit' hi (n - (hi - off)) (by omega) (by omega)
      (hbyte.part (by omega) (by omega)) (by
        intro G hG k hk
        rcases List.mem_append.mp hG with hG | hG
        · rcases hdone G hG k hk with h | h | h <;> omega
        · obtain rfl := List.mem_singleton.mp hG
          rw [hs] at hk
          cases hk
          omega)
    refine ⟨bits.join rest, ?_, ?_⟩
    · rw [hbits, Eval.ok_bind, hrest, Eval.ok_bind]
    · have hjoin := hreads.join (m := (n - (hi - off)).toNat) (y := rest) (by
        have hpos : off + ((hi - off).toNat : Int) = hi := by omega
        rw [hpos]
        exact hreads')
      have hlen : (hi - off).toNat + (n - (hi - off)).toNat = n.toNat := by omega
      rwa [hlen] at hjoin

/-! ## The first flat field -/

/-- **The first flat field** is the first declaration, or is in it when that is anonymous. -/
theorem exists_first (h : ObjectType cfg tags T) (hT : aggregateFields tags (utype T) = some fields) :
    ∃ M d, MemberAt tags T M ∧ isFlexibleArrayType M.type = false ∧
      (∀ H, MemberAt tags T H → H = M ∨ M.path < H.path) ∧ fields.decls.head? = some d ∧
      (isAnonymous d = false ∧ M.type = d.1 ∨
        isAnonymous d = true ∧ ∃ M', MemberAt tags d.1 M' ∧ M.type = M'.type) := by
  induction h generalizing fields with
  | scalar h =>
    rw [not_aggregate_of_scalar h] at hT
    cases hT
  | array => simp [utype, unqualSimple, aggregateFields] at hT
  | @aggregate T fields' hT' hlayout hbytes _ hsub ih =>
    rw [hT] at hT'
    injection hT' with hT'
    subst hT'
    obtain ⟨d, rest, hdecls⟩ := List.exists_cons_of_ne_nil hbytes.nonempty
    have hhead : fields.decls.head? = some d := by rw [hdecls]; rfl
    have hmem : d ∈ fields.decls := by simp [hdecls]
    have hi : fields.decls[0]? = some d := by rw [hdecls]; rfl
    obtain ⟨-, o, -, ho, -, -⟩ := hlayout.inside d hmem
    cases hd : isAnonymous d with
    | false =>
      refine ⟨_, d, .here hT hi hd ho, hbytes.flexible d hhead, fun H hH => ?_, hhead, .inl ⟨hd, rfl⟩⟩
      obtain ⟨j, e, o', hj, ho', ⟨-, rfl⟩ | ⟨he, M', -, rfl⟩⟩ := hH.cases_head hT
      all_goals rcases Nat.eq_zero_or_pos j with rfl | hpos
      · rw [hi] at hj
        cases hj
        rw [ho] at ho'
        cases ho'
        exact .inl rfl
      · exact .inr (List.cons_lt_cons_iff.mpr (.inl hpos))
      · rw [hi] at hj
        cases hj
        rw [hd] at he
        cases he
      · exact .inr (List.cons_lt_cons_iff.mpr (.inl hpos))
    | true =>
      obtain ⟨fields', hd'⟩ := @exists_fields_of_anonymous tags d hd
      obtain ⟨M, -, hM, hflex, hleast, -, -⟩ := ih d hmem (not_flexible_of_anonymous hd) hd'
      refine ⟨M.shift 0 o, d, .under hT hi hd ho hM, hflex, fun H hH => ?_, hhead, .inr ⟨hd, M, hM, rfl⟩⟩
      obtain ⟨j, e, o', hj, ho', ⟨he, rfl⟩ | ⟨-, M', hM', rfl⟩⟩ := hH.cases_head hT
      all_goals rcases Nat.eq_zero_or_pos j with rfl | hpos
      · rw [hi] at hj
        cases hj
        rw [hd] at he
        cases he
      · exact .inr (List.cons_lt_cons_iff.mpr (.inl hpos))
      · rw [hi] at hj
        cases hj
        rw [ho] at ho'
        cases ho'
        rcases hleast M' hM' with rfl | hlt
        · exact .inl rfl
        · exact .inr (List.cons_lt_cons_iff.mpr (.inr ⟨rfl, hlt⟩))
      · exact .inr (List.cons_lt_cons_iff.mpr (.inl hpos))

/-- A list of the members starts with the first. -/
theorem exists_head_of_listsMembers {ms : List FlatMember} (h : ListsMembers tags T ms) {M : FlatMember}
    (hM : MemberAt tags T M) (hleast : ∀ H, MemberAt tags T H → H = M ∨ M.path < H.path) :
    ∃ rest, ms = M :: rest := by
  have hmem := (h.complete M).mpr hM
  cases ms with
  | nil => cases hmem
  | cons H rest =>
    have hordered := List.pairwise_cons.mp h.ordered
    rcases hleast H ((h.complete H).mp List.mem_cons_self) with rfl | hlt
    · exact ⟨rest, rfl⟩
    · rcases List.mem_cons.mp hmem with rfl | hlater
      · exact ⟨rest, rfl⟩
      · exact absurd (hordered.1 M hlater) (lt_asymm hlt)

/-! ## Every type -/

/-- The function reads the bits of `T`, from some depth on, in any stretch of one byte inside `T`; in
    a struct, and where there is no unnamed bit-field, also outside. -/
def ReadsDeep (cfg : Settings) (tags : Tags) (T : CType) : Prop :=
  ∃ N, ∀ depth ≥ N, ∀ off n : Int, 0 ≤ off → 0 ≤ n → (isBitfieldType T = true ∨ InByte cfg off n) →
    ((∃ s, bitSizeofType cfg tags (utype T) = .ok s ∧ off + n ≤ s) ∨ isStructType T = true ∨
      Clean cfg tags T) →
    ∃ bits, getZeroedBits cfg tags depth off n T = .ok bits ∧
      Reads (InitialTrap cfg tags T) off n.toNat bits

theorem readsDeep_scalar (h : (isPointerType T || isArithmeticType T) = true) : ReadsDeep cfg tags T := by
  refine ⟨1, fun depth hdepth off n _ _ _ _ => ?_⟩
  obtain ⟨depth, rfl⟩ := Nat.exists_eq_add_of_le' hdepth
  refine ⟨⟨.atom (.int 0), n.toNat⟩, ?_, reads_zeros fun k _ htrap => ?_⟩
  · rw [getZeroedBits.eq_def]
    simp only [h, Bool.true_or, if_true]
  cases htrap with
  | field _ hT | member _ hT | first _ hT =>
    rw [not_aggregate_of_scalar h] at hT
    cases hT
  | element =>
    rw [not_scalar_of_array] at h
    cases h

/-- No bits at all. -/
theorem getZeroedBits_none (depth : ℕ) (off : Int) {P : Int → Prop} :
    ∃ bits, getZeroedBits cfg tags (depth + 1) off 0 T = .ok bits ∧ Reads P off (0 : Int).toNat bits := by
  refine ⟨⟨.atom (.int 0), (0 : Int).toNat⟩, ?_, reads_zeros fun k hk => absurd hk (Nat.not_lt_zero k)⟩
  rw [getZeroedBits.eq_def]
  simp only [decide_true, Bool.or_true, if_true]

theorem InByte.add_le {off n s : Int} (h : InByte cfg off n) (hdvd : (cfg.bitsPerByte : Int) ∣ s)
    (hlt : off < s) : off + n ≤ s := by
  obtain ⟨q, hlo, hhi⟩ := h
  obtain ⟨c, rfl⟩ := hdvd
  have hb : (0 : Int) < (cfg.bitsPerByte : Nat) := by exact_mod_cast cfg.bitsPerByte.pos
  have hqc : (cfg.bitsPerByte : Int) * q < cfg.bitsPerByte * c := by
    rw [mul_comm _ q]
    omega
  have hle : q + 1 ≤ c := lt_of_mul_lt_mul_left hqc (le_of_lt hb)
  have hmul := mul_le_mul_of_nonneg_left hle (le_of_lt hb)
  rw [mul_comm _ (q + 1)] at hmul
  omega

/-- **An array** is read in the element at the byte. -/
theorem readsDeep_array {q : Quals} {m : Mods} {N : Int} {E : CType}
    (hT : ObjectType cfg tags (.t q m (.array (.fixed N) E))) (hE : ReadsDeep cfg tags E) :
    ReadsDeep cfg tags (.t q m (.array (.fixed N) E)) := by
  obtain ⟨hobject, hN, s, hs, hpos, hbyte⟩ := hT.of_array
  obtain ⟨depth₀, hdepth₀⟩ := hE
  refine ⟨depth₀ + 1, fun depth hdepth off n h0 hn hwindow hinside => ?_⟩
  obtain ⟨depth, rfl⟩ := Nat.exists_eq_add_of_le' (Nat.le_of_add_left_le hdepth)
  by_cases hzero : n = 0
  · subst hzero
    exact getZeroedBits_none depth off
  have hwindow : InByte cfg off n := hwindow.resolve_left (by simp [isBitfieldType])
  have hdiv := Int.mul_ediv_add_emod off s
  have hr0 := Int.emod_nonneg off (ne_of_gt hpos)
  have hrs := Int.emod_lt_of_pos off hpos
  have hwindow' : InByte cfg (off % s) n := by
    have hsub := hwindow.sub (dvd_mul_of_dvd_left hbyte (off / s))
    have heq : off - s * (off / s) = off % s := by omega
    rwa [heq] at hsub
  have hfits := hwindow'.add_le hbyte hrs
  obtain ⟨bits, hbits, hreads⟩ := hdepth₀ depth (by omega) (off % s) n hr0 hn (.inr hwindow')
    (.inl ⟨s, hs, hfits⟩)
  refine ⟨bits, ?_, hreads.shift fun k hk => ?_⟩
  · rw [getZeroedBits.eq_def]
    simp only [not_scalar_of_array, Bool.false_or, decide_eq_true_eq, hzero, if_false, hs, Eval.ok_bind,
      ne_of_gt hpos, Int.tmod_eq_emod_of_nonneg h0]
    exact hbits
  · constructor
    · intro htrap
      cases htrap with
      | field _ hT' | member _ hT' | first _ hT' => simp [utype, unqualSimple, aggregateFields] at hT'
      | @element _ _ _ _ s' i _ hs' hi0 hiN htrap =>
        rw [hs] at hs'
        cases hs'
        -- the element that traps the bit is the one that is read
        obtain ⟨hlo, hhi⟩ := (htrap.unnamedBit hobject).inside hobject hs
        have hquot : (off + k) / s = i := by
          rw [Int.ediv_eq_iff_of_pos hpos]
          constructor <;> omega
        have hquot' : (off + k) / s = off / s := by
          rw [Int.ediv_eq_iff_of_pos hpos, mul_comm (off / s)]
          constructor <;> omega
        have hrest : off % s + k = off + k - i * s := by
          rw [← hquot, hquot', mul_comm]
          omega
        rw [hrest]
        exact htrap
    · intro htrap
      have hi0 : 0 ≤ off / s := Int.ediv_nonneg h0 (le_of_lt hpos)
      have hiN : off / s < N := by
        rcases hinside with ⟨size, hsize, hle⟩ | hstruct | hclean
        · simp only [utype, unqualSimple, bitSizeofType, hs, Eval.ok_bind] at hsize
          cases hsize
          rw [Int.ediv_lt_iff_lt_mul hpos, mul_comm]
          omega
        · cases hstruct
        · have hbit := htrap.unnamedBit hobject
          refine absurd (UnnamedBit.element hs (le_refl 0) hN ?_) (hclean (off % s + k))
          rwa [zero_mul, sub_zero]
      refine .element hs hi0 hiN ?_
      have hrest : off + k - off / s * s = off % s + k := by
        rw [mul_comm]
        omega
      rwa [hrest]

theorem not_scalar_of_fields (hT : aggregateFields tags (utype T) = some fields) :
    (isPointerType T || isArithmeticType T) = false := by
  cases h : isPointerType T || isArithmeticType T with
  | false => rfl
  | true =>
    rw [not_aggregate_of_scalar h] at hT
    cases hT

/-- A struct or a union is read by its flat fields. -/
theorem getZeroedBits_aggregate (hT : aggregateFields tags (utype T) = some fields) (depth : ℕ)
    {off n : Int} (hn : n ≠ 0) {flat : FieldInfo} (hflat : FlatFields.getFlatFields tags depth T = .ok flat) :
    getZeroedBits cfg tags (depth + 1) off n T =
      getZeroedBits2 cfg tags (getZeroedBits cfg tags depth) T flat flat.decls off n := by
  have hkind : (utype T).isStructOrUnion = true := isStructOrUnion_iff.mpr ⟨fields, hT⟩
  rw [getZeroedBits.eq_def]
  simp only [not_scalar_of_fields hT, Bool.false_or, decide_eq_true_eq, hn, if_false]
  split
  · simp [utype, unqualSimple, aggregateFields] at hT
  · rw [if_pos hkind, hflat]
    rfl

theorem not_bitfield_of_fields (hT : aggregateFields tags (utype T) = some fields) :
    isBitfieldType T = false := by
  unfold isBitfieldType
  split
  · simp [utype, unqualSimple, aggregateFields] at hT
  · rfl

/-- **A struct.** -/
theorem readsDeep_struct (hT : aggregateFields tags (utype T) = some fields)
    (hobject : ObjectType cfg tags T) (hplain : Plain cfg tags T) (hstruct : isStructType T = true)
    (hmembers : ∀ M, MemberAt tags T M → isFlexibleArrayType M.type = false → ReadsDeep cfg tags M.type) :
    ReadsDeep cfg tags T := by
  obtain ⟨-, -, hdist, -⟩ := hobject.of_fields hT
  obtain ⟨N, hN⟩ := FlatFields.getFlatFields_spec (hobject.laidOut hT) hdist
  obtain ⟨ms₀, -, -, -, -, hms₀⟩ := hN N (le_refl N)
  -- one depth for all the fields
  obtain ⟨N', hN'⟩ := exists_depth (P := fun M depth => isFlexibleArrayType M.type = false →
      ReadsType cfg tags (getZeroedBits cfg tags depth) M.type) ms₀ (by
    intro M hM
    cases hflex : isFlexibleArrayType M.type with
    | true => exact ⟨0, fun _ _ h => by cases h⟩
    | false =>
      obtain ⟨N', hN'⟩ := hmembers M ((hms₀.complete M).mp hM) hflex
      exact ⟨N', fun depth hdepth _ off n h0 hn hwindow hinside =>
        hN' depth hdepth off n h0 hn hwindow (.inl hinside)⟩)
  refine ⟨max N N' + 1, fun depth hdepth off n h0 hn hwindow _ => ?_⟩
  obtain ⟨depth, rfl⟩ := Nat.exists_eq_add_of_le' (Nat.le_of_add_left_le hdepth)
  have hdepthN : N ≤ depth := by omega
  have hdepthN' : N' ≤ depth := by omega
  by_cases hzero : n = 0
  · subst hzero
    exact getZeroedBits_none depth off
  have hwindow : InByte cfg off n := hwindow.resolve_left (by rw [not_bitfield_of_fields hT]; simp)
  obtain ⟨ms, size, padding, maxAlign, hflat, hms⟩ := hN depth hdepthN
  rw [getZeroedBits_aggregate hT depth hzero hflat]
  refine getZeroedBits2_spec hT hobject hplain hstruct hms size padding maxAlign (fun M hM hflex => ?_)
    (List.nil_append ms).symm h0 hn hwindow (by simp)
  exact hN' depth hdepthN' M ((hms₀.complete M).mpr ((hms.complete M).mp hM)) hflex

theorem Clean.member (h : Clean cfg tags T) (hT : aggregateFields tags (utype T) = some fields)
    {d : CType × CId} {o : Int} (hd : d ∈ fields.decls) (ho : fields.offsets.lookup d.2 = some o) :
    Clean cfg tags d.1 := by
  intro b hb
  refine h (b + o) (.member hT hd ho ?_)
  rwa [add_sub_cancel_right]

/-- A union traps what its first member does. -/
theorem initialTrap_union_iff (hT : aggregateFields tags (utype T) = some fields)
    (hunion : isStructType T = false) {d : CType × CId} (hd : fields.decls.head? = some d) :
    InitialTrap cfg tags T b ↔ InitialTrap cfg tags d.1 b := by
  constructor
  · intro htrap
    cases htrap with
    | field hstruct | member hstruct =>
      rw [hunion] at hstruct
      cases hstruct
    | first _ hT' hd' htrap =>
      rw [hT] at hT'
      cases hT'
      rw [hd] at hd'
      cases hd'
      exact htrap
    | element => simp [utype, unqualSimple, aggregateFields] at hT
  · exact .first hunion hT hd

/-- **A union.** -/
theorem readsDeep_union (hT : aggregateFields tags (utype T) = some fields)
    (hobject : ObjectType cfg tags T) (hplain : Plain cfg tags T) (hunion : isStructType T = false)
    (hmembers : ∀ M, MemberAt tags T M → isFlexibleArrayType M.type = false → ReadsDeep cfg tags M.type) :
    ReadsDeep cfg tags T := by
  obtain ⟨-, hbytes, hdist, hsub⟩ := hobject.of_fields hT
  obtain ⟨M, d, hM, hflex, hleast, hd, hfirst⟩ := exists_first hobject hT
  have hmem := List.mem_of_mem_head? hd
  have ho := hbytes.union hunion d hmem
  have hplain' := hplain.first T fields d .refl hunion hT hd
  obtain ⟨N, hN⟩ := FlatFields.getFlatFields_spec (hobject.laidOut hT) hdist
  obtain ⟨N', hN'⟩ := hmembers M hM hflex
  refine ⟨max N N' + 1, fun depth hdepth off n h0 hn hwindow hinside => ?_⟩
  obtain ⟨depth, rfl⟩ := Nat.exists_eq_add_of_le' (Nat.le_of_add_left_le hdepth)
  have hdepthN : N ≤ depth := by omega
  have hdepthN' : N' ≤ depth := by omega
  by_cases hzero : n = 0
  · subst hzero
    exact getZeroedBits_none depth off
  have hwindow : InByte cfg off n := hwindow.resolve_left (by rw [not_bitfield_of_fields hT]; simp)
  obtain ⟨ms, size, padding, maxAlign, hflat, hms⟩ := hN depth hdepthN
  obtain ⟨rest, rfl⟩ := exists_head_of_listsMembers hms hM hleast
  have hstep : getZeroedBits cfg tags (depth + 1) off n T = getZeroedBits cfg tags depth off n M.type := by
    rw [getZeroedBits_aggregate hT depth hzero hflat]
    simp only [ofMembers, FieldInfo.decls, List.map_cons, getZeroedBits2]
    rw [if_neg hzero, if_pos hunion]
  rw [hstep]
  rcases hfirst with ⟨-, htype⟩ | ⟨hanon, M', hM', htype⟩
  · rw [htype] at hN' ⊢
    obtain ⟨bits, hbits, hreads⟩ := hN' depth hdepthN' off n h0 hn (.inr hwindow) (by
      rcases hplain' with hclean | ⟨-, hstruct | hsize⟩
      · exact .inr (.inr hclean)
      · exact .inr (.inl hstruct)
      · rcases hinside with ⟨s, hs, hle⟩ | hstruct | hclean
        · rw [bitSizeofType_of_aggregateFields hT] at hs
          cases hs
          exact .inl ⟨fields.size, hsize, hle⟩
        · rw [hunion] at hstruct
          cases hstruct
        · exact .inr (.inr (hclean.member hT hmem ho)))
    exact ⟨bits, hbits, hreads.shift fun k _ => initialTrap_union_iff hT hunion hd⟩
  · -- an anonymous first member is clean, and so is the flat field taken from it
    have hclean : Clean cfg tags d.1 := by
      rcases hplain' with hclean | ⟨hnot, -⟩
      · exact hclean
      · rw [hanon] at hnot
        cases hnot
    have hobject' := hsub d hmem (not_flexible_of_anonymous hanon)
    have hclean' : Clean cfg tags M.type := by
      intro b hb
      rw [htype] at hb
      refine hclean (b + M'.offset) (unnamedBit_of_member hM' (.inr ?_))
      rwa [add_sub_cancel_right]
    obtain ⟨bits, hbits, hreads⟩ := hN' depth hdepthN' off n h0 hn (.inr hwindow) (.inr (.inr hclean'))
    refine ⟨bits, hbits, hreads.shift fun k _ => ?_⟩
    rw [initialTrap_union_iff hT hunion hd]
    constructor
    · intro htrap
      exact absurd (htrap.unnamedBit hobject') (hclean _)
    · intro htrap
      exact absurd (htrap.unnamedBit (objectType_of_member hM hobject hflex)) (hclean' _)

/-- **Every object type**, and with it the types of its flat fields. -/
theorem readsDeep_of_objectType (h : ObjectType cfg tags T) (hplain : Plain cfg tags T) :
    ReadsDeep cfg tags T ∧
      ∀ M, MemberAt tags T M → isFlexibleArrayType M.type = false → ReadsDeep cfg tags M.type := by
  induction h with
  | scalar h =>
    refine ⟨readsDeep_scalar h, fun M hM => ?_⟩
    cases hM with
    | here hT | under hT =>
      rw [not_aggregate_of_scalar h] at hT
      cases hT
  | array hE hn hs hpos hbyte ih =>
    refine ⟨readsDeep_array (.array hE hn hs hpos hbyte) (ih hplain.element).1, fun M hM => ?_⟩
    cases hM with
    | here hT | under hT => simp [utype, unqualSimple, aggregateFields] at hT
  | @aggregate T fields hT hlayout hbytes hdist hsub ih =>
    have hobject : ObjectType cfg tags T := .aggregate hT hlayout hbytes hdist hsub
    have hmembers : ∀ M, MemberAt tags T M → isFlexibleArrayType M.type = false →
        ReadsDeep cfg tags M.type := by
      intro M hM hflex
      obtain ⟨i, d, o, hi, -, ⟨-, rfl⟩ | ⟨hanon, M', hM', rfl⟩⟩ := hM.cases_head hT
      · have hmem := List.mem_of_getElem? hi
        exact (ih d hmem hflex (hplain.member hT hmem)).1
      · have hmem := List.mem_of_getElem? hi
        exact (ih d hmem (not_flexible_of_anonymous hanon) (hplain.member hT hmem)).2 M' hM' hflex
    refine ⟨?_, hmembers⟩
    cases hstruct : isStructType T with
    | true => exact readsDeep_struct hT hobject hplain hstruct hmembers
    | false => exact readsDeep_union hT hobject hplain hstruct hmembers

/-- **Zeroed memory.**  For every complete object type whose unnamed bit-fields are neither in an
    anonymous union nor in a first member of a union for which its first flat field does not stand,
    and every byte of an object of it with static or thread storage duration: the byte has all its
    bits; those that belong to an unnamed bit-field of a struct, in the first member of every union
    around it, are traps, and the others zeros. -/
theorem getZeroedBits_reads (h : ObjectType cfg tags T) (hplain : Plain cfg tags T) {n i : Int}
    (hsize : bitSizeofType cfg tags (utype T) = .ok n) (h0 : 0 ≤ i) (hi : (i + 1) * cfg.bitsPerByte ≤ n)
    {p : SymBase} (hp : (isStaticDuration p || isThreadDuration p) = true) :
    ∃ N, ∀ depth ≥ N, ∃ bits, getUninitializedBits cfg tags depth p i T = .ok bits ∧
      getZeroedBits cfg tags depth (i * cfg.bitsPerByte) cfg.bitsPerByte T = .ok bits ∧
      Reads (InitialTrap cfg tags T) (i * cfg.bitsPerByte) cfg.bitsPerByte bits := by
  obtain ⟨N, hN⟩ := (readsDeep_of_objectType h hplain).1
  have hend : i * (cfg.bitsPerByte : Int) + (cfg.bitsPerByte : Nat) = (i + 1) * cfg.bitsPerByte := by ring
  refine ⟨N, fun depth hdepth => ?_⟩
  obtain ⟨bits, hbits, hreads⟩ := hN depth hdepth (i * cfg.bitsPerByte) cfg.bitsPerByte (by positivity)
    (by positivity) (.inr ⟨i, le_refl _, by rw [hend]⟩) (.inl ⟨n, hsize, by rw [hend]; exact hi⟩)
  refine ⟨bits, ?_, hbits, by simpa using hreads⟩
  rw [getUninitializedBits, if_pos hp]
  exact hbits

end Proofs

/-- `struct S { int : 3; int x : 5; }` -/
def bitsFields : FieldInfo :=
  .fieldInfo [((SimpleNonArrayType.basic (.bitfieldType .int 3)).toType, .NoNameI 1),
      ((SimpleNonArrayType.basic (.bitfieldType .int 5)).toType, .Identifier "x")] 32
    [(.NoNameI 1, (SimpleNonArrayType.basic (.bitfieldType .int 3)).toType),
      (.Identifier "x", (SimpleNonArrayType.basic (.bitfieldType .int 5)).toType)]
    [(.NoNameI 1, 0), (.Identifier "x", 3)] [8, 16, 24] 4

def bitsType : CType := (SimpleNonArrayType.structType ⟨.Identifier "S", "tu", .global⟩).toType

/-- `union U { int x; int : 3; }` -/
def unionFields : FieldInfo :=
  .fieldInfo [(IntType.int.toSimple.toType, .Identifier "x"),
      ((SimpleNonArrayType.basic (.bitfieldType .int 3)).toType, .NoNameI 2)] 32
    [(.Identifier "x", IntType.int.toSimple.toType),
      (.NoNameI 2, (SimpleNonArrayType.basic (.bitfieldType .int 3)).toType)]
    [(.Identifier "x", 0), (.NoNameI 2, 0)] [] 4

def overlayType : CType := (SimpleNonArrayType.unionType ⟨.Identifier "U", "tu", .global⟩).toType

def zeroedTags : Tags :=
  [(⟨.Identifier "S", "tu", .global⟩, .fields bitsFields), (⟨.Identifier "U", "tu", .global⟩, .fields unionFields)]

theorem bitsType_member {M : FlatMember} (h : MemberAt zeroedTags bitsType M) :
    M = ⟨[0], (SimpleNonArrayType.basic (.bitfieldType .int 3)).toType, .NoNameI 1, 0⟩ ∨
      M = ⟨[1], (SimpleNonArrayType.basic (.bitfieldType .int 5)).toType, .Identifier "x", 3⟩ := by
  obtain ⟨i, d, o, hi, ho, ⟨hd, rfl⟩ | ⟨hd, -⟩⟩ := @MemberAt.cases_head _ _ bitsFields rfl _ h
  · match i, hi with
    | 0, hi => cases hi; cases ho; exact .inl rfl
    | 1, hi => cases hi; cases ho; exact .inr rfl
  · match i, hi with
    | 0, hi => cases hi; cases hd
    | 1, hi => cases hi; cases hd

theorem overlayType_member {M : FlatMember} (h : MemberAt zeroedTags overlayType M) :
    M = ⟨[0], IntType.int.toSimple.toType, .Identifier "x", 0⟩ ∨
      M = ⟨[1], (SimpleNonArrayType.basic (.bitfieldType .int 3)).toType, .NoNameI 2, 0⟩ := by
  obtain ⟨i, d, o, hi, ho, ⟨hd, rfl⟩ | ⟨hd, -⟩⟩ := @MemberAt.cases_head _ _ unionFields rfl _ h
  · match i, hi with
    | 0, hi => cases hi; cases ho; exact .inl rfl
    | 1, hi => cases hi; cases ho; exact .inr rfl
  · match i, hi with
    | 0, hi => cases hi; cases hd
    | 1, hi => cases hi; cases hd

theorem bitsFields_layout : RecordLayout x86GccLimitedLibc zeroedTags bitsType bitsFields where
  names := by decide
  types := by
    intro d hd
    simp only [bitsFields, FieldInfo.decls, List.mem_cons, List.not_mem_nil, or_false] at hd
    rcases hd with rfl | rfl <;> rfl
  inside := by
    intro d hd
    simp only [bitsFields, FieldInfo.decls, List.mem_cons, List.not_mem_nil, or_false] at hd
    rcases hd with rfl | rfl
    · exact ⟨3, 0, rfl, rfl, by decide, by decide⟩
    · exact ⟨5, 3, rfl, rfl, by decide, by decide⟩
  inOrder _ := by
    refine .cons (fun d hd => ?_) (List.pairwise_singleton _ _)
    rw [List.mem_singleton] at hd
    subst hd
    exact ⟨3, 0, 3, rfl, rfl, rfl, by decide⟩

theorem bitsFields_bytes : ByteLayout x86GccLimitedLibc zeroedTags bitsType bitsFields where
  nonempty := by simp [bitsFields, FieldInfo.decls]
  unnamed := by
    intro d hd _
    simp only [bitsFields, FieldInfo.decls, List.mem_cons, List.not_mem_nil, or_false] at hd
    rcases hd with rfl | rfl <;> exact .inr rfl
  nonneg := by
    intro d hd n hn
    simp only [bitsFields, FieldInfo.decls, List.mem_cons, List.not_mem_nil, or_false] at hd
    rcases hd with rfl | rfl <;> cases hn <;> decide
  size := by decide
  flexible := by
    intro d hd
    cases hd
    rfl
  union h := by cases h
  aligned := by
    intro i d o hi ho
    rcases i with _ | _ | i
    · cases hi; cases ho; exact .inl (by decide)
    · cases hi; cases ho; exact .inr ⟨rfl, 0, _, 0, 3, rfl, rfl, rfl, rfl, by decide⟩
    · cases hi

theorem bitsType_object : ObjectType x86GccLimitedLibc zeroedTags bitsType := by
  refine @ObjectType.aggregate _ _ _ bitsFields rfl bitsFields_layout bitsFields_bytes ?_ fun d hd _ => ?_
  · intro M M' hM hM' hname
    rcases bitsType_member hM with rfl | rfl <;> rcases bitsType_member hM' with rfl | rfl
    all_goals first | rfl | simp at hname
  · simp only [bitsFields, FieldInfo.decls, List.mem_cons, List.not_mem_nil, or_false] at hd
    rcases hd with rfl | rfl <;> exact .scalar rfl

theorem within_bitsType {X : CType} (h : Within zeroedTags bitsType X) :
    X = bitsType ∨ aggregateFields zeroedTags (utype X) = none := by
  cases h with
  | refl => exact .inl rfl
  | @member _ _ fields d hT hd h =>
    have hfields : some bitsFields = some fields := hT
    cases hfields
    simp only [bitsFields, FieldInfo.decls, List.mem_cons, List.not_mem_nil, or_false] at hd
    right
    rcases hd with rfl | rfl
    all_goals
      cases h with
      | refl => rfl
      | member hT => cases hT

theorem bitsType_plain : Plain x86GccLimitedLibc zeroedTags bitsType where
  anonymous X fields d hX _ hT hd hanon _ := by
    rcases within_bitsType hX with rfl | hnone
    · have hfields : some bitsFields = some fields := hT
      cases hfields
      simp only [bitsFields, FieldInfo.decls, List.mem_cons, List.not_mem_nil, or_false] at hd
      rcases hd with rfl | rfl <;> cases hanon
    · rw [hnone] at hT
      cases hT
  first X fields d hX hunion hT _ := by
    rcases within_bitsType hX with rfl | hnone
    · cases hunion
    · rw [hnone] at hT
      cases hT

/-- The first byte of `struct S`: three traps and five zeros. -/
theorem getZeroedBits_reads_bits :
    ∃ N, ∀ depth ≥ N, ∃ bits,
      getUninitializedBits x86GccLimitedLibc zeroedTags depth (obj 0 4 (.static "tu")) 0 bitsType = .ok bits ∧
      getZeroedBits x86GccLimitedLibc zeroedTags depth (0 * x86GccLimitedLibc.bitsPerByte)
        x86GccLimitedLibc.bitsPerByte bitsType = .ok bits ∧
      Reads (InitialTrap x86GccLimitedLibc zeroedTags bitsType) (0 * x86GccLimitedLibc.bitsPerByte)
        x86GccLimitedLibc.bitsPerByte bits :=
  getZeroedBits_reads bitsType_object bitsType_plain (n := 32) rfl (le_refl 0) (by decide) rfl

theorem unionFields_layout : RecordLayout x86GccLimitedLibc zeroedTags overlayType unionFields where
  names := by decide
  types := by
    intro d hd
    simp only [unionFields, FieldInfo.decls, List.mem_cons, List.not_mem_nil, or_false] at hd
    rcases hd with rfl | rfl <;> rfl
  inside := by
    intro d hd
    simp only [unionFields, FieldInfo.decls, List.mem_cons, List.not_mem_nil, or_false] at hd
    rcases hd with rfl | rfl
    · exact ⟨32, 0, rfl, rfl, by decide, by decide⟩
    · exact ⟨3, 0, rfl, rfl, by decide, by decide⟩
  inOrder h := by cases h

theorem unionFields_bytes : ByteLayout x86GccLimitedLibc zeroedTags overlayType unionFields where
  nonempty := by simp [unionFields, FieldInfo.decls]
  unnamed := by
    intro d hd hname
    simp only [unionFields, FieldInfo.decls, List.mem_cons, List.not_mem_nil, or_false] at hd
    rcases hd with rfl | rfl
    · cases hname
    · exact .inr rfl
  nonneg := by
    intro d hd n hn
    simp only [unionFields, FieldInfo.decls, List.mem_cons, List.not_mem_nil, or_false] at hd
    rcases hd with rfl | rfl <;> cases hn <;> decide
  size := by decide
  flexible := by
    intro d hd
    cases hd
    rfl
  union _ d hd := by
    simp only [unionFields, FieldInfo.decls, List.mem_cons, List.not_mem_nil, or_false] at hd
    rcases hd with rfl | rfl <;> rfl
  aligned := by
    intro i d o hi ho
    rcases i with _ | _ | i
    · cases hi; cases ho; exact .inl (by decide)
    · cases hi; cases ho; exact .inl (by decide)
    · cases hi

theorem overlayType_object : ObjectType x86GccLimitedLibc zeroedTags overlayType := by
  refine @ObjectType.aggregate _ _ _ unionFields rfl unionFields_layout unionFields_bytes ?_ fun d hd _ => ?_
  · intro M M' hM hM' hname
    rcases overlayType_member hM with rfl | rfl <;> rcases overlayType_member hM' with rfl | rfl
    all_goals first | rfl | simp at hname
  · simp only [unionFields, FieldInfo.decls, List.mem_cons, List.not_mem_nil, or_false] at hd
    rcases hd with rfl | rfl <;> exact .scalar rfl

/-- **A union starts with its first member**: the first bits of `union U` belong to an unnamed
    bit-field and are zeros, because they are the first bits of `x` too. -/
theorem union_bitfield_zeroed :
    ObjectType x86GccLimitedLibc zeroedTags overlayType ∧
      ¬∃ N, ∀ depth ≥ N, ∃ bits,
        getZeroedBits x86GccLimitedLibc zeroedTags depth (0 * x86GccLimitedLibc.bitsPerByte)
            x86GccLimitedLibc.bitsPerByte overlayType = .ok bits ∧
          Reads (UnnamedBit x86GccLimitedLibc zeroedTags overlayType) (0 * x86GccLimitedLibc.bitsPerByte)
            x86GccLimitedLibc.bitsPerByte bits := by
  refine ⟨overlayType_object, ?_⟩
  rintro ⟨N, hN⟩
  obtain ⟨bits, hbits, hreads⟩ := hN (N + 2) (by omega)
  have hzero : getZeroedBits x86GccLimitedLibc zeroedTags (N + 2) (0 * x86GccLimitedLibc.bitsPerByte)
      x86GccLimitedLibc.bitsPerByte overlayType = .ok ⟨.atom (.int 0), 8⟩ := rfl
  rw [hzero] at hbits
  cases hbits
  have hbit : UnnamedBit x86GccLimitedLibc zeroedTags overlayType 0 :=
    @UnnamedBit.field _ _ overlayType unionFields
      ((SimpleNonArrayType.basic (.bitfieldType .int 3)).toType, .NoNameI 2) 0 3 0 rfl
      (by simp [unionFields, FieldInfo.decls]) rfl rfl rfl rfl (le_refl 0) (by decide)
  rcases hreads.bits 0 (by decide) with ⟨-, htrap⟩ | ⟨hno, -⟩
  · rw [explode_zeros] at htrap
    cases htrap
  · exact hno hbit

end CSemantics.ZeroedBits
