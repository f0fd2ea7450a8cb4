/-
  Bit-fields in memory.

  A bit-field starts anywhere in a byte and ends anywhere in a byte, so writing one is a
  read-modify-write: the bytes it touches are read, exploded to single bits, the bits of the field
  are replaced and everything is joined to bytes again.  Reading is another piece of code: the bits
  are cut out, filled up with zeros to whole bytes and concretized.

      write:   bytes ── explode ──▶ bits ── splice ──▶ bits ── join ──▶ bytes
      read:    bytes ── explode ──▶ bits ── cut out ──▶ bits ── fill ──▶ bytes ──▶ value

  **The list of single bits of the object is the state** the two agree on: a write splices the
  field into it and leaves the rest (`writeUnalignedBits_spec`), a read cuts the field
  out of it (`extractBitsFromMem_spec`).  Old contents are arbitrary: numbers, unknown bits, traps, ranges of pointers.
-/
import CSemantics.Memory.Encoding

namespace CSemantics

open IntBits

section Code

variable (cfg : Settings) (tags : Tags)

/-! ## The code -/

/-- `readBytes` inside one object, given by its bytes. -/
def readBytes (object : List Bits) (loc : SymLoc) (n : Nat) : Eval (List Bits) := do
  let off ← loc.offset
  if 0 ≤ off ∧ off.toNat + n ≤ object.length then return (object.drop off.toNat).take n
  else .error .stuck

/-- `writeBytes` inside one object. -/
def writeBytes (object : List Bits) (loc : SymLoc) (bytes : List Bits) : Eval (List Bits) := do
  let off ← loc.offset
  if 0 ≤ off ∧ off.toNat + bytes.length ≤ object.length then
    return object.take off.toNat ++ bytes ++ object.drop (off.toNat + bytes.length)
  else .error .stuck

/-- `calculateNewBits(New, Old, Offset)`: replace the bits from `Offset` on. -/
def calculateNewBits : List Bits → List Bits → Nat → Eval (List Bits)
  | new, b :: old, offset + 1 =>
    if b.len = 1 then do return b :: (← calculateNewBits new old offset) else .error .stuck
  | b :: new, b' :: old, 0 =>
    if b.len = 1 ∧ b'.len = 1 then do return b :: (← calculateNewBits new old 0)
    else .error .stuck
  | [], old, 0 => .ok old
  | _, _, _ => .error .stuck

/-- `joinBitsToBytes` with the byte being filled apart. -/
def joinBitsFrom (x : Bits) : List Bits → Eval (List Bits)
  | [] => if x.len = cfg.bitsPerByte then .ok [x] else .error .stuck
  | y :: L =>
    if x.len = cfg.bitsPerByte then do return x :: (← joinBitsFrom y L)
    else if x.len < cfg.bitsPerByte ∧ y.len = 1 then joinBitsFrom (x.join y) L
    else .error .stuck

def joinBitsToBytes : List Bits → Eval (List Bits)
  | [] => .ok []
  | x :: L => joinBitsFrom cfg x L

/-- `extractBitsFromList-aux`, the accumulator being what is returned. -/
def extractBits : List Bits → Nat → Nat → Eval (List Bits)
  | b :: L, offset + 1, n => if b.len = 1 then extractBits L offset n else .error .stuck
  | b :: L, 0, n + 1 =>
    if b.len = 1 then do return b :: (← extractBits L 0 n) else .error .stuck
  | _, 0, 0 => .ok []
  | [], _, _ => .error .stuck

/-- Add `n` zero bits. -/
def padZeros (x : Bits) : Nat → Bits
  | 0 => x
  | n + 1 => padZeros (x.join ⟨.atom (.int 0), 1⟩) n

/-- `fillToBytes-aux` with the byte being filled apart. -/
def fillFrom (x : Bits) : List Bits → Eval (List Bits)
  | [] =>
    if x.len ≤ cfg.bitsPerByte then .ok [padZeros x (cfg.bitsPerByte - x.len)] else .error .stuck
  | y :: L =>
    if x.len = cfg.bitsPerByte then do return x :: (← fillFrom y L)
    else if x.len + y.len ≤ cfg.bitsPerByte then fillFrom (x.join y) L
    else .error .stuck

/-- `fillToBytes`; this maintains byte order. -/
def fillToBytes : List Bits → Eval (List Bits)
  | [] => .ok []
  | x :: L => fillFrom cfg x L

/-- `justBits-aux`: a negative number is moved up by `max + 1` until it is one no longer, and then
    by the weight of the sign bit. -/
def justBitsAux (hi : Int) (len : Int) (I : Int) : Eval Int :=
  if I < 0 then
    if 0 < hi + 1 then justBitsAux hi len (I + hi + 1) else .error .stuck
  else if 0 < len then .ok (I + (1 : Int) <<< (len - 1).toNat)
  else .error .stuck
termination_by (-I).toNat

/-- `justBits` -/
def justBits (I : Int) (T : UType) : Eval Int :=
  if 0 ≤ I then .ok I
  else
    match T with
    | .ut _ (.nonArray (.basic (.bitfieldType _ len))) => do justBitsAux (← T.max cfg tags) len I
    | _ => .error .stuck

/-- `toBits` of an integer. -/
def toBits (V : Int) (T : UType) : Eval (List Bits) := do
  let I ← justBits cfg tags V T
  let size ← bitSizeofType cfg tags T
  if 0 ≤ size then return explodeToBits [⟨.atom (.int I), size.toNat⟩] else .error .stuck

/-- `writeUnalignedBits` -/
def writeUnalignedBits (object : List Bits) (loc : SymLoc) (bits : List Bits) :
    Eval (List Bits) := do
  let bytes ← readBytes object loc (loc.byteRange cfg bits.length)
  let new ← calculateNewBits bits (explodeToBits bytes) loc.bitOffsetIntoLastByte
  writeBytes object loc (← joinBitsToBytes cfg new)

/-- `extractBitsFromMem` -/
def extractBitsFromMem (object : List Bits) (loc : SymLoc) (T : UType) : Eval (List Bits) := do
  let size ← bitSizeofType cfg tags T
  let bytes ← readBytes object loc (loc.byteRange cfg size.toNat)
  extractBits (explodeToBits bytes) loc.bitOffsetIntoLastByte size.toNat

/-- `updateReadFrom(T, Loc)` -/
def updateReadFrom (T : UType) (loc : SymLoc) : Eval UType := do
  let len ← byteSizeofType cfg tags T
  match T with
  | .ut m st => return .ut (m.stripReadFrom.add (.readFrom loc.stripProv len)) st

/-- Writing a bit-field: `writeSpecific'` of an integer at an unaligned place. -/
def writeBitField (object : List Bits) (loc : SymLoc) (V : Int) (T : UType) : Eval (List Bits) := do
  writeUnalignedBits cfg object loc (← toBits cfg tags V T)

/-- Reading a bit-field: `readActual` at a bit-field type. -/
def readBitField (object : List Bits) (loc : SymLoc) (T : UType) : Eval RValue := do
  let bits ← extractBitsFromMem cfg tags object loc T
  let bytes ← fillToBytes cfg bits
  concretize cfg tags (← updateReadFrom cfg tags T loc) bytes

end Code

/-! ## Splicing and cutting out -/

theorem calculateNewBits_eq (new old : List Bits) (offset : Nat) (hnew : ∀ b ∈ new, b.len = 1)
    (hold : ∀ b ∈ old, b.len = 1) (hlen : offset + new.length ≤ old.length) :
    calculateNewBits new old offset =
      .ok (old.take offset ++ new ++ old.drop (offset + new.length)) := by
  induction old generalizing new offset with
  | nil =>
    have hlen' : offset + new.length ≤ 0 := hlen
    obtain rfl : offset = 0 := by omega
    obtain rfl : new = [] := List.length_eq_zero_iff.mp (by omega)
    simp [calculateNewBits]
  | cons b old ih =>
    have hb : b.len = 1 := hold b (by simp)
    have hold' : ∀ x ∈ old, x.len = 1 := fun x hx => hold x (by simp [hx])
    cases offset with
    | succ offset =>
      have hrest := ih new offset hnew hold' (by simp at hlen; omega)
      simp [calculateNewBits, hb, hrest, bind, Except.bind, pure, Except.pure, Nat.add_right_comm]
    | zero =>
      cases new with
      | nil => simp [calculateNewBits]
      | cons c new =>
        have hc : c.len = 1 := hnew c (by simp)
        have hrest := ih new 0 (fun x hx => hnew x (by simp [hx])) hold'
          (by simp at hlen ⊢; omega)
        simp [calculateNewBits, hb, hc, hrest, bind, Except.bind, pure, Except.pure]

theorem extractBits_eq (L : List Bits) (offset n : Nat) (hL : ∀ b ∈ L, b.len = 1)
    (hlen : offset + n ≤ L.length) : extractBits L offset n = .ok ((L.drop offset).take n) := by
  induction L generalizing offset n with
  | nil =>
    obtain ⟨rfl, rfl⟩ : offset = 0 ∧ n = 0 := by simp at hlen; omega
    simp [extractBits]
  | cons b L ih =>
    have hb : b.len = 1 := hL b (by simp)
    have hL' : ∀ x ∈ L, x.len = 1 := fun x hx => hL x (by simp [hx])
    cases offset with
    | succ offset =>
      have hrest := ih offset n hL' (by simp at hlen; omega)
      simp [extractBits, hb, hrest]
    | zero =>
      cases n with
      | zero => simp [extractBits]
      | succ n =>
        have hrest := ih 0 n hL' (by simp at hlen; omega)
        simp [extractBits, hb, hrest, bind, Except.bind, pure, Except.pure]

/-! ## Bytes -/

/-- A well-formed byte. -/
def IsByte (cfg : Settings) (b : Bits) : Prop := b.WF ∧ b.len = cfg.bitsPerByte

section Proofs

variable {cfg : Settings} {tags : Tags}

theorem explodeToBits_append (L L' : List Bits) :
    explodeToBits (L ++ L') = explodeToBits L ++ explodeToBits L' :=
  List.flatMap_append

theorem explodeToBits_length {L : List Bits} (h : ∀ b ∈ L, IsByte cfg b) :
    (explodeToBits L).length = cfg.bitsPerByte * L.length := by
  induction L with
  | nil => rfl
  | cons b L ih =>
    have hb := h b (by simp)
    have hL := ih fun x hx => h x (by simp [hx])
    simp only [explodeToBits, List.flatMap_cons, List.length_append, List.length_cons] at hL ⊢
    rw [hL, explode_length hb.1, hb.2]
    ring

theorem UnitBit.wf {b : Bits} (h : UnitBit b) : b.WF := by
  obtain ⟨hlen, a, hval, ha⟩ := h
  obtain ⟨val, len⟩ := b
  obtain rfl : len = 1 := hlen
  obtain rfl : val = .atom a := hval
  exact ha

/-- **Joining single bits to bytes loses nothing**: there are as many bytes as the bits fill, they
    are well formed, and they explode to the same bits. -/
theorem joinBitsFrom_spec {x : Bits} {L : List Bits} {k : Nat} (hx : x.WF)
    (hxlen : x.len ≤ cfg.bitsPerByte) (hL : ∀ b ∈ L, UnitBit b)
    (hlen : x.len + L.length = cfg.bitsPerByte * (k + 1)) :
    ∃ out, joinBitsFrom cfg x L = .ok out ∧ out.length = k + 1 ∧ (∀ b ∈ out, IsByte cfg b) ∧
      explodeToBits out = explode x ++ L := by
  have hb : 0 < (cfg.bitsPerByte : Nat) := cfg.bitsPerByte.pos
  induction L generalizing x k with
  | nil =>
    have hmul : (cfg.bitsPerByte : Nat) * (k + 1) = cfg.bitsPerByte + cfg.bitsPerByte * k := by ring
    have hk : (cfg.bitsPerByte : Nat) * k = 0 := by simp at hlen; omega
    obtain rfl : k = 0 := by
      rcases Nat.mul_eq_zero.mp hk with h | h
      · omega
      · exact h
    have hfull : x.len = cfg.bitsPerByte := by simp at hlen; omega
    refine ⟨[x], by simp [joinBitsFrom, hfull], rfl, ?_, by simp [explodeToBits]⟩
    intro b hb'
    obtain rfl := List.mem_singleton.mp hb'
    exact ⟨hx, hfull⟩
  | cons y L ih =>
    have hy := hL y (by simp)
    have hL' : ∀ b ∈ L, UnitBit b := fun b hbL => hL b (by simp [hbL])
    simp only [List.length_cons] at hlen
    by_cases hfull : x.len = cfg.bitsPerByte
    · -- the byte is full: it is put out and the next one starts with `y`
      obtain ⟨k, rfl⟩ : ∃ k', k = k' + 1 := by
        refine ⟨k - 1, ?_⟩
        rcases Nat.eq_zero_or_pos k with rfl | hk
        · simp at hlen; omega
        · omega
      have hmul : (cfg.bitsPerByte : Nat) * (k + 1 + 1) = cfg.bitsPerByte + cfg.bitsPerByte * (k + 1) := by
        ring
      obtain ⟨out, hout, hn, hbytes, hexp⟩ := ih hy.wf (by rw [hy.1]; exact hb) hL'
        (k := k) (by rw [hy.1]; omega)
      refine ⟨x :: out, ?_, by simp [hn], ?_, ?_⟩
      · simp [joinBitsFrom, hfull, hout, bind, Except.bind, pure, Except.pure]
      · intro b hbm
        rcases List.mem_cons.mp hbm with rfl | hbm
        · exact ⟨hx, hfull⟩
        · exact hbytes b hbm
      · simp only [explodeToBits, List.flatMap_cons] at hexp ⊢
        rw [hexp, explode_unitBit hy, List.singleton_append]
    · obtain ⟨hwf, hjlen, hjexp⟩ := join_spec hx hy.wf
      obtain ⟨out, hout, hn, hbytes, hexp⟩ := ih hwf (by rw [hjlen, hy.1]; omega) hL'
        (k := k) (by rw [hjlen, hy.1]; omega)
      refine ⟨out, ?_, hn, hbytes, ?_⟩
      · have hlt : x.len < cfg.bitsPerByte := by omega
        simp [joinBitsFrom, hfull, hlt, hy.1, hout]
      · rw [hexp, hjexp, explode_unitBit hy, List.append_assoc, List.singleton_append]

theorem joinBitsToBytes_spec {L : List Bits} {k : Nat} (hL : ∀ b ∈ L, UnitBit b)
    (hlen : L.length = cfg.bitsPerByte * k) :
    ∃ out, joinBitsToBytes cfg L = .ok out ∧ out.length = k ∧ (∀ b ∈ out, IsByte cfg b) ∧
      explodeToBits out = L := by
  have hb : 0 < (cfg.bitsPerByte : Nat) := cfg.bitsPerByte.pos
  cases L with
  | nil =>
    obtain rfl : k = 0 := by
      rcases Nat.mul_eq_zero.mp hlen.symm with h | h
      · omega
      · exact h
    exact ⟨[], rfl, rfl, by simp, rfl⟩
  | cons x L =>
    have hx := hL x (by simp)
    obtain ⟨k, rfl⟩ : ∃ k', k = k' + 1 := by
      refine ⟨k - 1, ?_⟩
      rcases Nat.eq_zero_or_pos k with rfl | hk
      · simp at hlen
      · omega
    have hL' : ∀ b ∈ L, UnitBit b := fun b hbL => hL b (by simp [hbL])
    obtain ⟨out, hout, hn, hbytes, hexp⟩ := joinBitsFrom_spec hx.wf (by rw [hx.1]; exact hb) hL'
      (k := k) (by rw [hx.1, ← hlen]; simp [Nat.add_comm])
    refine ⟨out, hout, hn, hbytes, ?_⟩
    rw [hexp, explode_unitBit hx, List.singleton_append]

/-! ## Filling up -/

/-- Zero bits on top do not change a number. -/
theorem padZeros_spec {x : Bits} (n : Nat) (h : IntPieces [x]) :
    IntPieces [padZeros x n] ∧ intOf [padZeros x n] = intOf [x] := by
  induction n generalizing x with
  | zero => exact ⟨h, rfl⟩
  | succ n ih =>
    have hzero : IntPieces [x, ⟨.atom (.int 0), 1⟩] := by
      intro b hb
      rcases List.mem_cons.mp hb with rfl | hb
      · exact h b (by simp)
      · obtain rfl := List.mem_singleton.mp hb
        exact ⟨0, rfl, by norm_num⟩
    obtain ⟨hjoin, hval⟩ := intPieces_join hzero
    obtain ⟨hpad, hpval⟩ := ih hjoin
    refine ⟨hpad, ?_⟩
    rw [padZeros, hpval, hval]
    simp [intOf]

/-- **Filling integer bits up to bytes keeps the number** they spell. -/
theorem fillFrom_spec {x : Bits} {L : List Bits} (h : IntPieces (x :: L))
    (hx : x.len ≤ cfg.bitsPerByte) (hL : ∀ b ∈ L, b.len = 1) :
    ∃ out, fillFrom cfg x L = .ok out ∧ IntPieces out ∧ out ≠ [] ∧ intOf out = intOf (x :: L) := by
  have hb : 0 < (cfg.bitsPerByte : Nat) := cfg.bitsPerByte.pos
  induction L generalizing x with
  | nil =>
    obtain ⟨hpad, hval⟩ := padZeros_spec (cfg.bitsPerByte - x.len) h
    exact ⟨_, by rw [fillFrom, if_pos hx], hpad, by simp, hval⟩
  | cons y L ih =>
    have hy : y.len = 1 := hL y (by simp)
    have hL' : ∀ b ∈ L, b.len = 1 := fun b hbL => hL b (by simp [hbL])
    have htail : IntPieces (y :: L) := fun b hbL => h b (by simp [List.mem_cons.mp hbL])
    by_cases hfull : x.len = cfg.bitsPerByte
    · obtain ⟨out, hout, hint, -, hval⟩ := ih htail (by omega) hL'
      obtain ⟨n, hn, hn0, hn1⟩ := h x (by simp)
      refine ⟨x :: out, ?_, ?_, by simp, ?_⟩
      · simp [fillFrom, hfull, hout, bind, Except.bind, pure, Except.pure]
      · intro b hbm
        rcases List.mem_cons.mp hbm with rfl | hbm
        · exact ⟨n, hn, hn0, hn1⟩
        · exact hint b hbm
      · simp only [intOf, hn] at hval ⊢
        rw [hval]
    · obtain ⟨hjoin, hval⟩ := intPieces_join h
      have hjlen : (x.join y).len = x.len + y.len := by
        obtain ⟨n, hn, hn0, hn1⟩ := h x (by simp)
        obtain ⟨n', hn', -, -⟩ := h y (by simp)
        obtain ⟨xv, xl⟩ := x
        obtain ⟨yv, yl⟩ := y
        obtain rfl : xv = .atom (.int n) := hn
        obtain rfl : yv = .atom (.int n') := hn'
        rw [join_int yl hn0 hn1]
      obtain ⟨out, hout, hint, hne, hval'⟩ := ih hjoin (by omega) hL'
      refine ⟨out, ?_, hint, hne, hval'.trans hval⟩
      have hle : x.len + y.len ≤ cfg.bitsPerByte := by omega
      simp [fillFrom, hfull, hle, hout]

/-! ## The bits of a value -/

/-- `justBits` of a value of the field is the value modulo `2 ^ Len`. -/
theorem justBits_eq (m : Mods) (i : IntType) {len : Nat} (hlen : 0 < len) {V : Int}
    (hlo : shapeMin len i.isSigned ≤ V) (hhi : V ≤ shapeMax len i.isSigned) :
    justBits cfg tags V (.ut m (.nonArray (.basic (.bitfieldType i len)))) = .ok (V % 2 ^ len) := by
  have hrange := shapeMax_sub_shapeMin hlen i.isSigned
  have hmin := shapeMin_le_zero len i.isSigned
  rw [justBits]
  by_cases hV : 0 ≤ V
  · rw [if_pos hV, Int.emod_eq_of_lt hV (by omega)]
  · -- only a signed field has a negative value, and one step is enough
    have hs : i.isSigned = true := by
      by_contra hs
      rw [Bool.not_eq_true] at hs
      rw [hs] at hlo
      exact hV hlo
    have hmax := (@intShape_bitfield cfg tags m i len hlen).max
    rw [hs] at hmax hlo
    have hlo' : -2 ^ (len - 1) ≤ V := hlo
    have hpow : (2 : Int) ^ len = 2 * 2 ^ (len - 1) := by
      obtain ⟨v, rfl⟩ : ∃ v, len = v + 1 := ⟨len - 1, by omega⟩
      rw [Nat.add_sub_cancel, pow_succ]
      ring
    have hpos : (0 : Int) < 2 ^ (len - 1) := by positivity
    have htoNat : ((len : Int) - 1).toNat = len - 1 := by omega
    have hmod : V % 2 ^ len = V + 2 ^ len := by
      rw [← Int.add_emod_right, Int.emod_eq_of_lt (by omega) (by omega)]
    have hstep : V + shapeMax len true + 1 = V + 2 ^ (len - 1) := by
      show V + (2 ^ (len - 1) - 1) + 1 = _
      ring
    have hhi1 : 0 < shapeMax len true + 1 := by
      show (0 : Int) < 2 ^ (len - 1) - 1 + 1
      omega
    rw [if_neg hV]
    simp only [hmax, bind, Except.bind]
    rw [justBitsAux, if_pos (by omega), if_pos hhi1, hstep, justBitsAux, if_neg (by omega),
      if_pos (by omega), htoNat, Int.shiftLeft_eq, one_mul, hmod, hpow]
    congr 1
    ring

/-- The bits a field is written with: single bits of the value modulo `2 ^ Len`. -/
theorem toBits_spec (m : Mods) (i : IntType) {len : Nat} (hlen : 0 < len) {V : Int}
    (hlo : shapeMin len i.isSigned ≤ V) (hhi : V ≤ shapeMax len i.isSigned) :
    ∃ bits, toBits cfg tags V (.ut m (.nonArray (.basic (.bitfieldType i len)))) = .ok bits ∧
      bits.length = len ∧ (∀ b ∈ bits, UnitBit b) ∧ IntPieces bits ∧ intOf bits = V % 2 ^ len := by
  have hwf : BitAtom.WF len (.int (V % 2 ^ len)) :=
    ⟨Int.emod_nonneg _ (by positivity), Int.emod_lt_of_pos _ (by positivity)⟩
  have hexp : explodeToBits [⟨.atom (.int (V % 2 ^ len)), len⟩] =
      (List.range len).map fun j => ⟨.atom (.int (slice (V % 2 ^ len) (0 + 1 * j) 1)), 1⟩ := by
    rw [explodeToBits, List.flatMap_singleton]
    show explodePiece (.int (V % 2 ^ len), len) = _
    rw [explodePiece_eq hwf]
    simp [BitAtom.sub, BitAtom.chunkFrom]
  refine ⟨explodeToBits [⟨.atom (.int (V % 2 ^ len)), len⟩], ?_, ?_, ?_, ?_, ?_⟩
  · simp [toBits, justBits_eq m i hlen hlo hhi, bitSizeofType, bitSizeofNonArray, bind, Except.bind,
      pure, Except.pure]
  · rw [hexp]
    simp
  · intro b hb
    exact unitBit_of_mem_explodeToBits (L := [⟨.atom (.int (V % 2 ^ len)), len⟩])
      (by simpa [Bits.WF] using hwf) hb
  · rw [hexp]
    exact intPieces_slices _ 1 len 0
  · rw [hexp, intOf_slices, slice_zero_lo, Nat.one_mul, Int.emod_emod]

/-! ## Write, then read -/

/-- Replacing a stretch of a list leaves the rest. -/
theorem getElem?_splice {α : Type} (E new : List α) (p k : Nat) (hp : p + new.length ≤ E.length)
    (hk : k < p ∨ p + new.length ≤ k) :
    (E.take p ++ new ++ E.drop (p + new.length))[k]? = E[k]? := by
  rw [List.append_assoc]
  rcases hk with hk | hk
  · rw [List.getElem?_append_left (by simp; omega), List.getElem?_take_of_lt hk]
  · rw [List.getElem?_append_right (by simp; omega), List.getElem?_append_right (by simp; omega),
      List.getElem?_drop]
    congr 1
    simp
    omega

/-- Splicing into the middle part of a list is splicing into the list. -/
private theorem splice_middle {α : Type} (A M C new : List α) (q : Nat)
    (hq : q + new.length ≤ M.length) :
    A ++ (M.take q ++ new ++ M.drop (q + new.length)) ++ C =
      (A ++ M ++ C).take (A.length + q) ++ new ++ (A ++ M ++ C).drop (A.length + q + new.length) := by
  have h1 : (A ++ M ++ C).take (A.length + q) = A ++ M.take q := by
    rw [List.append_assoc, List.take_length_add_append, List.take_append_of_le_length (by omega)]
  have h2 : (A ++ M ++ C).drop (A.length + q + new.length) = M.drop (q + new.length) ++ C := by
    rw [List.append_assoc, Nat.add_assoc, List.drop_length_add_append,
      List.drop_append_of_le_length hq]
  rw [h1, h2]
  simp only [List.append_assoc]

theorem byteRange_le (loc : SymLoc) (n : Nat) :
    loc.bitOffsetIntoLastByte + n ≤ cfg.bitsPerByte * loc.byteRange cfg n := by
  have hb : 0 < (cfg.bitsPerByte : Nat) := cfg.bitsPerByte.pos
  have hdiv := Nat.div_add_mod (loc.bitOffsetIntoLastByte + n + cfg.bitsPerByte - 1) cfg.bitsPerByte
  have hmod := Nat.mod_lt (loc.bitOffsetIntoLastByte + n + cfg.bitsPerByte - 1) hb
  unfold SymLoc.byteRange
  omega

/-- **What a write does to the bits of the object**: the new bits at the place of the field, all
    other bits as they were; the object is still made of bytes. -/
theorem writeUnalignedBits_spec {object : List Bits} (hobj : ∀ b ∈ object, IsByte cfg b)
    {loc : SymLoc} {off : Nat} (hoff : loc.offset = .ok (off : Int)) {bits : List Bits}
    (hbits : ∀ b ∈ bits, UnitBit b) (hin : off + loc.byteRange cfg bits.length ≤ object.length) :
    ∃ object', writeUnalignedBits cfg object loc bits = .ok object' ∧
      object'.length = object.length ∧ (∀ b ∈ object', IsByte cfg b) ∧
      explodeToBits object' =
        (explodeToBits object).take (cfg.bitsPerByte * off + loc.bitOffsetIntoLastByte) ++ bits ++
        (explodeToBits object).drop
          (cfg.bitsPerByte * off + loc.bitOffsetIntoLastByte + bits.length) := by
  obtain ⟨n, hn⟩ : ∃ n, n = loc.byteRange cfg bits.length := ⟨_, rfl⟩
  rw [← hn] at hin
  have hsplit : object = object.take off ++ (object.drop off).take n ++ object.drop (off + n) := by
    rw [List.append_assoc, ← List.drop_drop, List.take_append_drop, List.take_append_drop]
  have hA : ∀ b ∈ object.take off, IsByte cfg b := fun b hb => hobj b (List.mem_of_mem_take hb)
  have hM : ∀ b ∈ (object.drop off).take n, IsByte cfg b := fun b hb =>
    hobj b (List.mem_of_mem_drop (List.mem_of_mem_take hb))
  have hC : ∀ b ∈ object.drop (off + n), IsByte cfg b := fun b hb => hobj b (List.mem_of_mem_drop hb)
  have hAlen : (explodeToBits (object.take off)).length = cfg.bitsPerByte * off := by
    rw [explodeToBits_length hA, List.length_take, Nat.min_eq_left (by omega)]
  have hMlen : (explodeToBits ((object.drop off).take n)).length = cfg.bitsPerByte * n := by
    rw [explodeToBits_length hM, List.length_take, List.length_drop, Nat.min_eq_left (by omega)]
  have hrange : loc.bitOffsetIntoLastByte + bits.length ≤ cfg.bitsPerByte * n := by
    rw [hn]
    exact byteRange_le loc bits.length
  have hMunit : ∀ b ∈ explodeToBits ((object.drop off).take n), UnitBit b := fun b hb =>
    unitBit_of_mem_explodeToBits (fun x hx => (hM x hx).1) hb
  -- splice, and join what comes out
  have hnew := calculateNewBits_eq _ _ _ (fun b hb => (hbits b hb).1) (fun b hb => (hMunit b hb).1)
    (hrange.trans_eq hMlen.symm)
  have hunit : ∀ b ∈ (explodeToBits ((object.drop off).take n)).take loc.bitOffsetIntoLastByte ++
      bits ++ (explodeToBits ((object.drop off).take n)).drop
        (loc.bitOffsetIntoLastByte + bits.length), UnitBit b := by
    intro b hb
    rcases List.mem_append.mp hb with hb | hb
    · rcases List.mem_append.mp hb with hb | hb
      · exact hMunit b (List.mem_of_mem_take hb)
      · exact hbits b hb
    · exact hMunit b (List.mem_of_mem_drop hb)
  obtain ⟨new, hjoin, hnlen, hnbytes, hnexp⟩ := @joinBitsToBytes_spec cfg _ n hunit (by
    simp only [List.length_append, List.length_take, List.length_drop, hMlen]
    omega)
  refine ⟨object.take off ++ new ++ object.drop (off + n), ?_, ?_, ?_, ?_⟩
  · have hread : readBytes object loc n = .ok ((object.drop off).take n) := by
      simp [readBytes, hoff, hin, bind, Except.bind, pure, Except.pure]
    have hwrite : writeBytes object loc new = .ok (object.take off ++ new ++ object.drop (off + n)) := by
      simp [writeBytes, hoff, hnlen, hin, bind, Except.bind, pure, Except.pure]
    simp only [writeUnalignedBits, ← hn, hread, bind, Except.bind, hnew, hjoin, hwrite]
  · simp [hnlen]
    omega
  · intro b hb
    rcases List.mem_append.mp hb with hb | hb
    · rcases List.mem_append.mp hb with hb | hb
      · exact hA b hb
      · exact hnbytes b hb
    · exact hC b hb
  · rw [explodeToBits_append, explodeToBits_append, hnexp]
    rw [splice_middle _ _ _ _ _ (hrange.trans_eq hMlen.symm), hAlen]
    rw [← explodeToBits_append, ← explodeToBits_append, ← hsplit]

/-- Reading cuts the field out of the bits of the object. -/
theorem extractBitsFromMem_spec {object : List Bits} (hobj : ∀ b ∈ object, IsByte cfg b)
    {loc : SymLoc} {off : Nat} (hoff : loc.offset = .ok (off : Int)) {T : UType} {len : Nat}
    (hT : bitSizeofType cfg tags T = .ok (len : Int))
    (hin : off + loc.byteRange cfg len ≤ object.length) :
    extractBitsFromMem cfg tags object loc T =
      .ok (((explodeToBits object).drop
        (cfg.bitsPerByte * off + loc.bitOffsetIntoLastByte)).take len) := by
  obtain ⟨n, hn⟩ : ∃ n, n = loc.byteRange cfg len := ⟨_, rfl⟩
  rw [← hn] at hin
  have hrange : loc.bitOffsetIntoLastByte + len ≤ cfg.bitsPerByte * n := by
    rw [hn]
    exact byteRange_le loc len
  have hsplit : object = object.take off ++ ((object.drop off).take n ++ object.drop (off + n)) := by
    rw [← List.drop_drop, List.take_append_drop, List.take_append_drop]
  have hA : ∀ b ∈ object.take off, IsByte cfg b := fun b hb => hobj b (List.mem_of_mem_take hb)
  have hM : ∀ b ∈ (object.drop off).take n, IsByte cfg b := fun b hb =>
    hobj b (List.mem_of_mem_drop (List.mem_of_mem_take hb))
  have hAlen : (explodeToBits (object.take off)).length = cfg.bitsPerByte * off := by
    rw [explodeToBits_length hA, List.length_take, Nat.min_eq_left (by omega)]
  have hMlen : (explodeToBits ((object.drop off).take n)).length = cfg.bitsPerByte * n := by
    rw [explodeToBits_length hM, List.length_take, List.length_drop, Nat.min_eq_left (by omega)]
  have hread : readBytes object loc n = .ok ((object.drop off).take n) := by
    simp [readBytes, hoff, hin, bind, Except.bind, pure, Except.pure]
  have hcut := extractBits_eq (explodeToBits ((object.drop off).take n))
    loc.bitOffsetIntoLastByte len
    (fun b hb => (unitBit_of_mem_explodeToBits (fun x hx => (hM x hx).1) hb).1) (by omega)
  simp only [extractBitsFromMem, hT, bind, Except.bind, Int.toNat_natCast, ← hn, hread, hcut]
  congr 1
  -- both sides look at the same stretch of the object
  conv_rhs => rw [hsplit, explodeToBits_append, explodeToBits_append]
  rw [← hAlen, List.drop_length_add_append, List.drop_append_of_le_length (by omega),
    List.take_append_of_le_length (by rw [List.length_drop]; omega)]

/-- What a write leaves in the object: the bits of the value in place of the field, the others as they
    were. -/
theorem writeBitField_spec {m : Mods} {i : IntType} {len : Nat} (hlen : 0 < len) {object : List Bits}
    (hobj : ∀ b ∈ object, IsByte cfg b) {loc : SymLoc} {off : Nat} (hoff : loc.offset = .ok (off : Int))
    (hin : off + loc.byteRange cfg len ≤ object.length) {V : Int} (hlo : shapeMin len i.isSigned ≤ V)
    (hhi : V ≤ shapeMax len i.isSigned) :
    ∃ object' bits, writeBitField cfg tags object loc V (.ut m (.nonArray (.basic (.bitfieldType i len)))) = .ok object' ∧
      (object'.length = object.length ∧ ∀ b ∈ object', IsByte cfg b) ∧
      (bits.length = len ∧ (∀ b ∈ bits, UnitBit b) ∧ IntPieces bits ∧ intOf bits = V % 2 ^ len) ∧
      cfg.bitsPerByte * off + loc.bitOffsetIntoLastByte + bits.length ≤ (explodeToBits object).length ∧
      explodeToBits object' = (explodeToBits object).take (cfg.bitsPerByte * off + loc.bitOffsetIntoLastByte) ++ bits ++
        (explodeToBits object).drop (cfg.bitsPerByte * off + loc.bitOffsetIntoLastByte + bits.length) := by
  obtain ⟨bits, htoBits, hblen, hunit, hint, hval⟩ := @toBits_spec cfg tags m i len hlen V hlo hhi
  obtain ⟨object', hwrite, holen, hobytes, hexp⟩ :=
    writeUnalignedBits_spec hobj hoff hunit (by rw [hblen]; exact hin)
  refine ⟨object', bits, ?_, ⟨holen, hobytes⟩, ⟨hblen, hunit, hint, hval⟩, ?_, hexp⟩
  · simp only [writeBitField, htoBits, bind, Except.bind, hwrite]
  · -- the place of the field lies inside the bits of the object
    rw [explodeToBits_length hobj, hblen]
    calc cfg.bitsPerByte * off + loc.bitOffsetIntoLastByte + len
        ≤ cfg.bitsPerByte * off + cfg.bitsPerByte * loc.byteRange cfg len := by
          have := @byteRange_le cfg loc len
          omega
      _ = cfg.bitsPerByte * (off + loc.byteRange cfg len) := by ring
      _ ≤ cfg.bitsPerByte * object.length := Nat.mul_le_mul_left _ hin

/-- What a read gives where the bits of a value are in place of the field. -/
theorem readBitField_spec {m : Mods} {i : IntType} {len : Nat} (hlen : 0 < len) {object' : List Bits}
    (hobytes : ∀ b ∈ object', IsByte cfg b) {loc : SymLoc} {off : Nat} (hoff : loc.offset = .ok (off : Int))
    (hin : off + loc.byteRange cfg len ≤ object'.length) {V : Int} (hlo : shapeMin len i.isSigned ≤ V)
    (hhi : V ≤ shapeMax len i.isSigned) {bits before after : List Bits} (hblen : bits.length = len)
    (hunit : ∀ b ∈ bits, UnitBit b) (hint : IntPieces bits) (hval : intOf bits = V % 2 ^ len)
    (hbefore : before.length = cfg.bitsPerByte * off + loc.bitOffsetIntoLastByte)
    (hexp : explodeToBits object' = before ++ bits ++ after) {T' : UType}
    (hT' : updateReadFrom cfg tags (.ut m (.nonArray (.basic (.bitfieldType i len)))) loc = .ok T') :
    readBitField cfg tags object' loc (.ut m (.nonArray (.basic (.bitfieldType i len)))) = .ok (.tv (.int V) T') := by
  have hshape := @intShape_bitfield cfg tags m i len hlen
  obtain ⟨bytes, hbytes⟩ : ∃ n, byteSizeofType cfg tags
      (.ut m (.nonArray (.basic (.bitfieldType i len)))) = .ok n := ⟨_, rfl⟩
  simp only [updateReadFrom, hbytes, bind, Except.bind, pure, Except.pure, Except.ok.injEq] at hT'
  subst hT'
  have hcut : extractBitsFromMem cfg tags object' loc
      (.ut m (.nonArray (.basic (.bitfieldType i len)))) = .ok bits := by
    rw [extractBitsFromMem_spec hobytes hoff hshape.size hin, hexp]
    congr 1
    rw [← hbefore, List.append_assoc, List.drop_left, ← hblen, List.take_left]
  obtain ⟨x, L, rfl⟩ : ∃ x L, bits = x :: L := by
    cases bits with
    | nil => simp at hblen; omega
    | cons x L => exact ⟨x, L, rfl⟩
  obtain ⟨out, hfill, hoint, hone, hoval⟩ := @fillFrom_spec cfg _ _ hint
    (by rw [(hunit x (by simp)).1]; exact cfg.bitsPerByte.pos)
    (fun b hb => (hunit b (by simp [hb])).1)
  have hread := concretize_intPieces
    (@intShape_bitfield cfg tags (m.stripReadFrom.add (.readFrom loc.stripProv bytes)) i len hlen) hoint hone
  rw [hoval, hval, interpretInt_emod hlen i.isSigned hlo hhi] at hread
  simp only [readBitField, hcut, fillToBytes, hfill, updateReadFrom, hbytes, bind, Except.bind, pure,
    Except.pure, hread]

/-- **A bit-field holds what was written to it, and nothing else changes.**  For a field of any
    integer type and any width, at any bit of any byte of an object with any contents, and for any
    value of the field: the write succeeds, the read gives the value back, and every bit of the
    object outside `[bitOffset, bitOffset + Len)` is what it was. -/
theorem readBitField_writeBitField (cfg : Settings) (tags : Tags) (m : Mods) (i : IntType)
    (len : Nat) (hlen : 0 < len) (object : List Bits) (hobj : ∀ b ∈ object, IsByte cfg b)
    (loc : SymLoc) (off : Nat) (hoff : loc.offset = .ok (off : Int))
    (hin : off + loc.byteRange cfg len ≤ object.length) (V : Int)
    (hV : intInRange cfg tags V (.ut m (.nonArray (.basic (.bitfieldType i len)))) = .ok true) :
    ∃ object' T', writeBitField cfg tags object loc V
        (.ut m (.nonArray (.basic (.bitfieldType i len)))) = .ok object' ∧
      (object'.length = object.length ∧ ∀ b ∈ object', IsByte cfg b) ∧
      updateReadFrom cfg tags (.ut m (.nonArray (.basic (.bitfieldType i len)))) loc = .ok T' ∧
      readBitField cfg tags object' loc (.ut m (.nonArray (.basic (.bitfieldType i len)))) =
        .ok (.tv (.int V) T') ∧
      ∀ k, k < cfg.bitsPerByte * off + loc.bitOffsetIntoLastByte ∨
          cfg.bitsPerByte * off + loc.bitOffsetIntoLastByte + len ≤ k →
        (explodeToBits object')[k]? = (explodeToBits object)[k]? := by
  obtain ⟨hlo, hhi⟩ := (intInRange_iff (@intShape_bitfield cfg tags m i len hlen) V).mp hV
  obtain ⟨object', bits, hwrite, ⟨holen, hobytes⟩, ⟨hblen, hunit, hint, hval⟩, hplace, hexp⟩ :=
    @writeBitField_spec cfg tags m i len hlen object hobj loc off hoff hin V hlo hhi
  refine ⟨object', _, hwrite, ⟨holen, hobytes⟩, rfl, ?_, ?_⟩
  · refine readBitField_spec hlen hobytes hoff (by rw [holen]; exact hin) hlo hhi hblen hunit hint hval ?_ hexp rfl
    rw [List.length_take, Nat.min_eq_left (by omega)]
  · intro k hk
    rw [hexp]
    exact getElem?_splice _ bits _ k hplace (by rw [hblen]; exact hk)

/-- `-3` in a signed field of five bits that starts at bit six of a byte and ends in the next. -/
theorem readBitField_writeBitField_minus_three :
    ∃ object' T', writeBitField x86GccLimitedLibc []
        [⟨.atom (.unknown 255), 8⟩, ⟨.atom .trap, 8⟩]
        (.loc3 (obj 0 4 (.auto 0)) 0 [.bits 6]) (-3)
        (.ut noMods (.nonArray (.basic (.bitfieldType .signedInt 5)))) = .ok object' ∧
      readBitField x86GccLimitedLibc [] object' (.loc3 (obj 0 4 (.auto 0)) 0 [.bits 6])
        (.ut noMods (.nonArray (.basic (.bitfieldType .signedInt 5)))) = .ok (.tv (.int (-3)) T') := by
  have hobj : ∀ b ∈ ([⟨.atom (.unknown 255), 8⟩, ⟨.atom .trap, 8⟩] : List Bits),
      IsByte x86GccLimitedLibc b := by
    intro b hb
    rcases List.mem_cons.mp hb with rfl | hb
    · exact ⟨⟨by norm_num, by norm_num⟩, rfl⟩
    · obtain rfl := List.mem_singleton.mp hb
      exact ⟨trivial, rfl⟩
  obtain ⟨object', T', hwrite, -, -, hread, -⟩ := readBitField_writeBitField x86GccLimitedLibc []
    noMods .signedInt 5 (by norm_num) _ hobj (.loc3 (obj 0 4 (.auto 0)) 0 [.bits 6]) 0 rfl
    (by decide) (-3) rfl
  exact ⟨object', T', hwrite, hread⟩

end Proofs

end CSemantics
