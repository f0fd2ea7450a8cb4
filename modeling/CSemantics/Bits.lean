/-
  Bits: what a byte of memory holds.

  A byte is not a number.  It is a `piece` of a value, or several pieces side by side: bits of an
  integer, bits of an integer of unspecified value, bits that are a trap, or a RANGE of the bits of
  a pointer or of a floating value, which have no numeric representation at all.  `bit::` puts two
  runs of bits next to each other and merges them when they are neighbouring bits of one thing.

  **The meaning of a run of bits is the list of its single bits**, `explodeToBits`.  Everything is
  stated against it:

      join_spec                exploding `X bit:: Y` is exploding X and then Y
      explodeToBits_unitBits   single bits explode to themselves

  and against `intOf`, the number a list of integer pieces spells, for what is read back as an
  integer:

      joinBytes_intOf    joining integer pieces gives the number they spell
      intOf_slices       the chunks of a number spell the number

  The list inside `pieces` never holds another `pieces` (only `bit::` builds one, and it flattens),
  so it is a list of atoms by its type.
-/
import CSemantics.Lib.IntBits
import CSemantics.Typing.Equality
import CSemantics.Typing.Common

namespace CSemantics

open IntBits

/-! ## Values made of bits -/

/-- A floating value.  No rule here looks past its format. -/
structure CFloat where
  precision : Nat
  exponentBits : Nat
  payload : Int
  deriving DecidableEq, Repr

/-- `EncodableValue`: values that are stored as a range of themselves. -/
inductive EncodableValue
  | float (f : CFloat)
  | unknownFloat (f : CFloat)
  | opaqueValue (v : Int) (T : UType)
  deriving DecidableEq

/-- `BitValue`, `pieces` apart.  The range of `encodedPtr` and `encodedValue` is half open. -/
inductive BitAtom
  | int (n : Int)
  | unknown (n : Int)
  | trap
  | encodedPtr (p : SymLoc) (lo hi : Nat)
  | encodedValue (v : EncodableValue) (lo hi : Nat)
  deriving DecidableEq

/-- One atom with its length in bits. -/
abbrev Piece := BitAtom × Nat

inductive BitValue
  | atom (a : BitAtom)
  | pieces (ps : List Piece)
  deriving DecidableEq

/-- `piece(V, Len)` -/
structure Bits where
  val : BitValue
  len : Nat
  deriving DecidableEq

/-- What can be encoded into bits. -/
inductive Encodable
  | int (n : Int)
  | unknown (n : Int)
  | trap
  | ptr (p : SymLoc)
  | value (v : EncodableValue)
  deriving DecidableEq

/-! ## Encoding -/

def bitmask (n : Nat) : Int := (1 : Int) <<< n - 1

/-- Value of a bitrange within an int. -/
def bitsValue (n : Int) (lo hi : Nat) : Int := Int.land (n >>> lo) (bitmask (hi - lo))

theorem bitsValue_eq_slice (n : Int) (lo hi : Nat) : bitsValue n lo hi = slice n lo (hi - lo) := by
  have hm : bitmask (hi - lo) = 2 ^ (hi - lo) - 1 := by simp [bitmask, Int.shiftLeft_eq]
  rw [bitsValue, hm, land_mask, Int.shiftRight_eq_div_pow, slice]
  push_cast
  rfl

/-- object, bit range (from, to, 0th is least significant) -/
def encode (v : Encodable) (lo hi : Nat) : Bits :=
  match v with
  | .int n => ⟨.atom (.int (bitsValue n lo hi)), hi - lo⟩
  | .unknown n => ⟨.atom (.unknown (bitsValue n lo hi)), hi - lo⟩
  | .trap => ⟨.atom .trap, hi - lo⟩
  | .ptr p => ⟨.atom (.encodedPtr p lo hi), hi - lo⟩
  | .value v => ⟨.atom (.encodedValue v lo hi), hi - lo⟩

/-- Cut an atom into chunks, from bit `pos` to bit `len`.  A chunk of no bits would go on for
    ever. -/
def splinter (a : BitAtom) (pos len chunk : Nat) : List Bits :=
  if _h : pos < len ∧ 0 < chunk then
    match a with
    | .encodedPtr p lo hi =>
      if lo < hi then
        ⟨.atom (.encodedPtr p lo (lo + chunk)), chunk⟩ ::
          splinter (.encodedPtr p (lo + chunk) hi) (pos + chunk) len chunk
      else []
    | .encodedValue v lo hi =>
      if lo < hi then
        ⟨.atom (.encodedValue v lo (lo + chunk)), chunk⟩ ::
          splinter (.encodedValue v (lo + chunk) hi) (pos + chunk) len chunk
      else []
    | .int n => encode (.int n) pos (pos + chunk) :: splinter (.int n) (pos + chunk) len chunk
    | .unknown n =>
      encode (.unknown n) pos (pos + chunk) :: splinter (.unknown n) (pos + chunk) len chunk
    | .trap => encode .trap pos (pos + chunk) :: splinter .trap (pos + chunk) len chunk
  else []
termination_by len - pos
decreasing_by all_goals omega

/-- `splitToBytes`; there is no rule that cuts `pieces`. -/
def splitToBytes (cfg : Settings) (b : Bits) : Eval (List Bits) :=
  match b.val with
  | .atom a => .ok (splinter a 0 b.len cfg.bitsPerByte)
  | .pieces _ => .error .stuck

def explodePiece (p : Piece) : List Bits := splinter p.1 0 p.2 1

/-- The single bits of one run. -/
def explode (b : Bits) : List Bits :=
  match b.val with
  | .atom a => explodePiece (a, b.len)
  | .pieces ps => ps.flatMap explodePiece

def explodeToBits (L : List Bits) : List Bits := L.flatMap explode

/-! ## Joining -/

/-- `joinPieces`, where `piecesJoinable`. -/
def joinPieces : Piece → Piece → Option Piece
  | (.int n, l), (.int n', l') => some (.int (Int.lor (n' <<< l) n), l + l')
  | (.unknown n, l), (.unknown n', l') => some (.unknown (Int.lor (n' <<< l) n), l + l')
  | (.trap, l), (.trap, l') => some (.trap, l + l')
  | (.encodedPtr p lo hi, l), (.encodedPtr p' lo' hi', l') =>
    if p = p' ∧ hi = lo' then some (.encodedPtr p lo hi', l + l') else none
  | (.encodedValue v lo hi, l), (.encodedValue v' lo' hi', l') =>
    if v = v' ∧ hi = lo' then some (.encodedValue v lo hi', l + l') else none
  | _, _ => none

/-- `joinAllPieces` with its head apart: merging goes on only while the HEAD can take the next. -/
def joinHead (x : Piece) : List Piece → List Piece
  | [] => [x]
  | y :: L =>
    match joinPieces x y with
    | some z => joinHead z L
    | none => x :: y :: L

def joinAllPieces : List Piece → List Piece
  | [] => []
  | x :: L => joinHead x L

/-- `X bit:: Y` -/
def Bits.join (x y : Bits) : Bits :=
  match x.val, y.val with
  | .atom a, .atom b =>
    match joinPieces (a, x.len) (b, y.len) with
    | some (c, l) => ⟨.atom c, l⟩
    | none => ⟨.pieces [(a, x.len), (b, y.len)], x.len + y.len⟩
  | .pieces ps, .pieces ps' => ⟨.pieces (joinAllPieces (ps ++ ps')), x.len + y.len⟩
  | .pieces ps, .atom b => ⟨.pieces (joinAllPieces (ps ++ [(b, y.len)])), x.len + y.len⟩
  | .atom a, .pieces ps' => ⟨.pieces (joinAllPieces ((a, x.len) :: ps')), x.len + y.len⟩

/-- Fold `bit::` over the list; there is no rule for no bytes at all. -/
def joinBytes : List Bits → Eval BitValue
  | [] => .error .stuck
  | b :: L => .ok (L.foldl Bits.join b).val

/-! ## Well-formed bits

  A piece is well formed when its value fits the length it claims.  It is what every rule that
  makes bits establishes and every rule that moves them keeps. -/

/-- The atom is exactly `len` bits of something. -/
def BitAtom.WF (len : Nat) : BitAtom → Prop
  | .int n => 0 ≤ n ∧ n < 2 ^ len
  | .unknown n => 0 ≤ n ∧ n < 2 ^ len
  | .trap => True
  | .encodedPtr _ lo hi => hi = lo + len
  | .encodedValue _ lo hi => hi = lo + len

def PiecesWF (ps : List Piece) : Prop := ∀ p ∈ ps, p.1.WF p.2

/-- The number of bits in a list of pieces. -/
def piecesLen (ps : List Piece) : Nat := (ps.map Prod.snd).sum

def Bits.WF (b : Bits) : Prop :=
  match b.val with
  | .atom a => a.WF b.len
  | .pieces ps => PiecesWF ps ∧ piecesLen ps = b.len

/-- A single bit: one atom, one bit long. -/
def UnitBit (b : Bits) : Prop := b.len = 1 ∧ ∃ a : BitAtom, b.val = .atom a ∧ a.WF 1

/-- The bits `[d, d + c)` of what is left of an atom once `pos` bits have been cut off: a number
    is kept whole while it is cut, a range gets shorter. -/
def BitAtom.chunkFrom (a : BitAtom) (pos d c : Nat) : BitAtom :=
  match a with
  | .int n => .int (slice n (pos + d) c)
  | .unknown n => .unknown (slice n (pos + d) c)
  | .trap => .trap
  | .encodedPtr p lo _ => .encodedPtr p (lo + d) (lo + d + c)
  | .encodedValue v lo _ => .encodedValue v (lo + d) (lo + d + c)

/-- The bits `[d, d + c)` of an atom. -/
def BitAtom.sub (a : BitAtom) (d c : Nat) : BitAtom := a.chunkFrom 0 d c

/-- A range of bits that has `n` bits left. -/
def BitAtom.Spans (n : Nat) : BitAtom → Prop
  | .encodedPtr _ lo hi => hi = lo + n
  | .encodedValue _ lo hi => hi = lo + n
  | _ => True

theorem BitAtom.WF.spans {a : BitAtom} {n : Nat} (h : a.WF n) : a.Spans n := by
  cases a <;> first | exact h | trivial

theorem BitAtom.sub_wf (a : BitAtom) (d c : Nat) : (a.sub d c).WF c := by
  cases a <;> simp [BitAtom.sub, BitAtom.chunkFrom, BitAtom.WF, slice_nonneg, slice_lt]

/-- **Cutting is taking slices**: the closed form of `splinter`. -/
theorem splinter_eq (a : BitAtom) (chunk : Nat) (hc : 0 < chunk) (k pos len : Nat)
    (hlen : len = pos + chunk * k) (ha : a.Spans (chunk * k)) :
    splinter a pos len chunk =
      (List.range k).map fun j => ⟨.atom (a.chunkFrom pos (chunk * j) chunk), chunk⟩ := by
  induction k generalizing a pos with
  | zero =>
    rw [splinter.eq_def, dif_neg (by omega)]
    rfl
  | succ k ih =>
    have hmul : chunk * (k + 1) = chunk + chunk * k := by ring
    have hpos : pos < len ∧ 0 < chunk := by omega
    have hlen' : len = pos + chunk + chunk * k := by omega
    have hshift : ∀ i j, i + chunk + chunk * j = i + chunk * (j + 1) := by intro i j; ring
    rw [splinter.eq_def, dif_pos hpos, List.range_succ_eq_map]
    -- a number keeps its value and moves its position, a range the other way round
    cases a with
    | int n =>
      simp [ih (.int n) (pos + chunk) hlen' trivial, encode, bitsValue_eq_slice, hshift,
        BitAtom.chunkFrom, Function.comp_def]
    | unknown n =>
      simp [ih (.unknown n) (pos + chunk) hlen' trivial, encode, bitsValue_eq_slice, hshift,
        BitAtom.chunkFrom, Function.comp_def]
    | trap =>
      simp [ih .trap (pos + chunk) hlen' trivial, encode, BitAtom.chunkFrom, Function.comp_def]
    | encodedPtr p lo hi =>
      have hhi : hi = lo + chunk * (k + 1) := ha
      have hrest := ih (.encodedPtr p (lo + chunk) hi) (pos + chunk) hlen'
        (show hi = lo + chunk + chunk * k by omega)
      have hlt : lo < hi := by omega
      simp [hlt, hrest, hshift, BitAtom.chunkFrom, Function.comp_def]
    | encodedValue v lo hi =>
      have hhi : hi = lo + chunk * (k + 1) := ha
      have hrest := ih (.encodedValue v (lo + chunk) hi) (pos + chunk) hlen'
        (show hi = lo + chunk + chunk * k by omega)
      have hlt : lo < hi := by omega
      simp [hlt, hrest, hshift, BitAtom.chunkFrom, Function.comp_def]

/-- The chunks of a well-formed atom, from its start. -/
theorem splinter_wf {a : BitAtom} {chunk k : Nat} (hc : 0 < chunk) (h : a.WF (chunk * k)) :
    splinter a 0 (chunk * k) chunk =
      (List.range k).map fun j => ⟨.atom (a.sub (chunk * j) chunk), chunk⟩ :=
  splinter_eq a chunk hc k 0 (chunk * k) (by omega) h.spans

/-! ## Single bits -/

/-- The single bits of a well-formed atom. -/
theorem explodePiece_eq {p : Piece} (h : p.1.WF p.2) :
    explodePiece p = (List.range p.2).map fun j => ⟨.atom (p.1.sub j 1), 1⟩ := by
  have h1 : p.1.WF (1 * p.2) := by simpa using h
  have := splinter_wf Nat.one_pos h1
  simpa [explodePiece] using this

theorem explodePiece_length {p : Piece} (h : p.1.WF p.2) : (explodePiece p).length = p.2 := by
  rw [explodePiece_eq h]
  simp

theorem unitBit_of_mem_explodePiece {p : Piece} (h : p.1.WF p.2) {b : Bits}
    (hb : b ∈ explodePiece p) : UnitBit b := by
  rw [explodePiece_eq h] at hb
  obtain ⟨j, -, rfl⟩ := List.mem_map.mp hb
  exact ⟨rfl, _, rfl, BitAtom.sub_wf _ _ _⟩

/-- One bit of an atom that is one bit long is the atom. -/
theorem BitAtom.sub_zero_one {a : BitAtom} (h : a.WF 1) : a.sub 0 1 = a := by
  cases a with
  | int n => simpa [BitAtom.sub, BitAtom.chunkFrom] using slice_eq_self n 1 h.1 h.2
  | unknown n => simpa [BitAtom.sub, BitAtom.chunkFrom] using slice_eq_self n 1 h.1 h.2
  | trap => rfl
  | encodedPtr p lo hi =>
    have hhi : hi = lo + 1 := h
    simp [BitAtom.sub, BitAtom.chunkFrom, hhi]
  | encodedValue v lo hi =>
    have hhi : hi = lo + 1 := h
    simp [BitAtom.sub, BitAtom.chunkFrom, hhi]

/-- A single bit explodes to itself. -/
theorem explode_unitBit {b : Bits} (h : UnitBit b) : explode b = [b] := by
  obtain ⟨hlen, a, hval, ha⟩ := h
  obtain ⟨val, len⟩ := b
  obtain rfl : len = 1 := hlen
  obtain rfl : val = .atom a := hval
  show explodePiece (a, 1) = _
  rw [explodePiece_eq (show BitAtom.WF 1 a from ha)]
  simp [BitAtom.sub_zero_one ha]

/-- **Single bits explode to themselves.** -/
theorem explodeToBits_unitBits {L : List Bits} (h : ∀ b ∈ L, UnitBit b) : explodeToBits L = L := by
  induction L with
  | nil => rfl
  | cons b L ih =>
    have hb := explode_unitBit (h b (by simp))
    have hL := ih fun x hx => h x (by simp [hx])
    simp only [explodeToBits, List.flatMap_cons] at hL ⊢
    rw [hb, hL, List.singleton_append]

theorem explodePieces_length {ps : List Piece} (h : PiecesWF ps) :
    (ps.flatMap explodePiece).length = piecesLen ps := by
  induction ps with
  | nil => rfl
  | cons p ps ih =>
    have hp := explodePiece_length (h p (by simp))
    have hps := ih fun q hq => h q (by simp [hq])
    simp only [List.flatMap_cons, List.length_append, hp, hps, piecesLen, List.map_cons, List.sum_cons]

/-- A well-formed run of `len` bits has `len` single bits. -/
theorem explode_length {b : Bits} (h : b.WF) : (explode b).length = b.len := by
  obtain ⟨val, len⟩ := b
  cases val with
  | atom a => exact explodePiece_length (p := (a, len)) h
  | pieces ps => exact (explodePieces_length h.1).trans h.2

theorem unitBit_of_mem_explode {b x : Bits} (h : b.WF) (hx : x ∈ explode b) : UnitBit x := by
  obtain ⟨val, len⟩ := b
  cases val with
  | atom a => exact unitBit_of_mem_explodePiece (p := (a, len)) h hx
  | pieces ps =>
    obtain ⟨p, hp, hxp⟩ := List.mem_flatMap.mp hx
    exact unitBit_of_mem_explodePiece (h.1 p hp) hxp

theorem unitBit_of_mem_explodeToBits {L : List Bits} (h : ∀ b ∈ L, b.WF) {x : Bits}
    (hx : x ∈ explodeToBits L) : UnitBit x := by
  obtain ⟨b, hb, hxb⟩ := List.mem_flatMap.mp hx
  exact unitBit_of_mem_explode (h b hb) hxb

/-! ## Joining keeps the bits -/

/-- The bits of two neighbouring slices are the bits of the slice they make. -/
private theorem map_range_append {α : Type} (f : Nat → α) (m n : Nat) :
    (List.range m).map f ++ (List.range n).map (fun j => f (m + j)) = (List.range (m + n)).map f := by
  rw [List.range_add, List.map_append, List.map_map]
  rfl

/-- Joining two numbers, low one first. -/
theorem lor_shiftLeft_eq {n n' : Int} {l : Nat} (h0 : 0 ≤ n) (h1 : n < 2 ^ l) :
    Int.lor (n' <<< l) n = n' * 2 ^ l + n := by
  rw [Int.shiftLeft_eq, lor_shiftLeft n n' l h0 h1]

private theorem join_bounds {n n' : Int} {l l' : Nat} (h : 0 ≤ n ∧ n < 2 ^ l)
    (h' : 0 ≤ n' ∧ n' < 2 ^ l') :
    0 ≤ n' * 2 ^ l + n ∧ n' * 2 ^ l + n < 2 ^ (l + l') := by
  obtain ⟨h0, h1⟩ := h
  obtain ⟨h0', h1'⟩ := h'
  have hl : (0 : Int) < 2 ^ l := by positivity
  refine ⟨by positivity, ?_⟩
  have : (2 : Int) ^ (l + l') = 2 ^ l * 2 ^ l' := pow_add 2 l l'
  nlinarith

/-- **What joining two pieces does**: lengths add, the result is well formed, and its bits are the
    bits of the first and then those of the second. -/
theorem joinPieces_spec {x y z : Piece} (hx : x.1.WF x.2) (hy : y.1.WF y.2)
    (h : joinPieces x y = some z) :
    z.2 = x.2 + y.2 ∧ z.1.WF z.2 ∧ explodePiece z = explodePiece x ++ explodePiece y := by
  -- it is enough to say which bits the joined atom has
  have key : ∀ (c : BitAtom) (l l' : Nat), c.WF (l + l') →
      (∀ j, j < l → c.sub j 1 = x.1.sub j 1) → (∀ j, c.sub (l + j) 1 = y.1.sub j 1) →
      l = x.2 → l' = y.2 → z = (c, l + l') →
      z.2 = x.2 + y.2 ∧ z.1.WF z.2 ∧ explodePiece z = explodePiece x ++ explodePiece y := by
    rintro c l l' hc hlow hhigh rfl rfl rfl
    refine ⟨rfl, hc, ?_⟩
    rw [explodePiece_eq hx, explodePiece_eq hy, explodePiece_eq (p := (c, x.2 + y.2)) hc]
    rw [← map_range_append]
    congr 1
    · refine List.map_congr_left fun j hj => ?_
      rw [hlow j (List.mem_range.mp hj)]
    · refine List.map_congr_left fun j _ => ?_
      rw [hhigh j]
  obtain ⟨a, l⟩ := x
  obtain ⟨b, l'⟩ := y
  cases a <;> cases b <;> simp only [joinPieces, Option.some.injEq, reduceCtorEq] at h
  case int.int n n' =>
    rw [lor_shiftLeft_eq hx.1 hx.2] at h
    refine key (.int (n' * 2 ^ l + n)) l l' (join_bounds hx hy) ?_ ?_ rfl rfl h.symm
    · intro j hj
      simp [BitAtom.sub, BitAtom.chunkFrom, slice_join_low n n' l j 1 (by omega)]
    · intro j
      simp [BitAtom.sub, BitAtom.chunkFrom, slice_join_high n n' l j 1 hx.1 hx.2]
  case unknown.unknown n n' =>
    rw [lor_shiftLeft_eq hx.1 hx.2] at h
    refine key (.unknown (n' * 2 ^ l + n)) l l' (join_bounds hx hy) ?_ ?_ rfl rfl h.symm
    · intro j hj
      simp [BitAtom.sub, BitAtom.chunkFrom, slice_join_low n n' l j 1 (by omega)]
    · intro j
      simp [BitAtom.sub, BitAtom.chunkFrom, slice_join_high n n' l j 1 hx.1 hx.2]
  case trap.trap =>
    exact key .trap l l' trivial (fun _ _ => rfl) (fun _ => rfl) rfl rfl h.symm
  case encodedPtr.encodedPtr p lo hi p' lo' hi' =>
    have hhi : hi = lo + l := hx
    have hhi' : hi' = lo' + l' := hy
    split at h
    · rename_i heq
      obtain ⟨rfl, rfl⟩ := heq
      refine key (.encodedPtr p lo hi') l l' (show hi' = lo + (l + l') by omega) ?_ ?_ rfl rfl
        (Option.some.inj h).symm
      · intro j _
        rfl
      · intro j
        simp [BitAtom.sub, BitAtom.chunkFrom, hhi, Nat.add_assoc]
    · cases h
  case encodedValue.encodedValue v lo hi v' lo' hi' =>
    have hhi : hi = lo + l := hx
    have hhi' : hi' = lo' + l' := hy
    split at h
    · rename_i heq
      obtain ⟨rfl, rfl⟩ := heq
      refine key (.encodedValue v lo hi') l l' (show hi' = lo + (l + l') by omega) ?_ ?_ rfl rfl
        (Option.some.inj h).symm
      · intro j _
        rfl
      · intro j
        simp [BitAtom.sub, BitAtom.chunkFrom, hhi, Nat.add_assoc]
    · cases h

theorem joinHead_spec {x : Piece} {L : List Piece} (hx : x.1.WF x.2) (hL : PiecesWF L) :
    PiecesWF (joinHead x L) ∧ piecesLen (joinHead x L) = x.2 + piecesLen L ∧
      (joinHead x L).flatMap explodePiece = explodePiece x ++ L.flatMap explodePiece := by
  induction L generalizing x with
  | nil =>
    refine ⟨?_, by simp [joinHead, piecesLen], by simp [joinHead]⟩
    intro q hq
    obtain rfl := List.mem_singleton.mp hq
    exact hx
  | cons y L ih =>
    have hy : y.1.WF y.2 := hL y (by simp)
    have hL' : PiecesWF L := fun q hq => hL q (by simp [hq])
    rw [joinHead]
    cases hj : joinPieces x y with
    | none =>
      refine ⟨?_, by simp [piecesLen], by simp⟩
      intro q hq
      rcases List.mem_cons.mp hq with rfl | hq
      · exact hx
      · exact hL q hq
    | some z =>
      obtain ⟨hlen, hz, hexp⟩ := joinPieces_spec hx hy hj
      obtain ⟨h1, h2, h3⟩ := ih hz hL'
      refine ⟨h1, ?_, ?_⟩
      · show piecesLen (joinHead z L) = _
        rw [h2, hlen]
        simp [piecesLen, Nat.add_assoc]
      · show (joinHead z L).flatMap explodePiece = _
        rw [h3, hexp, List.flatMap_cons, List.append_assoc]

theorem joinAllPieces_spec {L : List Piece} (hL : PiecesWF L) :
    PiecesWF (joinAllPieces L) ∧ piecesLen (joinAllPieces L) = piecesLen L ∧
      (joinAllPieces L).flatMap explodePiece = L.flatMap explodePiece := by
  cases L with
  | nil => exact ⟨hL, rfl, rfl⟩
  | cons x L =>
    have hL' : PiecesWF L := fun q hq => hL q (by simp [hq])
    obtain ⟨h1, h2, h3⟩ := joinHead_spec (hL x (by simp)) hL'
    exact ⟨h1, by simpa [joinAllPieces, piecesLen] using h2, by simpa [joinAllPieces] using h3⟩

/-- The pieces a run is made of: an atom is one piece. -/
private def piecesOf (b : Bits) : List Piece :=
  match b.val with
  | .atom a => [(a, b.len)]
  | .pieces ps => ps

private theorem piecesOf_spec {b : Bits} (h : b.WF) :
    PiecesWF (piecesOf b) ∧ piecesLen (piecesOf b) = b.len ∧
      (piecesOf b).flatMap explodePiece = explode b := by
  obtain ⟨val, len⟩ := b
  cases val with
  | atom a =>
    refine ⟨?_, by simp [piecesOf, piecesLen], by simp [piecesOf, explode]⟩
    intro q hq
    obtain rfl := List.mem_singleton.mp hq
    exact h
  | pieces ps => exact ⟨h.1, h.2, rfl⟩

private theorem pieces_append_spec {x y : Bits} (hx : x.WF) (hy : y.WF) :
    PiecesWF (piecesOf x ++ piecesOf y) ∧
      piecesLen (piecesOf x ++ piecesOf y) = x.len + y.len ∧
      (piecesOf x ++ piecesOf y).flatMap explodePiece = explode x ++ explode y := by
  obtain ⟨hx1, hx2, hx3⟩ := piecesOf_spec hx
  obtain ⟨hy1, hy2, hy3⟩ := piecesOf_spec hy
  refine ⟨?_, ?_, by rw [List.flatMap_append, hx3, hy3]⟩
  · intro q hq
    rcases List.mem_append.mp hq with h | h
    · exact hx1 q h
    · exact hy1 q h
  · rw [← hx2, ← hy2]
    simp [piecesLen]

/-- **What `bit::` does**: the run is well formed, its length is the sum, and its bits are those
    of the first run and then those of the second. -/
theorem join_spec {x y : Bits} (hx : x.WF) (hy : y.WF) :
    (x.join y).WF ∧ (x.join y).len = x.len + y.len ∧
      explode (x.join y) = explode x ++ explode y := by
  -- all cases but the merge of two atoms keep a list of pieces, merged at its head
  have hall := pieces_append_spec hx hy
  obtain ⟨h1, h2, h3⟩ := joinAllPieces_spec hall.1
  rw [hall.2.1] at h2
  rw [hall.2.2] at h3
  obtain ⟨xv, xl⟩ := x
  obtain ⟨yv, yl⟩ := y
  cases xv with
  | pieces ps =>
    cases yv with
    | pieces ps' => exact ⟨⟨h1, h2⟩, rfl, h3⟩
    | atom b => exact ⟨⟨h1, h2⟩, rfl, h3⟩
  | atom a =>
    cases yv with
    | pieces ps' => exact ⟨⟨h1, h2⟩, rfl, h3⟩
    | atom b =>
      simp only [Bits.join]
      cases hj : joinPieces (a, xl) (b, yl) with
      | none => exact ⟨⟨hall.1, hall.2.1⟩, rfl, hall.2.2⟩
      | some z =>
        obtain ⟨hlen, hz, hexp⟩ := joinPieces_spec (x := (a, xl)) (y := (b, yl)) hx hy hj
        exact ⟨hz, hlen, hexp⟩

/-! ## Numbers -/

/-- The list holds bits of integers and nothing else. -/
def IntPieces (L : List Bits) : Prop :=
  ∀ b ∈ L, ∃ n : Int, b.val = .atom (.int n) ∧ 0 ≤ n ∧ n < 2 ^ b.len

/-- The number a list of integer pieces spells, low piece first. -/
def intOf : List Bits → Int
  | [] => 0
  | b :: L =>
    match b.val with
    | .atom (.int n) => n + 2 ^ b.len * intOf L
    | _ => intOf L

/-- Two integer pieces side by side are one. -/
theorem join_int {n n' : Int} {l : Nat} (l' : Nat) (h0 : 0 ≤ n) (h1 : n < 2 ^ l) :
    Bits.join ⟨.atom (.int n), l⟩ ⟨.atom (.int n'), l'⟩ =
      ⟨.atom (.int (n' * 2 ^ l + n)), l + l'⟩ := by
  simp only [Bits.join, joinPieces]
  rw [lor_shiftLeft_eq h0 h1]

/-- Merging the first two integer pieces does not change the number. -/
theorem intPieces_join {x y : Bits} {L : List Bits} (h : IntPieces (x :: y :: L)) :
    IntPieces (x.join y :: L) ∧ intOf (x.join y :: L) = intOf (x :: y :: L) := by
  obtain ⟨n, hn, hn0, hn1⟩ := h x (by simp)
  obtain ⟨n', hn', hn0', hn1'⟩ := h y (by simp)
  obtain ⟨xv, l⟩ := x
  obtain ⟨yv, l'⟩ := y
  obtain rfl : xv = .atom (.int n) := hn
  obtain rfl : yv = .atom (.int n') := hn'
  rw [join_int l' hn0 hn1]
  constructor
  · intro b hb
    rcases List.mem_cons.mp hb with rfl | hb
    · exact ⟨_, rfl, join_bounds ⟨hn0, hn1⟩ ⟨hn0', hn1'⟩⟩
    · exact h b (by simp [hb])
  · simp only [intOf]
    rw [pow_add]
    ring

/-- **Joining integer pieces gives the number they spell.** -/
theorem joinBytes_intOf {L : List Bits} (h : IntPieces L) (hne : L ≠ []) :
    joinBytes L = .ok (.atom (.int (intOf L))) := by
  cases L with
  | nil => exact absurd rfl hne
  | cons b L =>
    rw [joinBytes]
    congr 1
    -- the head takes the rest one piece at a time
    induction L generalizing b with
    | nil =>
      obtain ⟨n, hn, -, -⟩ := h b (by simp)
      simp [intOf, hn]
    | cons y L ih =>
      obtain ⟨h', hval⟩ := intPieces_join h
      rw [List.foldl_cons, ih (b.join y) h' (by simp), hval]

/-- The number that consecutive slices of `n` spell. -/
theorem intOf_slices (n : Int) (c : Nat) (k pos : Nat) :
    intOf ((List.range k).map fun j => ⟨.atom (.int (slice n (pos + c * j) c)), c⟩) =
      slice n pos (c * k) := by
  induction k generalizing pos with
  | zero => simp [intOf, slice]
  | succ k ih =>
    have hshift : ∀ j, pos + c * (j + 1) = pos + c + c * j := by intro j; ring
    rw [List.range_succ_eq_map, List.map_cons, List.map_map]
    simp only [Function.comp_def, intOf, hshift, ih]
    rw [Nat.mul_zero, Nat.add_zero, slice_add, Nat.mul_succ, Nat.add_comm c]

theorem intPieces_slices (n : Int) (c k pos : Nat) :
    IntPieces ((List.range k).map fun j => ⟨.atom (.int (slice n (pos + c * j) c)), c⟩) := by
  intro b hb
  obtain ⟨j, -, rfl⟩ := List.mem_map.mp hb
  exact ⟨_, rfl, slice_nonneg _ _ _, slice_lt _ _ _⟩

end CSemantics
