/-
  Aggregates as whole and as partial bytes.

  The value of a struct is written byte by byte, and a byte that is padding becomes unknown.  There are
  two walks over the bytes, one for whole objects and one for values that may end inside a byte:

      splitStructBytes           counts the BYTES that are left: byte i of n is tested as  n - (n - i)
      splitStructPartialBytes    counts the BITS that are left:  byte i of n is tested as  n - 8 (n - i)

  Both hand the difference to the same test for padding, so the second asks it about the wrong byte.
  `splitPartialBytes_eq_iff` says where nothing comes of that.
-/
import CSemantics.Memory.Encoding

namespace CSemantics

open IntBits

/-! ## The walks -/

section Code

variable (cfg : Settings) (tags : Tags)

/-- `splitStructPartialBytes(L, T, Len)` for a type of `size` bytes: `Len` BITS are still to come, and
    the offset tested is that many bytes before the end. -/
def splitStructPartialBytes (f : FieldInfo) (size : Int) : List Bits → Int → Eval (List Bits)
  | [], Len => if Len = 0 then .ok [] else .error .stuck
  | b :: L, Len =>
    if Len = 0 then .ok []
    else
      let b' := if isPaddingOffset cfg (size - Len) f then splitPaddingByte b else b
      if b'.len ≤ cfg.bitsPerByte ∧ 0 < Len then do
        let rest ← splitStructPartialBytes f size L (Len - b'.len)
        return b' :: rest
      else .error .stuck

/-- `splitPartialBytes(tv(agg(L), T))`, for a struct or a union -/
def splitPartialBytes (L : List Bits) (T : UType) : Eval (List Bits) :=
  match T with
  | .ut m (.nonArray (.structType s)) => do
    splitStructPartialBytes cfg (getFields tags m s) (← byteSizeofType cfg tags T) L (← bitSizeofType cfg tags T)
  | .ut m (.nonArray (.unionType s)) => do
    splitStructPartialBytes cfg (getFields tags m s) (← byteSizeofType cfg tags T) L (← bitSizeofType cfg tags T)
  | _ => .error .stuck

/-- `byteMask()` -/
def byteMask : Int := (1 : Int) <<< (cfg.bitsPerByte : Nat) - 1

/-- `#partialBytesToBytes(L, piece(Previous, PreviousLen))`: `Previous` holds the bits of integers that
    do not make a byte yet. -/
def partialBytesFrom (Previous : Int) (PreviousLen : ℕ) (L : List Bits) : Eval (List Bits) :=
  if _h : (cfg.bitsPerByte : ℕ) ≤ PreviousLen then do
    let rest ← partialBytesFrom (Previous >>> (cfg.bitsPerByte : Nat)) (PreviousLen - cfg.bitsPerByte) L
    return ⟨.atom (.int (Int.land Previous (byteMask cfg))), cfg.bitsPerByte⟩ :: rest
  else
    match L with
    | [] => if PreviousLen = 0 then .ok [] else .error .stuck
    | Current :: L' =>
      match Current.val with
      | .atom (.int n) => partialBytesFrom (Int.lor (n <<< PreviousLen) Previous) (PreviousLen + Current.len) L'
      | _ =>
        if PreviousLen = 0 ∧ Current.len = cfg.bitsPerByte then do
          let rest ← partialBytesFrom 0 0 L'
          return Current :: rest
        else .error .stuck
termination_by (L.length, PreviousLen)
decreasing_by
  · have := cfg.bitsPerByte.pos
    exact Prod.Lex.right _ (by omega)
  · exact Prod.Lex.left _ _ (Nat.lt_succ_self _)
  · exact Prod.Lex.left _ _ (Nat.lt_succ_self _)

/-- `partialBytesToBytes(L)` -/
def partialBytesToBytes (L : List Bits) : Eval (List Bits) := partialBytesFrom cfg 0 0 L

end Code

/-! ## What the walks give -/

/-- The bytes with those of padding made unknown, `test` saying which those are. -/
def padded (test : ℕ → Bool) (L : List Bits) : List Bits :=
  L.mapIdx fun i b => if test i then splitPaddingByte b else b

/-- `isUnknown(N)`, of the value of a piece -/
def Bits.isUnknown (b : Bits) : Bool := b.val matches .atom (.unknown _)

section Walks

variable {cfg : Settings} {tags : Tags} {f : FieldInfo} {L : List Bits} {b : Bits} {n left : ℕ}

theorem splitPaddingByte_len (b : Bits) : (splitPaddingByte b).len = b.len := by
  unfold splitPaddingByte
  split <;> rfl

/-- Padding changes a byte unless it is unknown already. -/
theorem splitPaddingByte_eq_iff (b : Bits) : splitPaddingByte b = b ↔ b.isUnknown = true := by
  obtain ⟨v, l⟩ := b
  constructor
  · intro h
    have hval := congrArg Bits.val h
    unfold splitPaddingByte at hval
    split at hval
    · next hv => rw [Bits.isUnknown, hv]
    · next hv => rw [show (⟨v, l⟩ : Bits).val = v from rfl] at hv; subst hv; cases hval
    · next hv _ => exact (hv 0 hval.symm).elim
  · intro h
    unfold Bits.isUnknown at h
    split at h
    · next hv => unfold splitPaddingByte; rw [hv]
    · cases h

theorem padded_cons (test : ℕ → Bool) (b : Bits) (L : List Bits) :
    padded test (b :: L) = (if test 0 then splitPaddingByte b else b) :: padded (fun i => test (i + 1)) L := by
  simp only [padded, List.mapIdx_cons]

/-- **The walk over bytes** tests every byte at its own offset. -/
theorem splitStructBytes_eq (hL : ∀ b ∈ L, b.len = cfg.bitsPerByte) (hlen : L.length = left) :
    splitStructBytes cfg f n L left = .ok (padded (fun i => isPaddingOffset cfg (n - (left - i : Int)) f) L) := by
  induction L generalizing left with
  | nil =>
    subst hlen
    rfl
  | cons b L ih =>
    subst hlen
    have hb : b.len = cfg.bitsPerByte := hL b List.mem_cons_self
    have hb' : (if isPaddingOffset cfg (n - ((L.length + 1 : ℕ) : Int)) f then splitPaddingByte b else b).len =
        cfg.bitsPerByte := by
      split
      · rw [splitPaddingByte_len, hb]
      · exact hb
    rw [List.length_cons, splitStructBytes, if_pos hb', ih (fun x hx => hL x (List.mem_cons_of_mem b hx)) rfl,
      padded_cons]
    simp only [Eval.ok_bind, pure, Except.pure]
    congr 3
    funext i
    congr 1
    push_cast
    ring

/-- **The walk over bits** tests byte `i` at the offset that is `left - i` BITS before the end. -/
theorem splitStructPartialBytes_eq (hL : ∀ b ∈ L, b.len = cfg.bitsPerByte) (hlen : L.length = left) :
    splitStructPartialBytes cfg f n L (cfg.bitsPerByte * left) =
      .ok (padded (fun i => isPaddingOffset cfg (n - cfg.bitsPerByte * (left - i : Int)) f) L) := by
  induction L generalizing left with
  | nil =>
    subst hlen
    rfl
  | cons b L ih =>
    subst hlen
    have hpos : (0 : Int) < cfg.bitsPerByte := by exact_mod_cast cfg.bitsPerByte.pos
    have hb : b.len = cfg.bitsPerByte := hL b List.mem_cons_self
    have hsize : (0 : Int) < cfg.bitsPerByte * ((L.length + 1 : ℕ) : Int) := by positivity
    have hb' : (if isPaddingOffset cfg (n - cfg.bitsPerByte * ((L.length + 1 : ℕ) : Int)) f then splitPaddingByte b
        else b).len = cfg.bitsPerByte := by
      split
      · rw [splitPaddingByte_len, hb]
      · exact hb
    have hrest : (cfg.bitsPerByte * ((L.length + 1 : ℕ) : Int)) - (cfg.bitsPerByte : ℕ) =
        cfg.bitsPerByte * (L.length : Int) := by
      push_cast
      ring
    rw [List.length_cons, splitStructPartialBytes, if_neg (ne_of_gt hsize)]
    simp only [hb']
    rw [if_pos ⟨le_refl _, hsize⟩, hrest, ih (fun x hx => hL x (List.mem_cons_of_mem b hx)) rfl, padded_cons]
    simp only [Eval.ok_bind, pure, Except.pure]
    congr 3
    funext i
    congr 1
    push_cast
    ring

theorem padded_eq_iff {test test' : ℕ → Bool} :
    padded test L = padded test' L ↔ ∀ i (h : i < L.length), (L[i]).isUnknown = false → test i = test' i := by
  have hbyte : ∀ (p q : Bool) (b : Bits), (if p then splitPaddingByte b else b) = (if q then splitPaddingByte b else b) ↔
      (b.isUnknown = false → p = q) := by
    intro p q b
    have hpad := splitPaddingByte_eq_iff b
    cases hb : b.isUnknown with
    | true =>
      have hsame := hpad.mpr hb
      simp [hsame]
    | false =>
      have hne : splitPaddingByte b ≠ b := fun h => by rw [hpad, hb] at h; cases h
      cases p <;> cases q <;> simp [hne, hne.symm]
  rw [padded, padded, List.mapIdx_eq_mapIdx_iff]
  exact forall_congr' fun i => forall_congr' fun h => hbyte _ _ _

/-! ### Bytes that are whole -/

/-- A byte; a number in it is one of `bitsPerByte` bits. -/
def WholeByte (cfg : Settings) (b : Bits) : Prop :=
  b.len = cfg.bitsPerByte ∧ ∀ n, b.val = .atom (.int n) → 0 ≤ n ∧ n < 2 ^ (cfg.bitsPerByte : ℕ)

theorem WholeByte.splitPaddingByte (h : WholeByte cfg b) : WholeByte cfg (splitPaddingByte b) := by
  refine ⟨by rw [splitPaddingByte_len, h.1], ?_⟩
  intro n hn
  unfold CSemantics.splitPaddingByte at hn
  split at hn
  · next hv => rw [hv] at hn; cases hn
  · cases hn
  · cases hn

/-- **Whole bytes stay as they are.** -/
theorem partialBytesFrom_eq (hL : ∀ b ∈ L, WholeByte cfg b) : partialBytesFrom cfg 0 0 L = .ok L := by
  have hpos := cfg.bitsPerByte.pos
  induction L with
  | nil =>
    rw [partialBytesFrom, dif_neg (by omega)]
    rfl
  | cons b L ih =>
    obtain ⟨hlen, hint⟩ := hL b List.mem_cons_self
    have hrest := ih fun x hx => hL x (List.mem_cons_of_mem b hx)
    have hother : (∀ n, b.val ≠ .atom (.int n)) →
        partialBytesFrom cfg 0 0 (b :: L) = .ok (b :: L) := by
      intro hv
      rw [partialBytesFrom, dif_neg (by omega)]
      split
      · next n hn => exact absurd hn (hv n)
      · rw [if_pos ⟨rfl, hlen⟩, hrest]
        rfl
    cases hv : b.val with
    | pieces ps => exact hother fun n h => by rw [hv] at h; cases h
    | atom a =>
      cases a with
      | int n =>
        obtain ⟨h0, h1⟩ := hint n hv
        -- the byte is taken whole, and given out whole
        have htake : partialBytesFrom cfg 0 0 (b :: L) = partialBytesFrom cfg n cfg.bitsPerByte L := by
          have hjoin : Int.lor (n <<< (0 : ℕ)) 0 = n := by
            rw [Int.shiftLeft_eq, pow_zero, mul_one]
            cases n <;> simp [Int.lor, Nat.ldiff]
          rw [partialBytesFrom, dif_neg (by omega)]
          simp only [hv, hjoin, hlen, Nat.zero_add]
        have hmask : Int.land n (byteMask cfg) = n := by
          rw [byteMask, Int.shiftLeft_eq, one_mul, land_mask]
          exact Int.emod_eq_of_lt h0 h1
        have hshift : n >>> (cfg.bitsPerByte : ℕ) = 0 := by
          rw [Int.shiftRight_eq_div_pow]
          exact Int.ediv_eq_zero_of_lt h0 h1
        have hb : b = ⟨.atom (.int n), cfg.bitsPerByte⟩ := by
          cases b
          cases hv
          cases hlen
          rfl
        rw [htake, partialBytesFrom.eq_def, dif_pos (le_refl _), hshift, Nat.sub_self, hrest, hmask, hb]
        rfl
      | unknown n => exact hother fun n h => by rw [hv] at h; cases h
      | trap => exact hother fun n h => by rw [hv] at h; cases h
      | encodedPtr p lo hi => exact hother fun n h => by rw [hv] at h; cases h
      | encodedValue v lo hi => exact hother fun n h => by rw [hv] at h; cases h

end Walks

/-! ## Whole and partial bytes -/

section Aggregates

variable {cfg : Settings} {tags : Tags} {T : UType} {f : FieldInfo} {L : List Bits} {n : ℕ}

/-- **Whole bytes**: those of padding, and those only, become unknown. -/
theorem splitBytes_agg (hT : aggregateFields tags T = some f) (hsize : f.size = ((cfg.bitsPerByte * n : ℕ) : Int))
    (hL : ∀ b ∈ L, b.len = cfg.bitsPerByte) (hlen : L.length = n) :
    splitBytes cfg tags (.agg L) T = .ok (padded (fun i => isPaddingOffset cfg i f) L) := by
  have hbits : bitSizeofType cfg tags T = .ok ((cfg.bitsPerByte * n : ℕ) : Int) := by
    rw [bitSizeofType_of_aggregateFields hT, hsize]
  have hbytes := byteSizeofType_eq hbits
  have hwalk : splitStructBytes cfg f n L n = .ok (padded (fun i => isPaddingOffset cfg i f) L) := by
    rw [splitStructBytes_eq hL hlen]
    simp only [sub_sub_cancel]
  unfold aggregateFields at hT
  split at hT
  · injection hT with hT
    subst hT
    simp only [splitBytes, hbits, hbytes, Eval.ok_bind, Int.toNat_natCast, hwalk]
  · injection hT with hT
    subst hT
    simp only [splitBytes, hbits, hbytes, Eval.ok_bind, Int.toNat_natCast, hwalk]
  · cases hT

/-- **Partial bytes**: byte `i` of `n` is tested at `n - bitsPerByte (n - i)`. -/
theorem splitPartialBytes_eq (hT : aggregateFields tags T = some f) (hsize : f.size = ((cfg.bitsPerByte * n : ℕ) : Int))
    (hL : ∀ b ∈ L, b.len = cfg.bitsPerByte) (hlen : L.length = n) :
    splitPartialBytes cfg tags L T =
      .ok (padded (fun i => isPaddingOffset cfg (n - cfg.bitsPerByte * (n - i : Int)) f) L) := by
  have hbits : bitSizeofType cfg tags T = .ok ((cfg.bitsPerByte * n : ℕ) : Int) := by
    rw [bitSizeofType_of_aggregateFields hT, hsize]
  have hbytes := byteSizeofType_eq hbits
  have hwalk := splitStructPartialBytes_eq (f := f) (n := n) hL hlen
  rw [← Nat.cast_mul] at hwalk
  unfold aggregateFields at hT
  split at hT
  · injection hT with hT
    subst hT
    simp only [splitPartialBytes, hbits, hbytes, Eval.ok_bind, hwalk]
  · injection hT with hT
    subst hT
    simp only [splitPartialBytes, hbits, hbytes, Eval.ok_bind, hwalk]
  · cases hT

/-- The two walks give one list, the bytes of `T` with its padding unknown, and the bytes come through
    `partialBytesToBytes` as they are. -/
def EncodedAlike (cfg : Settings) (tags : Tags) (T : UType) (f : FieldInfo) (L : List Bits) : Prop :=
  let whole := padded (fun i => isPaddingOffset cfg i f) L
  splitBytes cfg tags (.agg L) T = .ok whole ∧
  splitPartialBytes cfg tags L T = .ok whole ∧
  byteSizeofType cfg tags T = .ok (whole.length : Int) ∧
  partialBytesToBytes cfg L = .ok L ∧
  partialBytesToBytes cfg whole = .ok whole

theorem WholeByte.padded {test : ℕ → Bool} (hL : ∀ b ∈ L, WholeByte cfg b) :
    ∀ b ∈ CSemantics.padded test L, WholeByte cfg b := by
  intro b hb
  obtain ⟨i, hi, rfl⟩ := List.mem_mapIdx.mp hb
  have h := hL L[i] (List.getElem_mem hi)
  split
  · exact h.splitPaddingByte
  · exact h

/-- **Partial and whole aggregates.**  The two encodings agree exactly when the two tests agree at every
    byte that is not unknown already. -/
theorem encodedAlike_iff (hT : aggregateFields tags T = some f) (hsize : f.size = ((cfg.bitsPerByte * n : ℕ) : Int))
    (hL : ∀ b ∈ L, WholeByte cfg b) (hlen : L.length = n) :
    EncodedAlike cfg tags T f L ↔
      ∀ i (h : i < L.length), (L[i]).isUnknown = false →
        isPaddingOffset cfg (n - cfg.bitsPerByte * (n - i : Int)) f = isPaddingOffset cfg i f := by
  have hbyte : ∀ b ∈ L, b.len = cfg.bitsPerByte := fun b hb => (hL b hb).1
  have hbits : bitSizeofType cfg tags T = .ok ((cfg.bitsPerByte * n : ℕ) : Int) := by
    rw [bitSizeofType_of_aggregateFields hT, hsize]
  have hlength : (padded (fun i => isPaddingOffset cfg i f) L).length = n := by
    rw [padded, List.length_mapIdx, hlen]
  rw [← padded_eq_iff]
  constructor
  · rintro ⟨-, hpartial, -⟩
    rw [splitPartialBytes_eq hT hsize hbyte hlen] at hpartial
    exact Except.ok.inj hpartial
  · intro h
    refine ⟨splitBytes_agg hT hsize hbyte hlen, ?_, ?_, partialBytesFrom_eq hL, partialBytesFrom_eq (.padded hL)⟩
    · rw [splitPartialBytes_eq hT hsize hbyte hlen, h]
    · rw [byteSizeofType_eq hbits, hlength]

end Aggregates

/-! ## Two structs -/

private def demoStruct : TagId := ⟨.Identifier "s", "u", .global⟩

/-- `struct { char c; int i; }`: bytes 1, 2 and 3 are padding. -/
def charThenInt : FieldInfo := .fieldInfo [] 64 [] [] [8, 16, 24] 4

/-- `struct { int i; }` -/
def justInt : FieldInfo := .fieldInfo [] 32 [] [] [] 4

/-- Bytes of zeros. -/
def zeroBytes (n : ℕ) : List Bits := List.replicate n ⟨.atom (.int 0), 8⟩

private theorem wholeByte_zeroBytes (n : ℕ) : ∀ b ∈ zeroBytes n, WholeByte x86GccLimitedLibc b := by
  intro b hb
  obtain rfl := List.eq_of_mem_replicate hb
  refine ⟨rfl, fun m hm => ?_⟩
  injection hm with hm
  injection hm with hm
  subst hm
  exact ⟨le_refl _, by decide⟩

/-- Without padding there is nothing to disagree about. -/
theorem encodedAlike_justInt :
    EncodedAlike x86GccLimitedLibc [(demoStruct, .fields justInt)] (.ut noMods (.nonArray (.structType demoStruct)))
      justInt (zeroBytes 4) :=
  (encodedAlike_iff rfl (by decide) (wholeByte_zeroBytes 4) (n := 4) rfl).mpr fun i _ _ => by
    simp [isPaddingOffset, justInt, FieldInfo.padding]

/-- **The bytes of padding that stay**: after a `char`, the bytes before the `int` keep their zeros when
    the struct is written as partial bytes. -/
theorem charThenInt_not_encodedAlike :
    ¬EncodedAlike x86GccLimitedLibc [(demoStruct, .fields charThenInt)]
      (.ut noMods (.nonArray (.structType demoStruct))) charThenInt (zeroBytes 8) := by
  rintro ⟨-, hpartial, -⟩
  rw [splitPartialBytes_eq (f := charThenInt) (n := 8) rfl (by decide)
    (fun b hb => (wholeByte_zeroBytes 8 b hb).1) rfl] at hpartial
  have hsame := padded_eq_iff.mp (Except.ok.inj hpartial) 1 (by decide) (by decide)
  exact absurd hsame (by decide)

end CSemantics
