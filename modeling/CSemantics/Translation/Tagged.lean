/-
  The layout of a struct.

  `makeStructFieldInfo` walks over the member declarations once.  It keeps the first free bit and,
  for each member, rounds it up to where the member may start (`pad`), records the offset and moves
  on past the member.  What "may start" means is one rule for ordinary members and three for
  bit-fields:

      ordinary member            a multiple of its alignment, limited by the pack value
      bit-field that would cross
      a boundary of its unit     a multiple of the alignment of its unit, limited by the pack value
      bit-field of width 0       a multiple of the alignment of its unit
      any other bit-field        the first free bit

  **The invariant of the walk** is `LayoutInv`: the members placed so far lie below the first free
  bit, one after the other, each where it may start.  `layoutInv_step` is one member,
  `makeStructFieldInfo_layout` the whole walk.
-/
import CSemantics.Lib.AssocMap
import CSemantics.Typing.Equality
import CSemantics.Typing.Common
import CSemantics.Typing.FlatFields

namespace CSemantics

open AssocMap FlatFields

/-! ## The code -/

section Code

variable (cfg : Settings) (tags : Tags)

/-- Round up to the nearest multiple of the second arg * cfg:bitsPerByte. -/
def roundBits (N A : Int) : Eval Int :=
  if A * cfg.bitsPerByte = 0 then .error .stuck
  else if N.tmod (A * cfg.bitsPerByte) = 0 then .ok N
  else .ok (N + (A * cfg.bitsPerByte - N.tmod (A * cfg.bitsPerByte)))

/-- `pad(V, T)`: where a member of type `T` starts when `V` is the first free bit and `packV` is
    the value of the last `#pragma pack`. -/
def pad (packV V : Int) : CType → Eval Int
  | .t _ m (.nonArray (.basic (.bitfieldType i width))) => do
    let boundary ← roundBits cfg V (byteAlignofType cfg tags i.toSimple.toType)
    if m.has .Packed = false ∧ V + width > boundary then
      roundBits cfg V (min (byteAlignofType cfg tags i.toSimple.toType) packV)
    else if width = 0 then roundBits cfg V (byteAlignofType cfg tags i.toSimple.toType)
    else return V
  | T => roundBits cfg V (min (byteAlignofType cfg tags T) packV)

/-- `maxByteAlignofDecls'` -/
def maxByteAlignofDecls' (packV : Int) : Int → List (CType × CId) → Int
  | sz, [] => sz
  | sz, (T, _) :: L => maxByteAlignofDecls' packV (max sz (min (byteAlignofType cfg tags T) packV)) L

def maxByteAlignofDecls (packV : Int) (L : List (CType × CId)) : Int :=
  maxByteAlignofDecls' cfg tags packV 1 L

/-- The offsets of the padding bytes between two bit offsets. -/
def getPaddingOffsets (off bOff : Int) : List Int :=
  if _h : off < bOff ∧ off.tmod cfg.bitsPerByte ≠ 0 then
    getPaddingOffsets (off + (cfg.bitsPerByte - off.tmod cfg.bitsPerByte)) bOff
  else if off ≥ bOff then []
  else off :: getPaddingOffsets (off + cfg.bitsPerByte) bOff
termination_by (bOff - off).toNat
decreasing_by
  · have hb : (0 : Int) < (cfg.bitsPerByte : Nat) := by exact_mod_cast cfg.bitsPerByte.pos
    have := Int.tmod_lt_of_pos off hb
    omega
  · have hb : (0 : Int) < (cfg.bitsPerByte : Nat) := by exact_mod_cast cfg.bitsPerByte.pos
    omega

/-- The first bit after a member, from what was recorded about it. -/
def endOfField (types : List (CId × CType)) (offsets : List (CId × Int)) (x : CId) : Eval Int :=
  match offsets.lookup x, types.lookup x with
  | some o, some T => do return o + (← bitSizeofType cfg tags (utype T))
  | _, _ => .error .stuck

/-- `computePaddingOffsets` -/
def computePaddingOffsets (len : Int) (types : List (CId × CType)) (offsets : List (CId × Int)) :
    List (CType × CId) → Eval (List Int)
  | [] => .ok []
  | [(_, a)] => do return getPaddingOffsets cfg (← endOfField cfg tags types offsets a) len
  | (_, a) :: (T, b) :: L => do
    let e ← endOfField cfg tags types offsets a
    match offsets.lookup b with
    | some o => do
      let rest ← computePaddingOffsets len types offsets ((T, b) :: L)
      return getPaddingOffsets cfg e o ++ rest
    | none => .error .stuck

def isUnnamedCId : CId → Bool
  | .unnamed _ _ => true
  | _ => false

def isUnnamedStructOrUnionType : CType → Bool
  | .t _ _ (.nonArray (.structType s)) => isUnnamedCId s.name
  | .t _ _ (.nonArray (.unionType s)) => isUnnamedCId s.name
  | _ => false

/-- A declaration without a name that declares no member: neither an anonymous struct or union
    nor a bit-field. -/
def declaresNothing (d : CType × CId) : Bool :=
  d.2.isNoName && !isUnnamedStructOrUnionType d.1 && !isBitfieldType d.1

/-- The end of the walk: round the size up and describe the padding. -/
def finishStruct (pack : Bool) (packV V : Int) (types : List (CId × CType))
    (offsets : List (CId × Int)) (NL : List (CType × CId)) : Eval FieldInfo := do
  let align := maxByteAlignofDecls cfg tags packV NL
  let size ← roundBits cfg V (if pack then 1 else align)
  let padding ← computePaddingOffsets cfg tags size types offsets NL
  return .fieldInfo NL size types offsets padding align

/-- `makeStructFieldInfo'(Pack, Fs, V, Types, Offsets, NL)` -/
def makeStructFieldInfo' (pack : Bool) (packV : Int) :
    List (CType × CId) → Int → List (CId × CType) → List (CId × Int) → List (CType × CId) →
    Eval FieldInfo
  | [], V, types, offsets, NL => finishStruct cfg tags pack packV V types offsets NL
  | (T, x) :: L, V, types, offsets, NL =>
    if declaresNothing (T, x) then makeStructFieldInfo' pack packV L V types offsets NL
    else do
      let off ← pad cfg tags packV V T
      let size ← bitSizeofType cfg tags (utype T)
      makeStructFieldInfo' pack packV L (off + size) (update types x T) (update offsets x off)
        (NL ++ [(T, x)])

def makeStructFieldInfo (pack : Bool) (packV : Int) (Fs : List (CType × CId)) : Eval FieldInfo :=
  makeStructFieldInfo' cfg tags pack packV Fs 0 [] [] []

/-- `maxByteSizeofList'` -/
def maxByteSizeofList' : Int → List (CType × CId) → Eval Int
  | sz, [] => .ok sz
  | sz, (T, _) :: L => do maxByteSizeofList' (max sz (← byteSizeofType cfg tags (utype T))) L

def maxByteSizeofList (L : List (CType × CId)) : Eval Int := maxByteSizeofList' cfg tags 0 L

/-- `makeUnionFieldInfo'(Pack, Fs, Types, Offsets, NL)`: every member starts at offset 0. -/
def makeUnionFieldInfo' (pack : Bool) (packV : Int) :
    List (CType × CId) → List (CId × CType) → List (CId × Int) → List (CType × CId) → Eval FieldInfo
  | [], types, offsets, NL => do
    let bits := (← maxByteSizeofList cfg tags NL) * cfg.bitsPerByte
    let align := maxByteAlignofDecls cfg tags packV NL
    if pack then return .fieldInfo NL bits types offsets [] align
    else do
      let size ← roundBits cfg bits align
      return .fieldInfo NL size types offsets (getPaddingOffsets cfg bits size) align
  | (T, x) :: L, types, offsets, NL =>
    if declaresNothing (T, x) then makeUnionFieldInfo' pack packV L types offsets NL
    else makeUnionFieldInfo' pack packV L (update types x T) (update offsets x 0) (NL ++ [(T, x)])

def makeUnionFieldInfo (pack : Bool) (packV : Int) (Fs : List (CType × CId)) : Eval FieldInfo :=
  makeUnionFieldInfo' cfg tags pack packV Fs [] [] []

end Code

/-! ## Rounding -/

section Proofs

variable {cfg : Settings} {tags : Tags}

/-- **What rounding does**: the next multiple, less than one unit away. -/
theorem roundBits_spec {N A : Int} (hN : 0 ≤ N) (hA : 1 ≤ A) :
    ∃ r, roundBits cfg N A = .ok r ∧ N ≤ r ∧ r < N + A * cfg.bitsPerByte ∧
      A * cfg.bitsPerByte ∣ r := by
  have hb : (0 : Int) < (cfg.bitsPerByte : Nat) := by exact_mod_cast cfg.bitsPerByte.pos
  have hunit : 0 < A * (cfg.bitsPerByte : Nat) := Int.mul_pos (by omega) hb
  have hmod : N.tmod (A * cfg.bitsPerByte) = N % (A * cfg.bitsPerByte) := Int.tmod_eq_emod_of_nonneg hN
  have h0 := Int.emod_nonneg N (ne_of_gt hunit)
  have h1 := Int.emod_lt_of_pos N hunit
  unfold roundBits
  rw [if_neg (ne_of_gt hunit), hmod]
  by_cases hz : N % (A * cfg.bitsPerByte) = 0
  · exact ⟨N, by rw [if_pos hz], le_refl N, by omega, Int.dvd_of_emod_eq_zero hz⟩
  · refine ⟨_, by rw [if_neg hz], by omega, by omega, ?_⟩
    have hdvd : A * cfg.bitsPerByte ∣ N - N % (A * cfg.bitsPerByte) := Int.dvd_self_sub_emod
    have heq : N + (A * cfg.bitsPerByte - N % (A * cfg.bitsPerByte)) =
        N - N % (A * cfg.bitsPerByte) + A * cfg.bitsPerByte := by ring
    rw [heq]
    exact dvd_add hdvd (dvd_refl _)

/-- A stretch that ends at or below a multiple of the unit and starts at most a unit before it
    lies inside one unit. -/
theorem div_eq_div_of_le_multiple {U o w r : Int} (hU : 0 < U) (hw : 0 < w) (hr : U ∣ r)
    (hlo : r ≤ o + U) (hhi : o + w ≤ r) : o / U = (o + w - 1) / U := by
  obtain ⟨c, rfl⟩ := hr
  have h1 : o / U = c - 1 := by
    rw [Int.ediv_eq_iff_of_pos hU]
    constructor <;> nlinarith
  have h2 : (o + w - 1) / U = c - 1 := by
    rw [Int.ediv_eq_iff_of_pos hU]
    constructor <;> nlinarith
  rw [h1, h2]

theorem byteAlignofType_integer (i : IntType) :
    byteAlignofType cfg tags i.toSimple.toType = (alignofInteger cfg i : Nat) := by
  simp [byteAlignofType, IntType.toSimple, SimpleNonArrayType.toType, noMods, Mods.has, Mods.flags,
    byteAlignofNonArray]

/-! ## What a layout is -/

/-- Where a member of type `T` may start, when the pack value is `packV`: an ordinary member at a
    multiple of its alignment; a bit-field that is not packed, is no wider than its unit and whose
    unit the pack value does not cut, inside ONE unit. -/
structure WellPlaced (cfg : Settings) (tags : Tags) (packV : Int) (T : CType) (o : Int) : Prop where
  aligned : isBitfieldType T = false →
    min (byteAlignofType cfg tags T) packV * cfg.bitsPerByte ∣ o
  oneUnit : ∀ q m i w, T = .t q m (.nonArray (.basic (.bitfieldType i w))) → m.has .Packed = false →
    (alignofInteger cfg i : Nat) ≤ packV → 0 < w → w ≤ (alignofInteger cfg i * cfg.bitsPerByte : Nat) →
    o / (alignofInteger cfg i * cfg.bitsPerByte : Nat) =
      (o + w - 1) / (alignofInteger cfg i * cfg.bitsPerByte : Nat)

/-- The members a list of declarations declares. -/
def members (Fs : List (CType × CId)) : List (CType × CId) := Fs.filter fun d => !declaresNothing d

/-- **A layout of the members.**  They are listed in the order of declaration and lie one after the
    other inside the size, each well placed; the alignment is the greatest of theirs, and the size
    is a multiple of it, or of a byte when the struct is packed. -/
structure IsLayout (cfg : Settings) (tags : Tags) (pack : Bool) (packV : Int)
    (Fs : List (CType × CId)) (info : FieldInfo) : Prop where
  decls : info.decls = members Fs
  types : ∀ d ∈ info.decls, info.types.lookup d.2 = some d.1
  inside : ∀ d ∈ info.decls, ∃ n o, bitSizeofType cfg tags (utype d.1) = .ok n ∧
    info.offsets.lookup d.2 = some o ∧ 0 ≤ o ∧ o + n ≤ info.size
  disjoint : info.decls.Pairwise fun d d' => ∃ n o o', bitSizeofType cfg tags (utype d.1) = .ok n ∧
    info.offsets.lookup d.2 = some o ∧ info.offsets.lookup d'.2 = some o' ∧ o + n ≤ o'
  placed : ∀ d ∈ info.decls, ∃ o, info.offsets.lookup d.2 = some o ∧
    WellPlaced cfg tags packV d.1 o
  maxAlign_ge : 1 ≤ info.maxAlign ∧
    ∀ d ∈ info.decls, min (byteAlignofType cfg tags d.1) packV ≤ info.maxAlign
  maxAlign_mem : info.maxAlign = 1 ∨
    ∃ d ∈ info.decls, info.maxAlign = min (byteAlignofType cfg tags d.1) packV
  size : (if pack then 1 else info.maxAlign) * cfg.bitsPerByte ∣ info.size

/-- A declaration the translator can lay out: its type has a size and a positive alignment. -/
def Sized (cfg : Settings) (tags : Tags) (T : CType) : Prop :=
  (∃ n, 0 ≤ n ∧ bitSizeofType cfg tags (utype T) = .ok n) ∧
    (isBitfieldType T = false → 1 ≤ byteAlignofType cfg tags T)

/-! ## One member -/

/-- A bit-field is put at the next boundary if it would cross one, and else where it is. -/
theorem pad_bitfield_spec {packV V : Int} (hpack : 1 ≤ packV) (hV : 0 ≤ V) (q : Quals) (m : Mods)
    (i : IntType) (w : Int) :
    ∃ o, pad cfg tags packV V (.t q m (.nonArray (.basic (.bitfieldType i w)))) = .ok o ∧ V ≤ o ∧
      WellPlaced cfg tags packV (.t q m (.nonArray (.basic (.bitfieldType i w)))) o := by
  have hb : (0 : Int) < (cfg.bitsPerByte : Nat) := by exact_mod_cast cfg.bitsPerByte.pos
  have ha : (1 : Int) ≤ (alignofInteger cfg i : Nat) := by
    exact_mod_cast (alignofInteger cfg i).pos
  have hU : (0 : Int) < (alignofInteger cfg i * cfg.bitsPerByte : Nat) := by
    push_cast
    exact Int.mul_pos (by omega) hb
  obtain ⟨r, hr, hle, hlt, hdvd⟩ := @roundBits_spec cfg V _ hV ha
  have hdvd' : ((alignofInteger cfg i * cfg.bitsPerByte : Nat) : Int) ∣ r := by
    push_cast
    exact hdvd
  simp only [pad, byteAlignofType_integer, hr, bind, Except.bind]
  by_cases hcross : m.has .Packed = false ∧ V + w > r
  · -- the field would cross the boundary: it starts at the next one
    rw [if_pos hcross]
    obtain ⟨r', hr', hle', -, hdvd₂⟩ := @roundBits_spec cfg V _ hV (le_min ha hpack)
    refine ⟨r', hr', hle', by simp [isBitfieldType], ?_⟩
    rintro q' m' i' w' heq - hcut hw0 hwU
    cases heq
    rw [min_eq_left hcut] at hdvd₂
    have hnext : ((alignofInteger cfg i * cfg.bitsPerByte : Nat) : Int) ∣
        r' + (alignofInteger cfg i * cfg.bitsPerByte : Nat) :=
      dvd_add (by push_cast; exact hdvd₂) (dvd_refl _)
    exact div_eq_div_of_le_multiple hU hw0 hnext (le_refl _) (by omega)
  · rw [if_neg hcross]
    by_cases hzero : w = 0
    · rw [if_pos hzero]
      refine ⟨r, rfl, hle, by simp [isBitfieldType], ?_⟩
      rintro q' m' i' w' heq - - hw0 -
      cases heq
      omega
    · rw [if_neg hzero]
      refine ⟨V, rfl, le_refl V, by simp [isBitfieldType], ?_⟩
      rintro q' m' i' w' heq hnp - hw0 -
      cases heq
      have hfit : V + w ≤ r := by
        by_contra hgt
        exact hcross ⟨hnp, by omega⟩
      have hlt' : r < V + (alignofInteger cfg i * cfg.bitsPerByte : Nat) := by
        push_cast
        exact hlt
      exact div_eq_div_of_le_multiple hU hw0 hdvd' (le_of_lt hlt') hfit

/-- **Padding finds a place**: at or after the first free bit, and well placed. -/
theorem pad_spec {packV V : Int} (hpack : 1 ≤ packV) (hV : 0 ≤ V) {T : CType}
    (hT : Sized cfg tags T) :
    ∃ o, pad cfg tags packV V T = .ok o ∧ V ≤ o ∧ WellPlaced cfg tags packV T o := by
  -- everything but a bit-field is rounded up to its own alignment
  have hordinary : isBitfieldType T = false →
      pad cfg tags packV V T = roundBits cfg V (min (byteAlignofType cfg tags T) packV) →
      ∃ o, pad cfg tags packV V T = .ok o ∧ V ≤ o ∧ WellPlaced cfg tags packV T o := by
    intro hbit heq
    obtain ⟨r, hr, hle, -, hdvd⟩ := @roundBits_spec cfg V _ hV (le_min (hT.2 hbit) hpack)
    refine ⟨r, heq.trans hr, hle, fun _ => hdvd, ?_⟩
    rintro q m i w rfl
    simp [isBitfieldType] at hbit
  cases T with
  | t q m st =>
    cases st with
    | array k e => exact hordinary rfl rfl
    | nonArray n =>
      cases n with
      | enumType s | structType s | unionType s | pointerType p | functionType r ps =>
        exact hordinary rfl rfl
      | basic b =>
        cases b with
        | noType | void | float f | integer i => exact hordinary rfl rfl
        | bitfieldType i w => exact pad_bitfield_spec hpack hV q m i w

/-- A member starts at a byte, but for a bit-field that is put at the first free bit. -/
theorem pad_aligned {packV V o : Int} (hpack : 1 ≤ packV) (hV : 0 ≤ V) {T : CType} (hT : Sized cfg tags T)
    (ho : pad cfg tags packV V T = .ok o) :
    (cfg.bitsPerByte : Int) ∣ o ∨ isBitfieldType T = true ∧ o = V := by
  -- what is rounded to bytes is at a byte
  have hround : ∀ {A o : Int}, 1 ≤ A → roundBits cfg V A = .ok o → (cfg.bitsPerByte : Int) ∣ o := by
    intro A o hA h
    obtain ⟨r, hr, -, -, hdvd⟩ := @roundBits_spec cfg V A hV hA
    rw [hr] at h
    cases h
    exact (Dvd.intro_left A rfl).trans hdvd
  cases hbit : isBitfieldType T with
  | false =>
    obtain ⟨o', ho', -, hplaced⟩ := pad_spec hpack hV hT
    rw [ho'] at ho
    cases ho
    exact .inl ((Dvd.intro_left _ rfl).trans (hplaced.aligned hbit))
  | true =>
    obtain ⟨q, m, i, w, rfl⟩ : ∃ q m i w, T = .t q m (.nonArray (.basic (.bitfieldType i w))) := by
      unfold isBitfieldType at hbit
      split at hbit
      · exact ⟨_, _, _, _, rfl⟩
      · cases hbit
    have ha : (1 : Int) ≤ (alignofInteger cfg i : Nat) := by
      exact_mod_cast (alignofInteger cfg i).pos
    obtain ⟨r, hr, -, -, -⟩ := @roundBits_spec cfg V _ hV ha
    simp only [pad, byteAlignofType_integer, hr, bind, Except.bind] at ho
    split at ho
    · exact .inl (hround (le_min ha hpack) ho)
    · split at ho
      · exact .inl (hround ha (hr.trans ho))
      · cases ho
        exact .inr ⟨rfl, rfl⟩

/-- The state of the walk: members `NL` placed below the first free bit `V`. -/
structure LayoutInv (cfg : Settings) (tags : Tags) (packV V : Int) (types : List (CId × CType))
    (offsets : List (CId × Int)) (NL : List (CType × CId)) : Prop where
  nonneg : 0 ≤ V
  types : ∀ d ∈ NL, types.lookup d.2 = some d.1
  inside : ∀ d ∈ NL, ∃ n o, bitSizeofType cfg tags (utype d.1) = .ok n ∧
    offsets.lookup d.2 = some o ∧ 0 ≤ o ∧ o + n ≤ V
  disjoint : NL.Pairwise fun d d' => ∃ n o o', bitSizeofType cfg tags (utype d.1) = .ok n ∧
    offsets.lookup d.2 = some o ∧ offsets.lookup d'.2 = some o' ∧ o + n ≤ o'
  placed : ∀ d ∈ NL, ∃ o, offsets.lookup d.2 = some o ∧ WellPlaced cfg tags packV d.1 o

theorem layoutInv_start (packV : Int) : LayoutInv cfg tags packV 0 [] [] [] where
  nonneg := le_refl 0
  types := by simp
  inside := by simp
  disjoint := List.Pairwise.nil
  placed := by simp

/-- **One member keeps the invariant**: it goes after everything placed so far. -/
theorem layoutInv_step {packV V o n : Int} {types : List (CId × CType)}
    {offsets : List (CId × Int)} {NL : List (CType × CId)} {T : CType} {x : CId}
    (h : LayoutInv cfg tags packV V types offsets NL) (hx : ∀ d ∈ NL, d.2 ≠ x)
    (hsize : bitSizeofType cfg tags (utype T) = .ok n) (hn : 0 ≤ n) (ho : V ≤ o)
    (hT : WellPlaced cfg tags packV T o) :
    LayoutInv cfg tags packV (o + n) (update types x T) (update offsets x o) (NL ++ [(T, x)]) := by
  have hV := h.nonneg
  -- what was recorded about the earlier members is still there
  have hkeep : ∀ d ∈ NL, (update offsets x o).lookup d.2 = offsets.lookup d.2 := fun d hd =>
    lookup_update_of_ne offsets o (hx d hd)
  refine ⟨by omega, ?_, ?_, ?_, ?_⟩
  · intro d hd
    rcases List.mem_append.mp hd with hd | hd
    · rw [lookup_update_of_ne types T (hx d hd)]
      exact h.types d hd
    · obtain rfl := List.mem_singleton.mp hd
      exact lookup_update_self types x T
  · intro d hd
    rcases List.mem_append.mp hd with hd | hd
    · obtain ⟨n', o', hn', ho', h0, hend⟩ := h.inside d hd
      exact ⟨n', o', hn', (hkeep d hd).trans ho', h0, by omega⟩
    · obtain rfl := List.mem_singleton.mp hd
      exact ⟨n, o, hsize, lookup_update_self offsets x o, by omega, le_refl _⟩
  · refine List.pairwise_append.mpr ⟨?_, List.pairwise_singleton _ _, ?_⟩
    · refine h.disjoint.imp_of_mem fun {d d'} hd hd' hdd => ?_
      rw [hkeep d hd, hkeep d' hd']
      exact hdd
    · intro d hd d' hd'
      obtain rfl := List.mem_singleton.mp hd'
      obtain ⟨n', o', hn', ho', -, hend⟩ := h.inside d hd
      exact ⟨n', o', o, hn', (hkeep d hd).trans ho', lookup_update_self offsets x o, by omega⟩
  · intro d hd
    rcases List.mem_append.mp hd with hd | hd
    · obtain ⟨o', ho', hp⟩ := h.placed d hd
      exact ⟨o', (hkeep d hd).trans ho', hp⟩
    · obtain rfl := List.mem_singleton.mp hd
      exact ⟨o, lookup_update_self offsets x o, hT⟩

/-! ## The end of the walk -/

theorem maxByteAlignofDecls'_spec (packV : Int) (L : List (CType × CId)) (sz : Int) :
    (sz ≤ maxByteAlignofDecls' cfg tags packV sz L ∧
      ∀ d ∈ L, min (byteAlignofType cfg tags d.1) packV ≤ maxByteAlignofDecls' cfg tags packV sz L) ∧
    (maxByteAlignofDecls' cfg tags packV sz L = sz ∨
      ∃ d ∈ L, maxByteAlignofDecls' cfg tags packV sz L =
        min (byteAlignofType cfg tags d.1) packV) := by
  induction L generalizing sz with
  | nil => simp [maxByteAlignofDecls']
  | cons d L ih =>
    obtain ⟨T, x⟩ := d
    obtain ⟨⟨hge, hall⟩, hmem⟩ := ih (max sz (min (byteAlignofType cfg tags T) packV))
    have h1 := le_max_left sz (min (byteAlignofType cfg tags T) packV)
    have h2 := le_max_right sz (min (byteAlignofType cfg tags T) packV)
    rw [maxByteAlignofDecls']
    refine ⟨⟨h1.trans hge, ?_⟩, ?_⟩
    · intro d hd
      rcases List.mem_cons.mp hd with rfl | hd
      · exact h2.trans hge
      · exact hall d hd
    · rcases hmem with heq | ⟨d, hd, heq⟩
      · rcases max_choice sz (min (byteAlignofType cfg tags T) packV) with hm | hm
        · exact .inl (heq.trans hm)
        · exact .inr ⟨(T, x), by simp, heq.trans hm⟩
      · exact .inr ⟨d, by simp [hd], heq⟩

/-- The padding of placed members can be described. -/
theorem computePaddingOffsets_isOk {packV V : Int} (len : Int) {types : List (CId × CType)}
    {offsets : List (CId × Int)} {NL : List (CType × CId)}
    (h : LayoutInv cfg tags packV V types offsets NL) (L : List (CType × CId))
    (hL : ∀ d ∈ L, d ∈ NL) : ∃ ps, computePaddingOffsets cfg tags len types offsets L = .ok ps := by
  have hend : ∀ d ∈ NL, ∃ e, endOfField cfg tags types offsets d.2 = .ok e := by
    intro d hd
    obtain ⟨n, o, hn, ho, -, -⟩ := h.inside d hd
    refine ⟨o + n, ?_⟩
    simp [endOfField, ho, h.types d hd, hn, bind, Except.bind, pure, Except.pure]
  induction L with
  | nil => exact ⟨[], rfl⟩
  | cons d L ih =>
    obtain ⟨T, a⟩ := d
    obtain ⟨e, he⟩ := hend (T, a) (hL _ (by simp))
    cases L with
    | nil => exact ⟨_, by simp only [computePaddingOffsets, he, bind, Except.bind, pure, Except.pure]; rfl⟩
    | cons d' L =>
      obtain ⟨T', b⟩ := d'
      obtain ⟨ps, hps⟩ := ih fun d hd => hL d (by simp [List.mem_cons.mp hd])
      obtain ⟨n, o, -, ho, -, -⟩ := h.inside (T', b) (hL _ (by simp))
      refine ⟨getPaddingOffsets cfg e o ++ ps, ?_⟩
      simp only [computePaddingOffsets, he, ho, hps, bind, Except.bind, pure, Except.pure]

theorem finishStruct_layout {pack : Bool} {packV V : Int} {types : List (CId × CType)}
    {offsets : List (CId × Int)} {NL : List (CType × CId)} {Fs : List (CType × CId)}
    (hNL : NL = members Fs) (h : LayoutInv cfg tags packV V types offsets NL) :
    ∃ info, finishStruct cfg tags pack packV V types offsets NL = .ok info ∧
      IsLayout cfg tags pack packV Fs info := by
  obtain ⟨⟨hge, hall⟩, hmem⟩ := @maxByteAlignofDecls'_spec cfg tags packV NL 1
  have hA : 1 ≤ (if pack then 1 else maxByteAlignofDecls cfg tags packV NL) := by
    cases pack
    · exact hge
    · exact le_refl 1
  obtain ⟨size, hsize, hle, -, hdvd⟩ := @roundBits_spec cfg V _ h.nonneg hA
  obtain ⟨ps, hps⟩ := computePaddingOffsets_isOk size h NL fun _ hd => hd
  refine ⟨.fieldInfo NL size types offsets ps (maxByteAlignofDecls cfg tags packV NL), ?_, ?_⟩
  · simp only [finishStruct, hsize, hps, bind, Except.bind, pure, Except.pure]
  · refine ⟨hNL, h.types, ?_, h.disjoint, h.placed, ⟨hge, hall⟩, hmem, hdvd⟩
    intro d hd
    obtain ⟨n, o, hn, ho, h0, hend⟩ := h.inside d hd
    exact ⟨n, o, hn, ho, h0, hend.trans hle⟩

/-- **The walk lays out every list of members.** -/
theorem makeStructFieldInfo'_layout {pack : Bool} {packV : Int} (hpack : 1 ≤ packV)
    (L : List (CType × CId)) {V : Int} {types : List (CId × CType)} {offsets : List (CId × Int)}
    {NL : List (CType × CId)} {Fs : List (CType × CId)} (hFs : members Fs = NL ++ members L)
    (hL : ∀ d ∈ members L, Sized cfg tags d.1) (hnames : ((members Fs).map Prod.snd).Nodup)
    (h : LayoutInv cfg tags packV V types offsets NL) :
    ∃ info, makeStructFieldInfo' cfg tags pack packV L V types offsets NL = .ok info ∧
      IsLayout cfg tags pack packV Fs info := by
  induction L generalizing V types offsets NL with
  | nil =>
    rw [makeStructFieldInfo']
    exact finishStruct_layout (by simpa [members] using hFs.symm) h
  | cons d L ih =>
    obtain ⟨T, x⟩ := d
    rw [makeStructFieldInfo']
    cases hskip : declaresNothing (T, x) with
    | true =>
      have hmem : members ((T, x) :: L) = members L := by simp [members, hskip]
      rw [if_pos rfl]
      exact ih (hFs.trans (by rw [hmem])) (by rw [← hmem]; exact hL) h
    | false =>
      have hmem : members ((T, x) :: L) = (T, x) :: members L := by simp [members, hskip]
      rw [hmem] at hFs hL
      have hT := hL (T, x) (by simp)
      obtain ⟨o, ho, hVo, hplaced⟩ := pad_spec hpack h.nonneg hT
      obtain ⟨⟨n, hn, hsize⟩, -⟩ := hT
      -- the name is new because all names of the struct differ
      have hx : ∀ d ∈ NL, d.2 ≠ x := by
        intro d hd heq
        rw [hFs, List.map_append, List.map_cons] at hnames
        exact (List.nodup_append.mp hnames).2.2 d.2 (List.mem_map_of_mem hd) x (by simp) heq
      rw [if_neg (by simp)]
      simp only [ho, hsize, bind, Except.bind]
      exact ih (hFs.trans (by simp)) (fun d hd => hL d (by simp [hd]))
        (layoutInv_step h hx hsize hn hVo hplaced)

/-- **Struct layout.**  For every list of declarations whose members have a size, a positive
    alignment and different names, and for every positive pack value, the translator produces a
    layout: members in order and disjoint, inside the size, aligned, bit-fields inside one unit, the
    alignment the greatest of the members' and the size a multiple of it. -/
theorem makeStructFieldInfo_layout (cfg : Settings) (tags : Tags) (pack : Bool) (packV : Int)
    (hpack : 1 ≤ packV) (Fs : List (CType × CId)) (hFs : ∀ d ∈ members Fs, Sized cfg tags d.1)
    (hnames : ((members Fs).map Prod.snd).Nodup) :
    ∃ info, makeStructFieldInfo cfg tags pack packV Fs = .ok info ∧
      IsLayout cfg tags pack packV Fs info :=
  makeStructFieldInfo'_layout hpack Fs rfl hFs hnames (layoutInv_start packV)

/-- `char c; int x : 3; int : 0; int y : 30; int z[];` -/
theorem makeStructFieldInfo_layout_bitfields :
    ∃ info, makeStructFieldInfo x86GccLimitedLibc [] false 16
        [(IntType.char.toSimple.toType, .Identifier "c"),
          ((SimpleNonArrayType.basic (.bitfieldType .signedInt 3)).toType, .Identifier "x"),
          ((SimpleNonArrayType.basic (.bitfieldType .signedInt 0)).toType, .NoNameI 0),
          ((SimpleNonArrayType.basic (.bitfieldType .signedInt 30)).toType, .Identifier "y"),
          (.t noQuals noMods (.array .flexible IntType.int.toSimple.toType), .Identifier "z")] = .ok info ∧
      IsLayout x86GccLimitedLibc [] false 16
        [(IntType.char.toSimple.toType, .Identifier "c"),
          ((SimpleNonArrayType.basic (.bitfieldType .signedInt 3)).toType, .Identifier "x"),
          ((SimpleNonArrayType.basic (.bitfieldType .signedInt 0)).toType, .NoNameI 0),
          ((SimpleNonArrayType.basic (.bitfieldType .signedInt 30)).toType, .Identifier "y"),
          (.t noQuals noMods (.array .flexible IntType.int.toSimple.toType), .Identifier "z")] info := by
  refine makeStructFieldInfo_layout x86GccLimitedLibc [] false 16 (by decide) _ ?_ (by decide)
  intro d hd
  have hd' := List.mem_of_mem_filter hd
  simp only [List.mem_cons, List.not_mem_nil, or_false] at hd'
  rcases hd' with rfl | rfl | rfl | rfl | rfl
  · exact ⟨⟨8, by decide, by decide⟩, fun _ => by decide⟩
  · exact ⟨⟨3, by decide, by decide⟩, fun _ => by decide⟩
  · exact ⟨⟨0, by decide, by decide⟩, fun _ => by decide⟩
  · exact ⟨⟨30, by decide, by decide⟩, fun _ => by decide⟩
  · exact ⟨⟨0, by decide, by decide⟩, fun _ => by decide⟩

/-- **Four lists that are not laid out as the rest are.**  A packed struct whose members are not
    packed themselves is rounded to a byte only, whatever its alignment; a pack value of zero has
    no multiples to round to; a bit-field wider than its unit crosses a boundary wherever it
    starts; and a name declared twice has one offset for both. -/
theorem makeStructFieldInfo_not_layout :
    (∃ info, makeStructFieldInfo x86GccLimitedLibc [] true 16
        [(IntType.char.toSimple.toType, .Identifier "c"), (IntType.int.toSimple.toType, .Identifier "i"),
          (IntType.char.toSimple.toType, .Identifier "d")] = .ok info ∧
      info.maxAlign = 4 ∧ ¬ info.maxAlign * 8 ∣ info.size) ∧
    makeStructFieldInfo x86GccLimitedLibc [] false 0
        [(IntType.int.toSimple.toType, .Identifier "i")] = .error .stuck ∧
    (∃ info, makeStructFieldInfo x86GccLimitedLibc [] false 16
        [((SimpleNonArrayType.basic (.bitfieldType .signedInt 40)).toType, .Identifier "b")] = .ok info ∧
      info.offsets.lookup (.Identifier "b") = some 0 ∧ (0 : Int) / 32 ≠ (0 + 40 - 1) / 32) ∧
    ∃ info, makeStructFieldInfo x86GccLimitedLibc [] false 16
        [(IntType.int.toSimple.toType, .Identifier "a"),
          (IntType.int.toSimple.toType, .Identifier "a")] = .ok info ∧
      info.decls = [(IntType.int.toSimple.toType, .Identifier "a"),
        (IntType.int.toSimple.toType, .Identifier "a")] ∧
      info.offsets = [(.Identifier "a", 32)] := by
  refine ⟨⟨.fieldInfo [(IntType.char.toSimple.toType, .Identifier "c"),
      (IntType.int.toSimple.toType, .Identifier "i"), (IntType.char.toSimple.toType, .Identifier "d")] 72
      [(.Identifier "c", IntType.char.toSimple.toType), (.Identifier "i", IntType.int.toSimple.toType),
        (.Identifier "d", IntType.char.toSimple.toType)]
      [(.Identifier "c", 0), (.Identifier "i", 32), (.Identifier "d", 64)] [8, 16, 24] 4,
      by decide +kernel, rfl, by decide⟩, by decide, ⟨.fieldInfo
      [((SimpleNonArrayType.basic (.bitfieldType .signedInt 40)).toType, .Identifier "b")] 64
      [(.Identifier "b", (SimpleNonArrayType.basic (.bitfieldType .signedInt 40)).toType)]
      [(.Identifier "b", 0)] [40, 48, 56] 4, by decide +kernel, by decide, by decide⟩,
    ⟨.fieldInfo [(IntType.int.toSimple.toType, .Identifier "a"),
      (IntType.int.toSimple.toType, .Identifier "a")] 64
      [(.Identifier "a", IntType.int.toSimple.toType)] [(.Identifier "a", 32)] [] 4,
      by decide +kernel, rfl, rfl⟩⟩

/-! ## The record of a struct or a union -/

/-- **The record of a struct** is one whose members can be flattened. -/
theorem makeStructFieldInfo_recordLayout (pack : Bool) {packV : Int} (hpack : 1 ≤ packV) (T : CType)
    (Fs : List (CType × CId)) (hFs : ∀ d ∈ members Fs, Sized cfg tags d.1)
    (hnames : ((members Fs).map Prod.snd).Nodup) :
    ∃ info, makeStructFieldInfo cfg tags pack packV Fs = .ok info ∧ RecordLayout cfg tags T info := by
  obtain ⟨info, hinfo, hlayout⟩ :=
    @makeStructFieldInfo'_layout cfg tags pack packV hpack Fs _ _ _ [] Fs rfl hFs hnames
      (layoutInv_start packV)
  exact ⟨info, hinfo, by rw [hlayout.decls]; exact hnames, hlayout.types, hlayout.inside,
    fun _ => hlayout.disjoint⟩

/-- The bytes of a type hold its bits. -/
theorem byteSizeofType_ge {T : UType} {n : Int} (hn : bitSizeofType cfg tags T = .ok n) (h0 : 0 ≤ n) :
    ∃ b, byteSizeofType cfg tags T = .ok b ∧ n ≤ b * cfg.bitsPerByte := by
  have hb : (0 : Int) < (cfg.bitsPerByte : Nat) := by exact_mod_cast cfg.bitsPerByte.pos
  refine ⟨(n + cfg.bitsPerByte - 1).tdiv cfg.bitsPerByte, ?_, ?_⟩
  · simp only [byteSizeofType, hn, Eval.ok_bind]
    rfl
  · rw [Int.tdiv_eq_ediv_of_nonneg (by omega)]
    have hdiv := Int.mul_ediv_add_emod (n + cfg.bitsPerByte - 1) cfg.bitsPerByte
    have hmod := Int.emod_lt_of_pos (n + cfg.bitsPerByte - 1) hb
    rw [mul_comm] at hdiv
    omega

theorem maxByteSizeofList'_spec (L : List (CType × CId)) (sz : Int)
    (hL : ∀ d ∈ L, ∃ n, 0 ≤ n ∧ bitSizeofType cfg tags (utype d.1) = .ok n) :
    ∃ b, maxByteSizeofList' cfg tags sz L = .ok b ∧ sz ≤ b ∧ ∀ d ∈ L, ∃ n,
      bitSizeofType cfg tags (utype d.1) = .ok n ∧ n ≤ b * cfg.bitsPerByte := by
  induction L generalizing sz with
  | nil => exact ⟨sz, rfl, le_refl sz, by simp⟩
  | cons d L ih =>
    obtain ⟨n, h0, hn⟩ := hL d (by simp)
    obtain ⟨k, hk, hle⟩ := byteSizeofType_ge hn h0
    obtain ⟨b, hb, hszb, hall⟩ := ih (max sz k) fun d hd => hL d (by simp [hd])
    refine ⟨b, ?_, (le_max_left sz k).trans hszb, fun d' hd' => ?_⟩
    · obtain ⟨T, x⟩ := d
      rw [maxByteSizeofList', hk]
      exact hb
    · rcases List.mem_cons.mp hd' with rfl | hd'
      · have hkb : k * cfg.bitsPerByte ≤ b * cfg.bitsPerByte :=
          mul_le_mul_of_nonneg_right ((le_max_right sz k).trans hszb) (by positivity)
        exact ⟨n, hn, hle.trans hkb⟩
      · exact hall d' hd'

/-- The walk over the members of a union: the types as declared, all at offset 0, in whole bytes. -/
theorem makeUnionFieldInfo'_spec (pack : Bool) (packV : Int) {T : CType}
    (hT : isStructType T = false) (L : List (CType × CId)) {types : List (CId × CType)}
    {offsets : List (CId × Int)} {NL : List (CType × CId)}
    (hsized : ∀ d ∈ NL ++ members L, ∃ n, 0 ≤ n ∧ bitSizeofType cfg tags (utype d.1) = .ok n)
    (hnames : ((NL ++ members L).map Prod.snd).Nodup)
    (htypes : ∀ d ∈ NL, types.lookup d.2 = some d.1) (hoffsets : ∀ d ∈ NL, offsets.lookup d.2 = some 0) :
    ∃ info, makeUnionFieldInfo' cfg tags pack packV L types offsets NL = .ok info ∧
      RecordLayout cfg tags T info ∧ info.decls = NL ++ members L ∧
      (∀ d ∈ info.decls, info.offsets.lookup d.2 = some 0) ∧ (cfg.bitsPerByte : Int) ∣ info.size := by
  induction L generalizing types offsets NL with
  | nil =>
    simp only [members, List.filter_nil, List.append_nil] at hsized hnames ⊢
    obtain ⟨b, hb, hb0, hall⟩ := maxByteSizeofList'_spec NL 0 hsized
    obtain ⟨⟨halign, -⟩, -⟩ := @maxByteAlignofDecls'_spec cfg tags packV NL 1
    have hbits : 0 ≤ b * (cfg.bitsPerByte : Nat) := by positivity
    obtain ⟨size, hsize, hle, -, hdvd⟩ := @roundBits_spec cfg _ _ hbits halign
    -- both ways of ending have every member inside
    have hrecord : ∀ size padding align, b * (cfg.bitsPerByte : Nat) ≤ size →
        RecordLayout cfg tags T (.fieldInfo NL size types offsets padding align) := by
      intro size padding align hsize
      refine ⟨hnames, htypes, fun d hd => ?_, fun h => by rw [hT] at h; cases h⟩
      obtain ⟨n, hn, hnb⟩ := hall d hd
      exact ⟨n, 0, hn, hoffsets d hd, le_refl 0, by rw [zero_add]; exact hnb.trans hsize⟩
    rw [makeUnionFieldInfo', maxByteSizeofList, hb]
    cases pack with
    | true => exact ⟨_, rfl, hrecord _ _ _ (le_refl _), rfl, hoffsets, Dvd.intro_left _ rfl⟩
    | false =>
      refine ⟨_, ?_, hrecord size (getPaddingOffsets cfg (b * cfg.bitsPerByte) size)
        (maxByteAlignofDecls cfg tags packV NL) hle, rfl, hoffsets, (Dvd.intro_left _ rfl).trans hdvd⟩
      simp only [Eval.ok_bind, maxByteAlignofDecls, hsize]
      rfl
  | cons d L ih =>
    obtain ⟨X, x⟩ := d
    rw [makeUnionFieldInfo']
    cases hskip : declaresNothing (X, x) with
    | true =>
      have hmem : members ((X, x) :: L) = members L := by simp [members, hskip]
      rw [hmem] at hsized hnames ⊢
      rw [if_pos rfl]
      exact ih hsized hnames htypes hoffsets
    | false =>
      have hmem : members ((X, x) :: L) = (X, x) :: members L := by simp [members, hskip]
      rw [hmem, List.append_cons NL (X, x) (members L)] at hsized hnames ⊢
      have hx : ∀ d ∈ NL, d.2 ≠ x := by
        intro d hd heq
        rw [List.append_assoc, List.map_append, List.singleton_append, List.map_cons] at hnames
        exact (List.nodup_append.mp hnames).2.2 d.2 (List.mem_map_of_mem hd) x (by simp) heq
      rw [if_neg (by simp)]
      refine ih hsized hnames (fun d hd => ?_) fun d hd => ?_
      · rcases List.mem_append.mp hd with hd | hd
        · rw [lookup_update_of_ne types X (hx d hd)]
          exact htypes d hd
        · obtain rfl := List.mem_singleton.mp hd
          exact lookup_update_self types x X
      · rcases List.mem_append.mp hd with hd | hd
        · rw [lookup_update_of_ne offsets 0 (hx d hd)]
          exact hoffsets d hd
        · obtain rfl := List.mem_singleton.mp hd
          exact lookup_update_self offsets x 0

/-- **The record of a union** is one whose members can be flattened. -/
theorem makeUnionFieldInfo_recordLayout (pack : Bool) (packV : Int) {T : CType}
    (hT : isStructType T = false) (Fs : List (CType × CId))
    (hFs : ∀ d ∈ members Fs, ∃ n, 0 ≤ n ∧ bitSizeofType cfg tags (utype d.1) = .ok n)
    (hnames : ((members Fs).map Prod.snd).Nodup) :
    ∃ info, makeUnionFieldInfo cfg tags pack packV Fs = .ok info ∧ RecordLayout cfg tags T info := by
  obtain ⟨info, hinfo, hlayout, -⟩ := @makeUnionFieldInfo'_spec cfg tags pack packV T hT Fs [] [] []
    (by simpa using hFs) (by simpa using hnames) (by simp) (by simp)
  exact ⟨info, hinfo, hlayout⟩

end Proofs

end CSemantics
