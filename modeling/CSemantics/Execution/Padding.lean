/-
  Padding bytes.

  `computePaddingOffsets` goes over the declarations of a struct in pairs: between the end of one and the
  start of the next, rounded up to bytes, is padding, and so is what is left after the last one.  A
  bit-field that goes on in a byte of the one before starts right behind it, so there is nothing between
  them; everything else starts at a byte.

      mem_computePaddingOffsets   the padding after a declaration: the bytes that no later one touches
      floorFieldOffset'_spec      the last field that starts at or before an offset
      ceilFieldOffset'_spec       the first one that starts behind it, or the size
      padding_bytes               all of it, for every struct the translator lays out

  A struct without fields has no such starts: `floorFieldOffset'` and `ceilFieldOffset'` have a rule of
  their own for it, and return the offset.
-/
import CSemantics.Execution.ZeroedBits

namespace CSemantics.Padding

open AssocMap FlatFields ZeroedBits

/-! ## The code -/

/-- `getFieldFollowingOffset'(Offset, Fields)`: a declaration that starts at or before the offset goes,
    with its offset. -/
def getFieldFollowingOffset' (offset : Int) : List (CType × CId) → List (CId × Int) → Eval CId
  | [], _ => .ok .NoName
  | (_, F) :: decls, offsets =>
    match offsets.lookup F with
    | some fOffset =>
      if fOffset ≤ offset then getFieldFollowingOffset' offset decls (remove offsets F) else .ok F
    | none => .ok F

def floorFieldOffset' (offset : Int) (fields : FieldInfo) : Eval Int :=
  if fields.decls = [] then .ok offset
  else do getFieldOffset' (← getFieldAtOffset' offset fields.decls.reverse fields.offsets) fields

def ceilFieldOffset' (offset : Int) (fields : FieldInfo) : Eval Int :=
  if fields.decls = [] then .ok offset
  else do
    let F ← getFieldFollowingOffset' offset fields.decls fields.offsets
    if F = .NoName then .ok fields.size else getFieldOffset' F fields

/-- `floorBitOffset(Offset, T)` for a struct or a union with these fields -/
def floorBitOffset (offset : Int) (fields : FieldInfo) : Eval Int :=
  if offset ≥ 0 then floorFieldOffset' offset fields else .error .stuck

/-- `ceilBitOffset(Offset, T)` for a struct or a union with these fields -/
def ceilBitOffset (offset : Int) (fields : FieldInfo) : Eval Int :=
  if offset ≥ 0 then ceilFieldOffset' offset fields else .error .stuck

/-! ## What they are for -/

/-- A field is from `o` on, `n` bits long. -/
def FieldAt (cfg : Settings) (tags : Tags) (fields : FieldInfo) (d : CType × CId) (o n : Int) : Prop :=
  d ∈ fields.decls ∧ fields.offsets.lookup d.2 = some o ∧ bitSizeofType cfg tags (utype d.1) = .ok n

/-- A byte, by its first bit, that has no bit of a field. -/
structure IsPaddingByte (cfg : Settings) (tags : Tags) (fields : FieldInfo) (x : Int) : Prop where
  nonneg : 0 ≤ x
  lt_size : x < fields.size
  byte : (cfg.bitsPerByte : Int) ∣ x
  untouched : ∀ d o n, FieldAt cfg tags fields d o n → ∀ t, o ≤ t → t < o + n →
    ¬ (x ≤ t ∧ t < x + cfg.bitsPerByte)

/-- The start of the field that contains the offset or comes before it. -/
structure FloorAt (cfg : Settings) (tags : Tags) (fields : FieldInfo) (offset o : Int) : Prop where
  start : ∃ d n, FieldAt cfg tags fields d o n
  le : o ≤ offset
  last : ∀ d o' n, FieldAt cfg tags fields d o' n → o' ≤ offset → o' ≤ o
  contains : ∀ d o' n, FieldAt cfg tags fields d o' n → o' ≤ offset → offset < o' + n → o' = o

/-- The start of the next field, or the size. -/
inductive CeilAt (cfg : Settings) (tags : Tags) (fields : FieldInfo) (offset : Int) : Int → Prop
  | next {d : CType × CId} {o n : Int} : FieldAt cfg tags fields d o n → offset < o →
      (∀ d' o' n', FieldAt cfg tags fields d' o' n' → offset < o' → o ≤ o') → CeilAt cfg tags fields offset o
  | size : (∀ d o n, FieldAt cfg tags fields d o n → o ≤ offset) → CeilAt cfg tags fields offset fields.size

variable {cfg : Settings} {tags : Tags}

/-! ## The bytes between two offsets -/

theorem mem_getPaddingOffsets {off bOff x : Int} (hoff : 0 ≤ off) :
    x ∈ getPaddingOffsets cfg off bOff ↔ (cfg.bitsPerByte : Int) ∣ x ∧ off ≤ x ∧ x < bOff := by
  have hb : (0 : Int) < (cfg.bitsPerByte : ℕ) := by exact_mod_cast cfg.bitsPerByte.pos
  fun_induction getPaddingOffsets cfg off bOff with
  | case1 off h ih =>
    -- up to the next byte
    obtain ⟨hlt, hmod⟩ := h
    rw [Int.tmod_eq_emod_of_nonneg hoff] at ih hmod ⊢
    have h0 := Int.emod_nonneg off hb.ne'
    have h1 := Int.emod_lt_of_pos off hb
    have hdiv := Int.emod_add_mul_ediv off (cfg.bitsPerByte : ℕ)
    refine (ih (by omega)).trans ?_
    refine and_congr_right fun hx => and_congr_left fun _ => ⟨fun h => by omega, fun h => ?_⟩
    obtain ⟨k, rfl⟩ := hx
    have hk : off / (cfg.bitsPerByte : ℕ) < k := by
      by_contra hle
      have := Int.mul_le_mul_of_nonneg_left (show k ≤ off / (cfg.bitsPerByte : ℕ) by omega) hb.le
      omega
    have := Int.mul_le_mul_of_nonneg_left (show off / (cfg.bitsPerByte : ℕ) + 1 ≤ k by omega) hb.le
    rw [mul_add, mul_one] at this
    omega
  | case2 off h hge => exact ⟨fun h => absurd h List.not_mem_nil, fun h => by omega⟩
  | case3 off h hlt ih =>
    have hmod : off.tmod (cfg.bitsPerByte : ℕ) = 0 := by
      by_contra hne
      exact h ⟨by omega, hne⟩
    rw [Int.tmod_eq_emod_of_nonneg hoff] at hmod
    obtain ⟨k, rfl⟩ := Int.dvd_of_emod_eq_zero hmod
    rw [List.mem_cons]
    refine (or_congr_right (ih (by omega))).trans ?_
    constructor
    · rintro (rfl | ⟨hx, hle, hlt⟩)
      · exact ⟨Dvd.intro k rfl, le_refl _, by omega⟩
      · exact ⟨hx, by omega, hlt⟩
    · rintro ⟨hx, hle, hlt⟩
      obtain ⟨j, rfl⟩ := hx
      by_cases hjk : j = k
      · exact .inl (by rw [hjk])
      · have hkj : k < j := by
          by_contra hge
          have := Int.mul_lt_mul_of_pos_left (show j < k by omega) hb
          omega
        have := Int.mul_le_mul_of_nonneg_left (show k + 1 ≤ j by omega) hb.le
        rw [mul_add, mul_one] at this
        exact .inr ⟨Dvd.intro j rfl, this, hlt⟩

/-! ## The walk, once more -/

theorem roundBits_zero {A r : Int} (h : roundBits cfg 0 A = .ok r) : r = 0 := by
  rw [roundBits] at h
  split at h
  · cases h
  · rw [if_pos (Int.zero_tmod _)] at h
    cases h
    rfl

/-- What is first starts at the first bit. -/
theorem pad_zero {packV o : Int} {T : CType} (h : pad cfg tags packV 0 T = .ok o) : o = 0 := by
  unfold pad at h
  split at h
  · obtain ⟨boundary, -, h⟩ := Eval.bind_eq_ok.mp h
    split at h
    · exact roundBits_zero h
    · split at h
      · exact roundBits_zero h
      · cases h
        rfl
  · exact roundBits_zero h

/-- What the record of a struct says beside its layout. -/
structure Recorded (cfg : Settings) (tags : Tags) (info : FieldInfo) : Prop where
  empty : info.decls = [] → info.size = 0
  first : ∀ d, info.decls.head? = some d → info.offsets.lookup d.2 = some 0
  padding : computePaddingOffsets cfg tags info.size info.types info.offsets info.decls = .ok info.padding

theorem makeStructFieldInfo'_recorded {pack : Bool} {packV : Int} (L : List (CType × CId)) {V : Int}
    {types : List (CId × CType)} {offsets : List (CId × Int)} {NL : List (CType × CId)} {info : FieldInfo}
    (hnames : ((NL ++ members L).map Prod.snd).Nodup) (hV : NL = [] → V = 0)
    (hfirst : ∀ d, NL.head? = some d → offsets.lookup d.2 = some 0)
    (hinfo : makeStructFieldInfo' cfg tags pack packV L V types offsets NL = .ok info) :
    Recorded cfg tags info := by
  induction L generalizing V types offsets NL with
  | nil =>
    rw [makeStructFieldInfo', finishStruct] at hinfo
    obtain ⟨size, hsize, hinfo⟩ := Eval.bind_eq_ok.mp hinfo
    obtain ⟨padding, hpadding, hinfo⟩ := Eval.bind_eq_ok.mp hinfo
    cases hinfo
    refine ⟨fun hnil => ?_, hfirst, hpadding⟩
    rw [hV hnil] at hsize
    exact roundBits_zero hsize
  | cons d L ih =>
    obtain ⟨X, x⟩ := d
    rw [makeStructFieldInfo'] at hinfo
    cases hskip : declaresNothing (X, x) with
    | true =>
      have hmem : members ((X, x) :: L) = members L := by simp [members, hskip]
      rw [hmem] at hnames
      rw [hskip, if_pos rfl] at hinfo
      exact ih hnames hV hfirst hinfo
    | false =>
      have hmem : members ((X, x) :: L) = (X, x) :: members L := by simp [members, hskip]
      rw [hmem] at hnames
      rw [hskip, if_neg (by simp)] at hinfo
      obtain ⟨o, ho, hinfo⟩ := Eval.bind_eq_ok.mp hinfo
      obtain ⟨n, -, hinfo⟩ := Eval.bind_eq_ok.mp hinfo
      refine ih (by simpa using hnames) (fun h => absurd h (by simp)) (fun d hd => ?_) hinfo
      cases NL with
      | nil =>
        obtain rfl : (X, x) = d := Option.some.inj hd
        rw [hV rfl] at ho
        rw [pad_zero ho]
        exact lookup_update_self offsets x 0
      | cons e NL =>
        obtain rfl : e = d := Option.some.inj hd
        have hne : e.2 ≠ x := by
          intro heq
          rw [List.map_append] at hnames
          exact (List.nodup_append.mp hnames).2.2 e.2 (by simp) x (by simp) heq
        rw [lookup_update_of_ne offsets o hne]
        exact hfirst e rfl

/-! ## The padding -/

/-- The layout as the padding and the searches see it: in order, from the first bit on, and a declaration
    starts at a byte or right behind the one before. -/
structure Spread (cfg : Settings) (tags : Tags) (info : FieldInfo) : Prop where
  names : (info.decls.map Prod.snd).Nodup
  inside : ∀ d ∈ info.decls, ∃ o n, FieldAt cfg tags info d o n ∧ info.types.lookup d.2 = some d.1 ∧ 0 ≤ o ∧
    0 ≤ n ∧ o + n ≤ info.size
  disjoint : info.decls.Pairwise fun d d' => ∀ o n o' n', FieldAt cfg tags info d o n →
    FieldAt cfg tags info d' o' n' → o + n ≤ o'
  aligned : ∀ L d d' L', info.decls = L ++ d :: d' :: L' → ∀ o n o' n', FieldAt cfg tags info d o n →
    FieldAt cfg tags info d' o' n' → (cfg.bitsPerByte : Int) ∣ o' ∨ o' = o + n
  recorded : Recorded cfg tags info

theorem FieldAt.unique {info : FieldInfo} {d : CType × CId} {o n o' n' : Int} (h : FieldAt cfg tags info d o n)
    (h' : FieldAt cfg tags info d o' n') : o' = o ∧ n' = n := by
  obtain ⟨-, ho, hn⟩ := h
  obtain ⟨-, ho', hn'⟩ := h'
  rw [ho] at ho'
  rw [hn] at hn'
  exact ⟨(Option.some.inj ho').symm, (Except.ok.inj hn').symm⟩

/-- **Every struct is laid out so.** -/
theorem makeStructFieldInfo_spread (cfg : Settings) (tags : Tags) (pack : Bool) {packV : Int} (hpack : 1 ≤ packV)
    (Fs : List (CType × CId)) (hFs : ∀ d ∈ members Fs, Sized cfg tags d.1)
    (hnames : ((members Fs).map Prod.snd).Nodup) :
    ∃ info, makeStructFieldInfo cfg tags pack packV Fs = .ok info ∧ info.decls = members Fs ∧
      Spread cfg tags info := by
  obtain ⟨info, hinfo, hlayout⟩ := makeStructFieldInfo_layout cfg tags pack packV hpack Fs hFs hnames
  obtain ⟨V, hbytes⟩ := makeStructFieldInfo'_bytes hpack Fs hFs (by simpa using hnames) (le_refl 0)
    ⟨fun _ => rfl, by simp, by simp⟩ hinfo
  have hrec := makeStructFieldInfo'_recorded Fs (by simpa using hnames) (fun _ => rfl)
    (fun d hd => absurd hd (by simp)) hinfo
  refine ⟨info, hinfo, hlayout.decls, ⟨?_, ?_, ?_, ?_, hrec⟩⟩
  · rw [hlayout.decls]
    exact hnames
  · intro d hd
    obtain ⟨n, o, hn, ho, h0, hend⟩ := hlayout.inside d hd
    obtain ⟨⟨m, hm, hsize⟩, -⟩ := hFs d (hlayout.decls ▸ hd)
    rw [hsize] at hn
    cases hn
    exact ⟨o, n, ⟨hd, ho, hsize⟩, hlayout.types d hd, h0, hm, hend⟩
  · refine hlayout.disjoint.imp ?_
    rintro d d' ⟨n, o, o', hn, ho, ho', hle⟩ p m p' m' h h'
    obtain ⟨-, hp, hm⟩ := h
    obtain ⟨-, hp', -⟩ := h'
    rw [ho] at hp
    rw [hn] at hm
    rw [ho'] at hp'
    cases hp
    cases hm
    cases hp'
    exact hle
  · intro L d d' L' hdecls o n o' n' h h'
    have hget : info.decls[L.length + 1]? = some d' := by
      rw [hdecls, List.getElem?_append_right (Nat.le_add_right _ 1), Nat.add_sub_cancel_left]
      rfl
    refine (hbytes.aligned _ d' o' hget h'.2.1).imp_right ?_
    rintro ⟨-, j, e, oe, m, hij, he, hoe, hm, hend⟩
    obtain rfl : L.length = j := Nat.succ.inj hij
    obtain rfl : d = e := by
      rw [hdecls, List.getElem?_append_right (Nat.le_refl _), Nat.sub_self] at he
      exact Option.some.inj he
    obtain ⟨rfl, rfl⟩ := h.unique ⟨h.1, hoe, hm⟩
    exact hend.symm

section Spread

variable {info : FieldInfo}

theorem endOfField_eq (h : Spread cfg tags info) {d : CType × CId} {o n : Int} (hd : FieldAt cfg tags info d o n) :
    endOfField cfg tags info.types info.offsets d.2 = .ok (o + n) := by
  obtain ⟨o', n', -, htypes, -⟩ := h.inside d hd.1
  rw [endOfField, hd.2.1, htypes]
  simp only [hd.2.2, Eval.ok_bind]
  rfl

/-- A byte has no bit of these declarations. -/
def Untouched (cfg : Settings) (tags : Tags) (info : FieldInfo) (L : List (CType × CId)) (x : Int) : Prop :=
  ∀ d ∈ L, ∀ o n, FieldAt cfg tags info d o n → ∀ t, o ≤ t → t < o + n → ¬ (x ≤ t ∧ t < x + cfg.bitsPerByte)

/-- Where a byte that a declaration does not touch starts behind its start, it starts behind its end. -/
theorem end_le_of_untouched {x o n : Int} (ho : o ≤ x)
    (h : ∀ t, o ≤ t → t < o + n → ¬ (x ≤ t ∧ t < x + cfg.bitsPerByte)) : o + n ≤ x := by
  have hb : (0 : Int) < (cfg.bitsPerByte : ℕ) := by exact_mod_cast cfg.bitsPerByte.pos
  by_contra hlt
  exact h x ho (by omega) ⟨le_refl _, by omega⟩

/-- **The padding after a declaration**: the bytes behind it that none of the following ones touches.  By
    the declarations that follow. -/
theorem mem_computePaddingOffsets (h : Spread cfg tags info) (L : List (CType × CId)) : ∀ {before : List (CType × CId)}
    {d : CType × CId} {o n : Int}, info.decls = before ++ d :: L → FieldAt cfg tags info d o n →
    ∃ ps, computePaddingOffsets cfg tags info.size info.types info.offsets (d :: L) = .ok ps ∧
      ∀ x, x ∈ ps ↔ (cfg.bitsPerByte : Int) ∣ x ∧ o + n ≤ x ∧ x < info.size ∧ Untouched cfg tags info L x := by
  have hb : (0 : Int) < (cfg.bitsPerByte : ℕ) := by exact_mod_cast cfg.bitsPerByte.pos
  induction L with
  | nil =>
    intro before d o n hdecls hd
    obtain ⟨o', n', hd', -, h0, hn, -⟩ := h.inside d hd.1
    obtain ⟨rfl, rfl⟩ := hd.unique hd'
    refine ⟨getPaddingOffsets cfg (o' + n') info.size, ?_, fun x => ?_⟩
    · obtain ⟨T, a⟩ := d
      simp only [computePaddingOffsets, endOfField_eq h hd, Eval.ok_bind]
      rfl
    · rw [mem_getPaddingOffsets (by omega)]
      constructor
      · rintro ⟨h1, h2, h3⟩
        exact ⟨h1, h2, h3, fun e he => absurd he List.not_mem_nil⟩
      · rintro ⟨h1, h2, h3, -⟩
        exact ⟨h1, h2, h3⟩
  | cons d' L ih =>
    intro before d o n hdecls hd
    have hmem : d' ∈ info.decls := by
      rw [hdecls]
      simp
    obtain ⟨o', n', hd', -, h0', hn', hend'⟩ := h.inside d' hmem
    obtain ⟨o₁, n₁, hd₁, -, h0, hn, -⟩ := h.inside d hd.1
    obtain ⟨rfl, rfl⟩ := hd.unique hd₁
    have hpair := h.disjoint
    rw [hdecls, List.pairwise_append] at hpair
    obtain ⟨hdL, hL⟩ := List.pairwise_cons.1 hpair.2.1
    have hle : o₁ + n₁ ≤ o' := hdL d' List.mem_cons_self _ _ _ _ hd hd'
    -- the later ones start behind the next one
    have hlater : ∀ e ∈ L, ∀ p m, FieldAt cfg tags info e p m → o' + n' ≤ p := fun e he p m hp =>
      (List.pairwise_cons.1 hL).1 e he _ _ _ _ hd' hp
    obtain ⟨ps, hps, hiff⟩ := @ih (before ++ [d]) d' o' n' (by rw [hdecls]; simp) hd'
    refine ⟨getPaddingOffsets cfg (o₁ + n₁) o' ++ ps, ?_, fun x => ?_⟩
    · obtain ⟨T, a⟩ := d
      obtain ⟨T', b⟩ := d'
      simp only [computePaddingOffsets, endOfField_eq h hd, hd'.2.1, hps, Eval.ok_bind]
      rfl
    · rw [List.mem_append, mem_getPaddingOffsets (by omega), hiff]
      constructor
      · rintro (⟨hx, hlo, hhi⟩ | ⟨hx, hlo, hhi, hun⟩)
        · -- the gap ends at a byte
          have hbyte : (cfg.bitsPerByte : Int) ∣ o' := by
            rcases h.aligned before d d' L hdecls _ _ _ _ hd hd' with hdvd | heq
            · exact hdvd
            · omega
          have hnext : x + cfg.bitsPerByte ≤ o' := by
            obtain ⟨j, rfl⟩ := hx
            obtain ⟨k, rfl⟩ := hbyte
            have hjk : j < k := by
              by_contra hge
              have := Int.mul_le_mul_of_nonneg_left (show k ≤ j by omega) hb.le
              omega
            have := Int.mul_le_mul_of_nonneg_left (show j + 1 ≤ k by omega) hb.le
            rw [mul_add, mul_one] at this
            exact this
          refine ⟨hx, hlo, by omega, fun e he p m hp t hlot hhit => ?_⟩
          rintro ⟨-, ht⟩
          rcases List.mem_cons.1 he with rfl | he
          · obtain ⟨rfl, rfl⟩ := hd'.unique hp
            omega
          · have := hlater e he p m hp
            omega
        · refine ⟨hx, by omega, hhi, fun e he p m hp t hlot hhit => ?_⟩
          rcases List.mem_cons.1 he with rfl | he
          · obtain ⟨rfl, rfl⟩ := hd'.unique hp
            rintro ⟨ht, -⟩
            omega
          · exact hun e he p m hp t hlot hhit
      · rintro ⟨hx, hlo, hhi, hun⟩
        by_cases hgap : x < o'
        · exact .inl ⟨hx, hlo, hgap⟩
        · refine .inr ⟨hx, ?_, hhi, fun e he => hun e (List.mem_cons_of_mem _ he)⟩
          exact end_le_of_untouched (by omega) (hun d' List.mem_cons_self o' n' hd')

/-- **Padding bytes are the untouched bytes.** -/
theorem mem_padding_iff (h : Spread cfg tags info) (x : Int) :
    x ∈ info.padding ↔ IsPaddingByte cfg tags info x := by
  have hpadding := h.recorded.padding
  cases hdecls : info.decls with
  | nil =>
    rw [hdecls] at hpadding
    have hnil : [] = info.padding := Except.ok.inj hpadding
    have hsize := h.recorded.empty hdecls
    rw [← hnil]
    refine ⟨fun hx => absurd hx List.not_mem_nil, fun hx => ?_⟩
    have h1 := hx.nonneg
    have h2 := hx.lt_size
    omega
  | cons d L =>
    obtain ⟨o, n, hd, -, -, -, -⟩ := h.inside d (by rw [hdecls]; exact List.mem_cons_self)
    have hzero : o = 0 := by
      have hfirst := h.recorded.first d (by rw [hdecls]; rfl)
      rw [hd.2.1] at hfirst
      exact Option.some.inj hfirst
    subst hzero
    obtain ⟨ps, hps, hiff⟩ := @mem_computePaddingOffsets cfg tags info h L [] d 0 n hdecls hd
    rw [hdecls, hps] at hpadding
    rw [← Except.ok.inj hpadding, hiff]
    constructor
    · rintro ⟨hx, hlo, hhi, hun⟩
      obtain ⟨o', n', hd', -, -, hn, -⟩ := h.inside d hd.1
      obtain ⟨rfl, rfl⟩ := hd.unique hd'
      refine ⟨by omega, hhi, hx, fun e p m hp t hlot hhit => ?_⟩
      have he := hp.1
      rw [hdecls] at he
      rcases List.mem_cons.1 he with rfl | he
      · obtain ⟨rfl, rfl⟩ := hd.unique hp
        rintro ⟨ht, -⟩
        omega
      · exact hun e he p m hp t hlot hhit
    · rintro ⟨h0, hhi, hx, hun⟩
      exact ⟨hx, end_le_of_untouched h0 (hun d 0 n hd), hhi, fun e _ p m hp => hun e p m hp⟩

/-! ## Floor and ceiling -/

/-- The fields on the two sides of an offset: what starts at or before it comes first. -/
theorem exists_split (h : Spread cfg tags info) (offset : Int) : ∃ early late, info.decls = early ++ late ∧
    (∀ d ∈ early, ∀ o n, FieldAt cfg tags info d o n → o ≤ offset) ∧
    ∀ d ∈ late, ∀ o n, FieldAt cfg tags info d o n → offset < o := by
  have hsplit : ∀ L before, info.decls = before ++ L → ∃ early late, L = early ++ late ∧
      (∀ d ∈ early, ∀ o n, FieldAt cfg tags info d o n → o ≤ offset) ∧
      ∀ d ∈ late, ∀ o n, FieldAt cfg tags info d o n → offset < o := by
    intro L
    induction L with
    | nil => exact fun _ _ => ⟨[], [], rfl, by simp, by simp⟩
    | cons d L ih =>
      intro before hdecls
      obtain ⟨o, n, hd, -, -, hn, -⟩ := h.inside d (by rw [hdecls]; simp)
      by_cases ho : o ≤ offset
      · obtain ⟨early, late, rfl, hearly, hlate⟩ := ih (before ++ [d]) (by rw [hdecls]; simp)
        refine ⟨d :: early, late, rfl, fun e he p m hp => ?_, hlate⟩
        rcases List.mem_cons.1 he with rfl | he
        · obtain ⟨rfl, -⟩ := hd.unique hp
          exact ho
        · exact hearly e he p m hp
      · refine ⟨[], d :: L, rfl, by simp, fun e he p m hp => ?_⟩
        rcases List.mem_cons.1 he with rfl | he
        · obtain ⟨rfl, -⟩ := hd.unique hp
          omega
        · have hpair := h.disjoint
          rw [hdecls, List.pairwise_append] at hpair
          have := (List.pairwise_cons.1 hpair.2.1).1 e he _ _ _ _ hd hp
          omega
  exact hsplit info.decls [] rfl

theorem floorFieldOffset'_spec (h : Spread cfg tags info) (hne : info.decls ≠ []) {offset : Int} (h0 : 0 ≤ offset) :
    ∃ o, floorFieldOffset' offset info = .ok o ∧ FloorAt cfg tags info offset o := by
  obtain ⟨early, late, hdecls, hearly, hlate⟩ := exists_split h offset
  -- the first field starts at the first bit
  have hearly_ne : early ≠ [] := by
    rintro rfl
    cases hd : info.decls with
    | nil => exact hne hd
    | cons d L =>
      obtain ⟨o, n, hfield, -, -, -, -⟩ := h.inside d (by rw [hd]; exact List.mem_cons_self)
      have hfirst := h.recorded.first d (by rw [hd]; rfl)
      rw [hfield.2.1] at hfirst
      obtain rfl := Option.some.inj hfirst
      have := hlate d (by rw [← List.nil_append late, ← hdecls, hd]; exact List.mem_cons_self) 0 n hfield
      omega
  obtain ⟨init, d, rfl⟩ : ∃ init d, early = init ++ [d] :=
    ⟨_, _, (List.dropLast_append_getLast hearly_ne).symm⟩
  obtain ⟨o, n, hd, -, -, hn, -⟩ := h.inside d (by rw [hdecls]; simp)
  have ho := hearly d (by simp) o n hd
  have hrev : info.decls.reverse = late.reverse ++ d :: init.reverse := by
    rw [hdecls]
    simp
  have hget : getFieldAtOffset' offset info.decls.reverse info.offsets = .ok d.2 := by
    rw [hrev]
    refine getFieldAtOffset'_eq _ ?_ (fun e he => ?_) hd.2.1 ho
    · rw [← hrev, List.map_reverse]
      exact List.nodup_reverse.2 h.names
    · rw [List.mem_reverse] at he
      obtain ⟨p, m, hp, -⟩ := h.inside e (by rw [hdecls]; simp [he])
      exact ⟨p, hp.2.1, hlate e he p m hp⟩
  have hpair := h.disjoint
  rw [hdecls, List.append_assoc, List.pairwise_append] at hpair
  -- the field is the last one that starts at or before the offset
  have hlast : ∀ e p m, FieldAt cfg tags info e p m → p ≤ offset → e = d ∨ p + m ≤ o := by
    intro e p m hp hple
    have he := hp.1
    rw [hdecls, List.append_assoc] at he
    rcases List.mem_append.1 he with he | he
    · exact .inr (hpair.2.2 e he d (by simp) _ _ _ _ hp hd)
    · rcases List.mem_append.1 he with he | he
      · exact .inl (List.mem_singleton.1 he)
      · have := hlate e he p m hp
        omega
  refine ⟨o, ?_, ⟨d, n, hd⟩, ho, fun e p m hp hple => ?_, fun e p m hp hple hin => ?_⟩
  · rw [floorFieldOffset', if_neg hne, hget]
    show getFieldOffset' d.2 info = _
    rw [getFieldOffset', hd.2.1]
  · obtain ⟨p', m', hp', -, -, hm, -⟩ := h.inside e hp.1
    obtain ⟨rfl, rfl⟩ := hp.unique hp'
    rcases hlast e _ _ hp hple with rfl | hle
    · obtain ⟨rfl, -⟩ := hd.unique hp
      exact le_refl _
    · omega
  · rcases hlast e p m hp hple with rfl | hle
    · exact (hd.unique hp).1
    · omega

/-- What starts at or before the offset is passed over. -/
theorem getFieldFollowingOffset'_eq {offset : Int} (early late : List (CType × CId)) :
    ∀ {offsets : List (CId × Int)}, ((early ++ late).map Prod.snd).Nodup →
    (∀ e ∈ early, ∃ o, offsets.lookup e.2 = some o ∧ o ≤ offset) →
    (∀ e ∈ late, ∃ o, offsets.lookup e.2 = some o ∧ offset < o) →
    getFieldFollowingOffset' offset (early ++ late) offsets = .ok ((late.head?.map Prod.snd).getD .NoName) := by
  induction early with
  | nil =>
    intro offsets _ _ hlate
    cases late with
    | nil => rfl
    | cons e late =>
      obtain ⟨eT, eF⟩ := e
      obtain ⟨o, ho, hlt⟩ := hlate (eT, eF) List.mem_cons_self
      rw [List.nil_append, getFieldFollowingOffset', ho]
      simp only [not_le.mpr hlt, if_false]
      rfl
  | cons e early ih =>
    intro offsets hnames hearly hlate
    obtain ⟨o, ho, hle⟩ := hearly e List.mem_cons_self
    rw [List.cons_append, List.map_cons, List.nodup_cons] at hnames
    obtain ⟨hnew, hnames⟩ := hnames
    have hkeep : ∀ e' ∈ early ++ late, (remove offsets e.2).lookup e'.2 = offsets.lookup e'.2 := by
      intro e' he'
      rw [lookup_remove, if_neg]
      intro heq
      exact hnew (heq ▸ List.mem_map_of_mem he')
    obtain ⟨eT, eF⟩ := e
    rw [List.cons_append, getFieldFollowingOffset', ho]
    simp only [hle, if_true]
    refine ih hnames (fun e' he' => ?_) (fun e' he' => ?_)
    · rw [hkeep e' (List.mem_append_left _ he')]
      exact hearly e' (List.mem_cons_of_mem _ he')
    · rw [hkeep e' (List.mem_append_right _ he')]
      exact hlate e' he'

theorem ceilFieldOffset'_spec (h : Spread cfg tags info) (hne : info.decls ≠ [])
    (hnamed : ∀ d ∈ info.decls, d.2 ≠ .NoName) (offset : Int) :
    ∃ c, ceilFieldOffset' offset info = .ok c ∧ CeilAt cfg tags info offset c := by
  obtain ⟨early, late, hdecls, hearly, hlate⟩ := exists_split h offset
  have hstart : ∀ e ∈ info.decls, ∃ o n, FieldAt cfg tags info e o n := by
    intro e he
    obtain ⟨o, n, hfield, -⟩ := h.inside e he
    exact ⟨o, n, hfield⟩
  have hget := @getFieldFollowingOffset'_eq offset early late info.offsets (by rw [← hdecls]; exact h.names)
    (fun e he => by
      obtain ⟨o, n, hp⟩ := hstart e (by rw [hdecls]; exact List.mem_append_left _ he)
      exact ⟨o, hp.2.1, hearly e he o n hp⟩)
    (fun e he => by
      obtain ⟨o, n, hp⟩ := hstart e (by rw [hdecls]; exact List.mem_append_right _ he)
      exact ⟨o, hp.2.1, hlate e he o n hp⟩)
  rw [← hdecls] at hget
  cases late with
  | nil =>
    refine ⟨info.size, ?_, .size fun d o n hd => ?_⟩
    · rw [ceilFieldOffset', if_neg hne, hget]
      rfl
    · have hmem := hd.1
      rw [hdecls, List.append_nil] at hmem
      exact hearly d hmem o n hd
  | cons d late =>
    have hmem : d ∈ info.decls := by
      rw [hdecls]
      simp
    obtain ⟨o, n, hd⟩ := hstart d hmem
    refine ⟨o, ?_, .next hd (hlate d List.mem_cons_self o n hd) fun e p m hp hlt => ?_⟩
    · rw [ceilFieldOffset', if_neg hne, hget]
      show (if d.2 = .NoName then _ else getFieldOffset' d.2 info) = _
      rw [if_neg (hnamed d hmem), getFieldOffset', hd.2.1]
    · have he := hp.1
      rw [hdecls] at he
      rcases List.mem_append.1 he with he | he
      · have := hearly e he p m hp
        omega
      · rcases List.mem_cons.1 he with rfl | he
        · exact (hd.unique hp).1.ge
        · have hpair := h.disjoint
          rw [hdecls, List.pairwise_append] at hpair
          obtain ⟨o', n', hd', -, -, hn, -⟩ := h.inside d hmem
          obtain ⟨rfl, rfl⟩ := hd.unique hd'
          have := (List.pairwise_cons.1 hpair.2.1).1 e he _ _ _ _ hd hp
          omega

end Spread

/-- **Padding bytes and field starts.**  For every list of declarations with sizes, alignments and different
    names, numbered if they are unnamed: the padding is computed, it is the bytes that no field touches, and
    floor and ceiling are the starts around an offset.  Without fields they are the offset. -/
theorem padding_bytes (cfg : Settings) (tags : Tags) (pack : Bool) {packV : Int} (hpack : 1 ≤ packV)
    (Fs : List (CType × CId)) (hFs : ∀ d ∈ members Fs, Sized cfg tags d.1)
    (hnames : ((members Fs).map Prod.snd).Nodup) (hnumbered : ∀ d ∈ members Fs, d.2 ≠ .NoName) :
    ∃ info, makeStructFieldInfo cfg tags pack packV Fs = .ok info ∧
      computePaddingOffsets cfg tags info.size info.types info.offsets info.decls = .ok info.padding ∧
      (∀ x, x ∈ info.padding ↔ IsPaddingByte cfg tags info x) ∧
      ∀ offset ≥ 0,
        (info.decls ≠ [] → ∃ lo hi, floorBitOffset offset info = .ok lo ∧ FloorAt cfg tags info offset lo ∧
          ceilBitOffset offset info = .ok hi ∧ CeilAt cfg tags info offset hi) ∧
        (info.decls = [] → floorBitOffset offset info = .ok offset ∧ ceilBitOffset offset info = .ok offset) := by
  obtain ⟨info, hinfo, hdecls, hspread⟩ := makeStructFieldInfo_spread cfg tags pack hpack Fs hFs hnames
  refine ⟨info, hinfo, hspread.recorded.padding, mem_padding_iff hspread,
    fun offset h0 => ⟨fun hne => ?_, fun hnil => ?_⟩⟩
  · obtain ⟨lo, hlo, hfloor⟩ := floorFieldOffset'_spec hspread hne h0
    obtain ⟨hi, hhi, hceil⟩ := ceilFieldOffset'_spec hspread hne (by rw [hdecls]; exact hnumbered) offset
    refine ⟨lo, hi, ?_, hfloor, ?_, hceil⟩
    · rw [floorBitOffset, if_pos h0, hlo]
    · rw [ceilBitOffset, if_pos h0, hhi]
  · rw [floorBitOffset, ceilBitOffset, if_pos h0, if_pos h0, floorFieldOffset', ceilFieldOffset', if_pos hnil,
      if_pos hnil]
    exact ⟨rfl, rfl⟩

/-- `char c; int x : 3; int : 0; int y : 30;` -/
theorem padding_bytes_bitfields :
    ∃ info, makeStructFieldInfo x86GccLimitedLibc [] false 16
        [(IntType.char.toSimple.toType, .Identifier "c"),
          ((SimpleNonArrayType.basic (.bitfieldType .signedInt 3)).toType, .Identifier "x"),
          ((SimpleNonArrayType.basic (.bitfieldType .signedInt 0)).toType, .NoNameI 0),
          ((SimpleNonArrayType.basic (.bitfieldType .signedInt 30)).toType, .Identifier "y")] = .ok info ∧
      computePaddingOffsets x86GccLimitedLibc [] info.size info.types info.offsets info.decls = .ok info.padding ∧
      (∀ x, x ∈ info.padding ↔ IsPaddingByte x86GccLimitedLibc [] info x) ∧
      ∀ offset ≥ 0,
        (info.decls ≠ [] → ∃ lo hi,
          floorBitOffset offset info = .ok lo ∧ FloorAt x86GccLimitedLibc [] info offset lo ∧
          ceilBitOffset offset info = .ok hi ∧ CeilAt x86GccLimitedLibc [] info offset hi) ∧
        (info.decls = [] → floorBitOffset offset info = .ok offset ∧ ceilBitOffset offset info = .ok offset) := by
  refine padding_bytes x86GccLimitedLibc [] false (by decide) _ ?_ (by decide) (by decide)
  intro d hd
  have hd' := List.mem_of_mem_filter hd
  simp only [List.mem_cons, List.not_mem_nil, or_false] at hd'
  rcases hd' with rfl | rfl | rfl | rfl
  · exact ⟨⟨8, by decide, by decide⟩, fun _ => by decide⟩
  · exact ⟨⟨3, by decide, by decide⟩, fun _ => by decide⟩
  · exact ⟨⟨0, by decide, by decide⟩, fun _ => by decide⟩
  · exact ⟨⟨30, by decide, by decide⟩, fun _ => by decide⟩

/-- **A struct without members** has no next field and ends at its start, and the ceiling of the second byte
    is the second byte. -/
theorem memberless_ceiling :
    ∃ info, makeStructFieldInfo x86GccLimitedLibc [] false 16 [] = .ok info ∧ info.size = 0 ∧
      ceilBitOffset 8 info = .ok 8 ∧ ¬ CeilAt x86GccLimitedLibc [] info 8 8 := by
  refine ⟨.fieldInfo [] 0 [] [] [] 1, by decide +kernel, rfl, rfl, fun h => ?_⟩
  generalize hc : (8 : Int) = c at h
  cases h with
  | next hd _ _ => exact absurd hd.1 List.not_mem_nil
  | size _ =>
    change (8 : Int) = 0 at hc
    omega

end CSemantics.Padding
