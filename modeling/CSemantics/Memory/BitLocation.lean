/-
  Bit locations.

  `Loc +bits N` moves a location by a number of bits: whole bytes go to the byte offset, and what is left
  is recorded in the provenance as `bits(N % bitsPerByte)`.

  The record is ADDED to the provenance, which is a set.  Where a location has one already there are two
  afterwards, and neither is the sum:

      l = loc(b, 0, {bits(3)})        l +bits 2 = loc(b, 0, {bits(3), bits(2)})

  so a location can be moved off a byte boundary once, and from a boundary only.
-/
import CSemantics.Symloc

namespace CSemantics

namespace SymLoc

/-! ## Moving by bits -/

def setBitOffset (offset : ℕ) (l : SymLoc) : SymLoc :=
  match offset with
  | 0 => l
  | offset => addProv (.bits offset) l

/-- `Loc +bits N`.  No bit count is negative. -/
def plusBits (cfg : Settings) (l : SymLoc) (n : ℕ) : SymLoc :=
  setBitOffset (n % cfg.bitsPerByte) (l.plusBytes (n / cfg.bitsPerByte : ℕ))

/-- What `getBitOffset` can give: the provenance is a set, and any of the records in it matches. -/
def ReadsBits (l : SymLoc) (i : ℕ) : Prop :=
  .bits i ∈ l.prov ∨ i = 0 ∧ ∀ j, .bits j ∉ l.prov

/-- What `bitOffset` can give, and in which object. -/
def BitAt (cfg : Settings) (l : SymLoc) (b : SymBase) (v : Int) : Prop :=
  ∃ o i, l.base = .ok b ∧ l.offset = .ok o ∧ l.ReadsBits i ∧ v = o * (cfg.bitsPerByte : ℕ) + i

/-- The record is unique and less than a byte. -/
def Recorded (cfg : Settings) (l : SymLoc) : Prop :=
  ∀ i : ℕ, .bits i ∈ l.prov → i < cfg.bitsPerByte ∧ ∀ j : ℕ, .bits j ∈ l.prov → j = i

/-- The bytes that `n` bits from `v` on are in. -/
def touched (cfg : Settings) (v : Int) (n : ℕ) : Finset Int :=
  (Finset.range n).image fun t : ℕ => (v + t) / (cfg.bitsPerByte : ℕ)

/-- The one bit that is `n` bits on, with one record of where in its byte it is. -/
structure Moves (cfg : Settings) (l : SymLoc) (n : ℕ) : Prop where
  add : ∀ base v, l.BitAt cfg base v → ∀ base' v', (l.plusBits cfg n).BitAt cfg base' v' ↔
    base' = base ∧ v' = v + n
  recorded : (l.plusBits cfg n).Recorded cfg

/-- What bit-level locations are for, at one location. -/
structure BitLevel (cfg : Settings) (l : SymLoc) (a b n : ℕ) : Prop where
  first : l.Moves cfg a
  sum : l.Moves cfg (a + b)
  compose : ∀ base v, ((l.plusBits cfg a).plusBits cfg b).BitAt cfg base v ↔
    (l.plusBits cfg (a + b)).BitAt cfg base v
  range : ∀ base v, l.BitAt cfg base v → l.byteRange cfg n = (touched cfg v n).card

/-- A bit offset is set: the move ends off a byte boundary. -/
def SetsBits (cfg : Settings) (l : SymLoc) (n : ℕ) : Prop :=
  l ≠ .NullPointer ∧ n % cfg.bitsPerByte ≠ 0

/-- At most once in all, and a run of no bits starts at a byte. -/
structure SetOnce (cfg : Settings) (l : SymLoc) (a b n : ℕ) : Prop where
  recorded : l.Recorded cfg
  fresh : ∀ i, .bits i ∈ l.prov → ¬ l.SetsBits cfg a ∧ ¬ l.SetsBits cfg b
  once : ¬ l.SetsBits cfg a ∨ ¬ l.SetsBits cfg b
  nonempty : n = 0 → ∀ i, .bits i ∈ l.prov → i = 0

/-! ## What a move records -/

variable {cfg : Settings} {l : SymLoc} {a b n : ℕ}

theorem base_plusBits (l : SymLoc) (n : ℕ) : (l.plusBits cfg n).base = l.base := by
  unfold plusBits setBitOffset
  split <;> cases l <;> rfl

theorem offset_plusBits {o : Int} (ho : l.offset = .ok o) (n : ℕ) :
    (l.plusBits cfg n).offset = .ok (o + (n / cfg.bitsPerByte : ℕ)) := by
  unfold plusBits setBitOffset
  match l, ho with
  | .loc b o', ho =>
    obtain rfl : o' = o := Except.ok.inj ho
    split <;> rfl
  | .loc3 b o' p, ho =>
    obtain rfl : o' = o := Except.ok.inj ho
    split <;> rfl

theorem prov_plusBits_of_not (h : ¬ l.SetsBits cfg n) : (l.plusBits cfg n).prov = l.prov := by
  match l, h with
  | .NullPointer, _ => unfold plusBits setBitOffset; split <;> rfl
  | .loc b o, h =>
    have hn : n % cfg.bitsPerByte = 0 := by
      by_contra hne
      exact h ⟨by simp, hne⟩
    rw [plusBits, hn]
    rfl
  | .loc3 b o p, h =>
    have hn : n % cfg.bitsPerByte = 0 := by
      by_contra hne
      exact h ⟨by simp, hne⟩
    rw [plusBits, hn]
    rfl

theorem prov_plusBits_of_sets (h : l.SetsBits cfg n) :
    (l.plusBits cfg n).prov = .bits (n % cfg.bitsPerByte) :: l.prov := by
  obtain ⟨hl, hn⟩ := h
  have hset : ∀ l' : SymLoc, setBitOffset (n % cfg.bitsPerByte) l' =
      addProv (.bits (n % cfg.bitsPerByte)) l' := by
    intro l'
    unfold setBitOffset
    split
    · next h0 => exact absurd h0 hn
    · rfl
  rw [plusBits, hset]
  match l, hl with
  | .loc b o, _ => rfl
  | .loc3 b o p, _ => rfl

theorem mem_prov_plusBits {p : Provenance} (h : p ∈ l.prov) (n : ℕ) : p ∈ (l.plusBits cfg n).prov := by
  by_cases hs : l.SetsBits cfg n
  · rw [prov_plusBits_of_sets hs]
    exact List.mem_cons_of_mem _ h
  · rw [prov_plusBits_of_not hs]
    exact h

theorem plusBits_ne_null (hl : l ≠ .NullPointer) (n : ℕ) : l.plusBits cfg n ≠ .NullPointer := by
  unfold plusBits setBitOffset
  match l, hl with
  | .loc b o, _ => split <;> simp [plusBytes, addProv]
  | .loc3 b o p, _ => split <;> simp [plusBytes, addProv]

theorem setsBits_plusBits (l : SymLoc) (a b : ℕ) :
    (l.plusBits cfg a).SetsBits cfg b ↔ l.SetsBits cfg b := by
  constructor
  · rintro ⟨hl, hb⟩
    refine ⟨?_, hb⟩
    rintro rfl
    exact hl (by unfold plusBits setBitOffset; split <;> rfl)
  · rintro ⟨hl, hb⟩
    exact ⟨plusBits_ne_null hl a, hb⟩

theorem readsBits_getBitOffset (l : SymLoc) : l.ReadsBits l.getBitOffset := by
  rw [ReadsBits, getBitOffset]
  induction l.prov with
  | nil => exact .inr ⟨rfl, fun j hj => by simp at hj⟩
  | cons p ps ih =>
    cases p with
    | bits i => exact .inl List.mem_cons_self
    | fromArray o len => simpa [bitsOf] using ih
    | basedOn base scope => simpa [bitsOf] using ih

theorem Recorded.reads_unique (h : l.Recorded cfg) {i j : ℕ} (hi : l.ReadsBits i) (hj : l.ReadsBits j) :
    i = j := by
  rcases hi with hi | ⟨rfl, hi⟩ <;> rcases hj with hj | ⟨rfl, hj⟩
  · exact (h j hj).2 i hi
  · exact absurd hi (hj i)
  · exact absurd hj (hi j)
  · rfl

theorem Recorded.reads_lt (h : l.Recorded cfg) {i : ℕ} (hi : l.ReadsBits i) : i < cfg.bitsPerByte := by
  rcases hi with hi | ⟨rfl, -⟩
  · exact (h i hi).1
  · exact cfg.bitsPerByte.pos

theorem not_null_of_offset {o : Int} (ho : l.offset = .ok o) : l ≠ .NullPointer := by
  rintro rfl
  exact absurd ho (by simp [offset])

theorem exists_base (hl : l ≠ .NullPointer) : ∃ b o, l.base = .ok b ∧ l.offset = .ok o := by
  match l, hl with
  | .loc b o, _ => exact ⟨b, o, rfl, rfl⟩
  | .loc3 b o p, _ => exact ⟨b, o, rfl, rfl⟩

/-! ## A move that is right -/

/-- Nothing is set, or nothing was recorded. -/
theorem readsBits_plusBits (h : ∀ i, .bits i ∈ l.prov → ¬ l.SetsBits cfg n) (hl : l ≠ .NullPointer) (i : ℕ) :
    (l.plusBits cfg n).ReadsBits i ↔ ∃ j, l.ReadsBits j ∧ i = j + n % cfg.bitsPerByte := by
  by_cases hs : l.SetsBits cfg n
  · have hno : ∀ j, .bits j ∉ l.prov := fun j hj => h j hj hs
    constructor
    · intro hi
      refine ⟨0, .inr ⟨rfl, hno⟩, ?_⟩
      rw [ReadsBits, prov_plusBits_of_sets hs] at hi
      rcases hi with hi | ⟨-, hi⟩
      · rcases List.mem_cons.1 hi with hi | hi
        · rw [Nat.zero_add]
          exact Provenance.bits.inj hi
        · exact absurd hi (hno i)
      · exact absurd List.mem_cons_self (hi _)
    · rintro ⟨j, hj | ⟨rfl, -⟩, rfl⟩
      · exact absurd hj (hno j)
      · refine .inl ?_
        rw [prov_plusBits_of_sets hs, Nat.zero_add]
        exact List.mem_cons_self
  · have hn : n % cfg.bitsPerByte = 0 := by
      by_contra hne
      exact hs ⟨hl, hne⟩
    simp only [ReadsBits, prov_plusBits_of_not hs, hn, Nat.add_zero]
    exact ⟨fun hi => ⟨i, hi, rfl⟩, fun ⟨j, hj, hij⟩ => hij ▸ hj⟩

theorem cast_div_add_mod (cfg : Settings) (n : ℕ) :
    (n : Int) = (n / cfg.bitsPerByte : ℕ) * (cfg.bitsPerByte : ℕ) + (n % cfg.bitsPerByte : ℕ) := by
  exact_mod_cast (Nat.div_add_mod' n cfg.bitsPerByte).symm

theorem bitAt_plusBits (h : ∀ i, .bits i ∈ l.prov → ¬ l.SetsBits cfg n) (base : SymBase) (v : Int) :
    (l.plusBits cfg n).BitAt cfg base v ↔ l.BitAt cfg base (v - n) := by
  have hdiv := cast_div_add_mod cfg n
  constructor
  · rintro ⟨o', i, hb, ho', hi, rfl⟩
    rw [base_plusBits] at hb
    have hl : l ≠ .NullPointer := by
      rintro rfl
      exact absurd hb (by simp [SymLoc.base])
    obtain ⟨b, o, -, ho⟩ := exists_base hl
    obtain rfl : o + (n / cfg.bitsPerByte : ℕ) = o' := by
      rw [offset_plusBits ho] at ho'
      exact Except.ok.inj ho'
    obtain ⟨j, hj, rfl⟩ := (readsBits_plusBits h hl i).1 hi
    refine ⟨o, j, hb, ho, hj, ?_⟩
    rw [add_mul, Nat.cast_add]
    omega
  · rintro ⟨o, j, hb, ho, hj, hv⟩
    refine ⟨_, j + n % cfg.bitsPerByte, (base_plusBits l n).trans hb, offset_plusBits ho n,
      (readsBits_plusBits h (not_null_of_offset ho) _).2 ⟨j, hj, rfl⟩, ?_⟩
    rw [add_mul, Nat.cast_add]
    omega

theorem Recorded.bitAt_unique (h : l.Recorded cfg) {base base' : SymBase} {v v' : Int}
    (hv : l.BitAt cfg base v) (hv' : l.BitAt cfg base' v') : base' = base ∧ v' = v := by
  obtain ⟨o, i, hb, ho, hi, rfl⟩ := hv
  obtain ⟨o', i', hb', ho', hi', rfl⟩ := hv'
  obtain rfl : o = o' := Except.ok.inj (ho.symm.trans ho')
  obtain rfl := h.reads_unique hi hi'
  exact ⟨Except.ok.inj (hb'.symm.trans hb), rfl⟩

theorem Recorded.plusBits (hrec : l.Recorded cfg) (h : ∀ i, .bits i ∈ l.prov → ¬ l.SetsBits cfg n) :
    (l.plusBits cfg n).Recorded cfg := by
  by_cases hs : l.SetsBits cfg n
  · have hno : ∀ j, .bits j ∉ l.prov := fun j hj => h j hj hs
    intro i hi
    simp only [prov_plusBits_of_sets hs, List.mem_cons, Provenance.bits.injEq, hno, or_false] at hi ⊢
    subst hi
    exact ⟨Nat.mod_lt _ cfg.bitsPerByte.pos, fun j hj => hj⟩
  · intro i hi
    rw [prov_plusBits_of_not hs] at hi ⊢
    exact hrec i hi

/-- **One move.** -/
theorem Recorded.moves (hrec : l.Recorded cfg) (h : ∀ i, .bits i ∈ l.prov → ¬ l.SetsBits cfg n) :
    l.Moves cfg n where
  recorded := hrec.plusBits h
  add := by
    intro base v hv base' v'
    rw [bitAt_plusBits h]
    constructor
    · intro hv'
      obtain ⟨rfl, hvv⟩ := hrec.bitAt_unique hv hv'
      exact ⟨rfl, by omega⟩
    · rintro ⟨rfl, rfl⟩
      rw [add_sub_cancel_right]
      exact hv

/-! ## A move that is wrong -/

/-- **Two records.**  What is recorded is kept, and the new record is not the sum. -/
theorem Moves.not_sets (h : l.Moves cfg a) {i : ℕ} (hi : .bits i ∈ l.prov) : ¬ l.SetsBits cfg a := by
  intro hs
  have hnew : .bits (a % cfg.bitsPerByte) ∈ (l.plusBits cfg a).prov := by
    rw [prov_plusBits_of_sets hs]
    exact List.mem_cons_self
  obtain rfl : a % cfg.bitsPerByte = i := (h.recorded i (mem_prov_plusBits hi a)).2 _ hnew
  obtain ⟨b, o, hb, ho⟩ := exists_base hs.1
  have hv := (h.add b _ ⟨o, _, hb, ho, .inl hi, rfl⟩ b _).1
    ⟨_, _, (base_plusBits l a).trans hb, offset_plusBits ho a, .inl hnew, rfl⟩
  have hdiv := cast_div_add_mod cfg a
  have hzero : ((a % cfg.bitsPerByte : ℕ) : Int) = 0 := by
    have h2 := hv.2
    rw [add_mul] at h2
    omega
  exact hs.2 (by exact_mod_cast hzero)

/-- **Two steps off the boundary.**  The second one overrides the first. -/
theorem Moves.not_sets_twice (h : l.Moves cfg (a + b)) (hno : ∀ i, .bits i ∉ l.prov)
    (hcomp : ∀ base v, ((l.plusBits cfg a).plusBits cfg b).BitAt cfg base v ↔
      (l.plusBits cfg (a + b)).BitAt cfg base v) (ha : l.SetsBits cfg a) : ¬ l.SetsBits cfg b := by
  intro hb
  have hnew : .bits (b % cfg.bitsPerByte) ∈ ((l.plusBits cfg a).plusBits cfg b).prov := by
    rw [prov_plusBits_of_sets ((setsBits_plusBits l a b).2 hb)]
    exact List.mem_cons_self
  obtain ⟨s, o, hs, ho⟩ := exists_base ha.1
  have htwo := (hcomp s _).1 ⟨_, _, (base_plusBits _ b).trans ((base_plusBits l a).trans hs),
    offset_plusBits (offset_plusBits ho a) b, .inl hnew, rfl⟩
  have hv := ((h.add s _ ⟨o, 0, hs, ho, .inr ⟨rfl, hno⟩, rfl⟩ s _).1 htwo).2
  have hdiva := cast_div_add_mod cfg a
  have hdivb := cast_div_add_mod cfg b
  have hzero : ((a % cfg.bitsPerByte : ℕ) : Int) = 0 := by
    rw [add_mul, add_mul, Nat.cast_add] at hv
    omega
  exact ha.2 (by exact_mod_cast hzero)

/-! ## The bytes that are touched -/

theorem touched_zero (v : Int) : touched cfg v 0 = ∅ := rfl

theorem div_of_add (o : Int) (m : ℕ) :
    (o * (cfg.bitsPerByte : ℕ) + m) / (cfg.bitsPerByte : ℕ) = o + (m / cfg.bitsPerByte : ℕ) := by
  have hB : ((cfg.bitsPerByte : ℕ) : Int) ≠ 0 := by exact_mod_cast cfg.bitsPerByte.pos.ne'
  rw [add_comm, Int.add_mul_ediv_right _ _ hB, add_comm]
  rfl

/-- From the byte of the first bit to the byte of the last one. -/
theorem touched_eq (o : Int) {i : ℕ} (hi : i < cfg.bitsPerByte) (hn : 0 < n) :
    touched cfg (o * (cfg.bitsPerByte : ℕ) + i) n =
      (Finset.range ((i + n - 1) / cfg.bitsPerByte + 1)).image fun k : ℕ => o + k := by
  have hB : 0 < (cfg.bitsPerByte : ℕ) := cfg.bitsPerByte.pos
  have hbyte : ∀ t : ℕ, (o * (cfg.bitsPerByte : ℕ) + i + t) / (cfg.bitsPerByte : ℕ) =
      o + ((i + t) / cfg.bitsPerByte : ℕ) := by
    intro t
    rw [add_assoc, ← Nat.cast_add]
    exact div_of_add o (i + t)
  ext k
  simp only [touched, Finset.mem_image, Finset.mem_range, hbyte]
  constructor
  · rintro ⟨t, ht, rfl⟩
    exact ⟨_, Nat.lt_succ_of_le (Nat.div_le_div_right (by omega)), rfl⟩
  · rintro ⟨m, hm, rfl⟩
    have hle : m * cfg.bitsPerByte ≤ i + n - 1 := (Nat.le_div_iff_mul_le hB).1 (Nat.le_of_lt_succ hm)
    -- the first bit of the byte, or of the run
    rcases Nat.eq_zero_or_pos m with rfl | hpos
    · exact ⟨0, hn, by rw [Nat.add_zero, Nat.div_eq_of_lt hi]⟩
    · have hfirst : (cfg.bitsPerByte : ℕ) ≤ m * cfg.bitsPerByte := Nat.le_mul_of_pos_left _ hpos
      refine ⟨m * cfg.bitsPerByte - i, by omega, ?_⟩
      rw [Nat.add_sub_cancel' (by omega), Nat.mul_div_cancel _ hB]

theorem card_touched (o : Int) {i : ℕ} (hi : i < cfg.bitsPerByte) (hn : 0 < n) :
    (touched cfg (o * (cfg.bitsPerByte : ℕ) + i) n).card =
      (i + n + cfg.bitsPerByte - 1) / (cfg.bitsPerByte : ℕ) := by
  have hround : (i + n + cfg.bitsPerByte - 1) / (cfg.bitsPerByte : ℕ) =
      (i + n - 1) / (cfg.bitsPerByte : ℕ) + 1 := by
    rw [← Nat.add_div_right _ cfg.bitsPerByte.pos]
    congr 1
    omega
  have hinj : Function.Injective fun k : ℕ => o + (k : Int) := fun a b hab => by
    have hcast : o + (a : Int) = o + b := hab
    omega
  rw [touched_eq o hi hn, Finset.card_image_of_injective _ hinj, Finset.card_range, hround]

theorem byteRange_eq_touched (hrec : l.Recorded cfg) (hn : n = 0 → ∀ i, .bits i ∈ l.prov → i = 0)
    {base : SymBase} {v : Int} (hv : l.BitAt cfg base v) : l.byteRange cfg n = (touched cfg v n).card := by
  obtain ⟨o, i, -, -, hi, rfl⟩ := hv
  obtain rfl : l.getBitOffset = i := hrec.reads_unique (readsBits_getBitOffset l) hi
  rcases Nat.eq_zero_or_pos n with rfl | hpos
  · have hzero : l.getBitOffset = 0 := hi.elim (hn rfl _) (·.1)
    have hlt : (cfg.bitsPerByte : ℕ) - 1 < cfg.bitsPerByte := Nat.sub_lt cfg.bitsPerByte.pos Nat.one_pos
    rw [touched_zero, Finset.card_empty, byteRange, bitOffsetIntoLastByte, hzero]
    simp only [Nat.add_zero, Nat.zero_add]
    exact Nat.div_eq_of_lt hlt
  · rw [card_touched o (hrec.reads_lt hi) hpos]
    rfl

/-! ## Exactly when -/

/-- Three bits into an object, and two bits more. -/
theorem three_and_two_bits : ¬ ((loc (obj 0 8 .alloc) 0).plusBits x86GccLimitedLibc 3).BitLevel
    x86GccLimitedLibc 2 0 8 := by
  intro h
  have hrec : Provenance.bits 3 ∈ ((loc (obj 0 8 .alloc) 0).plusBits x86GccLimitedLibc 3).prov := by
    decide
  exact h.first.not_sets hrec ⟨by decide, by decide⟩

/-- **Bit-level locations.**  They work exactly where a bit offset is set once at most. -/
theorem bitLevel_iff (cfg : Settings) (l : SymLoc) (a b n : ℕ) :
    l.BitLevel cfg a b n ↔ l.SetOnce cfg a b n := by
  constructor
  · rintro ⟨hfirst, hsum, hcomp, hrange⟩
    have hrec : l.Recorded cfg := by
      intro i hi
      obtain ⟨hlt, huniq⟩ := hfirst.recorded i (mem_prov_plusBits hi a)
      exact ⟨hlt, fun j hj => huniq j (mem_prov_plusBits hj a)⟩
    have hb : ∀ i, .bits i ∈ l.prov → ¬ l.SetsBits cfg b := by
      rintro i hi ⟨hl, hne⟩
      refine hsum.not_sets hi ⟨hl, ?_⟩
      have ha : a % cfg.bitsPerByte = 0 := by
        by_contra h
        exact hfirst.not_sets hi ⟨hl, h⟩
      rw [Nat.add_mod, ha, Nat.zero_add, Nat.mod_mod]
      exact hne
    refine ⟨hrec, fun i hi => ⟨hfirst.not_sets hi, hb i hi⟩, ?_, ?_⟩
    · by_cases hs : l.SetsBits cfg a
      · exact .inr (hsum.not_sets_twice (fun i hi => hfirst.not_sets hi hs) hcomp hs)
      · exact .inl hs
    · rintro rfl i hi
      by_contra hne
      have hl : l ≠ .NullPointer := by
        rintro rfl
        simp [prov] at hi
      obtain ⟨s, o, hs, ho⟩ := exists_base hl
      have hcard := hrange s _ ⟨o, i, hs, ho, .inl hi, rfl⟩
      rw [touched_zero, Finset.card_empty, byteRange, Nat.div_eq_zero_iff] at hcard
      have hget : l.getBitOffset = i := hrec.reads_unique (readsBits_getBitOffset l) (.inl hi)
      have hpos := cfg.bitsPerByte.pos
      rw [bitOffsetIntoLastByte, hget] at hcard
      omega
  · rintro ⟨hrec, hfresh, honce, hn⟩
    have ha : ∀ i, .bits i ∈ l.prov → ¬ l.SetsBits cfg a := fun i hi => (hfresh i hi).1
    have hb : ∀ i, .bits i ∈ (l.plusBits cfg a).prov → ¬ (l.plusBits cfg a).SetsBits cfg b := by
      intro i hi
      rw [setsBits_plusBits]
      by_cases hs : l.SetsBits cfg a
      · exact honce.resolve_left (fun h => h hs)
      · rw [prov_plusBits_of_not hs] at hi
        exact (hfresh i hi).2
    have hab : ∀ i, .bits i ∈ l.prov → ¬ l.SetsBits cfg (a + b) := by
      rintro i hi ⟨hnull, hne⟩
      refine hne ?_
      have h1 : a % cfg.bitsPerByte = 0 := by
        by_contra h
        exact (hfresh i hi).1 ⟨hnull, h⟩
      have h2 : b % cfg.bitsPerByte = 0 := by
        by_contra h
        exact (hfresh i hi).2 ⟨hnull, h⟩
      rw [Nat.add_mod, h1, h2, Nat.zero_mod]
    refine ⟨hrec.moves ha, hrec.moves hab, ?_, fun base v hv => byteRange_eq_touched hrec hn hv⟩
    · intro base v
      rw [bitAt_plusBits hb, bitAt_plusBits ha, bitAt_plusBits hab, Nat.cast_add, sub_add_eq_sub_sub, sub_right_comm]

end SymLoc

end CSemantics
