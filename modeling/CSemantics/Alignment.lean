/-
  Alignment of an address.

  `getAlign(Loc)` says how far the location is aligned whatever the address of its object: the
  largest power of two, up to the alignment of the object, that divides the offset.  A conversion to
  a pointer type that wants more than that is reported.

  The loop looks for the LOWEST bit of the offset and keeps its place in a third argument, the
  accumulator.  The rule that ends it gives the second one, which it calls `Accum`: so

      #getNativeAlign(Address, Max, Accum)  =  Max

  always, and a location counts as aligned as far as its object is.  That is right exactly at the
  offsets the alignment of the object divides, `getNativeAlign_iff`.
-/
import CSemantics.Conversion
import CSemantics.Execution.Declaration

namespace CSemantics

/-! ## The loop -/

/-- `#getNativeAlign(Address, Max, Accum)`.  The accumulator starts at 1 and doubles, so it stays
    positive and comes to `Max`.  The second rule gives `Max`: the source names that argument
    `Accum`. -/
def nativeAlignLoop (Address Max : Int) (Accum : {a : Int // 0 < a}) : Int :=
  if Int.land Address Accum = 0 ∧ Accum < Max then
    nativeAlignLoop Address Max ⟨Accum.1 <<< (1 : Nat), by
      rw [Int.shiftLeft_eq]
      have := Accum.2
      omega⟩
  else Max
termination_by (Max - Accum).toNat
decreasing_by
  rename_i h
  have : 0 < Accum.1 := Accum.2
  have : Accum.1 < Max := h.2
  rw [Int.shiftLeft_eq]
  omega

/-- `getNativeAlign(Address, Max)` -/
def getNativeAlign (Address Max : Int) : Int :=
  if Max = 0 then 0 else nativeAlignLoop (Address.tmod Max) Max ⟨1, by decide⟩

theorem nativeAlignLoop_eq (Address Max : Int) (Accum : {a : Int // 0 < a}) :
    nativeAlignLoop Address Max Accum = Max := by
  fun_induction nativeAlignLoop Address Max Accum with
  | case1 _ _ ih => exact ih
  | case2 _ _ => rfl

/-- **Every address is found to be aligned as far as asked.** -/
theorem getNativeAlign_eq (Address Max : Int) : getNativeAlign Address Max = Max := by
  unfold getNativeAlign
  split
  · next h => exact h.symm
  · exact nativeAlignLoop_eq _ _ _

/-- `n` is the largest power of two that is at most `Max` and divides `Address`. -/
def LargestPower (Max Address n : Int) : Prop :=
  IsGreatest {p : Int | (∃ j : ℕ, p = 2 ^ j) ∧ p ≤ Max ∧ p ∣ Address} n

/-- `Max` itself is the largest exactly where it divides the address. -/
theorem largestPower_self_iff {k : ℕ} {Address : Int} :
    LargestPower (2 ^ k) Address (2 ^ k) ↔ (2 : Int) ^ k ∣ Address := by
  constructor
  · exact fun h => h.1.2.2
  · exact fun h => ⟨⟨⟨k, rfl⟩, le_refl _, h⟩, fun p hp => hp.2.1⟩

/-! ## Alignment of a location -/

section Locations

variable (cfg : Settings) (linkings : SymBase → Option SymBase)

/-- `resolveLinking(Loc, Linkings)` -/
def resolveLinking : SymLoc → SymLoc
  | .loc b o => .loc ((linkings b).getD b) o
  | .loc3 b o p => .loc3 ((linkings b).getD b) o p
  | .NullPointer => .NullPointer

/-- `isLinkerLoc(Loc) andBool base(Loc) in_keys(Linkings)` -/
def isLinked : SymLoc → Bool
  | .loc b _ => isLinkBase b && (linkings b).isSome
  | .loc3 b _ _ => isLinkBase b && (linkings b).isSome
  | .NullPointer => false

/-- Linkings are followed as long as there is one. -/
inductive LinkResolved : SymLoc → SymLoc → Prop
  | done {L : SymLoc} (h : isLinked linkings L = false) : LinkResolved L L
  | step {L L' : SymLoc} (h : isLinked linkings L = true) (hr : LinkResolved (resolveLinking linkings L) L') :
    LinkResolved L L'

/-- `getAlign'`, of a location that has been resolved. -/
def alignOf : SymLoc → Int
  | .loc b o => getNativeAlign o b.align
  | .loc3 b o _ => getNativeAlign o b.align
  | .NullPointer => cfg.alignofMalloc

/-- `getAlign(Loc)` is `n`. -/
def GetAlign (L : SymLoc) (n : Int) : Prop := ∃ L', LinkResolved linkings L L' ∧ n = alignOf cfg L'

/-- The address of a location of object `b` with offset `o` may be `a`: the object lies at some
    multiple of its alignment. -/
def Placed (b : SymBase) (o a : Int) : Prop := ∃ x : Int, (b.align : Int) ∣ x ∧ a = x + o

end Locations

section Facts

variable {cfg : Settings} {linkings : SymBase → Option SymBase} {L L' L'' : SymLoc} {b : SymBase} {o : Int}

theorem LinkResolved.unique (h : LinkResolved linkings L L') (h' : LinkResolved linkings L L'') : L' = L'' := by
  induction h with
  | done h =>
    cases h' with
    | done _ => rfl
    | step h2 _ => rw [h] at h2; cases h2
  | step h _ ih =>
    cases h' with
    | done h2 => rw [h] at h2; cases h2
    | step _ hr => exact ih hr

theorem alignOf_eq (hb : L.base = .ok b) : alignOf cfg L = b.align := by
  cases L with
  | loc b' o' => cases hb; exact getNativeAlign_eq _ _
  | loc3 b' o' p => cases hb; exact getNativeAlign_eq _ _
  | NullPointer => cases hb

/-- **The alignment of a location is that of its object.** -/
theorem getAlign_iff (hr : LinkResolved linkings L L') (hb : L'.base = .ok b) {n : Int} :
    GetAlign cfg linkings L n ↔ n = b.align := by
  constructor
  · rintro ⟨L'', hr', rfl⟩
    rw [← hr.unique hr', alignOf_eq hb]
  · rintro rfl
    exact ⟨L', hr, (alignOf_eq hb).symm⟩

/-- Every address of a location is a multiple of `M` exactly if `M` divides the alignment of the
    object and the offset. -/
theorem forall_placed_dvd_iff {M : Int} : (∀ a, Placed b o a → M ∣ a) ↔ M ∣ b.align ∧ M ∣ o := by
  constructor
  · intro h
    have hzero : M ∣ 0 + o := h _ ⟨0, dvd_zero _, rfl⟩
    have ho : M ∣ o := by rwa [zero_add] at hzero
    exact ⟨(Int.dvd_add_left ho).mp (h _ ⟨b.align, dvd_refl _, rfl⟩), ho⟩
  · rintro ⟨hA, ho⟩ a ⟨x, hx, rfl⟩
    exact Int.dvd_add (hA.trans hx) ho

end Facts

/-! ## Conversion of pointers -/

/-- `Qs <=Quals Qs'` -/
def Quals.le (q q' : Quals) : Bool :=
  (!q.const || q'.const) && (!q.volatile || q'.volatile) && (!q.restrict || q'.restrict) && (!q.atomic || q'.atomic)

/-- `addQualifiers(Qs, T)`: to an array they are added as qualifiers of its elements. -/
def addQualifiers (qs : Quals) : CType → CType
  | .t q m (.array k T) => .t q m (.array k (addQualifiers qs T))
  | .t q m (.nonArray n) => .t (q.plus qs) m (.nonArray n)

/-- What a rule makes of the conversion of a pointer to a pointer type. -/
inductive PointerCast
  /-- `adjustPointerBounds(tv(Loc, T))` -/
  | adjustPointerBounds (L : SymLoc) (T : UType)
  | report (s : Stop)
  /-- the conversion goes on, from pointers to another type -/
  | from (T : CType)

def CCV11 : Stop :=
  UNDEF "CCV11" "Conversion to a pointer type with a stricter alignment requirement (possibly undefined)."

/-- **The rules for `cast(ut(Mods', pointerType(T')), tv(Loc, ut(Mods, pointerType(T))), _)`**, one
    constructor for each with its side condition. -/
inductive PointerCastRule (cfg : Settings) (tags : Tags) (linkings : SymBase → Option SymBase) (m' : Mods) (T' : CType)
    (L : SymLoc) (m : Mods) (T : CType) : PointerCast → Prop
  | value {A : Int} (hnull : L ≠ .NullPointer) (hA : GetAlign cfg linkings L A) (hle : getAlignas cfg tags T' ≤ A)
    (hf : (isFunctionType T && !isFunctionType T') = false) (hq : (getQualifiers T).le (getQualifiers T') = true) :
    PointerCastRule cfg tags linkings m' T' L m T
      (.adjustPointerBounds L
        (castTypes (.ut m' (.nonArray (.pointerType T'))) (.ut m (.nonArray (.pointerType T)))))
  | stricter {A : Int} (hne : AreCompatible cfg tags T' T false) (hf : (isFunctionType T && !isFunctionType T') = false)
    (hA : GetAlign cfg linkings L A) (hgt : getAlignas cfg tags T' > A) :
    PointerCastRule cfg tags linkings m' T' L m T (.report CCV11)
  | functionToObject (hf : (isFunctionType T && !isFunctionType T') = true) :
    PointerCastRule cfg tags linkings m' T' L m T
      (.report (UNDEF "CCV14" "Conversion of a function pointer to object pointer type."))
  | castingAwayQuals (hq : (getQualifiers T).le (getQualifiers T') = false) :
    PointerCastRule cfg tags linkings m' T' L m T (.from (addQualifiers (getQualifiers T') (stripQualifiers T)))

section Conversions

variable {cfg : Settings} {tags : Tags} {linkings : SymBase → Option SymBase} {L L' : SymLoc} {b : SymBase} {o : Int}
  {m' m : Mods} {T' T : CType}

/-- **What is reported**: a type that wants more than the OBJECT is aligned. -/
theorem stricter_iff (hr : LinkResolved linkings L L') (hb : L'.base = .ok b)
    (hne : AreCompatible cfg tags T' T false) (hf : (isFunctionType T && !isFunctionType T') = false) :
    PointerCastRule cfg tags linkings m' T' L m T (.report CCV11) ↔ (b.align : Int) < getAlignas cfg tags T' := by
  constructor
  · intro h
    generalize hc : PointerCast.report CCV11 = c at h
    cases h with
    | value _ _ _ _ _ => cases hc
    | stricter _ _ hA hgt => rwa [(getAlign_iff hr hb).mp hA] at hgt
    | functionToObject hf' => rw [hf] at hf'; cases hf'
    | castingAwayQuals _ => cases hc
  · exact fun h => .stricter hne hf ((getAlign_iff hr hb).mpr rfl) h

/-- **Alignment of an address**, for an object aligned to a power of two:

    * `getNativeAlign` ends, and gives the largest power of two up to `Max` that divides the address
      exactly if `Max` divides it;
    * `getAlign` of a location gives the largest one, up to the alignment of the object, that divides
      the offset exactly if the alignment of the object divides it;
    * a conversion to a pointer to another type is reported for those locations whose address need not
      be a multiple of its alignment exactly if that is greater than the alignment of the object, or
      divides both it and the offset. -/
theorem alignment_iff (cfg : Settings) (tags : Tags) (linkings : SymBase → Option SymBase) :
    (∀ (k : ℕ) (Address : Int),
      LargestPower (2 ^ k) Address (getNativeAlign Address (2 ^ k)) ↔ (2 : Int) ^ k ∣ Address) ∧
    ∀ (L L' : SymLoc) (b : SymBase) (o : Int) (k : ℕ), LinkResolved linkings L L' → L'.base = .ok b →
      L'.offset = .ok o → b.align = 2 ^ k →
      (∃ n, GetAlign cfg linkings L n) ∧
      (∀ n, GetAlign cfg linkings L n → (LargestPower b.align o n ↔ (b.align : Int) ∣ o)) ∧
      ∀ (m' : Mods) (T' : CType) (m : Mods) (T : CType), AreCompatible cfg tags T' T false →
        (isFunctionType T && !isFunctionType T') = false →
        ((PointerCastRule cfg tags linkings m' T' L m T (.report CCV11) ↔
            ∃ a, Placed b o a ∧ ¬getAlignas cfg tags T' ∣ a) ↔
          (b.align : Int) < getAlignas cfg tags T' ∨
            getAlignas cfg tags T' ∣ b.align ∧ getAlignas cfg tags T' ∣ o) := by
  refine ⟨fun k Address => ?_, fun L L' b o k hr hb _ hk => ⟨⟨_, (getAlign_iff hr hb).mpr rfl⟩, fun n hn => ?_, ?_⟩⟩
  · rw [getNativeAlign_eq]
    exact largestPower_self_iff
  · have hpow : (b.align : Int) = 2 ^ k := by
      rw [hk]
      exact Nat.cast_pow 2 k
    rw [(getAlign_iff hr hb).mp hn, hpow]
    exact largestPower_self_iff
  · intro m' T' m T hne hf
    have hmis : (∃ a, Placed b o a ∧ ¬getAlignas cfg tags T' ∣ a) ↔
        ¬(getAlignas cfg tags T' ∣ b.align ∧ getAlignas cfg tags T' ∣ o) := by
      rw [← forall_placed_dvd_iff, not_forall]
      exact exists_congr fun a => Classical.not_imp.symm
    rw [stricter_iff hr hb hne hf, hmis]
    -- an alignment greater than that of the object does not divide it
    have hover : (b.align : Int) < getAlignas cfg tags T' → ¬getAlignas cfg tags T' ∣ b.align := by
      intro hlt hdvd
      have hpos : (0 : Int) < b.align := by
        rw [hk]
        positivity
      exact absurd (Int.le_of_dvd hpos hdvd) (not_le.mpr hlt)
    constructor
    · intro h
      by_cases hlt : (b.align : Int) < getAlignas cfg tags T'
      · exact .inl hlt
      · exact .inr (not_not.mp fun hn => hlt (h.mpr hn))
    · rintro (hlt | hdvd)
      · exact ⟨fun _ hd => hover hlt hd.1, fun _ => hlt⟩
      · exact ⟨fun hlt => absurd hdvd.1 (hover hlt), fun hn => absurd hdvd hn⟩

/-- An object aligned to 4, with one more byte to the location. -/
private def oddByte : SymLoc := .loc (obj 0 4 .alloc) 1

/-- The byte after the start of an object aligned to 4 is given 4, and its conversion to a pointer to
    `int` is not reported where it should be. -/
theorem alignment_iff_oddByte :
    (∃ n, GetAlign x86GccLimitedLibc (fun _ => none) oddByte n ∧ ¬LargestPower 4 1 n) ∧
    ¬(PointerCastRule x86GccLimitedLibc [] (fun _ => none) noMods IntType.int.toSimple.toType oddByte noMods
        IntType.char.toSimple.toType (.report CCV11) ↔
      ∃ a, Placed (obj 0 4 .alloc) 1 a ∧ ¬getAlignas x86GccLimitedLibc [] IntType.int.toSimple.toType ∣ a) := by
  obtain ⟨⟨n, hn⟩, hlargest, hcast⟩ := (alignment_iff x86GccLimitedLibc [] (fun _ => none)).2 oddByte oddByte
    (obj 0 4 .alloc) 1 2 (.done rfl) rfl rfl rfl
  refine ⟨⟨n, hn, fun h => ?_⟩, fun h => ?_⟩
  · exact absurd ((hlargest n hn).mp h) (by decide)
  · exact absurd ((hcast _ _ _ _ ⟨1, by decide +kernel⟩ rfl).mp h) (by decide +kernel)

/-- **What the loop gets wrong**: 1 is aligned to 4, and a pointer to `int` may have an odd address. -/
theorem oddByte_aligned :
    ¬LargestPower 4 1 (getNativeAlign 1 4) ∧
    (∃ a, Placed (obj 0 4 .alloc) 1 a ∧
      ¬getAlignas x86GccLimitedLibc [] IntType.int.toSimple.toType ∣ a) ∧
    ¬PointerCastRule x86GccLimitedLibc [] (fun _ => none) noMods IntType.int.toSimple.toType oddByte noMods
      IntType.char.toSimple.toType (.report CCV11) := by
  refine ⟨?_, ⟨1, ⟨0, dvd_zero _, rfl⟩, by decide +kernel⟩, ?_⟩
  · rw [getNativeAlign_eq]
    exact fun h => absurd h.1.2.2 (by decide)
  · intro h
    exact absurd ((stricter_iff (.done rfl) rfl ⟨1, by decide +kernel⟩ rfl).mp h) (by decide +kernel)

end Conversions

end CSemantics
