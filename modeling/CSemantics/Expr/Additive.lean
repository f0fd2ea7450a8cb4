/-
  Pointer arithmetic.

  A pointer into an array keeps its place TWICE: as the offset of the location in its object, and in
  the provenance as `fromArray(Offset, Len)`, its offset in the array and the length of that.  Adding
  `I` elements of size `S` moves both by `I * S`, and it is the second one that is checked:

      0 <= Offset + I * S <= Len

  A location may carry several such entries.  All of them move, and the first one that a walk through
  the set meets decides; any of them may be it.

      IfFromArrayInBounds, newFromArray     the entries of the provenance
      AdditiveRule                          `+` and `-` of a pointer and an integer
      DifferenceRule                        `-` of two pointers
-/
import CSemantics.Alignment
import CSemantics.UsualConversion
import CSemantics.Translation.Global

namespace CSemantics

open ConjSearch

/-! ## Arrays in the provenance -/

/-- `ifFromArrayInBounds(Loc, T, I)` of a location with this provenance, for elements of size `S`: the
    first `fromArray` a walk meets decides, and no bounds are known where there is none. -/
inductive IfFromArrayInBounds (S I : Int) (prov : List Provenance) : Bool → Prop
  | fromArray {Offset Len : Int} (h : .fromArray Offset Len ∈ prov) :
    IfFromArrayInBounds S I prov (decide (Offset + I * S ≥ 0 ∧ Offset + I * S ≤ Len))
  | notFromArray (h : ∀ Offset Len, .fromArray Offset Len ∉ prov) : IfFromArrayInBounds S I prov true

/-- What moving by `D` bytes makes of a fact. -/
def Provenance.move (D : Int) : Provenance → Provenance
  | .fromArray Offset Len => .fromArray (Offset + D) Len
  | p => p

/-- `newFromArray(Loc, T, I)`, for elements of size `S` -/
def newFromArray (S I : Int) : SymLoc → SymLoc
  | .loc3 b o prov => .loc3 b o (prov.map (·.move (I * S)))
  | L => L

section Moves

variable {D D' Offset Len : Int} {p : Provenance} {prov : List Provenance}

@[simp] theorem Provenance.move_zero : p.move 0 = p := by
  cases p with
  | fromArray o l => simp only [move, add_zero]
  | _ => rfl

@[simp] theorem Provenance.move_move : (p.move D).move D' = p.move (D + D') := by
  cases p with
  | fromArray o l => simp only [move, add_assoc]
  | _ => rfl

theorem mem_map_move_iff :
    .fromArray Offset Len ∈ prov.map (·.move D) ↔ .fromArray (Offset - D) Len ∈ prov := by
  rw [List.mem_map]
  constructor
  · rintro ⟨p, hp, heq⟩
    cases p with
    | fromArray o l =>
      injection heq with ho hl
      rwa [← ho, ← hl, Int.add_sub_cancel]
    | basedOn _ _ => cases heq
    | bits _ => cases heq
  · intro h
    refine ⟨_, h, ?_⟩
    rw [Provenance.move, Int.sub_add_cancel]

theorem newFromArray_newFromArray {S I J : Int} (L : SymLoc) :
    newFromArray S J (newFromArray S I L) = newFromArray S (I + J) L := by
  cases L with
  | loc3 b o prov =>
    simp only [newFromArray, List.map_map, Function.comp_def, Provenance.move_move, Int.add_mul]
  | _ => rfl

end Moves

/-! ## Use of a pointer -/

/-- What a check of a location reads. -/
structure UseContext where
  /-- the sizes of the objects in `<mem>` -/
  mem : SymBase → Option Int
  linkings : SymBase → Option SymBase
  /-- `currentSemantics() ==K ExecutionSemantics()` -/
  execution : Bool

/-- `isStaticDuration(Base)` -/
def isStaticDuration (b : SymBase) : Bool :=
  match b.d with
  | .static _ | .link _ | .string _ | .wstring _ | .builtinSymbol _ | .hardwareAddress => true
  | _ => false

namespace UseContext

variable (c : UseContext)

/-- `checkLocAllowLink` -/
def checkLocAllowLink (b : SymBase) (o : Int) : Eval Unit :=
  match c.mem b with
  | some Sz =>
    if o ≤ Sz ∧ o ≥ 0 then .ok ()
    else .error (UNDEF "CEE3" "Found pointer that refers outside the bounds of an object + 1.")
  | none =>
    if isStaticDuration b || isNativeBase b then .ok ()
    else .error (UNDEF "CEE4" "Referring to an object outside of its lifetime.")

/-- `checkLoc` -/
def checkLoc : SymLoc → Eval Unit
  | .NullPointer => .ok ()
  | .loc b o | .loc3 b o _ =>
    if isLinkBase b && c.execution then .error (UNDEF "TDR2" "No definition for symbol with external linkage.")
    else c.checkLocAllowLink b o

/-- `checkUse(tv(Loc, T))` -/
def checkUse (L : SymLoc) (T : UType) : Eval (SymLoc × UType) :=
  if T.isPointer then do
    c.checkLoc (resolveLinking c.linkings L)
    return (resolveLinking c.linkings L, T)
  else .ok (L, T)

end UseContext

/-! ## Addition and subtraction of an integer -/

def CEA1 : Stop := UNDEF "CEA1" "A pointer (or array subscript) outside the bounds of an object."

/-- The rules for `addToPointer(Loc, T, I)`, for elements of size `S`; `addToIntptr` has the same ones,
    and moves the location by `I` where its elements have the size of `char`. -/
inductive AddTo (c : UseContext) (S D : Int) (L : SymLoc) (T : UType) (I : Int) : Eval (SymLoc × UType) → Prop
  | inBounds (h : IfFromArrayInBounds S I L.prov true) :
    AddTo c S D L T I (c.checkUse ((newFromArray S I L).plusBytes (I * D)) T)
  | outside (h : IfFromArrayInBounds S I L.prov false) : AddTo c S D L T I (.error CEA1)

/-- The expressions that add an integer to a pointer, or subtract one. -/
inductive PointerOp
  /-- `P + N` -/
  | plus
  /-- `N + P` -/
  | plusPointer
  /-- `P - N` -/
  | minus
  deriving DecidableEq

/-- The number that is added. -/
def PointerOp.addend (I : Int) : PointerOp → Int
  | plus => I
  | plusPointer => I
  | minus => 0 - I

def PointerOp.incompleteMsg : PointerOp → Stop
  | plus => CV "CEA7" "Computing pointer addition of a pointer not to a complete object type."
  | plusPointer => CV "CEA7" "Computing pointer addition of a pointer not to a complete object type."
  | minus => CV "CEA8" "Computing pointer minus integer of a pointer not to a complete object type."

/-- The type of the left operand: the location has type `T` and the integer type `T'`. -/
def PointerOp.leftType (T T' : UType) : PointerOp → UType
  | plus => T
  | plusPointer => T'
  | minus => T

def PointerOp.rightType (T T' : UType) : PointerOp → UType
  | plus => T'
  | plusPointer => T
  | minus => T'

/-- `ut(Mods, pointerType(E))` -/
def pointerUType (m : Mods) (E : CType) : UType := .ut m (.nonArray (.pointerType E))

def charUType : UType := IntType.char.toSimple.toUType

/-- **The rules for a symbolic location of type `T` and an integer `I` of type `T'`**; the location may
    have an integer type too. -/
inductive AdditiveRule (cfg : Settings) (tags : Tags) (c : UseContext) (op : PointerOp) (L : SymLoc) (T : UType)
    (I : Int) (T' : UType) : Eval (SymLoc × UType) → Prop
  | pointer {m : Mods} {E : CType} {S : Int} {r : Eval (SymLoc × UType)} (hT : T = pointerUType m E)
    (hint : T'.isInteger = true) (hfun : isFunctionType E = false) (hcomplete : isCompleteType tags E = true)
    (hpromoted : T'.isPromoted = true) (hS : byteSizeofType cfg tags (utype E) = .ok S)
    (h : AddTo c S S L T (op.addend I) r) : AdditiveRule cfg tags c op L T I T' r
  /-- The sum has the type of the left operand. -/
  | intptr {S : Int} {r : Eval (SymLoc × UType)} (hpromoted : (op.leftType T T').isPromoted = true)
    (heq : EqType cfg tags (op.leftType T T') (op.rightType T T') true)
    (hS : byteSizeofType cfg tags charUType = .ok S) (h : AddTo c S 1 L (op.leftType T T') (op.addend I) r) :
    AdditiveRule cfg tags c op L T I T' r
  | incomplete {m : Mods} {E : CType} (hT : T = pointerUType m E) (hint : T'.isInteger = true)
    (h : isFunctionType E = true ∨ isCompleteType tags E = false) :
    AdditiveRule cfg tags c op L T I T' (.error op.incompleteMsg)

/-! ## Difference of pointers -/

/-- `sameBase` -/
def sameBase (L L' : SymLoc) : Bool :=
  match L.base, L'.base with
  | .ok A, .ok B => A == B
  | _, _ => false

/-- The rules for `computePointerDifference(Diff, Size, T, S)`.  Division by 0 has no value, so neither
    applies to elements without a size. -/
inductive ComputePointerDifference (cfg : Settings) (tags : Tags) (Diff Size : Int) (T : UType) (S : String) :
    Eval (Int × UType) → Prop
  | value {lo hi : Int} (hSize : Size ≠ 0) (hmod : Diff.tmod Size = 0) (hlo : T.min cfg tags = .ok lo)
    (hhi : T.max cfg tags = .ok hi) (hle : Diff.tdiv Size ≤ hi) (hge : Diff.tdiv Size ≥ lo) :
    ComputePointerDifference cfg tags Diff Size T S (.ok (Diff.tdiv Size, T))
  | outside {lo hi : Int} (hSize : Size ≠ 0) (hlo : T.min cfg tags = .ok lo) (hhi : T.max cfg tags = .ok hi)
    (h : Diff.tdiv Size > hi ∨ Diff.tdiv Size < lo) :
    ComputePointerDifference cfg tags Diff Size T S (.error
      (UNDEF "CEA2" ("Pointer difference outside the range that can be represented by object of type " ++ S ++ ".")))

def CEA5 : Stop := UNDEF "CEA5" "Computing pointer difference between two different objects."

/-- **The rules for `tv(L1, T1) - tv(L2, T2)`**; `ptrdiffut` is the setting for `ptrdiff_t`. -/
inductive DifferenceRule (cfg : Settings) (tags : Tags) (ptrdiffut : IntType) (L1 : SymLoc) (T1 : UType) (L2 : SymLoc)
    (T2 : UType) : Eval (Int × UType) → Prop
  | pointers {m m' : Mods} {E E' : CType} {S o1 o2 : Int} {r : Eval (Int × UType)} (hT1 : T1 = pointerUType m E)
    (hT2 : T2 = pointerUType m' E') (hbase : sameBase L1 L2 = true) (hfun : isFunctionType E = false)
    (hfun' : isFunctionType E' = false) (hcomplete : isCompleteType tags E = true)
    (hcomplete' : isCompleteType tags E' = true)
    (hcompat : AreCompatible cfg tags (stripQualifiers E) (stripQualifiers E') true)
    (ho1 : L1.offset = .ok o1) (ho2 : L2.offset = .ok o2) (hS : byteSizeofType cfg tags (utype E) = .ok S)
    (h : ComputePointerDifference cfg tags (o1 - o2) S ptrdiffut.toSimple.toUType "ptrdiff_t" r) :
    DifferenceRule cfg tags ptrdiffut L1 T1 L2 T2 r
  | intptrs {o1 o2 : Int} {r : Eval (Int × UType)} (hint : T1.isInteger = true) (hint' : T2.isInteger = true)
    (hbase : sameBase L1 L2 = true) (hpromoted : T1.isPromoted = true) (heq : EqType cfg tags T1 T2 true)
    (ho1 : L1.offset = .ok o1) (ho2 : L2.offset = .ok o2)
    (h : ComputePointerDifference cfg tags (o1 - o2) 1 T1 (if T1.isSignedInteger then "intptr_t" else "uintptr_t") r) :
    DifferenceRule cfg tags ptrdiffut L1 T1 L2 T2 r
  | incompatible {m m' : Mods} {E E' : CType} (hT1 : T1 = pointerUType m E) (hT2 : T2 = pointerUType m' E')
    (h : isFunctionType E = true ∨ isFunctionType E' = true ∨ isCompleteType tags E = false ∨
      isCompleteType tags E' = false ∨ AreCompatible cfg tags (stripQualifiers E) (stripQualifiers E') false) :
    DifferenceRule cfg tags ptrdiffut L1 T1 L2 T2 (.error (CV "CEA9"
      "Computing pointer difference between pointers not to qualified or unqualified versions of compatible complete object types."))
  | differentObjects (hbase : sameBase L1 L2 = false) : DifferenceRule cfg tags ptrdiffut L1 T1 L2 T2 (.error CEA5)

/-! ## Pointers into an array -/

/-- **The location `loc(b, o, prov)` is in an array of a live object** of `Sz` bytes, and every array its
    provenance records lies in that object. -/
structure IntoArray (c : UseContext) (b : SymBase) (o : Int) (prov : List Provenance) (Sz : Int) : Prop where
  direct : isLinkBase b = false
  unlinked : c.linkings b = none
  live : c.mem b = some Sz
  inside : ∀ {Offset Len : Int}, .fromArray Offset Len ∈ prov → 0 ≤ o - Offset ∧ o - Offset + Len ≤ Sz
  array : ∃ Offset Len, .fromArray Offset Len ∈ prov

/-- One of the arrays has room for the location after `D` more bytes. -/
def Within (prov : List Provenance) (D : Int) : Prop :=
  ∃ Offset Len, .fromArray Offset Len ∈ prov ∧ 0 ≤ Offset + D ∧ Offset + D ≤ Len

/-- One of the arrays has no room for it. -/
def Outside (prov : List Provenance) (D : Int) : Prop :=
  ∃ Offset Len, .fromArray Offset Len ∈ prov ∧ ¬(0 ≤ Offset + D ∧ Offset + D ≤ Len)

/-- The location moved by `D` bytes, its arrays with it. -/
def movedBy (D : Int) (b : SymBase) (o : Int) (prov : List Provenance) : SymLoc :=
  .loc3 b (o + D) (prov.map (·.move D))

section Arithmetic

variable {cfg : Settings} {tags : Tags} {c : UseContext} {b : SymBase} {o Sz S D D' I : Int} {prov : List Provenance}
  {m : Mods} {E : CType} {T' : UType} {op : PointerOp} {r : Eval (SymLoc × UType)}

theorem within_move_iff : Within (prov.map (·.move D)) D' ↔ Within prov (D + D') := by
  constructor
  · rintro ⟨Offset, Len, hmem, hlo, hhi⟩
    exact ⟨Offset - D, Len, mem_map_move_iff.mp hmem, by omega, by omega⟩
  · rintro ⟨Offset, Len, hmem, hlo, hhi⟩
    refine ⟨Offset + D, Len, mem_map_move_iff.mpr ?_, by omega, by omega⟩
    rwa [Int.add_sub_cancel]

theorem outside_move_iff : Outside (prov.map (·.move D)) D' ↔ Outside prov (D + D') := by
  constructor
  · rintro ⟨Offset, Len, hmem, h⟩
    exact ⟨Offset - D, Len, mem_map_move_iff.mp hmem, by omega⟩
  · rintro ⟨Offset, Len, hmem, h⟩
    refine ⟨Offset + D, Len, mem_map_move_iff.mpr ?_, by omega⟩
    rwa [Int.add_sub_cancel]

/-- **Moving a pointer keeps it in its arrays' object.** -/
theorem IntoArray.move (h : IntoArray c b o prov Sz) : IntoArray c b (o + D) (prov.map (·.move D)) Sz where
  direct := h.direct
  unlinked := h.unlinked
  live := h.live
  inside := by
    intro Offset Len hmem
    have := h.inside (mem_map_move_iff.mp hmem)
    omega
  array := by
    obtain ⟨Offset, Len, hmem⟩ := h.array
    refine ⟨Offset + D, Len, mem_map_move_iff.mpr ?_⟩
    rwa [Int.add_sub_cancel]

/-- A location that is still in one of the arrays may be used. -/
theorem IntoArray.checkUse (h : IntoArray c b o prov Sz) (hin : Within prov D) :
    c.checkUse (movedBy D b o prov) (pointerUType m E) = .ok (movedBy D b o prov, pointerUType m E) := by
  obtain ⟨Offset, Len, hmem, hlo, hhi⟩ := hin
  have hobj := h.inside hmem
  have hsize : o + D ≤ Sz ∧ o + D ≥ 0 := by omega
  have hloc : c.checkLocAllowLink b (o + D) = .ok () := by
    rw [UseContext.checkLocAllowLink, h.live]
    exact if_pos hsize
  have hres : resolveLinking c.linkings (movedBy D b o prov) = movedBy D b o prov := by
    simp only [movedBy, resolveLinking, h.unlinked, Option.getD_none]
  have hcheck : c.checkLoc (movedBy D b o prov) = .ok () := by
    simp only [movedBy, UseContext.checkLoc, h.direct, Bool.false_and, Bool.false_eq_true, if_false, hloc]
  rw [UseContext.checkUse, hres, hcheck]
  rfl

/-- **What adding to a pointer gives**, spec lemma of `addToPointer`. -/
theorem IntoArray.addTo_iff (h : IntoArray c b o prov Sz) :
    AddTo c S S (.loc3 b o prov) (pointerUType m E) I r ↔
      (Within prov (I * S) ∧ r = .ok (movedBy (I * S) b o prov, pointerUType m E)) ∨
        (Outside prov (I * S) ∧ r = .error CEA1) := by
  have harray : ¬∀ Offset Len, .fromArray Offset Len ∉ prov := by
    obtain ⟨Offset, Len, hmem⟩ := h.array
    exact fun hnot => hnot Offset Len hmem
  constructor
  · intro hadd
    cases hadd with
    | inBounds hin =>
      generalize hb : true = bounds at hin
      cases hin with
      | fromArray hmem =>
        have hin' : Within prov (I * S) := ⟨_, _, hmem, of_decide_eq_true hb.symm⟩
        exact .inl ⟨hin', h.checkUse hin'⟩
      | notFromArray hnot => exact absurd hnot harray
    | outside hout =>
      generalize hb : false = bounds at hout
      cases hout with
      | fromArray hmem => exact .inr ⟨⟨_, _, hmem, of_decide_eq_false hb.symm⟩, rfl⟩
      | notFromArray _ => cases hb
  · rintro (⟨hin, rfl⟩ | ⟨⟨Offset, Len, hmem, hout⟩, rfl⟩)
    · rw [← h.checkUse hin]
      obtain ⟨Offset, Len, hmem, hbounds⟩ := hin
      refine .inBounds ?_
      have hwalk := IfFromArrayInBounds.fromArray (S := S) (I := I) hmem
      rwa [decide_eq_true hbounds] at hwalk
    · refine .outside ?_
      have hwalk := IfFromArrayInBounds.fromArray (S := S) (I := I) hmem
      rwa [decide_eq_false hout] at hwalk

/-- No integer type is compatible with a pointer type. -/
theorem not_eqType_pointer (hint : T'.isInteger = true) : ¬EqType cfg tags T' (pointerUType m E) true := by
  intro h
  obtain ⟨qs, hqs, -⟩ := decides_true_iff.mp h
  rcases UType.isInteger_cases hint with ⟨m', i, rfl⟩ | ⟨m', i, n, rfl⟩ | ⟨m', s, rfl⟩
  all_goals simp [pointerUType, type, qualSimple, compatQueries, nonArrayQueries] at hqs

/-- Only one rule is for a pointer to a complete object type. -/
theorem additiveRule_iff {L : SymLoc} (hfun : isFunctionType E = false) (hcomplete : isCompleteType tags E = true)
    (hint : T'.isInteger = true) (hpromoted : T'.isPromoted = true) (hS : byteSizeofType cfg tags (utype E) = .ok S) :
    AdditiveRule cfg tags c op L (pointerUType m E) I T' r ↔ AddTo c S S L (pointerUType m E) (op.addend I) r := by
  constructor
  · intro h
    cases h with
    | pointer hT _ _ _ _ hS' hadd =>
      injection hT with _ hT
      injection hT with hT
      injection hT with hT
      subst hT
      rw [hS] at hS'
      injection hS' with hS'
      rwa [hS']
    | intptr hp heq _ _ =>
      cases op with
      | plus => cases hp
      | plusPointer => exact absurd heq (not_eqType_pointer hint)
      | minus => cases hp
    | incomplete hT _ hbad =>
      injection hT with _ hT
      injection hT with hT
      injection hT with hT
      subst hT
      rcases hbad with hbad | hbad
      · rw [hfun] at hbad; cases hbad
      · rw [hcomplete] at hbad; cases hbad
  · exact fun h => .pointer rfl hint hfun hcomplete hpromoted hS h

/-- The message for a difference that `ptrdiff_t` cannot represent. -/
def CEA2 : Stop :=
  UNDEF "CEA2" ("Pointer difference outside the range that can be represented by object of type " ++ "ptrdiff_t" ++ ".")

/-- **What the difference of whole elements gives**, spec lemma of `computePointerDifference`. -/
theorem computePointerDifference_iff {i : IntType} {N : Int} {r : Eval (Int × UType)} (hS : S ≠ 0) :
    ComputePointerDifference cfg tags (N * S) S i.toSimple.toUType "ptrdiff_t" r ↔
      (Represents (numBits cfg i) i.isSigned N ∧ r = .ok (N, i.toSimple.toUType)) ∨
        (¬Represents (numBits cfg i) i.isSigned N ∧ r = .error CEA2) := by
  have hshape : IntShape cfg tags i.toSimple.toUType (numBits cfg i) i.isSigned := intShape_integer noMods i
  have hdiv : (N * S).tdiv S = N := Int.mul_tdiv_cancel N hS
  constructor
  · intro h
    cases h with
    | value _ _ hlo hhi hle hge =>
      rw [hshape.min] at hlo
      rw [hshape.max] at hhi
      cases hlo
      cases hhi
      rw [hdiv] at hle hge
      exact .inl ⟨⟨hge, hle⟩, by rw [hdiv]⟩
    | outside _ hlo hhi hout =>
      rw [hshape.min] at hlo
      rw [hshape.max] at hhi
      cases hlo
      cases hhi
      rw [hdiv] at hout
      refine .inr ⟨fun hN => ?_, rfl⟩
      rcases hout with hgt | hlt
      · exact absurd hN.2 (not_le.mpr hgt)
      · exact absurd hN.1 (not_le.mpr hlt)
  · rintro (⟨hN, rfl⟩ | ⟨hN, rfl⟩)
    · have hvalue : ComputePointerDifference cfg tags (N * S) S i.toSimple.toUType "ptrdiff_t"
          (.ok ((N * S).tdiv S, i.toSimple.toUType)) :=
        .value hS (Int.mul_tmod_left N S) hshape.min hshape.max (by rw [hdiv]; exact hN.2) (by rw [hdiv]; exact hN.1)
      rwa [hdiv] at hvalue
    · refine .outside hS hshape.min hshape.max ?_
      rw [hdiv]
      by_contra hout
      rw [not_or, not_lt, not_lt] at hout
      exact hN ⟨hout.2, hout.1⟩

/-- Only one rule is for pointers to one complete object type with the same base. -/
theorem differenceRule_iff {i : IntType} {L1 L2 : SymLoc} {o1 o2 : Int} {r : Eval (Int × UType)}
    (hfun : isFunctionType E = false) (hcomplete : isCompleteType tags E = true)
    (hS : byteSizeofType cfg tags (utype E) = .ok S) (hbase : sameBase L1 L2 = true) (ho1 : L1.offset = .ok o1)
    (ho2 : L2.offset = .ok o2) :
    DifferenceRule cfg tags i L1 (pointerUType m E) L2 (pointerUType m E) r ↔
      ComputePointerDifference cfg tags (o1 - o2) S i.toSimple.toUType "ptrdiff_t" r := by
  have hself : AreCompatible cfg tags (stripQualifiers E) (stripQualifiers E) true := decides_self [] _
  constructor
  · intro h
    cases h with
    | pointers hT1 _ _ _ _ _ _ _ ho1' ho2' hS' hdiff =>
      injection hT1 with _ hT
      injection hT with hT
      injection hT with hT
      subst hT
      rw [ho1] at ho1'
      rw [ho2] at ho2'
      rw [hS] at hS'
      cases ho1'
      cases ho2'
      cases hS'
      exact hdiff
    | intptrs hint _ _ _ _ _ _ _ => cases hint
    | incompatible hT1 hT2 hbad =>
      injection hT1 with _ hT
      injection hT with hT
      injection hT with hT
      subst hT
      injection hT2 with _ hT
      injection hT with hT
      injection hT with hT
      subst hT
      rw [hfun, hcomplete] at hbad
      rcases hbad with hbad | hbad | hbad | hbad | hbad
      · cases hbad
      · cases hbad
      · cases hbad
      · cases hbad
      · exact absurd (hself.unique hbad) (by decide)
    | differentObjects hne => rw [hbase] at hne; cases hne
  · exact fun h => .pointers rfl rfl hbase hfun hfun hcomplete hcomplete hself ho1 ho2 hS h

/-- **Pointers into different objects**: no rule gives their difference. -/
theorem differenceRule_differentObjects {i : IntType} {L1 L2 : SymLoc} {T1 T2 : UType} {r : Eval (Int × UType)}
    (hbase : sameBase L1 L2 = false) (h : DifferenceRule cfg tags i L1 T1 L2 T2 r) : ∃ e, r = .error e := by
  cases h with
  | pointers _ _ hsame => rw [hbase] at hsame; cases hsame
  | intptrs _ _ hsame => rw [hbase] at hsame; cases hsame
  | incompatible _ _ _ => exact ⟨_, rfl⟩
  | differentObjects _ => exact ⟨_, rfl⟩

end Arithmetic

/-- **Pointer arithmetic.**  For a pointer `P` into an array of a live object, with elements of size `S`:

    * adding gives the location moved in the object and in its arrays where the offset in the array
      stays between 0 and the length, and is reported where it does not;
    * adding `j` to `P + i` gives what adding `i + j` to `P` gives;
    * subtracting `i` from `P + i` gives `P`, where `P` is in bounds itself;
    * `P + i` minus `P` is `i`, or reported where `ptrdiff_t` cannot represent `i`;
    * the difference to a pointer into another object is reported. -/
theorem pointer_arithmetic (cfg : Settings) (tags : Tags) (c : UseContext) (ptrdiffut : IntType) (m : Mods) (E : CType)
    (S : Int) (T' : UType) (b : SymBase) (o Sz : Int) (prov : List Provenance) (hP : IntoArray c b o prov Sz)
    (hfun : isFunctionType E = false) (hcomplete : isCompleteType tags E = true) (hint : T'.isInteger = true)
    (hpromoted : T'.isPromoted = true) (hS : byteSizeofType cfg tags (utype E) = .ok S) (hpos : 0 < S) :
    let P : SymLoc := .loc3 b o prov
    let T := pointerUType m E
    (∀ op i r, AdditiveRule cfg tags c op P T i T' r ↔
      (Within prov (op.addend i * S) ∧ r = .ok (movedBy (op.addend i * S) b o prov, T)) ∨
        (Outside prov (op.addend i * S) ∧ r = .error CEA1)) ∧
    (∀ i Q, AdditiveRule cfg tags c .plus P T i T' (.ok Q) →
      (∀ j r, AdditiveRule cfg tags c .plus Q.1 Q.2 j T' r ↔ AdditiveRule cfg tags c .plus P T (i + j) T' r) ∧
      (∀ r, AdditiveRule cfg tags c .minus Q.1 Q.2 i T' r ↔
        (Within prov 0 ∧ r = .ok (P, T)) ∨ (Outside prov 0 ∧ r = .error CEA1)) ∧
      ∀ r, DifferenceRule cfg tags ptrdiffut Q.1 Q.2 P T r ↔
        (Represents (numBits cfg ptrdiffut) ptrdiffut.isSigned i ∧ r = .ok (i, ptrdiffut.toSimple.toUType)) ∨
          (¬Represents (numBits cfg ptrdiffut) ptrdiffut.isSigned i ∧ r = .error CEA2)) ∧
    ∀ Q T2, sameBase P Q = false →
      DifferenceRule cfg tags ptrdiffut P T Q T2 (.error CEA5) ∧
      ∀ r, DifferenceRule cfg tags ptrdiffut P T Q T2 r → ∃ e, r = .error e := by
  intro P T
  have hadds : ∀ op i r, AdditiveRule cfg tags c op P T i T' r ↔
      (Within prov (op.addend i * S) ∧ r = .ok (movedBy (op.addend i * S) b o prov, T)) ∨
        (Outside prov (op.addend i * S) ∧ r = .error CEA1) :=
    fun op i r => (additiveRule_iff hfun hcomplete hint hpromoted hS).trans hP.addTo_iff
  refine ⟨hadds, ?_, fun Q T2 hbase => ⟨.differentObjects hbase, fun r => differenceRule_differentObjects hbase⟩⟩
  intro i Q hQ
  have hmoved : Q = (movedBy (i * S) b o prov, T) := by
    rcases (hadds .plus i _).mp hQ with ⟨_, heq⟩ | ⟨_, heq⟩
    · injection heq
    · cases heq
  subst hmoved
  -- the pointer P + i is in the same arrays, so the first part holds of it
  have hQadds : ∀ op j r, AdditiveRule cfg tags c op (movedBy (i * S) b o prov) T j T' r ↔
      (Within prov (i * S + op.addend j * S) ∧
          r = .ok (movedBy (op.addend j * S) b (o + i * S) (prov.map (·.move (i * S))), T)) ∨
        (Outside prov (i * S + op.addend j * S) ∧ r = .error CEA1) := by
    intro op j r
    rw [← within_move_iff, ← outside_move_iff]
    exact (additiveRule_iff hfun hcomplete hint hpromoted hS).trans (hP.move (D := i * S)).addTo_iff
  have hmove : ∀ D, movedBy D b (o + i * S) (prov.map (·.move (i * S))) = movedBy (i * S + D) b o prov := by
    intro D
    simp only [movedBy, List.map_map, Function.comp_def, Provenance.move_move, add_assoc]
  refine ⟨fun j r => ?_, fun r => ?_, fun r => ?_⟩
  · have hsum : i * S + PointerOp.plus.addend j * S = PointerOp.plus.addend (i + j) * S := (Int.add_mul i j S).symm
    rw [hQadds, hadds, hmove, hsum]
  · have hzero : i * S + PointerOp.minus.addend i * S = 0 := by
      show i * S + (0 - i) * S = 0
      rw [Int.zero_sub, Int.neg_mul, Int.add_right_neg]
    have hback : movedBy 0 b o prov = P := by
      simp only [movedBy, Provenance.move_zero, List.map_id', add_zero, P]
    rw [hQadds, hmove, hzero, hback]
  · have hbase : sameBase (movedBy (i * S) b o prov) P = true := beq_self_eq_true b
    have hdiff : DifferenceRule cfg tags ptrdiffut (movedBy (i * S) b o prov) T P T r ↔
        ComputePointerDifference cfg tags (o + i * S - o) S ptrdiffut.toSimple.toUType "ptrdiff_t" r :=
      differenceRule_iff hfun hcomplete hS hbase rfl rfl
    rw [add_sub_cancel_left] at hdiff
    exact hdiff.trans (computePointerDifference_iff (ne_of_gt hpos))

/-- One live object, of `Sz` bytes. -/
private def oneObject (Sz : Int) : UseContext where
  mem := fun b => if b = obj 0 16 .alloc then some Sz else none
  linkings := fun _ => none
  execution := true

/-- A place in the one array that fills the object. -/
private theorem oneObject_intoArray (o Sz : Int) :
    IntoArray (oneObject Sz) (obj 0 16 .alloc) o [.fromArray o Sz] Sz where
  direct := rfl
  unlinked := rfl
  live := by
    show (if obj 0 16 .alloc = obj 0 16 .alloc then some Sz else none) = some Sz
    exact if_pos rfl
  inside := by
    intro Offset Len hmem
    cases List.mem_singleton.mp hmem
    omega
  array := ⟨o, Sz, List.mem_singleton_self _⟩

/-- The fifth of ten `int`s is three after the second. -/
theorem pointer_arithmetic_ten :
    AdditiveRule x86GccLimitedLibc [] (oneObject 40) .plus (.loc3 (obj 0 16 .alloc) 4 [.fromArray 4 40])
      (pointerUType noMods IntType.int.toSimple.toType) 3 IntType.int.toSimple.toUType
      (.ok (.loc3 (obj 0 16 .alloc) 16 [.fromArray 16 40], pointerUType noMods IntType.int.toSimple.toType)) := by
  have h := pointer_arithmetic x86GccLimitedLibc [] (oneObject 40) .longInt noMods IntType.int.toSimple.toType 4
    IntType.int.toSimple.toUType (obj 0 16 .alloc) 4 40 [.fromArray 4 40] (oneObject_intoArray 4 40) rfl rfl rfl rfl
    (by decide +kernel) (by decide)
  exact (h.1 .plus 3 _).mpr (.inl ⟨⟨4, 40, List.mem_singleton_self _, by decide, by decide⟩, rfl⟩)

/-- **What cannot be had**: an array of 2 ^ 63 bytes has a place that is 2 ^ 63 after its start, but no
    difference of the two; and elements without a size are moved over without a difference. -/
theorem pointerDifference_without_value :
    (∃ Q, AdditiveRule x86GccLimitedLibc [] (oneObject (2 ^ 63)) .plus
        (.loc3 (obj 0 16 .alloc) 0 [.fromArray 0 (2 ^ 63)]) (pointerUType noMods IntType.char.toSimple.toType) (2 ^ 63)
        IntType.unsignedLongInt.toSimple.toUType (.ok Q) ∧
      ∀ r, ¬DifferenceRule x86GccLimitedLibc [] .longInt Q.1 Q.2 (.loc3 (obj 0 16 .alloc) 0 [.fromArray 0 (2 ^ 63)])
        (pointerUType noMods IntType.char.toSimple.toType) (.ok r)) ∧
    let E : CType := .t noQuals noMods (.array (.fixed 0) IntType.int.toSimple.toType)
    ∃ Q, AdditiveRule x86GccLimitedLibc [] (oneObject 40) .plus (.loc3 (obj 0 16 .alloc) 0 [.fromArray 0 40])
        (pointerUType noMods E) 1 IntType.int.toSimple.toUType (.ok Q) ∧
      ∀ r, ¬DifferenceRule x86GccLimitedLibc [] .longInt Q.1 Q.2 (.loc3 (obj 0 16 .alloc) 0 [.fromArray 0 40])
        (pointerUType noMods E) (.ok r) := by
  constructor
  · refine ⟨_, (additiveRule_iff rfl rfl rfl rfl (S := 1) (by decide +kernel)).mpr
      ((oneObject_intoArray 0 _).addTo_iff.mpr (.inl ⟨⟨0, _, List.mem_singleton_self _, by decide, by decide⟩, rfl⟩)), ?_⟩
    intro r h
    have hdiff := (differenceRule_iff rfl rfl (S := 1) (by decide +kernel) (beq_self_eq_true _) rfl rfl).mp h
    have hvalue : ComputePointerDifference x86GccLimitedLibc [] (2 ^ 63 * 1) 1 IntType.longInt.toSimple.toUType
        "ptrdiff_t" (.ok r) := hdiff
    rcases (computePointerDifference_iff (by decide)).mp hvalue with ⟨hrange, _⟩ | ⟨_, heq⟩
    · exact absurd hrange (by decide +kernel)
    · cases heq
  · intro E
    refine ⟨_, (additiveRule_iff rfl rfl rfl rfl (S := 0) (by decide +kernel)).mpr
      ((oneObject_intoArray 0 _).addTo_iff.mpr (.inl ⟨⟨0, _, List.mem_singleton_self _, by decide, by decide⟩, rfl⟩)), ?_⟩
    intro r h
    cases (differenceRule_iff rfl rfl (S := 0) (by decide +kernel) (beq_self_eq_true _) rfl rfl).mp h with
    | value hsize _ _ _ _ _ => exact hsize rfl

end CSemantics
