/-
  The arrays of the parser: `longarray.ml` and `growArray.ml`.

  A long array is a list of arrays, all of them full but the last one.  A growing array fills its
  cells with a value or from a function, and replaces its long array by one that is half as long
  again, and longer than the index, when it is read or written behind its end.

      long array     a list:                 `flatten`
      growing array  a function on indices:  `Represents`

  The lexer keeps the comments in one: it writes each behind the last that was written.
-/
import Mathlib

namespace CSemantics.Parser

variable {α : Type}

/-! ## Long arrays -/

section LongArray

-- `Sys.max_array_length`
variable (maxArrayLength : ℕ+)

abbrev LongArray (α : Type) := List (List α)

def splitLen (len : ℕ) : ℕ × ℕ :=
  if len ≤ maxArrayLength then (len, 0) else (maxArrayLength, len - maxArrayLength)

def splitIdx (idx : ℕ) : Option ℕ := if idx < maxArrayLength then none else some (idx - maxArrayLength)

theorem splitLen_snd_lt {len : ℕ} (h : 0 < (splitLen maxArrayLength len).2) :
    (splitLen maxArrayLength len).2 < len := by
  have hpos := maxArrayLength.pos
  by_cases hle : len ≤ maxArrayLength
  · rw [splitLen, if_pos hle] at h
    exact absurd h (lt_irrefl 0)
  · rw [splitLen, if_neg hle]
    dsimp only
    omega

namespace LongArray

/-- `Array.init`; the function may raise an exception. -/
def arrayInit (len : ℕ) (fn : ℕ → Option α) : Option (List α) := (List.range len).mapM fn

def create (len : ℕ) (x : α) : LongArray α :=
  List.replicate (splitLen maxArrayLength len).1 x ::
    if _h : 0 < (splitLen maxArrayLength len).2 then create (splitLen maxArrayLength len).2 x else []
termination_by len
decreasing_by exact splitLen_snd_lt maxArrayLength _h

def init (len : ℕ) (fn : ℕ → Option α) : Option (LongArray α) := do
  let hd ← arrayInit (splitLen maxArrayLength len).1 fn
  let tl ← (if _h : 0 < (splitLen maxArrayLength len).2 then
    init (splitLen maxArrayLength len).2 fun i => fn (i + (splitLen maxArrayLength len).1)
    else some [])
  return hd :: tl
termination_by len
decreasing_by exact splitLen_snd_lt maxArrayLength _h

/-- Both arrays have the elements, or there is an exception. -/
def blit : LongArray α → LongArray α → ℕ → Option (LongArray α)
  | hs :: ts, hd :: td, len =>
    let (len1, len2) := splitLen maxArrayLength len
    if len1 ≤ hs.length ∧ len1 ≤ hd.length then
      if 0 < len2 then (blit ts td len2).map ((hs.take len1 ++ hd.drop len1) :: ·)
      else some ((hs.take len1 ++ hd.drop len1) :: td)
    else none
  | _, _, _ => none

def length : LongArray α → ℕ
  | hd :: tl => hd.length + length tl
  | [] => 0

def get : LongArray α → ℕ → Option α
  | hd :: tl, i =>
    match splitIdx maxArrayLength i with
    | none => hd[i]?
    | some i' => get tl i'
  | [], _ => none

def set : LongArray α → ℕ → α → Option (LongArray α)
  | hd :: tl, i, elt =>
    match splitIdx maxArrayLength i with
    | none => if i < hd.length then some (hd.set i elt :: tl) else none
    | some i' => (set tl i' elt).map (hd :: ·)
  | [], _, _ => none

end LongArray

end LongArray

/-! ## Growing arrays -/

inductive Fill (α : Type)
  | Elem (x : α)
  | Susp (f : ℕ → α)

structure GrowArray (α : Type) where
  gaFill : Fill α
  /-- the greatest index that was written, or -1 -/
  gaMaxInitIndex : Int
  gaData : LongArray α

section GrowArrays

variable (maxArrayLength : ℕ+)

namespace GrowArray

def growTheArray (ga : GrowArray α) (len toidx : ℕ) : Option (GrowArray α) :=
  if len ≤ toidx then
    let newlen := toidx + 1 + len / 2
    match ga.gaFill with
    | .Elem x => do
      let data ← LongArray.blit maxArrayLength ga.gaData (LongArray.create maxArrayLength newlen x) len
      return { ga with gaData := data }
    | .Susp f => do
      let data ← LongArray.init maxArrayLength newlen fun i =>
        if i < len then LongArray.get maxArrayLength ga.gaData i else some (f i)
      return { ga with gaData := data }
  else some ga

def getg (ga : GrowArray α) (r : ℕ) : Option (α × GrowArray α) := do
  let len := ga.gaData.length
  let ga ← (if len ≤ r then ga.growTheArray maxArrayLength len r else some ga)
  let x ← LongArray.get maxArrayLength ga.gaData r
  return (x, ga)

def setg (ga : GrowArray α) (r : ℕ) (what : α) : Option (GrowArray α) := do
  let len := ga.gaData.length
  let ga ← (if len ≤ r then ga.growTheArray maxArrayLength len r else some ga)
  let max := if r > ga.gaMaxInitIndex then (r : Int) else ga.gaMaxInitIndex
  let data ← LongArray.set maxArrayLength ga.gaData r what
  return { ga with gaMaxInitIndex := max, gaData := data }

def resetMaxInitIndex (ga : GrowArray α) : GrowArray α := { ga with gaMaxInitIndex := -1 }

def make (initsz : ℕ) (fill : Fill α) : Option (GrowArray α) := do
  let data ← match fill with
    | .Elem x => some (LongArray.create maxArrayLength initsz x)
    | .Susp f => LongArray.init maxArrayLength initsz fun i => some (f i)
  return ⟨fill, -1, data⟩

end GrowArray

end GrowArrays

/-! ## Long arrays are lists -/

section Lists

variable {maxArrayLength : ℕ+}

namespace LongArray

/-- All arrays but the last one are full, and the last one is not longer. -/
def Full (maxArrayLength : ℕ+) : LongArray α → Prop
  | [] => False
  | [hd] => hd.length ≤ maxArrayLength
  | hd :: tl => hd.length = maxArrayLength ∧ Full maxArrayLength tl

theorem length_eq (a : LongArray α) : a.length = a.flatten.length := by
  induction a with
  | nil => rfl
  | cons hd tl ih => rw [length, ih, List.flatten_cons, List.length_append]

theorem Full.head_le {hd : List α} {tl : LongArray α} (h : Full maxArrayLength (hd :: tl)) :
    hd.length ≤ maxArrayLength := by
  cases tl with
  | nil => exact h
  | cons _ _ => exact h.1.le

theorem Full.head_eq {hd : List α} {tl : LongArray α} (h : Full maxArrayLength (hd :: tl)) (htl : tl ≠ []) :
    hd.length = maxArrayLength ∧ Full maxArrayLength tl := by
  cases tl with
  | nil => exact absurd rfl htl
  | cons _ _ => exact h

theorem full_cons {hd : List α} {tl : LongArray α} (hhd : hd.length = maxArrayLength) (htl : Full maxArrayLength tl) :
    Full maxArrayLength (hd :: tl) := by
  cases tl with
  | nil => exact htl.elim
  | cons _ _ => exact ⟨hhd, htl⟩

theorem get_eq {a : LongArray α} (h : Full maxArrayLength a) : ∀ i, a.get maxArrayLength i = a.flatten[i]? := by
  induction a with
  | nil => exact h.elim
  | cons hd tl ih =>
    intro i
    rw [get, splitIdx, List.flatten_cons]
    by_cases hi : i < maxArrayLength
    · rw [if_pos hi]
      dsimp only
      by_cases htl : tl = []
      · rw [htl, List.flatten_nil, List.append_nil]
      · rw [List.getElem?_append_left ((h.head_eq htl).1 ▸ hi)]
    · rw [if_neg hi]
      dsimp only
      have hle := h.head_le
      rw [List.getElem?_append_right (by omega)]
      by_cases htl : tl = []
      · rw [htl, get, List.flatten_nil, List.getElem?_nil]
      · rw [ih (h.head_eq htl).2, (h.head_eq htl).1]

theorem set_eq {a : LongArray α} (h : Full maxArrayLength a) (x : α) : ∀ i, i < a.flatten.length →
    ∃ b, a.set maxArrayLength i x = some b ∧ b.flatten = a.flatten.set i x ∧ Full maxArrayLength b := by
  induction a with
  | nil => exact h.elim
  | cons hd tl ih =>
    intro i hlt
    rw [List.flatten_cons, List.length_append] at hlt
    rw [set, splitIdx]
    by_cases hi : i < maxArrayLength
    · have hhd : i < hd.length := by
        by_cases htl : tl = []
        · rw [htl, List.flatten_nil, List.length_nil] at hlt
          exact hlt
        · exact (h.head_eq htl).1 ▸ hi
      rw [if_pos hi]
      refine ⟨hd.set i x :: tl, if_pos hhd, ?_, ?_⟩
      · rw [List.flatten_cons, List.flatten_cons, List.set_append_left _ _ hhd]
      · by_cases htl : tl = []
        · subst htl
          show (hd.set i x).length ≤ _
          rw [List.length_set]
          exact h
        · exact full_cons (by rw [List.length_set]; exact (h.head_eq htl).1) (h.head_eq htl).2
    · have hle := h.head_le
      have htl : tl ≠ [] := by
        rintro rfl
        rw [List.flatten_nil, List.length_nil] at hlt
        omega
      obtain ⟨hhd, hfull⟩ := h.head_eq htl
      obtain ⟨b, hb, hflat, hb'⟩ := ih hfull (i - maxArrayLength) (by omega)
      rw [if_neg hi]
      refine ⟨hd :: b, by dsimp only; rw [hb]; rfl, ?_, full_cons hhd hb'⟩
      rw [List.flatten_cons, List.flatten_cons, hflat, List.set_append_right _ _ (by omega), hhd]

theorem Full.congr {hd hd' : List α} {tl : LongArray α} (h : Full maxArrayLength (hd :: tl))
    (hlen : hd'.length = hd.length) : Full maxArrayLength (hd' :: tl) := by
  cases tl with
  | nil =>
    show hd'.length ≤ _
    rw [hlen]
    exact h
  | cons _ _ => exact ⟨hlen.trans h.1, h.2⟩

theorem create_spec (x : α) (len : ℕ) :
    (create maxArrayLength len x).flatten = List.replicate len x ∧
      Full maxArrayLength (create maxArrayLength len x) := by
  induction len using Nat.strong_induction_on with
  | _ len ih =>
    rw [create]
    by_cases hle : len ≤ maxArrayLength
    · have hsplit : splitLen maxArrayLength len = (len, 0) := if_pos hle
      rw [hsplit, dif_neg (lt_irrefl 0)]
      exact ⟨List.append_nil _, by show (List.replicate len x).length ≤ _; rwa [List.length_replicate]⟩
    · have hsplit : splitLen maxArrayLength len = ((maxArrayLength : ℕ), len - maxArrayLength) := if_neg hle
      have hpos := maxArrayLength.pos
      rw [hsplit, dif_pos (by dsimp only; omega)]
      obtain ⟨hflat, hfull⟩ := ih (len - maxArrayLength) (by omega)
      refine ⟨?_, full_cons List.length_replicate hfull⟩
      rw [List.flatten_cons, hflat, List.replicate_append_replicate, Nat.add_sub_cancel' (by omega)]

theorem mapM_some {β : Type} {fn : ℕ → Option β} {g : ℕ → β} : ∀ {l : List ℕ}, (∀ i ∈ l, fn i = some (g i)) →
    l.mapM fn = some (l.map g) := by
  intro l
  induction l with
  | nil => exact fun _ => rfl
  | cons i l ih =>
    intro h
    rw [List.mapM_cons, h i List.mem_cons_self, ih fun j hj => h j (List.mem_cons_of_mem _ hj)]
    rfl

theorem arrayInit_eq {len : ℕ} {fn : ℕ → Option α} {g : ℕ → α} (h : ∀ i < len, fn i = some (g i)) :
    arrayInit len fn = some ((List.range len).map g) :=
  mapM_some fun i hi => h i (List.mem_range.1 hi)

theorem init_spec (len : ℕ) : ∀ {fn : ℕ → Option α} {g : ℕ → α}, (∀ i < len, fn i = some (g i)) →
    ∃ b, init maxArrayLength len fn = some b ∧ b.flatten = (List.range len).map g ∧ Full maxArrayLength b := by
  induction len using Nat.strong_induction_on with
  | _ len ih =>
    intro fn g h
    rw [init]
    by_cases hle : len ≤ maxArrayLength
    · have hsplit : splitLen maxArrayLength len = (len, 0) := if_pos hle
      rw [hsplit]
      dsimp only
      rw [arrayInit_eq h, dif_neg (lt_irrefl 0)]
      refine ⟨_, rfl, List.append_nil _, ?_⟩
      show ((List.range len).map g).length ≤ _
      rwa [List.length_map, List.length_range]
    · have hsplit : splitLen maxArrayLength len = ((maxArrayLength : ℕ), len - maxArrayLength) := if_neg hle
      have hpos := maxArrayLength.pos
      rw [hsplit]
      dsimp only
      rw [arrayInit_eq fun i hi => h i (by omega), dif_pos (by omega)]
      obtain ⟨b, hb, hflat, hfull⟩ := @ih (len - maxArrayLength) (by omega) (fun i => fn (i + maxArrayLength))
        (fun i => g (i + maxArrayLength)) fun i hi => h _ (by omega)
      rw [hb]
      refine ⟨_, rfl, ?_, full_cons (by rw [List.length_map, List.length_range]) hfull⟩
      obtain ⟨k, rfl⟩ : ∃ k, len = maxArrayLength + k := ⟨len - maxArrayLength, by omega⟩
      rw [List.flatten_cons, hflat, Nat.add_sub_cancel_left, List.range_add, List.map_append, List.map_map]
      simp only [Function.comp_def, Nat.add_comm]

theorem blit_spec {src : LongArray α} : ∀ {dst : LongArray α} {len : ℕ}, Full maxArrayLength src →
    Full maxArrayLength dst → len ≤ src.flatten.length → len ≤ dst.flatten.length →
    ∃ b, blit maxArrayLength src dst len = some b ∧ b.flatten = src.flatten.take len ++ dst.flatten.drop len ∧
      Full maxArrayLength b := by
  induction src with
  | nil => exact fun h => h.elim
  | cons hs ts ih =>
    intro dst len hsrc hdst hs_len hd_len
    cases dst with
    | nil => exact hdst.elim
    | cons hd td =>
      rw [List.flatten_cons, List.length_append] at hs_len hd_len
      have hfits : ∀ {h : List α} {t : LongArray α}, Full maxArrayLength (h :: t) → len ≤ h.length + t.flatten.length →
          len ≤ maxArrayLength → len ≤ h.length := by
        intro h t hfull hlen hle
        by_cases ht : t = []
        · rw [ht, List.flatten_nil, List.length_nil] at hlen
          exact hlen
        · rw [(hfull.head_eq ht).1]
          exact hle
      by_cases hle : len ≤ maxArrayLength
      · have hsplit : splitLen maxArrayLength len = (len, 0) := if_pos hle
        have h1 := hfits hsrc hs_len hle
        have h2 := hfits hdst hd_len hle
        refine ⟨(hs.take len ++ hd.drop len) :: td, ?_, ?_, hdst.congr ?_⟩
        · rw [blit, hsplit]
          dsimp only
          rw [if_pos ⟨h1, h2⟩, if_neg (lt_irrefl 0)]
        · rw [List.flatten_cons, List.flatten_cons, List.flatten_cons, List.take_append_of_le_length h1,
            List.drop_append_of_le_length h2, List.append_assoc]
        · rw [List.length_append, List.length_take, List.length_drop]
          omega
      · have hsplit : splitLen maxArrayLength len = ((maxArrayLength : ℕ), len - maxArrayLength) := if_neg hle
        have hts : ts ≠ [] := by
          rintro rfl
          have := hsrc.head_le
          rw [List.flatten_nil, List.length_nil] at hs_len
          omega
        have htd : td ≠ [] := by
          rintro rfl
          have := hdst.head_le
          rw [List.flatten_nil, List.length_nil] at hd_len
          omega
        obtain ⟨h1, hts⟩ := hsrc.head_eq hts
        obtain ⟨h2, htd⟩ := hdst.head_eq htd
        obtain ⟨b, hb, hflat, hfull⟩ := @ih td (len - maxArrayLength) hts htd (by omega) (by omega)
        refine ⟨(hs.take maxArrayLength ++ hd.drop maxArrayLength) :: b, ?_, ?_, full_cons ?_ hfull⟩
        · rw [blit, hsplit]
          dsimp only
          rw [if_pos ⟨h1.ge, h2.ge⟩, if_pos (by omega), hb]
          rfl
        · have htake : (hs ++ ts.flatten).take len = hs ++ ts.flatten.take (len - maxArrayLength) := by
            rw [List.take_append, List.take_of_length_le (by omega), h1]
          have hdrop : (hd ++ td.flatten).drop len = td.flatten.drop (len - maxArrayLength) := by
            rw [List.drop_append, List.drop_of_length_le (by omega), h2, List.nil_append]
          rw [List.flatten_cons, List.flatten_cons, List.flatten_cons, hflat, htake, hdrop,
            List.take_of_length_le h1.le, List.drop_of_length_le h2.le, List.append_nil, List.append_assoc]
        · rw [List.length_append, List.length_take, List.length_drop]
          omega

end LongArray

end Lists

/-! ## Growing arrays are functions -/

section Functions

variable {maxArrayLength : ℕ+}

def Fill.value : Fill α → ℕ → α
  | Elem x, _ => x
  | Susp f, i => f i

/-- The array has the values of `f`, and would be filled with them. -/
structure Represents (maxArrayLength : ℕ+) (ga : GrowArray α) (f : ℕ → α) : Prop where
  full : LongArray.Full maxArrayLength ga.gaData
  cells : ∀ i < ga.gaData.flatten.length, ga.gaData.flatten[i]? = some (f i)
  filled : ∀ i, ga.gaData.flatten.length ≤ i → f i = ga.gaFill.value i

namespace GrowArray

theorem make_represents (initsz : ℕ) (fill : Fill α) : ∃ ga, make maxArrayLength initsz fill = some ga ∧
    Represents maxArrayLength ga fill.value ∧ ga.gaMaxInitIndex = -1 := by
  cases fill with
  | Elem x =>
    obtain ⟨hflat, hfull⟩ := @LongArray.create_spec α maxArrayLength x initsz
    refine ⟨_, rfl, ⟨hfull, fun i hi => ?_, fun _ _ => rfl⟩, rfl⟩
    rw [hflat, List.length_replicate] at hi
    rw [hflat, List.getElem?_replicate_of_lt hi]
    rfl
  | Susp f =>
    obtain ⟨b, hb, hflat, hfull⟩ := @LongArray.init_spec α maxArrayLength initsz (fun i => some (f i)) f
      fun _ _ => rfl
    refine ⟨⟨.Susp f, -1, b⟩, by rw [make, hb]; rfl, ⟨hfull, fun i hi => ?_, fun _ _ => rfl⟩, rfl⟩
    rw [hflat, List.length_map, List.length_range] at hi
    rw [hflat, List.getElem?_map, List.getElem?_range hi]
    rfl

theorem grow_represents {ga : GrowArray α} {f : ℕ → α} (h : Represents maxArrayLength ga f) {r : ℕ}
    (hr : ga.gaData.flatten.length ≤ r) :
    ∃ data, ga.growTheArray maxArrayLength ga.gaData.flatten.length r = some { ga with gaData := data } ∧
      Represents maxArrayLength { ga with gaData := data } f ∧ r < data.flatten.length := by
  -- the cells of the new array are those of the old one, and then those that the array is filled with
  have hrep : ∀ {data : LongArray α}, LongArray.Full maxArrayLength data →
      data.flatten.length = r + 1 + ga.gaData.flatten.length / 2 →
      (∀ i < data.flatten.length, data.flatten[i]? = some (f i)) →
      Represents maxArrayLength { ga with gaData := data } f ∧ r < data.flatten.length := by
    intro data hfull hlen hcells
    refine ⟨⟨hfull, hcells, fun i hi => h.filled i ?_⟩, by omega⟩
    have hi' : data.flatten.length ≤ i := hi
    omega
  obtain ⟨x, hfill⟩ | ⟨g, hfill⟩ : (∃ x, ga.gaFill = .Elem x) ∨ ∃ g, ga.gaFill = .Susp g := by
    cases ga.gaFill with
    | Elem x => exact .inl ⟨x, rfl⟩
    | Susp g => exact .inr ⟨g, rfl⟩
  · obtain ⟨hflat, hfull⟩ := @LongArray.create_spec α maxArrayLength x
      (r + 1 + ga.gaData.flatten.length / 2)
    obtain ⟨b, hb, hbflat, hbfull⟩ := LongArray.blit_spec h.full hfull le_rfl (by
      rw [hflat, List.length_replicate]
      omega)
    rw [hflat, List.take_length, List.drop_replicate] at hbflat
    have hlen : b.flatten.length = r + 1 + ga.gaData.flatten.length / 2 := by
      rw [hbflat, List.length_append, List.length_replicate]
      omega
    refine ⟨b, by rw [growTheArray, if_pos hr, hfill]; dsimp only; rw [hb]; rfl, hrep hbfull hlen fun i hi => ?_⟩
    rw [hbflat]
    by_cases hlt : i < ga.gaData.flatten.length
    · rw [List.getElem?_append_left hlt, h.cells i hlt]
    · rw [List.getElem?_append_right (Nat.not_lt.1 hlt), List.getElem?_replicate_of_lt (by omega),
        h.filled i (Nat.not_lt.1 hlt), hfill]
      rfl
  · obtain ⟨b, hb, hbflat, hbfull⟩ := @LongArray.init_spec α maxArrayLength (r + 1 + ga.gaData.flatten.length / 2)
      (fun i => if i < ga.gaData.flatten.length then ga.gaData.get maxArrayLength i else some (g i)) f fun i _ => by
        by_cases hlt : i < ga.gaData.flatten.length
        · rw [if_pos hlt, LongArray.get_eq h.full, h.cells i hlt]
        · rw [if_neg hlt, h.filled i (Nat.not_lt.1 hlt), hfill]
          rfl
    have hlen : b.flatten.length = r + 1 + ga.gaData.flatten.length / 2 := by
      rw [hbflat, List.length_map, List.length_range]
    refine ⟨b, by rw [growTheArray, if_pos hr, hfill]; dsimp only; rw [hb]; rfl, hrep hbfull hlen fun i hi => ?_⟩
    rw [hbflat, List.getElem?_map, List.getElem?_range (by omega)]
    rfl

/-- `growTheArray` where `getg` and `setg` call it. -/
theorem grown {ga : GrowArray α} {f : ℕ → α} (h : Represents maxArrayLength ga f) (r : ℕ) :
    ∃ data, (if ga.gaData.length ≤ r then ga.growTheArray maxArrayLength ga.gaData.length r else some ga)
        = some { ga with gaData := data } ∧
      Represents maxArrayLength { ga with gaData := data } f ∧ r < data.flatten.length := by
  rw [LongArray.length_eq]
  by_cases hr : ga.gaData.flatten.length ≤ r
  · rw [if_pos hr]
    exact grow_represents h hr
  · rw [if_neg hr]
    exact ⟨ga.gaData, rfl, h, Nat.not_le.1 hr⟩

theorem getg_spec {ga : GrowArray α} {f : ℕ → α} (h : Represents maxArrayLength ga f) (r : ℕ) :
    ∃ ga', ga.getg maxArrayLength r = some (f r, ga') ∧ Represents maxArrayLength ga' f ∧
      ga'.gaFill = ga.gaFill ∧ ga'.gaMaxInitIndex = ga.gaMaxInitIndex := by
  obtain ⟨data, hgrow, hrep, hlt⟩ := grown h r
  have hget : data.get maxArrayLength r = some (f r) := by rw [LongArray.get_eq hrep.full, hrep.cells r hlt]
  refine ⟨{ ga with gaData := data }, ?_, hrep, rfl, rfl⟩
  rw [getg]
  rw [hgrow, Option.bind_eq_bind, Option.bind_some, hget]
  rfl

theorem setg_spec {ga : GrowArray α} {f : ℕ → α} (h : Represents maxArrayLength ga f) (r : ℕ) (what : α) :
    ∃ ga', ga.setg maxArrayLength r what = some ga' ∧ Represents maxArrayLength ga' (Function.update f r what) ∧
      ga'.gaFill = ga.gaFill ∧ ga'.gaMaxInitIndex = max ga.gaMaxInitIndex r := by
  obtain ⟨data, hgrow, hrep, hlt⟩ := grown h r
  obtain ⟨b, hb, hflat, hfull⟩ := LongArray.set_eq hrep.full what r hlt
  refine ⟨⟨ga.gaFill, max ga.gaMaxInitIndex r, b⟩, ?_, ⟨hfull, fun i hi => ?_, fun i hi => ?_⟩, rfl, rfl⟩
  · have hmax : (if (r : Int) > ga.gaMaxInitIndex then (r : Int) else ga.gaMaxInitIndex) = max ga.gaMaxInitIndex r := by
      by_cases hgt : (r : Int) > ga.gaMaxInitIndex
      · rw [if_pos hgt, max_eq_right hgt.le]
      · rw [if_neg hgt, max_eq_left (not_lt.1 hgt)]
    rw [setg]
    dsimp only
    rw [hgrow, Option.bind_eq_bind, Option.bind_some]
    dsimp only
    rw [hb, hmax]
    rfl
  · have hi' : i < b.flatten.length := hi
    rw [hflat, List.length_set] at hi'
    dsimp only
    rw [hflat, List.getElem?_set]
    by_cases hir : r = i
    · subst hir
      rw [if_pos rfl, if_pos hlt, Function.update_self]
    · rw [if_neg hir, hrep.cells i hi', Function.update_of_ne (Ne.symm hir)]
  · have hi' : b.flatten.length ≤ i := hi
    rw [hflat, List.length_set] at hi'
    dsimp only at hi'
    rw [Function.update_of_ne (by omega)]
    exact hrep.filled i hi'

end GrowArray

/-! ### Runs -/

/-- What a client does with the array. -/
inductive Op (α : Type)
  | getg (r : ℕ)
  | setg (r : ℕ) (what : α)
  | resetMaxInitIndex

/-- The operations in order, with what they read. -/
def run (maxArrayLength : ℕ+) : GrowArray α → List (Op α) → Option (List α × GrowArray α)
  | ga, [] => some ([], ga)
  | ga, .getg r :: ops => do
    let (x, ga) ← ga.getg maxArrayLength r
    let (xs, ga) ← run maxArrayLength ga ops
    return (x :: xs, ga)
  | ga, .setg r what :: ops => do
    let ga ← ga.setg maxArrayLength r what
    run maxArrayLength ga ops
  | ga, .resetMaxInitIndex :: ops => run maxArrayLength ga.resetMaxInitIndex ops

/-- The same on a function and the greatest index that was written. -/
def runFun : (ℕ → α) → Int → List (Op α) → List α × (ℕ → α) × Int
  | f, top, [] => ([], f, top)
  | f, top, .getg r :: ops => (f r :: (runFun f top ops).1, (runFun f top ops).2)
  | f, top, .setg r what :: ops => runFun (Function.update f r what) (max top r) ops
  | f, _, .resetMaxInitIndex :: ops => runFun f (-1) ops

theorem run_represents : ∀ {ops : List (Op α)} {ga : GrowArray α} {f : ℕ → α}, Represents maxArrayLength ga f →
    ∃ ga', run maxArrayLength ga ops = some ((runFun f ga.gaMaxInitIndex ops).1, ga') ∧
      Represents maxArrayLength ga' (runFun f ga.gaMaxInitIndex ops).2.1 ∧
      ga'.gaMaxInitIndex = (runFun f ga.gaMaxInitIndex ops).2.2 := by
  intro ops
  induction ops with
  | nil => exact fun {ga _} h => ⟨ga, rfl, h, rfl⟩
  | cons op ops ih =>
    intro ga f h
    cases op with
    | getg r =>
      obtain ⟨ga', hget, hrep, _, hmax⟩ := GrowArray.getg_spec h r
      obtain ⟨ga'', hrun, hrep', hmax'⟩ := ih hrep
      rw [hmax] at hrun hrep' hmax'
      refine ⟨ga'', ?_, hrep', hmax'⟩
      rw [run, hget, Option.bind_eq_bind, Option.bind_some]
      dsimp only
      rw [hrun]
      rfl
    | setg r what =>
      obtain ⟨ga', hset, hrep, _, hmax⟩ := GrowArray.setg_spec h r what
      obtain ⟨ga'', hrun, hrep', hmax'⟩ := ih hrep
      rw [hmax] at hrun hrep' hmax'
      refine ⟨ga'', ?_, hrep', hmax'⟩
      rw [run, hset, Option.bind_eq_bind, Option.bind_some]
      exact hrun
    | resetMaxInitIndex =>
      have hreset : Represents maxArrayLength ga.resetMaxInitIndex f := ⟨h.full, h.cells, h.filled⟩
      exact ih hreset

/-- From an empty array of any size on, a growing array is a function, and no operation fails. -/
theorem run_make (initsz : ℕ) (fill : Fill α) (ops : List (Op α)) :
    ∃ ga ga', GrowArray.make maxArrayLength initsz fill = some ga ∧
      run maxArrayLength ga ops = some ((runFun fill.value (-1) ops).1, ga') ∧
      ga'.gaMaxInitIndex = (runFun fill.value (-1) ops).2.2 ∧
      ∀ r, ∃ ga'', ga'.getg maxArrayLength r = some ((runFun fill.value (-1) ops).2.1 r, ga'') := by
  obtain ⟨ga, hmake, hrep, hmax⟩ := @GrowArray.make_represents α maxArrayLength initsz fill
  obtain ⟨ga', hrun, hrep', hmax'⟩ := @run_represents α maxArrayLength ops _ _ hrep
  rw [hmax] at hrun hrep' hmax'
  refine ⟨ga, ga', hmake, hrun, hmax', fun r => ?_⟩
  obtain ⟨ga'', hget, _⟩ := GrowArray.getg_spec hrep' r
  exact ⟨ga'', hget⟩

/-- `addComment` of the lexer, on the array of the comments. -/
def addComment (maxArrayLength : ℕ+) (commentsGA : GrowArray α) (c : α) : Option (GrowArray α) :=
  let i := commentsGA.gaMaxInitIndex
  commentsGA.setg maxArrayLength (i + 1).toNat c

/-- The comments of a file stand in the array in their order, and what it is filled with stands behind them. -/
theorem comments_kept (initsz : ℕ) (x : α) (cs : List α) :
    ∃ ga ga', GrowArray.make maxArrayLength initsz (.Elem x) = some ga ∧
      cs.foldlM (addComment maxArrayLength) ga = some ga' ∧ ga'.gaMaxInitIndex = (cs.length : Int) - 1 ∧
      ∀ r, ∃ ga'', ga'.getg maxArrayLength r = some (cs.getD r x, ga'') := by
  obtain ⟨ga, hmake, hrep, hmax⟩ := @GrowArray.make_represents α maxArrayLength initsz (.Elem x)
  -- from the end: the comments before the last one are kept, and it is written behind them
  have hadd : ∃ ga', cs.foldlM (addComment maxArrayLength) ga = some ga' ∧
      Represents maxArrayLength ga' (fun r => cs.getD r x) ∧ ga'.gaMaxInitIndex = (cs.length : Int) - 1 := by
    induction cs using List.reverseRecOn with
    | nil => exact ⟨ga, rfl, hrep, hmax⟩
    | append_singleton cs c ih =>
      obtain ⟨ga₁, hfold, hrep₁, hmax₁⟩ := ih
      obtain ⟨ga₂, hset, hrep₂, _, hmax₂⟩ := GrowArray.setg_spec hrep₁ cs.length c
      have htop : (ga₁.gaMaxInitIndex + 1).toNat = cs.length := by omega
      refine ⟨ga₂, ?_, ?_, ?_⟩
      · rw [List.foldlM_append, hfold, Option.bind_eq_bind, Option.bind_some, List.foldlM_cons, addComment, htop, hset]
        rfl
      · convert hrep₂ using 1
        funext r
        rw [Function.update_apply, List.getD_eq_getElem?_getD, List.getD_eq_getElem?_getD]
        rcases lt_trichotomy r cs.length with hr | rfl | hr
        · rw [if_neg (by omega), List.getElem?_append_left hr]
        · rw [if_pos rfl, List.getElem?_append_right le_rfl, Nat.sub_self]
          rfl
        · rw [if_neg (by omega), List.getElem?_eq_none (by simpa using hr), List.getElem?_eq_none (by omega)]
      · rw [hmax₂, hmax₁, List.length_append, List.length_singleton]
        omega
  obtain ⟨ga', hfold, hrep', hmax'⟩ := hadd
  refine ⟨ga, ga', hmake, hfold, hmax', fun r => ?_⟩
  obtain ⟨ga'', hget, _⟩ := GrowArray.getg_spec hrep' r
  exact ⟨ga'', hget⟩

end Functions

end CSemantics.Parser
