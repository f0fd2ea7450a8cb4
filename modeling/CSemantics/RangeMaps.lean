/-
  Range maps: the addresses of hardware registers.

  A range map is a list of inclusive ranges.  It must be sorted and disjoint, and `rangeMapFind` relies on that:
  it halves the list, and where the value is not below the middle range it keeps the MIDDLE, so the halves overlap
  in one range and two ranges are left at the end.

  At link time the maps of two units are merged.  `#mergeRangeMaps` takes the smaller of the two heads, or one of
  two that are equal, and appends it to what has been merged; `rangeMapAppendSorted` has a value only if the range
  lies behind the last one.

      rangeMapFindIn_spec      the search keeps what can contain the value
      mergeFrom_spec           the merge, from any point on
      range_maps               both, and that a merge does not depend on the order of the two
-/
import CSemantics.Common

namespace CSemantics

/-! ## The rules -/

/-- `rangeMapItem(start, end)`, both inclusive -/
structure RangeMapItem where
  start : Int
  last : Int
  deriving DecidableEq, Repr

abbrev RangeMap := List RangeMapItem

def isInRangeMapItem (Value : Int) (Item : RangeMapItem) : Bool := Item.start ≤ Value && Value ≤ Item.last

/-- `#checkInRangeMapItem`; `noRangeMapItem` is `none`. -/
def checkInRangeMapItem (Value : Int) (Item : RangeMapItem) : Option RangeMapItem :=
  if isInRangeMapItem Value Item then some Item else none

def firstRangeMapItem : Option RangeMapItem → Option RangeMapItem → Option RangeMapItem
  | none, Item => Item
  | some Item, _ => some Item

/-- `asRangeMapItem(L[N])` -/
def itemAt (L : RangeMap) (N : Nat) : Eval RangeMapItem :=
  match L[N]? with
  | some Item => .ok Item
  | none => .error .stuck

/-- `#rangeMapFind` and `#rangeMapFindChoice` -/
def rangeMapFindIn (L : RangeMap) (Value : Int) (Start End : Nat) : Eval (Option RangeMapItem) :=
  if Start = End then do
    return checkInRangeMapItem Value (← itemAt L Start)
  else if Start = End - 1 then do
    return firstRangeMapItem (checkInRangeMapItem Value (← itemAt L Start)) (checkInRangeMapItem Value (← itemAt L End))
  else if Start < End - 1 then
    match itemAt L ((Start + End) / 2) with
    | .error e => .error e
    | .ok middleItem =>
      if Value < middleItem.start then rangeMapFindIn L Value Start ((Start + End) / 2)
      else rangeMapFindIn L Value ((Start + End) / 2) End
  else .error .stuck
  termination_by End - Start
  decreasing_by all_goals omega

def rangeMapFind (M : RangeMap) (Value : Int) : Eval (Option RangeMapItem) :=
  if M = [] then .ok none else rangeMapFindIn M Value 0 (M.length - 1)

def rangeMapContains (M : RangeMap) (Value : Int) : Eval Bool := do
  return (← rangeMapFind M Value).isSome

def rangeMapAppendSorted (M : RangeMap) (Item : RangeMapItem) : Eval RangeMap :=
  match M.getLast? with
  | none => .ok [Item]
  | some l => if l.last < Item.start ∧ Item.start ≤ Item.last then .ok (M ++ [Item]) else .error .stuck

/-- `#mergeRangeMaps(First, Second, Merged)` -/
def mergeFrom : RangeMap → RangeMap → RangeMap → Eval RangeMap
  | [], [], Merged => .ok Merged
  | [], L, Merged => .ok (Merged ++ L)
  | L, [], Merged => .ok (Merged ++ L)
  | a :: First, b :: Second, Merged =>
    if a = b then do mergeFrom First Second (← rangeMapAppendSorted Merged a)
    else if a.start < b.start then do mergeFrom First (b :: Second) (← rangeMapAppendSorted Merged a)
    else if b.start < a.start then do mergeFrom (a :: First) Second (← rangeMapAppendSorted Merged b)
    else .error .stuck
  termination_by First Second => First.length + Second.length

def mergeRangeMaps (First Second : RangeMap) : Eval RangeMap := mergeFrom First Second []

/-! ## Sorted and disjoint -/

/-- The list is sorted, and its ranges are disjoint. -/
structure SortedDisjoint (M : RangeMap) : Prop where
  ranges : ∀ Item ∈ M, Item.start ≤ Item.last
  sorted : M.Pairwise fun a b => a.last < b.start

/-- The ranges do not overlap. -/
def RangeMapItem.Disjoint (a b : RangeMapItem) : Prop := a.last < b.start ∨ b.last < a.start

/-- A range of one is equal to or disjoint from each range of the other. -/
def Agree (First Second : RangeMap) : Prop := ∀ a ∈ First, ∀ b ∈ Second, a = b ∨ a.Disjoint b

/-- Some range contains the value. -/
def Contains (M : RangeMap) (Value : Int) : Prop := ∃ Item ∈ M, isInRangeMapItem Value Item = true

section SortedDisjoint

variable {M First Second : RangeMap} {a b : RangeMapItem} {Value : Int}

theorem isInRangeMapItem_iff : isInRangeMapItem Value a = true ↔ a.start ≤ Value ∧ Value ≤ a.last := by
  simp [isInRangeMapItem]

theorem SortedDisjoint.nil : SortedDisjoint [] := ⟨by simp, .nil⟩

theorem SortedDisjoint.tail (h : SortedDisjoint (a :: M)) : SortedDisjoint M :=
  ⟨fun b hb => h.ranges b (List.mem_cons_of_mem a hb), (List.pairwise_cons.mp h.sorted).2⟩

theorem SortedDisjoint.head_lt (h : SortedDisjoint (a :: M)) (hb : b ∈ M) : a.last < b.start :=
  (List.pairwise_cons.mp h.sorted).1 b hb

/-- What lies behind a list can be put behind it. -/
theorem SortedDisjoint.append (h : SortedDisjoint First) (h' : SortedDisjoint Second)
    (hbehind : ∀ a ∈ First, ∀ b ∈ Second, a.last < b.start) : SortedDisjoint (First ++ Second) := by
  refine ⟨fun c hc => ?_, List.pairwise_append.mpr ⟨h.sorted, h'.sorted, hbehind⟩⟩
  rcases List.mem_append.mp hc with hc | hc
  · exact h.ranges c hc
  · exact h'.ranges c hc

/-- The starts ascend. -/
theorem SortedDisjoint.starts (h : SortedDisjoint M) : M.Pairwise fun a b => a.start < b.start := by
  refine List.Pairwise.imp_of_mem ?_ h.sorted
  intro a b ha hb hab
  exact (h.ranges a ha).trans_lt hab

/-- **A sorted disjoint list** is given by its ranges. -/
theorem SortedDisjoint.eq_of_mem_iff (h : SortedDisjoint First) (h' : SortedDisjoint Second)
    (hmem : ∀ a, a ∈ First ↔ a ∈ Second) : First = Second := by
  have hasymm : Std.Asymm fun a b : RangeMapItem => a.start < b.start := ⟨fun _ _ => lt_asymm⟩
  exact h.starts.eq_of_mem_iff h'.starts hmem

instance : Std.Symm RangeMapItem.Disjoint := ⟨fun _ _ => Or.symm⟩

theorem SortedDisjoint.disjoint (h : SortedDisjoint M) (ha : a ∈ M) (hb : b ∈ M) (hne : a ≠ b) : a.Disjoint b := by
  have hdisjoint : M.Pairwise RangeMapItem.Disjoint := h.sorted.imp fun hlt => .inl hlt
  exact hdisjoint.forall ha hb hne

/-- The range that contains a value is unique. -/
theorem SortedDisjoint.unique (h : SortedDisjoint M) (ha : a ∈ M) (hb : b ∈ M) (hva : isInRangeMapItem Value a = true)
    (hvb : isInRangeMapItem Value b = true) : a = b := by
  obtain ⟨hva, hva'⟩ := isInRangeMapItem_iff.mp hva
  obtain ⟨hvb, hvb'⟩ := isInRangeMapItem_iff.mp hvb
  by_contra hne
  rcases h.disjoint ha hb hne with hlt | hlt
  · omega
  · omega

end SortedDisjoint

/-! ## Lookup -/

section Find

variable {M : RangeMap} {Value : Int}

/-- What a lookup finds: the range that contains the value, or nothing where there is none. -/
def Finds (M : RangeMap) (Value : Int) : Option RangeMapItem → Prop
  | some Item => Item ∈ M ∧ isInRangeMapItem Value Item = true ∧ ∀ b ∈ M, isInRangeMapItem Value b = true → b = Item
  | none => ¬Contains M Value

theorem itemAt_eq {i : Nat} (hi : i < M.length) : itemAt M i = .ok M[i] := by
  rw [itemAt, List.getElem?_eq_getElem hi]

theorem SortedDisjoint.getElem_lt (h : SortedDisjoint M) {i j : Nat} (hij : i < j) (hi : i < M.length)
    (hj : j < M.length) : M[i].last < M[j].start :=
  List.pairwise_iff_getElem.mp h.sorted i j hi hj hij

theorem SortedDisjoint.getElem_le (h : SortedDisjoint M) {i : Nat} (hi : i < M.length) : M[i].start ≤ M[i].last :=
  h.ranges _ (List.getElem_mem hi)

/-- A range that contains the value is what a lookup finds. -/
theorem SortedDisjoint.finds (h : SortedDisjoint M) {i : Nat} (hi : i < M.length)
    (hin : isInRangeMapItem Value M[i] = true) : Finds M Value (some M[i]) :=
  ⟨List.getElem_mem hi, hin, fun _ hb hvb => h.unique hb (List.getElem_mem hi) hvb hin⟩

theorem checkInRangeMapItem_of_in {Item : RangeMapItem} (h : isInRangeMapItem Value Item = true) :
    checkInRangeMapItem Value Item = some Item := by
  rw [checkInRangeMapItem, if_pos h]

theorem checkInRangeMapItem_of_not_in {Item : RangeMapItem} (h : ¬isInRangeMapItem Value Item = true) :
    checkInRangeMapItem Value Item = none := by
  rw [checkInRangeMapItem, if_neg h]

/-- **The search** has the range that contains the value between its bounds, the bounds included. -/
theorem rangeMapFindIn_spec (h : SortedDisjoint M) (Start End : Nat) : Start ≤ End → End < M.length →
    (∀ i (hi : i < M.length), isInRangeMapItem Value M[i] = true → Start ≤ i ∧ i ≤ End) →
      ∃ r, rangeMapFindIn M Value Start End = .ok r ∧ Finds M Value r := by
  induction Start, End using rangeMapFindIn.induct M Value with
  | case1 End =>
    intro hle hEnd hbounds
    rw [rangeMapFindIn, if_pos rfl, itemAt_eq hEnd]
    refine ⟨_, rfl, ?_⟩
    by_cases hin : isInRangeMapItem Value M[End] = true
    · rw [checkInRangeMapItem_of_in hin]
      exact h.finds hEnd hin
    · rw [checkInRangeMapItem_of_not_in hin]
      rintro ⟨Item, hmem, hItem⟩
      obtain ⟨i, hi, rfl⟩ := List.mem_iff_getElem.mp hmem
      obtain ⟨hlow, hhigh⟩ := hbounds i hi hItem
      obtain rfl : i = End := by omega
      exact hin hItem
  | case2 End hne =>
    intro hle hEnd hbounds
    have hStart : End - 1 < M.length := by omega
    rw [rangeMapFindIn, if_neg hne, if_pos rfl, itemAt_eq hStart, itemAt_eq hEnd]
    refine ⟨_, rfl, ?_⟩
    by_cases hin : isInRangeMapItem Value M[End - 1] = true
    · rw [checkInRangeMapItem_of_in hin]
      exact h.finds hStart hin
    · by_cases hin' : isInRangeMapItem Value M[End] = true
      · rw [checkInRangeMapItem_of_not_in hin, checkInRangeMapItem_of_in hin']
        exact h.finds hEnd hin'
      · rw [checkInRangeMapItem_of_not_in hin, checkInRangeMapItem_of_not_in hin']
        rintro ⟨Item, hmem, hItem⟩
        obtain ⟨i, hi, rfl⟩ := List.mem_iff_getElem.mp hmem
        obtain ⟨hlow, hhigh⟩ := hbounds i hi hItem
        obtain rfl | rfl : i = End - 1 ∨ i = End := by omega
        · exact hin hItem
        · exact hin' hItem
  | case3 Start End hne hlast hlt e he =>
    intro hle hEnd hbounds
    have hmiddle : (Start + End) / 2 < M.length := by omega
    rw [itemAt_eq hmiddle] at he
    cases he
  | case4 Start End hne hlast hlt middleItem hitem hbelow ih =>
    intro hle hEnd hbounds
    have hmiddle : (Start + End) / 2 < M.length := by omega
    rw [rangeMapFindIn, if_neg hne, if_neg hlast, if_pos hlt, hitem]
    dsimp only
    rw [if_pos hbelow]
    rw [itemAt_eq hmiddle] at hitem
    cases hitem
    refine ih (by omega) hmiddle fun i hi hin => ⟨(hbounds i hi hin).1, ?_⟩
    -- the ranges above the middle start above the value
    by_contra habove
    have hstart := h.getElem_lt (show (Start + End) / 2 < i by omega) (by omega) hi
    have hrange := h.getElem_le hmiddle
    have hvalue := (isInRangeMapItem_iff.mp hin).1
    omega
  | case5 Start End hne hlast hlt middleItem hitem hbelow ih =>
    intro hle hEnd hbounds
    have hmiddle : (Start + End) / 2 < M.length := by omega
    rw [rangeMapFindIn, if_neg hne, if_neg hlast, if_pos hlt, hitem]
    dsimp only
    rw [if_neg hbelow]
    rw [itemAt_eq hmiddle] at hitem
    cases hitem
    refine ih (by omega) hEnd fun i hi hin => ⟨?_, (hbounds i hi hin).2⟩
    -- the ranges below the middle end below the value
    by_contra hunder
    have hlast := h.getElem_lt (show i < (Start + End) / 2 by omega) (by omega) hmiddle
    have hvalue := (isInRangeMapItem_iff.mp hin).2
    omega
  | case6 Start End hne hlast hlt =>
    intro hle hEnd hbounds
    omega

theorem rangeMapFind_spec (h : SortedDisjoint M) (Value : Int) :
    ∃ r, rangeMapFind M Value = .ok r ∧ Finds M Value r := by
  by_cases hM : M = []
  · refine ⟨none, by rw [rangeMapFind, if_pos hM], ?_⟩
    rintro ⟨Item, hmem, -⟩
    rw [hM] at hmem
    cases hmem
  · have hlen := List.length_pos_of_ne_nil hM
    rw [rangeMapFind, if_neg hM]
    exact rangeMapFindIn_spec h 0 (M.length - 1) (by omega) (by omega) fun i hi _ => ⟨by omega, by omega⟩

/-- `rangeMapContains` says whether some range contains the value. -/
theorem rangeMapContains_iff (h : SortedDisjoint M) (Value : Int) :
    ∃ b, rangeMapContains M Value = .ok b ∧ (b = true ↔ Contains M Value) := by
  obtain ⟨r, hrun, hr⟩ := rangeMapFind_spec h Value
  refine ⟨r.isSome, by rw [rangeMapContains, hrun]; rfl, ?_⟩
  cases r with
  | none => simpa [Finds] using hr
  | some Item => exact ⟨fun _ => ⟨Item, hr.1, hr.2.1⟩, fun _ => rfl⟩

end Find

/-! ## Merging -/

section Merge

variable {First Second Merged : RangeMap} {a b : RangeMapItem}

theorem Agree.symm (h : Agree First Second) : Agree Second First := fun b hb a ha =>
  (h a ha b hb).imp Eq.symm Or.symm

theorem Agree.tail_left (h : Agree (a :: First) Second) : Agree First Second := fun c hc =>
  h c (List.mem_cons_of_mem a hc)

theorem Agree.tail_right (h : Agree First (b :: Second)) : Agree First Second := fun c hc d hd =>
  h c hc d (List.mem_cons_of_mem b hd)

theorem agree_self (h : SortedDisjoint First) : Agree First First := by
  intro a ha b hb
  by_cases hab : a = b
  · exact .inl hab
  · exact .inr (h.disjoint ha hb hab)

/-- A range that lies behind the map is appended. -/
theorem rangeMapAppendSorted_eq (hbehind : ∀ c ∈ Merged, c.last < a.start) (ha : a.start ≤ a.last) :
    rangeMapAppendSorted Merged a = .ok (Merged ++ [a]) := by
  rw [rangeMapAppendSorted]
  cases hlast : Merged.getLast? with
  | none =>
    rw [List.getLast?_eq_none_iff.mp hlast]
    rfl
  | some l => exact if_pos ⟨hbehind l (List.mem_of_getLast? hlast), ha⟩

/-- A range is appended. -/
structure Appended (Merged : RangeMap) (a : RangeMapItem) : Prop where
  append : rangeMapAppendSorted Merged a = .ok (Merged ++ [a])
  valid : SortedDisjoint (Merged ++ [a])

theorem SortedDisjoint.snoc (h : SortedDisjoint Merged) (ha : a.start ≤ a.last) (hbehind : ∀ c ∈ Merged, c.last < a.start) :
    Appended Merged a := by
  have hsingle : SortedDisjoint [a] := ⟨by simpa using ha, List.pairwise_singleton _ _⟩
  exact ⟨rangeMapAppendSorted_eq hbehind ha, h.append hsingle (by simpa using hbehind)⟩

/-- What lies behind the first range lies behind all. -/
theorem SortedDisjoint.lt_of_lt_head (h : SortedDisjoint (b :: Second)) (hab : a.last < b.start) :
    ∀ d ∈ b :: Second, a.last < d.start := by
  intro d hd
  rcases List.mem_cons.mp hd with rfl | hd
  · exact hab
  · have hb := h.ranges b List.mem_cons_self
    have hbd := h.head_lt hd
    omega

/-- Of two ranges that agree, the one that starts first lies in front. -/
theorem Agree.last_lt (h : Agree (a :: First) (b :: Second)) (hb : b.start ≤ b.last) (hlt : a.start < b.start) :
    a.last < b.start := by
  rcases h a List.mem_cons_self b List.mem_cons_self with rfl | hfront | hbehind
  · exact absurd hlt (lt_irrefl _)
  · exact hfront
  · omega

/-- What a merge gives: the ranges of both, sorted and disjoint. -/
structure IsMerged (First Second Merged R : RangeMap) : Prop where
  valid : SortedDisjoint R
  mem : ∀ c, c ∈ R ↔ c ∈ Merged ∨ c ∈ First ∨ c ∈ Second

/-- What has been merged lies in front of what is left. -/
def InFront (Merged L : RangeMap) : Prop := ∀ c ∈ Merged, ∀ d ∈ L, c.last < d.start

theorem InFront.snoc {L : RangeMap} (h : InFront Merged L) (ha : ∀ d ∈ L, a.last < d.start) : InFront (Merged ++ [a]) L := by
  intro c hc d hd
  rcases List.mem_append.mp hc with hc | hc
  · exact h c hc d hd
  · rw [List.mem_singleton.mp hc]
    exact ha d hd

theorem InFront.tail {L : RangeMap} (h : InFront Merged (b :: L)) : InFront Merged L := fun c hc d hd =>
  h c hc d (List.mem_cons_of_mem b hd)

theorem InFront.head {L : RangeMap} (h : InFront Merged (b :: L)) : ∀ c ∈ Merged, c.last < b.start := fun c hc =>
  h c hc b List.mem_cons_self

/-- **The merge from any point on.** -/
theorem mergeFrom_spec (First Second Merged : RangeMap) : SortedDisjoint First → SortedDisjoint Second →
    SortedDisjoint Merged → Agree First Second → InFront Merged First → InFront Merged Second →
      ∃ R, mergeFrom First Second Merged = .ok R ∧ IsMerged First Second Merged R := by
  induction First, Second, Merged using mergeFrom.induct with
  | case1 Merged =>
    intro h h' hM hagree hfront hfront'
    exact ⟨Merged, by rw [mergeFrom], hM, by simp⟩
  | case2 L Merged hL =>
    intro h h' hM hagree hfront hfront'
    refine ⟨Merged ++ L, ?_, hM.append h' hfront', by simp⟩
    rw [mergeFrom]
    exact hL
  | case3 L Merged hL =>
    intro h h' hM hagree hfront hfront'
    refine ⟨Merged ++ L, ?_, hM.append h hfront, by simp⟩
    rw [mergeFrom]
    exact hL
  | case4 First b Second Merged ih =>
    intro h h' hM hagree hfront hfront'
    have happend := hM.snoc (h.ranges b List.mem_cons_self) hfront.head
    obtain ⟨R, hrun, hvalid, hmem⟩ := ih (Merged ++ [b]) h.tail h'.tail happend.valid hagree.tail_left.tail_right
      (hfront.tail.snoc fun d hd => h.head_lt hd) (hfront'.tail.snoc fun d hd => h'.head_lt hd)
    refine ⟨R, ?_, hvalid, fun c => ?_⟩
    · rw [mergeFrom, if_pos rfl, happend.append, Eval.ok_bind]
      exact hrun
    · rw [hmem]
      simp only [List.mem_append, List.mem_cons, List.not_mem_nil, or_false]
      tauto
  | case5 a First b Second Merged hne hlt ih =>
    intro h h' hM hagree hfront hfront'
    have happend := hM.snoc (h.ranges a List.mem_cons_self) hfront.head
    have hab := hagree.last_lt (h'.ranges b List.mem_cons_self) hlt
    obtain ⟨R, hrun, hvalid, hmem⟩ := ih (Merged ++ [a]) h.tail h' happend.valid hagree.tail_left
      (hfront.tail.snoc fun d hd => h.head_lt hd) (hfront'.snoc (h'.lt_of_lt_head hab))
    refine ⟨R, ?_, hvalid, fun c => ?_⟩
    · rw [mergeFrom, if_neg hne, if_pos hlt, happend.append, Eval.ok_bind]
      exact hrun
    · rw [hmem]
      simp only [List.mem_append, List.mem_cons, List.not_mem_nil, or_false]
      tauto
  | case6 a First b Second Merged hne hnlt hlt ih =>
    intro h h' hM hagree hfront hfront'
    have happend := hM.snoc (h'.ranges b List.mem_cons_self) hfront'.head
    have hba := hagree.symm.last_lt (h.ranges a List.mem_cons_self) hlt
    obtain ⟨R, hrun, hvalid, hmem⟩ := ih (Merged ++ [b]) h h'.tail happend.valid hagree.tail_right
      (hfront.snoc (h.lt_of_lt_head hba)) (hfront'.tail.snoc fun d hd => h'.head_lt hd)
    refine ⟨R, ?_, hvalid, fun c => ?_⟩
    · rw [mergeFrom, if_neg hne, if_neg hnlt, if_pos hlt, happend.append, Eval.ok_bind]
      exact hrun
    · rw [hmem]
      simp only [List.mem_append, List.mem_cons, List.not_mem_nil, or_false]
      tauto
  | case7 a First b Second Merged hne hnlt hnlt' =>
    intro h h' hM hagree hfront hfront'
    -- two ranges with one start overlap
    have ha := h.ranges a List.mem_cons_self
    have hb := h'.ranges b List.mem_cons_self
    rcases hagree a List.mem_cons_self b List.mem_cons_self with heq | hlt | hlt
    · exact absurd heq hne
    · omega
    · omega

theorem mergeRangeMaps_spec (h : SortedDisjoint First) (h' : SortedDisjoint Second) (hagree : Agree First Second) :
    ∃ R, mergeRangeMaps First Second = .ok R ∧ IsMerged First Second [] R :=
  mergeFrom_spec First Second [] h h' .nil hagree (fun _ hc => by cases hc) fun _ hc => by cases hc

/-- A value is in what has been merged iff it is in one of the two. -/
theorem IsMerged.contains {R : RangeMap} (h : IsMerged First Second [] R) (Value : Int) :
    Contains R Value ↔ Contains First Value ∨ Contains Second Value := by
  simp only [Contains, h.mem, List.not_mem_nil, false_or]
  constructor
  · rintro ⟨c, hc | hc, hin⟩
    · exact .inl ⟨c, hc, hin⟩
    · exact .inr ⟨c, hc, hin⟩
  · rintro (⟨c, hc, hin⟩ | ⟨c, hc, hin⟩)
    · exact ⟨c, .inl hc, hin⟩
    · exact ⟨c, .inr hc, hin⟩

/-- The order of the two does not matter. -/
theorem mergeRangeMaps_comm (h : SortedDisjoint First) (h' : SortedDisjoint Second) (hagree : Agree First Second) :
    mergeRangeMaps First Second = mergeRangeMaps Second First := by
  obtain ⟨R, hrun, hR⟩ := mergeRangeMaps_spec h h' hagree
  obtain ⟨R', hrun', hR'⟩ := mergeRangeMaps_spec h' h hagree.symm
  have heq : R = R' := hR.valid.eq_of_mem_iff hR'.valid fun c => by rw [hR.mem, hR'.mem, or_comm (a := c ∈ First)]
  rw [hrun, hrun', heq]

theorem mergeRangeMaps_self (h : SortedDisjoint First) : mergeRangeMaps First First = .ok First := by
  obtain ⟨R, hrun, hR⟩ := mergeRangeMaps_spec h h (agree_self h)
  rw [hrun, hR.valid.eq_of_mem_iff h fun c => by simp [hR.mem]]

end Merge

/-! ## Range maps -/

/-- What a range map is for: lookups find the range of an address, and maps that agree can be merged in any order. -/
structure RangeMapsWork (First Second : RangeMap) : Prop where
  merge : ∃ R, mergeRangeMaps First Second = .ok R ∧ SortedDisjoint R ∧
    ∀ Value, Contains R Value ↔ Contains First Value ∨ Contains Second Value
  find : ∀ Value, ∃ r, rangeMapFind First Value = .ok r ∧ Finds First Value r
  comm : mergeRangeMaps First Second = mergeRangeMaps Second First
  idem : mergeRangeMaps First First = .ok First

/-- **Range maps** work, if they are sorted and disjoint and agree. -/
theorem range_maps {First Second : RangeMap} (h : SortedDisjoint First) (h' : SortedDisjoint Second)
    (hagree : Agree First Second) : RangeMapsWork First Second where
  merge := by
    obtain ⟨R, hrun, hR⟩ := mergeRangeMaps_spec h h' hagree
    exact ⟨R, hrun, hR.valid, hR.contains⟩
  find := rangeMapFind_spec h
  comm := mergeRangeMaps_comm h h' hagree
  idem := mergeRangeMaps_self h

/-- Two units with a register of their own each, and one that they share. -/
theorem range_maps_shared : RangeMapsWork [⟨0, 3⟩, ⟨8, 8⟩] [⟨4, 7⟩, ⟨8, 8⟩] :=
  range_maps ⟨by simp, by simp⟩ ⟨by simp, by simp⟩ (by simp [Agree, RangeMapItem.Disjoint])

end CSemantics
