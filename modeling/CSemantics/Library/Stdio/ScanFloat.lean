/-
  The floating conversions of `fscanf`.

  A conversion `%a`, `%e`, `%f` or `%g` takes bytes as long as one of ten rules allows it.  They should be the longest
  beginning of a sequence that `strtod` accepts:

      sign? digits with a point or not, (e sign? digit+)?
      sign? 0x hexadecimal digits with a point or not, (p sign? digit+)?
      sign? INF, INFINITY or NAN, in any case

  The rules see no more of the bytes that were taken than a few bits (`View`), and an automaton that accepts the
  sequences knows those bits in each of its states (`view_of_run`); so its states and the kinds of bytes make a finite
  table in which the rules are compared with it.  There is a difference where

      a sign is followed by N       (`inNan` looks at the item with its sign)
      a p should come               (`hasRadix` of the one byte knows only `e`)
      letters are followed by a digit, a point or, after `F` or `A`, an `e`
      an item ends with `e`         (it is complete)
      `0x` comes behind a sign      (as with integers)

  and nowhere else (`reads_as_strtod_iff`).
-/
import CSemantics.Library.Stdio.Strtod

namespace CSemantics.ScanFloat

open LongestPrefix ScanInteger

/-! ## What the rules see -/

/-- The letters of a word so far, if they are. -/
def lettersOf (word : List Char) (l : List Char) : Option Nat := if l.isPrefixOf word then some l.length else none

/-- What the rules see of the bytes that were taken. -/
@[ext] structure View where
  empty : Bool
  signed : Bool
  /-- `isXPrefix` -/
  zero : Bool
  /-- `has0xPrefix` -/
  hex : Bool
  /-- `hasRadix` -/
  radix : Bool
  /-- `hasRadix`, and it is last -/
  mark : Bool
  /-- a point is out -/
  dot : Bool
  /-- `hasDigit` -/
  digit : Bool
  /-- `hasDigit` of what is behind `0x` -/
  mantissa : Bool
  /-- a sign is last -/
  sign : Bool
  infinity : Option Nat
  nan : Option Nat
  deriving DecidableEq

def view (item : List Char) : View where
  empty := item.isEmpty
  signed := item.head?.any isSign
  zero := isXPrefix item
  hex := has0xPrefix item
  radix := hasRadix item
  mark := hasRadix item && item.getLast?.any fun l => l.toUpper == 'E' || l.toUpper == 'P'
  dot := item.contains '.' || hasRadix item
  digit := hasDigit item
  mantissa := hasDigit (CSemantics.strip0xPrefix item)
  sign := item.getLast?.any isSign
  infinity := lettersOf "INFINITY".toList (toUpperCase (stripSign item))
  nan := lettersOf "NAN".toList (toUpperCase (stripSign item))

/-- One letter more -/
def nextLetter (word : List Char) (n : Nat) (k : Kind) : Option Nat :=
  if k.letter.isSome ∧ word[n]? = k.letter then some (n + 1) else none

/-- The view with one byte more. -/
def View.add (v : View) (k : Kind) : View :=
  let first := v.empty && k = .sign
  let becomesHex := v.zero && k = .x
  let radix :=
    if v.hex then v.radix || decide (k = .p) else if becomesHex then false else v.radix || decide (k = .e)
  { empty := false
    signed := if v.empty then decide (k = .sign) else v.signed
    zero := decide (v.infinity = some 0) && decide (k = .zero)
    hex := v.hex || becomesHex
    radix := radix
    mark := radix && (decide (k = .e) || decide (k = .p))
    dot := v.dot || decide (k = .dot) || radix
    digit := v.digit || k.isHexadecimal
    mantissa :=
      if v.hex then v.mantissa || k.isHexadecimal else if becomesHex then false else v.digit || k.isHexadecimal
    sign := decide (k = .sign)
    infinity := if first then some 0 else v.infinity.bind fun n => nextLetter "INFINITY".toList n k
    nan := if first then some 0 else v.nan.bind fun n => nextLetter "NAN".toList n k }

def State.view (s : State) : View :=
  let v : View := ⟨false, s.signed, false, false, false, false, false, false, false, false, none, none⟩
  match s.core with
  | .start => { v with empty := !s.signed, sign := s.signed, infinity := some 0, nan := some 0 }
  | .zero => { v with zero := true, digit := true, mantissa := true }
  | .hexStart => { v with hex := true, digit := true }
  | .whole b => { v with hex := b = .hex, digit := true, mantissa := true }
  | .dot b => { v with hex := b = .hex, dot := true, digit := b = .hex }
  | .frac b => { v with hex := b = .hex, dot := true, digit := true, mantissa := true }
  | .mark b => { v with hex := b = .hex, radix := true, mark := true, dot := true, digit := true, mantissa := true }
  | .expSign b => { v with hex := b = .hex, radix := true, dot := true, digit := true, mantissa := true, sign := true }
  | .exp b => { v with hex := b = .hex, radix := true, dot := true, digit := true, mantissa := true }
  | .infinity n => { v with digit := 2 ≤ n.val, mantissa := 2 ≤ n.val, infinity := some (n.val + 1) }
  | .nan n => { v with digit := 1 ≤ n.val, mantissa := 1 ≤ n.val, nan := some (n.val + 1) }

/-- **The states know the view.** -/
theorem add_view : ∀ (b : Bool) (s : Core) (k : Kind) (s' : State), State.step ⟨b, s⟩ k = some s' →
    (State.view ⟨b, s⟩).add k = s'.view := by
  have h : ∀ (b : Bool) (s : Core) (k : Kind), ∀ s' ∈ State.step ⟨b, s⟩ k, (State.view ⟨b, s⟩).add k = s'.view := by
    decide +kernel
  exact h

section Append

variable {p : List Char} {c U : Char}

theorem stripSign_append (hspace : isWhitespace c = false) (hsign : isSign c = true → p = [] ∨ stripSign p ≠ []) :
    stripSign (p ++ [c]) = if p = [] ∧ isSign c = true then [] else stripSign p ++ [c] := by
  have happend : stripSign (p ++ [c]) =
      if (stripSign p).isEmpty = true then stripSign [c] else stripSign p ++ [c] := List.dropWhile_append
  have hsingle : stripSign [c] = if isSign c = true then [] else [c] := by
    rw [stripSign, List.dropWhile_cons, hspace, Bool.or_false]
    rfl
  rw [happend, hsingle]
  by_cases hp : p = []
  · subst hp
    rw [if_pos (show (stripSign []).isEmpty = true from rfl)]
    by_cases hs : isSign c = true
    · rw [if_pos hs, if_pos ⟨rfl, hs⟩]
    · rw [if_neg hs, if_neg fun h => hs h.2]
      rfl
  · have hnot : ¬(p = [] ∧ isSign c = true) := fun h => hp h.1
    rw [if_neg hnot]
    by_cases hempty : stripSign p = []
    · have hs : ¬isSign c = true := fun hs => (hsign hs).elim hp fun h => h hempty
      rw [hempty, if_pos (show ([] : List Char).isEmpty = true from rfl), if_neg hs]
      rfl
    · have hne : ¬(stripSign p).isEmpty = true := fun h => hempty (List.isEmpty_iff.1 h)
      rw [if_neg hne]

theorem lettersOf_eq_zero {word l : List Char} : lettersOf word l = some 0 ↔ l = [] := by
  rw [lettersOf]
  constructor
  · intro h
    split at h
    · exact List.length_eq_zero_iff.1 (Option.some.inj h)
    · cases h
  · rintro rfl
    rw [if_pos (by simp)]
    rfl

theorem lettersOf_append {word l : List Char} (hword : ∀ U ∈ word, U ∈ letters) :
    lettersOf word (l ++ [c.toUpper]) = (lettersOf word l).bind fun n => nextLetter word n (kind c) := by
  have hnext : ∀ n : Nat, word[n]? = some c.toUpper ↔ (kind c).letter.isSome = true ∧ word[n]? = (kind c).letter := by
    intro n
    constructor
    · intro h
      have hletter := (letter_iff (hword _ (List.mem_of_getElem? h))).1 rfl
      exact ⟨by rw [hletter]; rfl, by rw [hletter, h]⟩
    · rintro ⟨hsome, h⟩
      obtain ⟨U, hU⟩ := Option.isSome_iff_exists.1 hsome
      rw [hU] at h
      rw [h, (letter_iff (hword U (List.mem_of_getElem? h))).2 hU]
  rw [lettersOf, lettersOf]
  by_cases hl : l.isPrefixOf word = true
  · rw [if_pos hl, Option.bind_some, nextLetter]
    obtain ⟨t, rfl⟩ := List.isPrefixOf_iff_prefix.1 hl
    refine if_congr ?_ (by rw [List.length_append, List.length_singleton]) rfl
    rw [← hnext, List.getElem?_append_right (le_refl _), Nat.sub_self, List.isPrefixOf_iff_prefix,
      List.prefix_append_right_inj]
    cases t with
    | nil => simp
    | cons d t => simp [eq_comm]
  · rw [if_neg hl, if_neg]
    · rfl
    · intro h
      exact hl (List.isPrefixOf_iff_prefix.2 ((List.prefix_append l _).trans (List.isPrefixOf_iff_prefix.1 h)))

theorem two_le_of_has0xPrefix (h : has0xPrefix p = true) : 2 ≤ (stripSign p).length := by
  rw [has0xPrefix, beq_iff_eq] at h
  have hlen := congrArg List.length h
  rw [toUpperCase, List.length_map, List.length_take] at hlen
  simp only [List.length_cons, List.length_nil] at hlen
  omega

theorem has0xPrefix_append (hspace : isWhitespace c = false) (hsign : isSign c = true → p = [] ∨ stripSign p ≠ []) :
    has0xPrefix (p ++ [c]) = (has0xPrefix p || (isXPrefix p && decide (kind c = .x))) := by
  rw [has0xPrefix, has0xPrefix, isXPrefix, stripSign_append hspace hsign]
  split
  · next h =>
    rw [h.1]
    rfl
  · rcases stripSign p with _ | ⟨d, _ | ⟨d', r⟩⟩
    · simp [toUpperCase]
    · rw [Bool.eq_iff_iff]
      simp [toUpperCase, toUpper_eq_X, toUpper_eq_zero, isX_iff]
    · simp [toUpperCase]

theorem isXPrefix_append (hspace : isWhitespace c = false) (hsign : isSign c = true → p = [] ∨ stripSign p ≠ []) :
    isXPrefix (p ++ [c]) = (decide ((view p).infinity = some 0) && decide (kind c = .zero)) := by
  have hzero : (view p).infinity = some 0 ↔ stripSign p = [] := by
    rw [view, lettersOf_eq_zero, toUpperCase, List.map_eq_nil_iff]
  rw [isXPrefix, stripSign_append hspace hsign, Bool.eq_iff_iff, beq_iff_eq, Bool.and_eq_true, decide_eq_true_eq,
    decide_eq_true_eq, hzero, ← eq_zero_iff]
  split
  · next h =>
    refine iff_of_false (by simp) ?_
    rintro ⟨-, rfl⟩
    exact absurd h.2 (by decide)
  · exact List.append_eq_singleton_iff.trans (by simp)

/-- An exponent letter in the text, in one case or the other. -/
theorem mem_append_iff {l U : Char} {k : Kind} (hU : U ∈ letters) (hl : l = Char.ofNat (U.toNat + 32))
    (hk : k.letter = some U) :
    (decide (l ∈ p ++ [c]) || decide (U ∈ p ++ [c])) = (decide (l ∈ p) || decide (U ∈ p) || decide (kind c = k)) := by
  obtain ⟨hrange, hlower, -⟩ := letters_kind U hU
  rw [Bool.eq_iff_iff]
  simp only [Bool.or_eq_true, decide_eq_true_eq, List.mem_append, List.mem_singleton]
  rw [kind_iff hU hk, toUpper_eq_iff hrange hlower c, ← hl, eq_comm (a := l), eq_comm (a := U)]
  exact or_or_or_comm

/-- There is no letter before `0`. -/
theorem letter_of_isXPrefix {d : Char} (h : isXPrefix p = true) (hd : d ∈ p) : (kind d).letter = none := by
  rw [isXPrefix, beq_iff_eq] at h
  have hsplit := List.takeWhile_append_dropWhile (p := fun c => isSign c || isWhitespace c) (l := p)
  rw [← hsplit, List.mem_append] at hd
  rcases hd with hd | hd
  · have htest := List.mem_takeWhile_imp hd
    rw [Bool.or_eq_true] at htest
    rcases htest with htest | htest
    · rw [(isSign_iff d).1 htest]
      rfl
    · rw [kind_of_isWhitespace htest]
      rfl
  · have hmem : d ∈ stripSign p := hd
    rw [h] at hmem
    rw [List.mem_singleton.1 hmem]
    rfl

theorem hasRadix_of_isXPrefix (h : isXPrefix p = true) : hasRadix p = false := by
  have hno : ∀ d ∈ ['p', 'P', 'e', 'E'], d ∉ p := by
    intro d hd hmem
    have hletter : ∀ d ∈ ['p', 'P', 'e', 'E'], (kind d).letter ≠ none := List.all_iff_forall_prop.1 (by decide)
    exact hletter d hd (letter_of_isXPrefix h hmem)
  rw [hasRadix]
  split <;> simp [hno 'p' (by decide), hno 'P' (by decide), hno 'e' (by decide), hno 'E' (by decide)]

theorem hasRadix_append (hspace : isWhitespace c = false) (hsign : isSign c = true → p = [] ∨ stripSign p ≠ []) :
    hasRadix (p ++ [c]) = ((view p).add (kind c)).radix := by
  show _ = if has0xPrefix p = true then hasRadix p || decide (kind c = .p)
    else if (isXPrefix p && decide (kind c = .x)) = true then false else hasRadix p || decide (kind c = .e)
  rw [hasRadix, has0xPrefix_append hspace hsign, hasRadix]
  by_cases hhex : has0xPrefix p = true
  · simp only [hhex, Bool.true_or, if_true]
    exact mem_append_iff (by decide) rfl rfl
  · rw [Bool.not_eq_true] at hhex
    simp only [hhex, Bool.false_or, if_false, Bool.false_eq_true]
    by_cases hx : (isXPrefix p && decide (kind c = .x)) = true
    · rw [if_pos hx, if_pos hx]
      rw [Bool.and_eq_true, decide_eq_true_eq] at hx
      have hno : ∀ d : Char, d ∈ p ++ [c] → d.toUpper ≠ 'P' := by
        intro d hd hP
        rcases List.mem_append.1 hd with hd | hd
        · rw [letter_iff (by decide), letter_of_isXPrefix hx.1 hd] at hP
          cases hP
        · rw [List.mem_singleton.1 hd, ← kind_iff (k := .p) (by decide) rfl, hx.2] at hP
          cases hP
      have hp : 'p' ∉ p ++ [c] := fun h => hno _ h (by decide)
      have hP : 'P' ∉ p ++ [c] := fun h => hno _ h (by decide)
      simp only [hp, hP, decide_false, Bool.or_false]
    · rw [if_neg hx, if_neg hx]
      exact mem_append_iff (by decide) rfl rfl

theorem mantissa_append (hspace : isWhitespace c = false) (hsign : isSign c = true → p = [] ∨ stripSign p ≠ []) :
    hasDigit (CSemantics.strip0xPrefix (p ++ [c])) = ((view p).add (kind c)).mantissa := by
  show _ = if has0xPrefix p = true then hasDigit (CSemantics.strip0xPrefix p) || (kind c).isHexadecimal
    else if (isXPrefix p && decide (kind c = .x)) = true then false else hasDigit p || (kind c).isHexadecimal
  have hany : ∀ l : List Char, hasDigit (l ++ [c]) = (hasDigit l || (kind c).isHexadecimal) := by
    intro l
    rw [← isDigit_hexadecimal, hasDigit, hasDigit, List.any_append, List.any_cons, List.any_nil, Bool.or_false]
  rw [CSemantics.strip0xPrefix, has0xPrefix_append hspace hsign, CSemantics.strip0xPrefix]
  have hnotFirst : has0xPrefix p = true ∨ isXPrefix p = true → stripSign (p ++ [c]) = stripSign p ++ [c] := by
    intro h
    rw [stripSign_append hspace hsign, if_neg]
    rintro ⟨rfl, -⟩
    rcases h with h | h <;> cases h
  by_cases hhex : has0xPrefix p = true
  · have hlen := two_le_of_has0xPrefix hhex
    simp only [hhex, Bool.true_or, if_true]
    rw [hnotFirst (.inl hhex), List.drop_append_of_le_length hlen, hany]
  · rw [Bool.not_eq_true] at hhex
    simp only [hhex, Bool.false_or, if_false, Bool.false_eq_true]
    by_cases hx : (isXPrefix p && decide (kind c = .x)) = true
    · rw [if_pos hx, if_pos hx]
      rw [Bool.and_eq_true] at hx
      have hzero : stripSign p = ['0'] := beq_iff_eq.1 hx.1
      rw [hnotFirst (.inr hx.1), hzero]
      rfl
    · rw [if_neg hx, if_neg hx, hany]

theorem view_append (hother : kind c ≠ .other) (hsign : kind c = .sign → p = [] ∨ stripSign p ≠ []) :
    view (p ++ [c]) = (view p).add (kind c) := by
  have hspace : isWhitespace c = false := Bool.eq_false_iff.2 fun h => hother (kind_of_isWhitespace h)
  have hsign' : isSign c = true → p = [] ∨ stripSign p ≠ [] := fun h => hsign ((isSign_iff c).1 h)
  have hcSign : isSign c = decide (kind c = .sign) := by
    rw [Bool.eq_iff_iff, isSign_iff, decide_eq_true_eq]
  have hradix := hasRadix_append hspace hsign'
  have hlast : (p ++ [c]).getLast? = some c := List.getLast?_concat
  have hmark : (c.toUpper == 'E' || c.toUpper == 'P') = (decide (kind c = .e) || decide (kind c = .p)) := by
    rw [Bool.eq_iff_iff]
    simp only [Bool.or_eq_true, beq_iff_eq, decide_eq_true_eq]
    rw [kind_iff (U := 'E') (by decide) rfl, kind_iff (U := 'P') (by decide) rfl]
  have hword : ∀ {word : List Char}, (∀ U ∈ word, U ∈ letters) →
      lettersOf word (toUpperCase (stripSign (p ++ [c]))) =
        if (p.isEmpty && decide (kind c = .sign)) = true then some 0
        else (lettersOf word (toUpperCase (stripSign p))).bind fun n => nextLetter word n (kind c) := by
    intro word hword
    have hfirst : (p.isEmpty && decide (kind c = .sign)) = true ↔ p = [] ∧ isSign c = true := by
      rw [← hcSign, Bool.and_eq_true, List.isEmpty_iff]
    rw [stripSign_append hspace hsign', if_congr hfirst rfl rfl]
    split
    · exact lettersOf_eq_zero.2 rfl
    · rw [← lettersOf_append hword]
      rw [toUpperCase, toUpperCase, List.map_append]
      rfl
  refine View.ext ?_ ?_ ?_ ?_ ?_ ?_ ?_ ?_ ?_ ?_ ?_ ?_
  · show (p ++ [c]).isEmpty = false
    simp
  · show (p ++ [c]).head?.any isSign = if p.isEmpty = true then decide (kind c = .sign) else p.head?.any isSign
    rw [← hcSign]
    cases p with
    | nil => rfl
    | cons d p => rfl
  · exact isXPrefix_append hspace hsign'
  · exact has0xPrefix_append hspace hsign'
  · exact hradix
  · show (hasRadix (p ++ [c]) && (p ++ [c]).getLast?.any fun l => l.toUpper == 'E' || l.toUpper == 'P') = _
    rw [hlast, hradix]
    exact congrArg (((view p).add (kind c)).radix && ·) hmark
  · show ((p ++ [c]).contains '.' || hasRadix (p ++ [c])) =
      (p.contains '.' || hasRadix p || decide (kind c = .dot) || ((view p).add (kind c)).radix)
    have hkeep : hasRadix p = true → ((view p).add (kind c)).radix = true := by
      intro h
      have hzero : isXPrefix p = false := Bool.eq_false_iff.2 fun hx => by
        rw [hasRadix_of_isXPrefix hx] at h
        cases h
      show (if has0xPrefix p = true then hasRadix p || decide (kind c = .p)
        else if (isXPrefix p && decide (kind c = .x)) = true then false
        else hasRadix p || decide (kind c = .e)) = true
      simp [h, hzero]
    have hcontains : (p ++ [c]).contains '.' = (p.contains '.' || decide (kind c = .dot)) := by
      rw [Bool.eq_iff_iff]
      simp only [List.contains_iff_mem, List.mem_append, List.mem_singleton, Bool.or_eq_true, decide_eq_true_eq]
      rw [← eq_dot_iff, eq_comm (a := c)]
    rw [hcontains, hradix]
    cases hp : hasRadix p with
    | false => rw [Bool.or_false]
    | true =>
      rw [hkeep hp]
      simp
  · show hasDigit (p ++ [c]) = (hasDigit p || (kind c).isHexadecimal)
    rw [← isDigit_hexadecimal, hasDigit, hasDigit, List.any_append, List.any_cons, List.any_nil, Bool.or_false]
  · exact mantissa_append hspace hsign'
  · show (p ++ [c]).getLast?.any isSign = decide (kind c = .sign)
    rw [hlast, ← hcSign]
    rfl
  · exact hword infinity_letters
  · exact hword nan_letters

end Append

section Run

variable {p : List Char} {c : Char} {k : Kind} {s s' : State}

/-- What a step needs: a byte that the rules know, and a sign only in front or behind an exponent letter. -/
theorem step_cases (h : s.step k = some s') :
    k ≠ .other ∧ (k = .sign → s = .initial ∨ s.view.infinity = none) := by
  have hall : ∀ (b : Bool) (s : Core) (k : Kind), (State.step ⟨b, s⟩ k).isSome = true →
      k ≠ .other ∧ (k = .sign → (⟨b, s⟩ : State) = .initial ∨ (State.view ⟨b, s⟩).infinity = none) := by
    decide +kernel
  exact hall s.signed s.core k (by rw [h]; rfl)

/-- **The states know what the rules see.** -/
theorem view_of_run (h : State.initial.run p = some s) : view p = s.view := by
  induction p using List.reverseRecOn generalizing s with
  | nil =>
    cases h
    rfl
  | append_singleton p c ih =>
    rw [run_concat] at h
    obtain ⟨s₀, hrun, hstep⟩ := Option.bind_eq_some_iff.1 h
    have hview := ih hrun
    obtain ⟨hother, hsign⟩ := step_cases hstep
    rw [view_append hother, hview]
    · exact add_view s₀.signed s₀.core (kind c) s hstep
    · intro hkind
      rcases hsign hkind with rfl | hinf
      · have hempty : (view p).empty = true := by
          rw [hview]
          rfl
        exact .inl (List.isEmpty_iff.1 hempty)
      · refine .inr fun hstrip => ?_
        rw [← hview] at hinf
        have hzero : (view p).infinity = some 0 := lettersOf_eq_zero.2 (by rw [hstrip]; rfl)
        rw [hinf] at hzero
        cases hzero

end Run

/-! ## The rules, by what they see -/

/-- `inFloatSet`, as long as there is no exponent behind `0x`. -/
def View.inFloatSet (v : View) (k : Kind) : Bool :=
  (v.infinity.bind fun n => nextLetter "INFINITY".toList n k).isSome ||
    (!v.signed && (v.nan.bind fun n => nextLetter "NAN".toList n k).isSome) ||
    (k.isDecimal && !v.hex) ||
    (k.isHexadecimal && v.hex && !v.radix) ||
    (decide (k = .sign) && v.empty) ||
    (decide (k = .sign) && v.mark) ||
    (decide (k = .dot) && !v.dot) ||
    (decide (k = .x) && v.zero) ||
    (decide (k = .e) && !v.radix && v.digit)

/-- An exponent behind `0x` -/
def View.binary (v : View) : Bool := v.hex && v.radix

/-- `N` behind a sign -/
def View.signedNan (v : View) : Bool := v.signed && v.nan.any fun n => 0 < n

/-- Letters of a word -/
def View.word (v : View) : Bool := (v.infinity.any fun n => 0 < n) || v.nan.any fun n => 0 < n

/-- `isCompleteItem` for an item that is not empty. -/
def View.isComplete (v : View) : Bool :=
  v.mantissa && !v.sign && !(v.infinity.any fun n => n ∈ [1, 2, 4, 5, 6, 7]) && !(v.nan.any fun n => n ∈ [1, 2])

section Rules

variable {p : List Char} {c : Char}

theorem comesNext_eq {word : String} {l : List Char} (hword : ∀ U ∈ word.toList, U ∈ letters) :
    comesNext word c.toUpper l =
      ((lettersOf word.toList l).bind fun n => nextLetter word.toList n (kind c)).isSome := by
  rw [← lettersOf_append hword, comesNext, lettersOf]
  cases (l ++ [c.toUpper]).isPrefixOf word.toList <;> rfl

/-- A sign in front stays, as no white space is before it. -/
theorem stripSign_eq (hspace : ∀ d ∈ p, isWhitespace d = false) (h : p.head?.any isSign = false) : stripSign p = p := by
  cases p with
  | nil => rfl
  | cons d p =>
    have hd : isSign d = false := h
    rw [stripSign, List.dropWhile_cons, hd, hspace d List.mem_cons_self]
    rfl

theorem inNan_eq (hspace : ∀ d ∈ p, isWhitespace d = false) :
    inNan c p = (!(view p).signed && ((view p).nan.bind fun n => nextLetter "NAN".toList n (kind c)).isSome) := by
  cases h : p.head?.any isSign with
  | false =>
    have hsigned : (view p).signed = false := h
    rw [hsigned, Bool.not_false, Bool.true_and]
    show comesNext "NAN" c.toUpper (toUpperCase p) = _
    rw [comesNext_eq nan_letters, view, stripSign_eq hspace h]
  | true =>
    have hsigned : (view p).signed = true := h
    rw [hsigned, Bool.not_true, Bool.false_and]
    cases p with
    | nil => cases h
    | cons d p =>
      have hd : isSign d = true := h
      rw [isSign, Bool.or_eq_true, beq_iff_eq, beq_iff_eq] at hd
      rcases hd with rfl | rfl <;> rfl

theorem hasRadix_singleton (c : Char) : hasRadix [c] = decide (kind c = .e) := by
  have hhex : has0xPrefix [c] = false := by
    rw [Bool.eq_false_iff]
    intro h
    have hlen := two_le_of_has0xPrefix h
    have hle : (stripSign [c]).length ≤ 1 := List.length_dropWhile_le _ _
    omega
  rw [hasRadix, hhex]
  simpa using @mem_append_iff [] c 'e' 'E' .e (by decide) rfl rfl

theorem inFloatSet_eq (hspace : ∀ d ∈ p, isWhitespace d = false) (hradix : (view p).binary = false) :
    inFloatSet c p = (view p).inFloatSet (kind c) := by
  have hinfinity : inInfinity c p =
      ((view p).infinity.bind fun n => nextLetter "INFINITY".toList n (kind c)).isSome := comesNext_eq infinity_letters
  have hsign : isSign c = decide (kind c = .sign) := by
    rw [Bool.eq_iff_iff, isSign_iff, decide_eq_true_eq]
  have hdot : (c == '.') = decide (kind c = .dot) := by
    rw [Bool.eq_iff_iff, beq_iff_eq, eq_dot_iff, decide_eq_true_eq]
  have hx : (c == 'x' || c == 'X') = decide (kind c = .x) := by
    rw [Bool.eq_iff_iff, decide_eq_true_eq, ← isX_iff, isX]
  -- no digit is taken for the exponent behind `0x`, as there is none
  have hbinary : (isDigit c 2 && has0xPrefix p && hasRadix p) = false := by
    rw [Bool.and_assoc]
    show (isDigit c 2 && (view p).binary) = false
    rw [hradix, Bool.and_false]
  rw [CSemantics.inFloatSet, hinfinity, inNan_eq hspace, isDigit_decimal, isDigit_hexadecimal, hbinary, hsign, hdot, hx,
    hasRadix_singleton, View.inFloatSet]
  simp only [view, Bool.or_false, Bool.and_assoc, Bool.not_or]

/-- **What goes on** with a sequence is taken, with two exceptions. -/
theorem takes_table (b : Bool) (s : Core) (k : Kind) (s' : State) (hstep : State.step ⟨b, s⟩ k = some s')
    (hbinary : s'.view.binary = false) (hnan : s'.view.signedNan = false) :
    (State.view ⟨b, s⟩).binary = false ∧ (State.view ⟨b, s⟩).inFloatSet k = true := by
  have hall : ∀ (b : Bool) (s : Core) (k : Kind), ∀ s' ∈ State.step ⟨b, s⟩ k, s'.view.binary = false →
      s'.view.signedNan = false →
        (State.view ⟨b, s⟩).binary = false ∧ (State.view ⟨b, s⟩).inFloatSet k = true := by
    decide +kernel
  exact hall b s k s' hstep hbinary hnan

/-- **What does not** is taken behind letters only. -/
theorem stops_table (b : Bool) (s : Core) (k : Kind) (hstep : State.step ⟨b, s⟩ k = none)
    (hbinary : (State.view ⟨b, s⟩).binary = false) (hnan : (State.view ⟨b, s⟩).signedNan = false) :
    (State.view ⟨b, s⟩).inFloatSet k = true ↔
      (State.view ⟨b, s⟩).word = true ∧
        (k.isDecimal = true ∨ k = .dot ∨ (k = .e ∧ (State.view ⟨b, s⟩).digit = true)) := by
  have hall : ∀ (b : Bool) (s : Core) (k : Kind), State.step ⟨b, s⟩ k = none →
      (State.view ⟨b, s⟩).binary = false → (State.view ⟨b, s⟩).signedNan = false →
        ((State.view ⟨b, s⟩).inFloatSet k = true ↔ (State.view ⟨b, s⟩).word = true ∧
          (k.isDecimal = true ∨ k = .dot ∨ (k = .e ∧ (State.view ⟨b, s⟩).digit = true))) := by
    decide +kernel
  exact hall b s k hstep hbinary hnan

/-- **Complete** is a sequence, or an exponent letter is last. -/
theorem complete_table (b : Bool) (s : Core) :
    (State.view ⟨b, s⟩).isComplete = (s.accepts || (State.view ⟨b, s⟩).mark) := by
  have hall : ∀ (b : Bool) (s : Core), (State.view ⟨b, s⟩).isComplete = (s.accepts || (State.view ⟨b, s⟩).mark) := by
    decide +kernel
  exact hall b s

end Rules
/-! ## What is taken -/

section Taken

variable {p : List Char} {s : State} {width : Int} {u : List Char}

/-- The rules take every byte. -/
def Taken (p : List Char) : Prop := Through (fun item c => inFloatSet c item) p

theorem kind_of_run (h : State.initial.run p = some s) : ∀ d ∈ p, kind d ≠ .other := by
  induction p using List.reverseRecOn generalizing s with
  | nil => exact fun d hd => absurd hd List.not_mem_nil
  | append_singleton p c ih =>
    rw [run_concat] at h
    obtain ⟨s₀, hrun, hstep⟩ := Option.bind_eq_some_iff.1 h
    intro d hd
    rcases List.mem_append.1 hd with hd | hd
    · exact ih hrun d hd
    · rw [List.mem_singleton.1 hd]
      exact (step_cases hstep).1

theorem not_isWhitespace_of_run (h : State.initial.run p = some s) : ∀ d ∈ p, isWhitespace d = false := fun d hd =>
  Bool.eq_false_iff.2 fun hspace => kind_of_run h d hd (kind_of_isWhitespace hspace)

/-- The two exceptions stay and are not taken. -/
theorem exceptions_table (b : Bool) (s : Core) (k : Kind) (s' : State) (hstep : State.step ⟨b, s⟩ k = some s') :
    ((State.view ⟨b, s⟩).binary = true → s'.view.binary = true) ∧
      ((State.view ⟨b, s⟩).signedNan = true → s'.view.signedNan = true) ∧
      ((State.view ⟨b, s⟩).binary = false → (State.view ⟨b, s⟩).signedNan = false →
        (State.view ⟨b, s⟩).inFloatSet k = true → s'.view.binary = false ∧ s'.view.signedNan = false) := by
  have hall : ∀ (b : Bool) (s : Core) (k : Kind), ∀ s' ∈ State.step ⟨b, s⟩ k,
      ((State.view ⟨b, s⟩).binary = true → s'.view.binary = true) ∧
        ((State.view ⟨b, s⟩).signedNan = true → s'.view.signedNan = true) ∧
        ((State.view ⟨b, s⟩).binary = false → (State.view ⟨b, s⟩).signedNan = false →
          (State.view ⟨b, s⟩).inFloatSet k = true → s'.view.binary = false ∧ s'.view.signedNan = false) := by
    decide +kernel
  exact hall b s k s' hstep

/-- **What is taken of what begins a sequence**: all of it, unless there is one of the two exceptions. -/
theorem taken_iff (h : State.initial.run p = some s) :
    Taken p ↔ s.view.binary = false ∧ s.view.signedNan = false := by
  induction p using List.reverseRecOn generalizing s with
  | nil =>
    cases h
    exact iff_of_true (fun q c hq => absurd hq.length_le (by simp)) (by decide)
  | append_singleton p c ih =>
    rw [run_concat] at h
    obtain ⟨s₀, hrun, hstep⟩ := Option.bind_eq_some_iff.1 h
    obtain ⟨hbinary, hnan, hboth⟩ := exceptions_table s₀.signed s₀.core (kind c) s hstep
    have hset : s₀.view.binary = false → inFloatSet c p = s₀.view.inFloatSet (kind c) := by
      intro hb
      rw [← view_of_run hrun] at hb ⊢
      exact inFloatSet_eq (not_isWhitespace_of_run hrun) hb
    constructor
    · intro htaken
      have hbefore : Taken p := fun q d hq => htaken q d (hq.trans (List.prefix_append p [c]))
      obtain ⟨hb, hn⟩ := (ih hrun).1 hbefore
      exact hboth hb hn ((hset hb).symm.trans (htaken p c (List.prefix_refl _)))
    · rintro ⟨hb, hn⟩
      obtain ⟨hb₀, htake⟩ := takes_table s₀.signed s₀.core (kind c) s hstep hb hn
      have hn₀ : s₀.view.signedNan = false := Bool.eq_false_iff.2 fun hn₀ => by
        rw [hnan hn₀] at hn
        cases hn
      exact (through_append_iff ((ih hrun).2 ⟨hb₀, hn₀⟩)).1 ((hset hb₀).trans htake)

/-- The directive `%a`, `%e`, `%f` or `%g` -/
def directive (wr : WriteBehavior) (width : Int) : Directive := .conversion wr width .float

/-- The bytes that it takes. -/
def taken (wr : WriteBehavior) (width : Int) (u : List Char) : List Char := ((directive wr width).takeItem [] u).1

theorem taken_eq_iff (wr : WriteBehavior) (hbegins : p <+: u) (hwithin : Within width p) :
    taken wr width u = p ↔
      Taken p ∧ ∀ c, p ++ [c] <+: u → Within width (p ++ [c]) → inFloatSet c p = false := by
  have hroom : ∀ {q : List Char} (c : Char), Within width q →
      ((!(directive wr width).atFieldWidth q) = true ↔ Within width (q ++ [c])) := fun c hq => atFieldWidth_iff wr _ hq
  rw [taken, takeItem_eq_munch, munch_eq_iff]
  constructor
  · rintro ⟨-, hsteps, hstop⟩
    refine ⟨fun q c hq => ?_, fun c hc hin => ?_⟩
    · exact (Bool.and_eq_true_iff.1 (hsteps q c hq)).2
    · have hfalse := hstop c hc
      rw [(hroom c hwithin).2 hin, Bool.true_and] at hfalse
      exact hfalse
  · rintro ⟨htaken, hstop⟩
    refine ⟨hbegins, fun q c hq => ?_, fun c hc => ?_⟩
    · have hin : Within width (q ++ [c]) := fun hwidth => by
        have hle := hwithin hwidth
        have hlen := hq.length_le
        omega
      exact Bool.and_eq_true_iff.2 ⟨(hroom c hin.dropLast).2 hin, htaken q c hq⟩
    · by_cases hin : Within width (p ++ [c])
      · rw [Bool.and_eq_false_iff]
        exact .inr (hstop c hc hin)
      · rw [Bool.and_eq_false_iff]
        exact .inl (Bool.eq_false_iff.2 fun h => hin ((hroom c hwithin).1 h))

end Taken

/-! ## When it is complete -/

section Complete

variable {p word l : List Char} {s : State} {wr : WriteBehavior} {width : Int}

theorem lettersOf_eq_some {n : Nat} (hn : n ≤ word.length) : lettersOf word l = some n ↔ l = word.take n := by
  rw [lettersOf]
  constructor
  · intro h
    split at h
    · next hbegins =>
      rw [← Option.some.inj h]
      exact List.prefix_iff_eq_take.1 (List.isPrefixOf_iff_prefix.1 hbegins)
    · cases h
  · rintro rfl
    rw [if_pos (List.isPrefixOf_iff_prefix.2 (List.take_prefix n word)), List.length_take, min_eq_left hn]

/-- The letters that are no word yet. -/
theorem unfinished_eq (l : List Char) :
    (["N", "NA", "I", "IN", "INFI", "INFIN", "INFINI", "INFINIT"].any fun w => l == w.toList) =
      (((lettersOf "INFINITY".toList l).any fun n => n ∈ [1, 2, 4, 5, 6, 7]) ||
        (lettersOf "NAN".toList l).any fun n => n ∈ [1, 2]) := by
  have hinfinity : ∀ n ≤ 8, (l = "INFINITY".toList.take n ↔ lettersOf "INFINITY".toList l = some n) := fun n hn =>
    (lettersOf_eq_some hn).symm
  have hnan : ∀ n ≤ 3, (l = "NAN".toList.take n ↔ lettersOf "NAN".toList l = some n) := fun n hn =>
    (lettersOf_eq_some hn).symm
  have hinfinity' : ∀ ns : List Nat, ((lettersOf "INFINITY".toList l).any fun n => n ∈ ns) = true ↔
      ∃ n ∈ ns, lettersOf "INFINITY".toList l = some n := fun ns => by
    rw [Option.any_eq_true]
    simp [and_comm]
  have hnan' : ∀ ns : List Nat, ((lettersOf "NAN".toList l).any fun n => n ∈ ns) = true ↔
      ∃ n ∈ ns, lettersOf "NAN".toList l = some n := fun ns => by
    rw [Option.any_eq_true]
    simp [and_comm]
  rw [Bool.eq_iff_iff, Bool.or_eq_true, hinfinity', hnan']
  simp only [List.any_cons, List.any_nil, Bool.or_false, Bool.or_eq_true, beq_iff_eq, List.mem_cons, List.not_mem_nil,
    or_false, exists_eq_or_imp, exists_eq_left]
  rw [← hinfinity 1 (by decide), ← hinfinity 2 (by decide), ← hinfinity 4 (by decide), ← hinfinity 5 (by decide),
    ← hinfinity 6 (by decide), ← hinfinity 7 (by decide), ← hnan 1 (by decide), ← hnan 2 (by decide)]
  show _ ↔ (l = "I".toList ∨ l = "IN".toList ∨ l = "INFI".toList ∨ l = "INFIN".toList ∨ l = "INFINI".toList ∨
    l = "INFINIT".toList) ∨ l = "N".toList ∨ l = "NA".toList
  exact or_assoc.symm.trans or_comm

/-- There is no parenthesis. -/
theorem not_nil_of_run (h : State.initial.run p = some s) : toUpperCase p ≠ "(NIL)".toList := by
  intro heq
  cases p with
  | nil => cases heq
  | cons c p =>
    have hc : c.toUpper = '(' := (List.cons.inj heq).1
    have hparen : c = '(' := by
      rcases toUpper_cases c with hsame | hletter
      · rw [← hsame, hc]
      · rw [hc] at hletter
        exact absurd hletter (by decide)
    refine kind_of_run h c List.mem_cons_self ?_
    rw [hparen]
    decide

/-- **The rules for a complete item**, by what they see. -/
theorem directive_isCompleteItem (h : State.initial.run p = some s) (hne : p ≠ []) :
    (directive wr width).isCompleteItem p = (view p).isComplete := by
  have hempty : p.isEmpty = false := by rwa [List.isEmpty_eq_false_iff]
  have hnil := not_nil_of_run h
  have hwords := unfinished_eq (toUpperCase (stripSign p))
  show (if p.isEmpty = true then _ else !((true && !hasDigit (CSemantics.strip0xPrefix p) &&
      toUpperCase p != "(NIL)".toList) || (true && p.getLast?.any isSign) || (false && _) ||
      (true && ["N", "NA", "I", "IN", "INFI", "INFIN", "INFINI", "INFINIT"].any fun w =>
        toUpperCase (stripSign p) == w.toList))) = _
  rw [hempty, hwords, bne_iff_ne.2 hnil]
  simp only [View.isComplete, view, Bool.true_and, Bool.false_and, Bool.and_true, Bool.or_false, Bool.not_or,
    Bool.not_not, if_false, Bool.false_eq_true, Bool.and_assoc]

/-- The sign makes the text longer than what is behind it. -/
theorem strip0xPrefix_eq (h : State.initial.run p = some s) :
    (∃ S, ScanInteger.strip0xPrefix p = .ok S) ↔ ¬(p.head?.any isSign = true ∧ has0xPrefix p = true) := by
  cases hhex : has0xPrefix p with
  | false =>
    rw [ScanInteger.strip0xPrefix, hhex]
    exact iff_of_true ⟨_, rfl⟩ fun hboth => absurd hboth.2 (by decide)
  | true =>
    have hlen : 2 ≤ p.length := by
      have hlen := two_le_of_has0xPrefix hhex
      have hle : (stripSign p).length ≤ p.length := List.length_dropWhile_le _ _
      omega
    rw [ScanInteger.strip0xPrefix, hhex, if_pos rfl, substrString]
    cases hsigned : p.head?.any isSign with
    | false =>
      rw [stripSign_eq (not_isWhitespace_of_run h) hsigned, if_pos ⟨hlen, le_refl _⟩]
      refine iff_of_true ?_ fun hboth => absurd hboth.1 (by decide)
      rw [Eval.ok_bind]
      split
      · exact ⟨_, rfl⟩
      · split <;> exact ⟨_, rfl⟩
    | true =>
      have hshort : (stripSign p).length < p.length := by
        cases p with
        | nil => cases hsigned
        | cons c p =>
          have hc : isSign c = true := hsigned
          rw [stripSign, List.dropWhile_cons, hc, Bool.true_or, if_pos rfl, List.length_cons]
          exact Nat.lt_succ_of_le (List.length_dropWhile_le _ _)
      rw [if_neg fun hin => absurd hin.2 (by omega)]
      refine iff_of_false ?_ fun hboth => hboth ⟨rfl, rfl⟩
      rintro ⟨S, hS⟩
      cases hS

end Complete

/-! ## Both -/

/-- A directive reads the text as `strtod` would. -/
structure ReadsAsStrtod (wr : WriteBehavior) (width : Int) (u : List Char) : Prop where
  item : Item width u (taken wr width u)
  complete : ∃ b, ScanInteger.isCompleteItem (taken wr width u) (directive wr width) = .ok b ∧
    (b = true ↔ Subject (taken wr width u))

/-- Letters of a word, behind a sign or not -/
def Word (word : List Char) (p : List Char) : Prop := stripSign p ≠ [] ∧ toUpperCase (stripSign p) <+: word

/-- The longest beginning of a sequence has nothing that the rules do not know. -/
structure Plain (width : Int) (u p : List Char) : Prop where
  /-- no `N` behind a sign, -/
  nan : p.head?.any isSign = true → ¬Word "NAN".toList p
  /-- no exponent behind `0x`, -/
  exponent : ¬(has0xPrefix p = true ∧ hasRadix p = true)
  /-- no digit, no point, and behind a digit of base 16 no `e` that follow letters, -/
  word : ∀ c, p ++ [c] <+: u → Within width (p ++ [c]) → Word "INFINITY".toList p ∨ Word "NAN".toList p →
    ¬(isDigit c 10 = true ∨ c = '.' ∨ (c.toUpper = 'E' ∧ hasDigit p = true))
  /-- no `0x` behind a sign, -/
  signed : ¬(p.head?.any isSign = true ∧ has0xPrefix p = true)
  /-- and no exponent letter at its end. -/
  mark : ¬(hasRadix p = true ∧ (p.getLast?.any fun l => l.toUpper == 'E' || l.toUpper == 'P') = true)

section Both

variable {p word : List Char} {s : State} {wr : WriteBehavior} {width : Int} {u : List Char}

theorem word_iff : Word word p ↔ ((lettersOf word (toUpperCase (stripSign p))).any fun n => 0 < n) = true := by
  have hnil : toUpperCase (stripSign p) = [] ↔ stripSign p = [] := List.map_eq_nil_iff
  rw [Word, ← List.isPrefixOf_iff_prefix, lettersOf]
  split
  · next hbegins =>
    rw [Option.any_some, decide_eq_true_eq, List.length_pos_iff]
    exact ⟨fun h => mt hnil.1 h.1, fun h => ⟨mt hnil.2 h, hbegins⟩⟩
  · next hbegins => exact iff_of_false (fun h => hbegins h.2) (by simp)

theorem signedNan_iff : (view p).signedNan = false ↔ (p.head?.any isSign = true → ¬Word "NAN".toList p) := by
  rw [word_iff, View.signedNan, Bool.and_eq_false_imp, Bool.not_eq_true]
  rfl

theorem binary_iff : (view p).binary = false ↔ ¬(has0xPrefix p = true ∧ hasRadix p = true) := by
  rw [View.binary, ← Bool.not_eq_true, Bool.and_eq_true]
  rfl

theorem viewWord_iff : (view p).word = true ↔ Word "INFINITY".toList p ∨ Word "NAN".toList p := by
  rw [word_iff, word_iff, View.word, Bool.or_eq_true]
  rfl

theorem viable_dropLast {c : Char} (h : Within width (p ++ [c]) ∧ Viable Subject (p ++ [c])) :
    Within width p ∧ Viable Subject p := ⟨h.1.dropLast, h.2.of_isPrefix (List.prefix_append p [c])⟩

/-- **What is taken is the longest beginning** iff there is none of the first three. -/
theorem taken_longest_iff (hp : Item width u p) (hrun : State.initial.run p = some s) : taken wr width u = p ↔
    (p.head?.any isSign = true → ¬Word "NAN".toList p) ∧ ¬(has0xPrefix p = true ∧ hasRadix p = true) ∧
      ∀ c, p ++ [c] <+: u → Within width (p ++ [c]) → Word "INFINITY".toList p ∨ Word "NAN".toList p →
        ¬(isDigit c 10 = true ∨ c = '.' ∨ (c.toUpper = 'E' ∧ hasDigit p = true)) := by
  have hview := view_of_run hrun
  rw [taken_eq_iff wr hp.isPrefix hp.holds.1, taken_iff hrun, ← hview, binary_iff, signedNan_iff, and_assoc,
    and_left_comm]
  refine and_congr_right fun hnan => and_congr_right fun hbinary => forall_congr' fun c => ?_
  refine forall_congr' fun hc => forall_congr' fun hin => ?_
  -- the byte behind the longest beginning does not go on with it
  have hstep : s.step (kind c) = none := by
    cases hstep : s.step (kind c) with
    | none => rfl
    | some s' =>
      have hviable : Viable Subject (p ++ [c]) := viable_iff_run.2 ⟨s', by rw [run_concat, hrun]; exact hstep⟩
      have hlen := hp.longest _ hc ⟨hin, hviable⟩
      rw [List.length_append, List.length_singleton] at hlen
      omega
  have hb := binary_iff.2 hbinary
  have hn := signedNan_iff.2 hnan
  have hstops := stops_table s.signed s.core (kind c) hstep (hview ▸ hb) (hview ▸ hn)
  have hset := inFloatSet_eq (c := c) (not_isWhitespace_of_run hrun) hb
  rw [← Bool.not_eq_true, hset, hview, hstops]
  show ¬(s.view.word = true ∧ _) ↔ _
  rw [← hview, viewWord_iff, ← isDigit_decimal, ← eq_dot_iff, kind_iff (U := 'E') (by decide) rfl, not_and]
  rfl

/-- **Complete** is what it should be iff there is none of the last two. -/
theorem complete_iff (hrun : State.initial.run p = some s) :
    (∃ b, ScanInteger.isCompleteItem p (directive wr width) = .ok b ∧ (b = true ↔ Subject p)) ↔
      ¬(p.head?.any isSign = true ∧ has0xPrefix p = true) ∧
        ¬(hasRadix p = true ∧ (p.getLast?.any fun l => l.toUpper == 'E' || l.toUpper == 'P') = true) := by
  have hview := view_of_run hrun
  have hsubject : Subject p ↔ s.core.accepts = true := by
    rw [subject_iff, hrun]
    simp
  rw [hsubject]
  by_cases hne : p = []
  · subst hne
    cases hrun
    refine iff_of_true ⟨false, rfl, by decide⟩ ⟨by decide, by decide⟩
  · have hnumeric : (directive wr width).isNumericDirective = true := rfl
    have hempty : (!p.isEmpty) = true := by simpa using hne
    have hmark : (hasRadix p = true ∧ (p.getLast?.any fun l => l.toUpper == 'E' || l.toUpper == 'P') = true) ↔
        s.view.mark = true := by
      rw [← hview, ← Bool.and_eq_true]
      rfl
    have hcomplete := complete_table s.signed s.core
    have hitem : (directive wr width).isCompleteItem p = (s.core.accepts || s.view.mark) := by
      rw [directive_isCompleteItem hrun hne, hview]
      exact hcomplete
    have hnot : s.view.mark = true → s.core.accepts = false := by
      have hall : ∀ (b : Bool) (s : Core), (State.view ⟨b, s⟩).mark = true → s.accepts = false := by decide
      exact hall s.signed s.core
    rw [← strip0xPrefix_eq hrun, hmark, ScanInteger.isCompleteItem, hempty, hnumeric, Bool.and_true, if_pos rfl, hitem]
    cases hstrip : ScanInteger.strip0xPrefix p with
    | error e =>
      refine iff_of_false ?_ ?_
      · rintro ⟨b, hb, -⟩
        cases hb
      · rintro ⟨⟨S, hS⟩, -⟩
        cases hS
    | ok S =>
      rw [Eval.ok_bind]
      cases hm : s.view.mark with
      | false => exact iff_of_true ⟨_, rfl, by rw [Bool.or_false]⟩ ⟨⟨S, rfl⟩, by decide⟩
      | true =>
        refine iff_of_false ?_ fun h => h.2 rfl
        rintro ⟨b, hb, hiff⟩
        cases hb
        rw [Bool.or_true, hnot hm] at hiff
        exact absurd (hiff.1 rfl) (by decide)

/-- **The floating conversions** read as `strtod` iff the longest beginning is plain. -/
theorem reads_as_strtod_iff (wr : WriteBehavior) (width : Int) (u : List Char) :
    ReadsAsStrtod wr width u ↔ ∀ p, Item width u p → Plain width u p := by
  have hnil : Within width [] ∧ Viable Subject [] := by
    refine ⟨fun hwidth => ?_, viable_iff_run.2 ⟨.initial, rfl⟩⟩
    rw [List.length_nil]
    omega
  obtain ⟨p, hp⟩ : ∃ p, Item width u p :=
    exists_longest (V := fun p => Within width p ∧ Viable Subject p) (fun q c h => viable_dropLast h) hnil u
  obtain ⟨s, hrun⟩ := viable_iff_run.1 hp.holds.2
  have hall : (∀ q, Item width u q → Plain width u q) ↔ Plain width u p :=
    ⟨fun h => h p hp, fun h q hq => hp.unique hq ▸ h⟩
  have hitem : Item width u (taken wr width u) ↔ taken wr width u = p :=
    ⟨fun h => h.unique hp, fun h => h.symm ▸ hp⟩
  rw [hall]
  constructor
  · intro h
    have ht := hitem.1 h.item
    obtain ⟨hnan, hexponent, hword⟩ := (taken_longest_iff hp hrun).1 ht
    obtain ⟨hsigned, hmark⟩ := (complete_iff hrun).1 (ht ▸ h.complete)
    exact ⟨hnan, hexponent, hword, hsigned, hmark⟩
  · intro h
    have ht : taken wr width u = p := (taken_longest_iff hp hrun).2 ⟨h.nan, h.exponent, h.word⟩
    exact ⟨hitem.2 ht, ht.symm ▸ (complete_iff hrun).2 ⟨h.signed, h.mark⟩⟩

end Both

/-- Behind `0x1` the rules stop at `p`; what they took is complete. -/
theorem percent_a_stops_at_p :
    taken .dirWrite 0 "0x1p4".toList = "0x1".toList ∧ Subject "0x1p4".toList ∧
      ¬ReadsAsStrtod .dirWrite 0 "0x1p4".toList := by
  have hsubject : Subject "0x1p4".toList := subject_iff.2 ⟨⟨false, .exp .hex⟩, by decide, rfl⟩
  have htaken : taken .dirWrite 0 "0x1p4".toList = "0x1".toList := by decide
  refine ⟨htaken, hsubject, fun h => ?_⟩
  have hwithin : Within 0 "0x1p4".toList := fun hwidth => absurd hwidth (by decide)
  have hlen := h.item.longest _ (List.prefix_refl _) ⟨hwithin, viable_of_mem hsubject⟩
  rw [htaken] at hlen
  exact absurd hlen (by decide)

end CSemantics.ScanFloat
