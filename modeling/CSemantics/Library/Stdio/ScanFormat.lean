/-
  The format of `fscanf`.

  `parseFormat` reads one directive after the other.  Before a conversion that skips white space it puts
  the directive `whitespace`, unless the format has it there.

  A scan list is written again as a string with its prefix, `[` or `[^`, and each range in full; whether a
  character is in it is a search in that string.

      Reads                  one directive and what is left of the format
      parseFormat_iff        what a format is split into
      Listed                 the members of a scan list
      scanSetRight_iff       when the search finds exactly them

  There are two differences.  The end of the input is the empty string, which no search finds, so it is in
  every NEGATED list.  And a `]` in front is kept apart from the rest, so that `]-a` is no range.
-/
import CSemantics.Library.Stdio.Scanf

namespace CSemantics.ScanFormat

/-! ## Directives -/

/-- A directive as it is parsed: `D` is the text of the conversion specifier. -/
inductive FormatDirective
  /-- `%(Write, Width, Length, D)` -/
  | conversion (write : WriteBehavior) (width : ℕ) (length D : List Char)
  /-- `%%` -/
  | percent
  | whitespace
  | stringDir (c : Char)
  deriving DecidableEq, Repr

/-- The value of digits, and 0 where there are none, as in most directives. -/
def string2Int (S : List Char) : ℕ := S.foldl (fun n c => 10 * n + (c.toNat - '0'.toNat)) 0

def eatWhitespace (L : List Char) : List Char := L.dropWhile isWhitespace

def parseDigits (L : List Char) : ℕ := string2Int (L.takeWhile (isDigit · 10))

def eatDigits (L : List Char) : List Char := L.dropWhile (isDigit · 10)

/-- `parseString'("]", L)` -/
def parseString (L : List Char) : List Char × List Char := (L.takeWhile (· ≠ ']'), L.dropWhile (· ≠ ']'))

def parseLengthMod : List Char → List Char × List Char
  | 'h' :: 'h' :: L => (['h', 'h'], L)
  | 'h' :: L => (['h'], L)
  | 'l' :: 'l' :: L => (['l', 'l'], L)
  | 'l' :: L => (['l'], L)
  | C :: L => if C = 'j' ∨ C = 'z' ∨ C = 't' ∨ C = 'L' then ([C], L) else ([], C :: L)
  | [] => ([], [])

/-- `chrChar(ordChar(C) +Int 1)`.  Bytes have no surrogates; here they are passed over. -/
def nextChar (C : Char) : Char := if C.toNat = 0xD7FF then .ofNat 0xE000 else .ofNat (C.toNat + 1)

theorem nextChar_spec {C End : Char} (h : C.toNat < End.toNat) :
    C.toNat < (nextChar C).toNat ∧ (nextChar C).toNat ≤ End.toNat := by
  have hvalid : ∀ n : ℕ, n.isValidChar → (Char.ofNat n).toNat = n := by
    intro n hn
    rw [Char.ofNat, dif_pos hn]
    simp [Char.ofNatAux, Char.toNat]
  have hEnd : End.toNat.isValidChar := End.valid
  have hC : C.toNat.isValidChar := C.valid
  unfold nextChar
  unfold Nat.isValidChar at hEnd hC
  split
  · next hgap =>
    rw [hvalid _ (by decide)]
    omega
  · next hgap =>
    rw [hvalid _ (by unfold Nat.isValidChar; omega)]
    omega

/-- `C` comes first. -/
def expandRangesFrom (C : Char) : List Char → List Char
  | [] => [C]
  | '-' :: End :: L =>
    if C.toNat < End.toNat - 1 then C :: expandRangesFrom (nextChar C) ('-' :: End :: L)
    else if C.toNat ≤ End.toNat then C :: expandRangesFrom End L
    else C :: '-' :: expandRangesFrom End L
  | C' :: L => C :: expandRangesFrom C' L
termination_by L => (L.length, (L[1]?.elim 0 Char.toNat) - C.toNat)
decreasing_by
  · have := @nextChar_spec C End (by omega)
    right
    simp
    omega
  · left
    show L.length < L.length + 2
    omega
  · left
    show L.length < L.length + 2
    omega
  · left
    show L.length < L.length + 1
    omega

def expandRanges (S : List Char) : List Char :=
  match S with
  | C :: L => if 3 ≤ S.length then expandRangesFrom C L else S
  | [] => []

def letters : List Char :=
  ['d', 'i', 'o', 'u', 'x', 'X', 'a', 'A', 'e', 'E', 'f', 'F', 'g', 'G', 'c', 's', 'p', 'n']

/-- The string of a scan list whose text, up to the `]` that ends it, is `T`. -/
def scanList (caret T : List Char) : List Char :=
  match T with
  | ']' :: T => '[' :: caret ++ ']' :: expandRanges T
  | T => '[' :: caret ++ expandRanges T

/-- After `[` or `[^`: up to the next `]`, a first one apart, and what is behind it. -/
def parseScanList (caret : List Char) : List Char → List Char × List Char
  | ']' :: L => (scanList caret (']' :: (parseString L).1), (parseString L).2.tail)
  | L => (scanList caret (parseString L).1, (parseString L).2.tail)

/-- The conversion specifier, empty where there is none. -/
def parseConvSpec : List Char → List Char × List Char
  | '[' :: '^' :: L => parseScanList ['^'] L
  | '[' :: L => parseScanList [] L
  | C :: L => if C ∈ letters then ([C], L) else ([], C :: L)
  | [] => ([], [])

/-- The directive after `%` and what says where the item goes. -/
def parseConversion (write : WriteBehavior) (L : List Char) : FormatDirective × List Char :=
  let (length, rest) := parseLengthMod (eatDigits L)
  let (D, rest) := parseConvSpec rest
  (.conversion write (parseDigits L) length D, rest)

def parseDirective : List Char → FormatDirective × List Char
  | '%' :: '%' :: L => (.percent, L)
  | '%' :: '*' :: L => parseConversion .dirRead L
  | '%' :: 'm' :: L => parseConversion .dirAlloc L
  | '%' :: L => parseConversion .dirWrite L
  | C :: L => if isWhitespace C then (.whitespace, eatWhitespace L) else (.stringDir C, L)
  | [] => (.whitespace, [])

/-- Does this directive require skipping leading whitespace?  The empty string has no first character. -/
def isSpaceSkipDirective : FormatDirective → Option Bool
  | .stringDir _ => some false
  | .whitespace => some false
  | .conversion _ _ _ D =>
    match D with
    | [] => none
    | '[' :: _ => some false
    | D => some (D ≠ ['c'] && D ≠ ['n'])
  | .percent => some true

def normalizeDirective : FormatDirective → FormatDirective
  | .conversion write 0 length ['c'] => .conversion write 1 length ['c']
  | .conversion write width length ['X'] => .conversion write width length ['x']
  | .conversion write width length ['A'] => .conversion write width length ['a']
  | .conversion write width length ['E'] => .conversion write width length ['e']
  | .conversion write width length ['F'] => .conversion write width length ['f']
  | .conversion write width length ['G'] => .conversion write width length ['g']
  | D => D

/-! ## What is left gets shorter -/

theorem length_dropWhile_le (q : Char → Bool) (L : List Char) : (L.dropWhile q).length ≤ L.length :=
  (List.dropWhile_suffix q).length_le

theorem length_parseLengthMod (L : List Char) : (parseLengthMod L).2.length ≤ L.length := by
  unfold parseLengthMod
  split
  case h_5 C L _ _ =>
    split
    · exact Nat.le_succ _
    · exact Nat.le_refl _
  all_goals
    simp only [List.length_cons, List.length_nil]
    omega

theorem length_parseString_tail (L : List Char) : (parseString L).2.tail.length ≤ L.length :=
  calc (parseString L).2.tail.length
      ≤ (parseString L).2.length := by rw [List.length_tail]; exact Nat.sub_le _ _
    _ ≤ L.length := length_dropWhile_le (· ≠ ']') L

theorem length_parseScanList (caret L : List Char) : (parseScanList caret L).2.length ≤ L.length := by
  unfold parseScanList
  split
  · exact Nat.le_succ_of_le (length_parseString_tail _)
  · exact length_parseString_tail _

theorem length_parseConvSpec (L : List Char) : (parseConvSpec L).2.length ≤ L.length := by
  unfold parseConvSpec
  split
  · next L =>
    have := length_parseScanList ['^'] L
    rw [List.length_cons, List.length_cons]
    omega
  · next L _ =>
    have := length_parseScanList [] L
    rw [List.length_cons]
    omega
  · split <;> simp
  · simp

theorem length_parseConversion (write : WriteBehavior) (L : List Char) :
    (parseConversion write L).2.length ≤ L.length :=
  calc (parseConversion write L).2.length
      = (parseConvSpec (parseLengthMod (eatDigits L)).2).2.length := rfl
    _ ≤ (parseLengthMod (eatDigits L)).2.length := length_parseConvSpec _
    _ ≤ (eatDigits L).length := length_parseLengthMod _
    _ ≤ L.length := length_dropWhile_le _ L

theorem length_parseDirective {L : List Char} (hL : L ≠ []) : (parseDirective L).2.length < L.length := by
  unfold parseDirective
  split
  case h_1 L => exact Nat.lt_succ_of_lt (Nat.lt_succ_self _)
  case h_2 L => exact Nat.lt_succ_of_lt (Nat.lt_succ_of_le (length_parseConversion .dirRead L))
  case h_3 L => exact Nat.lt_succ_of_lt (Nat.lt_succ_of_le (length_parseConversion .dirAlloc L))
  case h_4 L _ _ _ => exact Nat.lt_succ_of_le (length_parseConversion .dirWrite L)
  case h_5 C L _ _ _ _ =>
    split
    · exact Nat.lt_succ_of_le (length_dropWhile_le isWhitespace L)
    · exact Nat.lt_succ_self _
  case h_6 => exact absurd rfl hL

/-- `parseFormat'(parseDirective(L), B)`, where `B` says that the directive before was `whitespace`. -/
def parseFormat' (B : Bool) (L : List Char) : Option (List FormatDirective) :=
  if h : L = [] then some []
  else do
    let D := (parseDirective L).1
    if ← isSpaceSkipDirective D then
      let Ds ← parseFormat' false (parseDirective L).2
      return (if B then [] else [.whitespace]) ++ normalizeDirective D :: Ds
    else
      let Ds ← parseFormat' (D = .whitespace) (parseDirective L).2
      return normalizeDirective D :: Ds
termination_by L.length
decreasing_by all_goals exact length_parseDirective h

def parseFormat (L : List Char) : Option (List FormatDirective) := parseFormat' false L

/-! ## Scan lists -/

/-- `findChar(D, C, I)`: the place of the first character of `C`, from `I` on. -/
def findChar (D C : List Char) (I : ℕ) : Int :=
  match (D.drop I).findIdx? (· ∈ C) with
  | some k => (I + k : ℕ)
  | none => -1

/-- The rule of `inScanSet` for scan lists; `D` has two characters at least. -/
def inScanSet (C D : List Char) : Option Bool :=
  if D.length < 2 then none
  else some ((D.take 2 = ['[', '^'] && findChar D C 2 = -1) || (D.take 2 ≠ ['[', '^'] && findChar D C 1 ≠ -1))

/-! ## What a format is -/

/-- The text of a scan list, between `[` or `[^` and the `]` that ends it. -/
structure ScanText where
  negated : Bool
  text : List Char
  nonempty : text ≠ []
  closed : ']' ∉ text.tail
  noCaret : negated = false → text.head? ≠ some '^'

def caretOf (negated : Bool) : List Char := if negated then ['^'] else []

def ScanText.D (T : ScanText) : List Char := scanList (caretOf T.negated) T.text

/-- A conversion specifier in front of a format; the last scan list can lack its `]`. -/
inductive ReadsConvSpec : List Char → List Char → List Char → Prop
  | letter {c : Char} {L : List Char} : c ∈ letters → ReadsConvSpec (c :: L) [c] L
  | scanList (T : ScanText) {L : List Char} :
      ReadsConvSpec ('[' :: caretOf T.negated ++ T.text ++ ']' :: L) T.D L
  | unterminated {negated : Bool} {text : List Char} : ']' ∉ text.tail → (negated = false → text.head? ≠ some '^') →
      ReadsConvSpec ('[' :: caretOf negated ++ text) (ScanFormat.scanList (caretOf negated) text) []

/-- What can be behind the `%`. -/
inductive Writes : WriteBehavior → List Char → Prop
  | dirWrite : Writes .dirWrite []
  | dirRead : Writes .dirRead ['*']
  | dirAlloc : Writes .dirAlloc ['m']

def lengthModifiers : List (List Char) := [[], ['h', 'h'], ['h'], ['l', 'l'], ['l'], ['j'], ['z'], ['t'], ['L']]

/-- One directive in front of a format: all white space, or one character, or one conversion specification. -/
inductive Reads : List Char → FormatDirective → List Char → Prop
  | whitespace {w L : List Char} : w ≠ [] → (∀ c ∈ w, isWhitespace c = true) →
      (∀ c ∈ L.head?, isWhitespace c = false) → Reads (w ++ L) .whitespace L
  | stringDir {c : Char} {L : List Char} : c ≠ '%' → isWhitespace c = false → Reads (c :: L) (.stringDir c) L
  | percent {L : List Char} : Reads ('%' :: '%' :: L) .percent L
  | conversion {write : WriteBehavior} {flag digits length text D L : List Char} : Writes write flag →
      (∀ c ∈ digits, isDigit c 10 = true) → length ∈ lengthModifiers → ReadsConvSpec text D L →
      Reads ('%' :: flag ++ digits ++ length ++ text) (.conversion write (string2Int digits) length D) L

/-- Every character belongs to one directive. -/
inductive Splits : List Char → List FormatDirective → Prop
  | nil : Splits [] []
  | cons {L L' : List Char} {D : FormatDirective} {Ds : List FormatDirective} : Reads L D L' → Splits L' Ds →
      Splits L (D :: Ds)

/-- Conversions other than `%c`, `%[` and `%n`. -/
def SkipsSpace : FormatDirective → Prop
  | .conversion _ _ _ D => D ≠ ['c'] ∧ D ≠ ['n'] ∧ D.head? ≠ some '['
  | .percent => True
  | _ => False

instance : (D : FormatDirective) → Decidable (SkipsSpace D)
  | .conversion _ _ _ _ => inferInstanceAs (Decidable (_ ∧ _ ∧ _))
  | .percent => .isTrue trivial
  | .whitespace => .isFalse id
  | .stringDir _ => .isFalse id

/-- White space before each directive that skips it, where there is none. -/
def withSkips : Bool → List FormatDirective → List FormatDirective
  | _, [] => []
  | afterSpace, D :: Ds =>
    (if SkipsSpace D ∧ afterSpace = false then [.whitespace] else []) ++ D :: withSkips (D = .whitespace) Ds

/-- The members of a scan list.  A range is `a-b` with `a ≤ b`; a hyphen elsewhere is itself. -/
def Listed : List Char → Char → Prop
  | a :: '-' :: b :: T, x => if a ≤ b then a ≤ x ∧ x ≤ b ∨ Listed (b :: T) x else x = a ∨ x = '-' ∨ Listed (b :: T) x
  | a :: T, x => x = a ∨ Listed T x
  | [], _ => False

/-- What a scan list accepts; the end of the input, never. -/
def ScanText.Accepts (T : ScanText) : Option Char → Prop
  | some c => if T.negated then ¬ Listed T.text c else Listed T.text c
  | none => False

/-- The search finds exactly what the scan list accepts. -/
def ScanSetRight (T : ScanText) : Prop := ∀ C : Option Char, inScanSet C.toList T.D = some true ↔ T.Accepts C

/-- The hyphen behind a first `]` can be read as itself: the members are the same. -/
def PlainHyphen (T : List Char) : Prop :=
  ∀ b L, T = ']' :: '-' :: b :: L → ∀ x, Listed T x ↔ x = ']' ∨ Listed ('-' :: b :: L) x

/-! ## The members of a scan list -/

theorem listed_head (a : Char) (T : List Char) : Listed (a :: T) a := by
  unfold Listed
  split
  · next b T _ heq =>
    obtain ⟨rfl, -⟩ := List.cons.inj heq
    split
    · next hle => exact .inl ⟨Char.le_refl _, hle⟩
    · exact .inl rfl
  · next heq =>
    obtain ⟨rfl, -⟩ := List.cons.inj heq
    exact .inl rfl
  · next heq => exact absurd heq (List.cons_ne_nil _ _)

theorem listed_range {a b : Char} {T : List Char} {x : Char} (h : a ≤ b) :
    Listed (a :: '-' :: b :: T) x ↔ a ≤ x ∧ x ≤ b ∨ Listed (b :: T) x := by
  rw [Listed, if_pos h]

theorem listed_no_range {a b : Char} {T : List Char} {x : Char} (h : ¬ a ≤ b) :
    Listed (a :: '-' :: b :: T) x ↔ x = a ∨ x = '-' ∨ Listed (b :: T) x := by
  rw [Listed, if_neg h]

theorem listed_cons {a : Char} {T : List Char} (h : ∀ b T', T ≠ '-' :: b :: T') (x : Char) :
    Listed (a :: T) x ↔ x = a ∨ Listed T x := by
  conv => lhs; unfold Listed
  split
  · next heq => exact absurd (List.cons.inj heq).2 (h _ _)
  · next heq =>
    obtain ⟨rfl, rfl⟩ := List.cons.inj heq
    exact Iff.rfl
  · next heq => exact absurd heq (List.cons_ne_nil _ _)

theorem char_le_iff {a b : Char} : a ≤ b ↔ a.toNat ≤ b.toNat := Iff.rfl

/-- **The range in full.** -/
theorem mem_expandRangesFrom (C : Char) (L : List Char) (x : Char) :
    x ∈ expandRangesFrom C L ↔ Listed (C :: L) x := by
  fun_induction expandRangesFrom C L with
  | case1 C =>
    rw [List.mem_singleton, listed_cons fun _ _ => (List.cons_ne_nil _ _).symm]
    exact (or_false _).symm.to_iff
  | case2 C End L hlt ih =>
    obtain ⟨hnext, hle⟩ := @nextChar_spec C End (by omega)
    have hC : C ≤ End := char_le_iff.2 (by omega)
    rw [List.mem_cons, ih, listed_range hC, listed_range (char_le_iff.2 hle), ← or_assoc]
    refine or_congr_left ⟨?_, ?_⟩
    · rintro (rfl | ⟨hlo, hhi⟩)
      · exact ⟨Char.le_refl _, hC⟩
      · exact ⟨char_le_iff.2 (by have := char_le_iff.1 hlo; omega), hhi⟩
    · rintro ⟨hlo, hhi⟩
      by_cases hx : x = C
      · exact .inl hx
      · have hne : x.toNat ≠ C.toNat := fun h => hx (Char.toNat_inj.1 h)
        have := char_le_iff.1 hlo
        exact .inr ⟨char_le_iff.2 (@nextChar_spec C x (by omega)).2, hhi⟩
  | case3 C End L hlt hle ih =>
    rw [List.mem_cons, ih, listed_range (char_le_iff.2 hle)]
    constructor
    · rintro (rfl | h)
      · exact .inl ⟨Char.le_refl _, char_le_iff.2 hle⟩
      · exact .inr h
    · rintro (⟨hlo, hhi⟩ | h)
      · -- the two ends are next to each other
        by_cases hx : x = C
        · exact .inl hx
        · have hne : x.toNat ≠ C.toNat := fun h => hx (Char.toNat_inj.1 h)
          have := char_le_iff.1 hlo
          have := char_le_iff.1 hhi
          have hend : x = End := Char.toNat_inj.1 (by omega)
          exact .inr (hend ▸ listed_head End L)
      · exact .inr h
  | case4 C End L hlt hle ih =>
    rw [List.mem_cons, List.mem_cons, ih, listed_no_range hle]
  | case5 C C' L hno ih =>
    have hno' : ∀ b T, C' :: L ≠ '-' :: b :: T := by
      intro b T heq
      obtain ⟨hhyphen, hrest⟩ := List.cons.inj heq
      exact hno b T hhyphen hrest
    rw [List.mem_cons, ih, ← listed_cons hno']

theorem mem_expandRanges (S : List Char) (x : Char) : x ∈ expandRanges S ↔ Listed S x := by
  match S with
  | [] => exact ⟨fun h => absurd h List.not_mem_nil, fun h => h.elim⟩
  | C :: L =>
    rw [expandRanges]
    split
    · exact mem_expandRangesFrom C L x
    · next hlen =>
      have hshort : ∀ b T', L ≠ '-' :: b :: T' := by
        rintro b T' rfl
        simp at hlen
      match L, hshort, hlen with
      | [], hshort, _ =>
        rw [listed_cons hshort, List.mem_singleton]
        exact (or_false _).symm.to_iff
      | [c], hshort, _ =>
        rw [listed_cons hshort, listed_cons fun _ _ => (List.cons_ne_nil _ _).symm, List.mem_cons, List.mem_singleton]
        exact or_congr_right (or_false _).symm.to_iff
      | _ :: _ :: _, _, hlen => exact absurd (by simp) hlen

theorem head?_expandRanges (S : List Char) : (expandRanges S).head? = S.head? := by
  match S with
  | [] => rfl
  | C :: L =>
    rw [expandRanges]
    split
    · unfold expandRangesFrom
      split <;> try rfl
      split
      · rfl
      · split <;> rfl
    · rfl

/-! ## The search -/

/-- What is behind `[` or `[^` in the string of a scan list. -/
def scanBody (T : List Char) : List Char :=
  match T with
  | ']' :: T => ']' :: expandRanges T
  | T => expandRanges T

theorem scanList_eq (caret T : List Char) : scanList caret T = '[' :: caret ++ scanBody T := by
  unfold scanList scanBody
  split <;> rfl

theorem head?_scanBody (T : List Char) : (scanBody T).head? = T.head? := by
  unfold scanBody
  split
  · rfl
  · exact head?_expandRanges T

theorem findChar_ne (D C : List Char) (I : ℕ) : findChar D C I ≠ -1 ↔ ∃ c ∈ C, c ∈ D.drop I := by
  rw [findChar]
  split
  · next k hk =>
    obtain ⟨hlt, hp, -⟩ := List.findIdx?_eq_some_iff_getElem.1 hk
    refine ⟨fun _ => ⟨_, by simpa using hp, List.getElem_mem hlt⟩, fun _ => by omega⟩
  · next hk =>
    refine ⟨fun h => absurd rfl h, ?_⟩
    rintro ⟨c, hc, hmem⟩
    have := List.findIdx?_eq_none_iff.1 hk c hmem
    simp [hc] at this

/-- The marker in front of the string tells a negated list. -/
theorem inScanSet_D (T : ScanText) (C : List Char) :
    inScanSet C T.D = some true ↔
      if T.negated then ¬ ∃ c ∈ C, c ∈ scanBody T.text else ∃ c ∈ C, c ∈ scanBody T.text := by
  obtain ⟨b, rest, hbody⟩ : ∃ b rest, scanBody T.text = b :: rest := by
    cases hb : scanBody T.text with
    | nil =>
      have hhead := head?_scanBody T.text
      rw [hb] at hhead
      exact absurd (List.head?_eq_none_iff.1 hhead.symm) T.nonempty
    | cons b rest => exact ⟨b, rest, rfl⟩
  have hcaret : T.negated = false → b ≠ '^' := by
    intro hneg hb
    refine T.noCaret hneg ?_
    rw [← head?_scanBody, hbody, hb]
    rfl
  rw [ScanText.D, scanList_eq, hbody]
  cases hneg : T.negated with
  | true =>
    show inScanSet C ('[' :: '^' :: b :: rest) = _ ↔ ¬ _
    have hfind := findChar_ne ('[' :: '^' :: b :: rest) C 2
    rw [inScanSet, if_neg (by simp)]
    simp only [List.take_succ_cons, List.take_zero, decide_true, Bool.true_and, ne_eq, not_true_eq_false,
      decide_false, Bool.false_and, Bool.or_false, Option.some.injEq, decide_eq_true_iff]
    rw [← not_iff_not, not_not]
    exact hfind
  | false =>
    show inScanSet C ('[' :: b :: rest) = _ ↔ _
    have hfind := findChar_ne ('[' :: b :: rest) C 1
    have hb := hcaret hneg
    rw [inScanSet, if_neg (by simp)]
    simp only [List.take_succ_cons, List.take_zero, List.cons.injEq, hb, and_true, and_false, decide_false,
      Bool.false_and, ne_eq, not_false_eq_true, decide_true, Bool.true_and, Bool.false_or, Option.some.injEq,
      decide_not, Bool.not_eq_true', decide_eq_false_iff_not]
    exact hfind

/-- A first `]` is apart from the rest. -/
theorem mem_scanBody_iff (T : List Char) : (∀ x, x ∈ scanBody T ↔ Listed T x) ↔ PlainHyphen T := by
  unfold scanBody
  split
  · next T =>
    simp only [List.mem_cons, mem_expandRanges]
    by_cases hT : ∃ b L, T = '-' :: b :: L
    · obtain ⟨b, L, rfl⟩ := hT
      constructor
      · intro h b' L' heq x
        cases heq
        exact (h x).symm
      · exact fun h x => (h b L rfl x).symm
    · refine ⟨fun _ b L heq => absurd ⟨b, L, (List.cons.inj heq).2⟩ hT, fun _ x => ?_⟩
      exact (listed_cons (fun b L heq => hT ⟨b, L, heq⟩) x).symm
  · next T hT =>
    refine ⟨fun _ b L heq => absurd heq (hT _), fun _ x => mem_expandRanges _ x⟩

/-- **Scan lists.**  The characters are right where the hyphen is, and the end of the input is in every
    negated list. -/
theorem scanSetRight_iff (T : ScanText) : ScanSetRight T ↔ T.negated = false ∧ PlainHyphen T.text := by
  constructor
  · intro h
    have hneg : T.negated = false := by
      by_contra hne
      have hneg : T.negated = true := by simpa using hne
      refine (h none).1 ?_
      rw [inScanSet_D, if_pos hneg]
      rintro ⟨c, hc, -⟩
      exact absurd hc List.not_mem_nil
    refine ⟨hneg, (mem_scanBody_iff T.text).1 fun x => ?_⟩
    have hx := h (some x)
    rw [inScanSet_D, ScanText.Accepts, hneg] at hx
    simpa using hx
  · rintro ⟨hneg, hplain⟩ C
    rw [inScanSet_D, hneg]
    have hbody := (mem_scanBody_iff T.text).2 hplain
    match C with
    | none => exact ⟨fun ⟨c, hc, _⟩ => absurd hc List.not_mem_nil, fun h => h.elim⟩
    | some x =>
      rw [ScanText.Accepts, hneg]
      simpa using hbody x

/-! ## Conversion specifiers -/

theorem takeWhile_append_stop {q : Char → Bool} {w L : List Char} (hw : ∀ c ∈ w, q c = true)
    (hL : ∀ c ∈ L.head?, q c = false) :
    (w ++ L).takeWhile q = w ∧ (w ++ L).dropWhile q = L := by
  have hstop : L.takeWhile q = [] ∧ L.dropWhile q = L := by
    match L, hL with
    | [], _ => exact ⟨rfl, rfl⟩
    | c :: L, hL =>
      have hc : ¬ q c = true := by rw [hL c rfl]; exact Bool.false_ne_true
      exact ⟨List.takeWhile_cons_of_neg hc, List.dropWhile_cons_of_neg hc⟩
  rw [List.takeWhile_append_of_pos hw, List.dropWhile_append_of_pos hw, hstop.1, hstop.2, List.append_nil]
  exact ⟨rfl, rfl⟩

theorem head?_dropWhile_stop {q : Char → Bool} {L : List Char} : ∀ c ∈ (L.dropWhile q).head?, q c = false := by
  intro c hc
  have := List.head?_dropWhile_not q L
  rw [Option.mem_def.1 hc] at this
  simpa using this

theorem parseString_append {T L : List Char} (hT : ']' ∉ T) (hL : ∀ c ∈ L.head?, c = ']') :
    parseString (T ++ L) = (T, L) := by
  have hw : ∀ c ∈ T, decide (c ≠ ']') = true := by
    intro c hc
    rw [decide_eq_true_iff]
    rintro rfl
    exact hT hc
  obtain ⟨h1, h2⟩ := takeWhile_append_stop hw fun c hc => by simpa using hL c hc
  rw [parseString, h1, h2]

/-- Up to the `]` that ends it, or to the end of the format. -/
theorem parseScanList_append {caret T L : List Char} (hT : ']' ∉ T.tail) (hL : ∀ c ∈ L.head?, c = ']')
    (hne : T = [] → L = []) : parseScanList caret (T ++ L) = (scanList caret T, L.tail) := by
  match T, hT, hne with
  | [], _, hne => rw [hne rfl]; rfl
  | c :: T, hT, _ =>
    by_cases hc : c = ']'
    · subst hc
      show (scanList caret (']' :: (parseString (T ++ L)).1), (parseString (T ++ L)).2.tail) = _
      rw [parseString_append (show ']' ∉ T from hT) hL]
    · have hT' : ']' ∉ c :: T := by
        intro h
        rcases List.mem_cons.1 h with h | h
        · exact hc h.symm
        · exact hT h
      rw [parseScanList]
      · rw [parseString_append hT' hL]
      · intro L' heq
        exact hc (List.cons.inj heq).1

theorem parseConvSpec_caret {negated : Bool} {T L : List Char} (hhead : negated = false → (T ++ L).head? ≠ some '^') :
    parseConvSpec ('[' :: caretOf negated ++ (T ++ L)) = parseScanList (caretOf negated) (T ++ L) := by
  cases negated with
  | true => rfl
  | false =>
    show parseConvSpec ('[' :: (T ++ L)) = _
    rw [parseConvSpec]
    · rfl
    · intro L' heq
      refine hhead rfl ?_
      rw [heq]
      rfl

theorem letters_ne {c : Char} (h : c ∈ letters) : c ≠ '[' := by
  rintro rfl
  exact absurd h (by decide)

theorem scanList_ne_nil (caret T : List Char) : scanList caret T ≠ [] := by
  rw [scanList_eq]
  exact List.cons_ne_nil _ _

theorem ReadsConvSpec.parse {text D L : List Char} (h : ReadsConvSpec text D L) :
    parseConvSpec text = (D, L) ∧ D ≠ [] := by
  cases h with
  | letter hc =>
    refine ⟨?_, List.cons_ne_nil _ _⟩
    rw [parseConvSpec]
    · rw [if_pos hc]
    · rintro L' rfl
      exact absurd rfl (letters_ne hc)
    · rintro rfl
      exact absurd rfl (letters_ne hc)
  | scanList T =>
    refine ⟨?_, scanList_ne_nil _ _⟩
    have hhead : T.negated = false → (T.text ++ ']' :: L).head? ≠ some '^' := by
      intro hneg
      rw [List.head?_append_of_ne_nil _ T.nonempty]
      exact T.noCaret hneg
    rw [List.append_assoc, parseConvSpec_caret hhead,
      parseScanList_append T.closed (by rintro c ⟨⟩; rfl) fun h => absurd h T.nonempty]
    rfl
  | @unterminated negated text hT hhead =>
    refine ⟨?_, scanList_ne_nil _ _⟩
    have hparse := @parseScanList_append (caretOf negated) text [] hT (by simp) (fun _ => rfl)
    rw [← List.append_nil text, parseConvSpec_caret (by rw [List.append_nil]; exact hhead), hparse, List.append_nil]
    rfl

/-- Where the text of a scan list ends. -/
theorem exists_scanText (negated : Bool) {L : List Char} (hhead : negated = false → L.head? ≠ some '^') :
    ReadsConvSpec ('[' :: caretOf negated ++ L) (parseScanList (caretOf negated) L).1
      (parseScanList (caretOf negated) L).2 := by
  -- a first `]` does not end it
  obtain ⟨first, rest, rfl, hfirst, hno⟩ : ∃ first rest, L = first ++ rest ∧ (first = [] ∨ first = [']']) ∧
      (first = [] → ∀ c ∈ rest.head?, c ≠ ']') := by
    match L with
    | [] => exact ⟨[], [], rfl, .inl rfl, fun _ c hc => by simp at hc⟩
    | c :: L =>
      by_cases hc : c = ']'
      · exact ⟨[c], L, rfl, .inr (by rw [hc]), fun h => absurd h (by simp)⟩
      · exact ⟨[], c :: L, rfl, .inl rfl, fun _ d hd => by rwa [← Option.some.inj hd]⟩
  obtain ⟨T, hT⟩ : ∃ T, T = rest.takeWhile (· ≠ ']') := ⟨_, rfl⟩
  obtain ⟨R, hR⟩ : ∃ R, R = rest.dropWhile (· ≠ ']') := ⟨_, rfl⟩
  have hrest : rest = T ++ R := by rw [hT, hR, List.takeWhile_append_dropWhile]
  have hTmem : ']' ∉ T := by
    intro h
    rw [hT] at h
    simpa using List.mem_takeWhile_imp h
  have hRhead : ∀ c ∈ R.head?, c = ']' := by
    intro c hc
    rw [hR] at hc
    simpa using head?_dropWhile_stop c hc
  have hclosed : ']' ∉ (first ++ T).tail := by
    rcases hfirst with rfl | rfl
    · exact fun h => hTmem (List.mem_of_mem_tail h)
    · exact hTmem
  have hempty : first ++ T = [] → R = [] := by
    intro h
    obtain ⟨h1, h2⟩ := List.append_eq_nil_iff.1 h
    match R, hRhead, hrest with
    | [], _, _ => rfl
    | c :: R, hRhead, hrest =>
      refine absurd (hRhead c rfl) (hno h1 c ?_)
      rw [hrest, h2]
      rfl
  have hparse := @parseScanList_append (caretOf negated) (first ++ T) R hclosed hRhead hempty
  have hhead' : negated = false → (first ++ T).head? ≠ some '^' := by
    intro hneg h
    refine hhead hneg ?_
    rw [hrest, ← List.append_assoc, List.head?_append, h]
    rfl
  rw [hrest, ← List.append_assoc first T R, hparse]
  match R, hRhead, hempty with
  | [], _, _ =>
    rw [List.append_nil]
    exact .unterminated hclosed hhead'
  | c :: R, hRhead, hempty =>
    obtain rfl : c = ']' := hRhead c rfl
    have hread := @ReadsConvSpec.scanList
      ⟨negated, first ++ T, fun h => absurd (hempty h) (List.cons_ne_nil _ _), hclosed, hhead'⟩ R
    rw [List.append_assoc] at hread
    exact hread

theorem parseConvSpec_reads {text : List Char} (h : (parseConvSpec text).1 ≠ []) :
    ReadsConvSpec text (parseConvSpec text).1 (parseConvSpec text).2 := by
  revert h
  unfold parseConvSpec
  split
  · exact fun _ => exists_scanText true fun h => absurd h (by decide)
  · next L hL =>
    refine fun _ => exists_scanText false fun _ hhead => ?_
    obtain ⟨L', rfl⟩ := List.head?_eq_some_iff.1 hhead
    exact hL L' rfl
  · next C L _ _ =>
    split
    · next hC => exact fun _ => .letter hC
    · exact fun h => absurd rfl h
  · exact fun h => absurd rfl h

/-! ## One directive -/

/-- What a conversion specifier begins with, or a length modifier. -/
def followers : List Char := letters ++ ['[', 'h', 'l', 'j', 'z', 't', 'L']

theorem followers_not_digit : ∀ c ∈ followers, isDigit c 10 = false :=
  List.all_iff_forall_prop.1 (by decide +kernel)

theorem not_flag {c : Char} (h : isDigit c 10 = true ∨ c ∈ followers) : c ≠ '%' ∧ c ≠ '*' ∧ c ≠ 'm' := by
  refine ⟨?_, ?_, ?_⟩ <;>
  · rintro rfl
    rcases h with h | h
    · exact absurd h (by decide +kernel)
    · exact absurd h (by decide)

theorem ReadsConvSpec.head {text D L : List Char} (h : ReadsConvSpec text D L) :
    ∃ c l, text = c :: l ∧ (c ∈ letters ∨ c = '[') := by
  cases h with
  | letter hc => exact ⟨_, _, rfl, .inl hc⟩
  | scanList T => exact ⟨_, _, rfl, .inr rfl⟩
  | unterminated => exact ⟨_, _, rfl, .inr rfl⟩

theorem parseLengthMod_append {length : List Char} (hlength : length ∈ lengthModifiers) {c : Char}
    (hc : c ∈ letters ∨ c = '[') (l : List Char) : parseLengthMod (length ++ c :: l) = (length, c :: l) := by
  have hne : c ≠ 'h' ∧ c ≠ 'l' ∧ ¬ (c = 'j' ∨ c = 'z' ∨ c = 't' ∨ c = 'L') := by
    have hall : ∀ d ∈ '[' :: letters, d ≠ 'h' ∧ d ≠ 'l' ∧ ¬ (d = 'j' ∨ d = 'z' ∨ d = 't' ∨ d = 'L') :=
      List.all_iff_forall_prop.1 (by decide)
    exact hall c (List.mem_cons.2 hc.symm)
  obtain ⟨hh, hl, hother⟩ := hne
  have hplain : parseLengthMod (c :: l) = ([], c :: l) := by
    rw [parseLengthMod]
    · exact if_neg hother
    all_goals
      intros
      first | exact hh ‹c = 'h'› | exact hl ‹c = 'l'›
  simp only [lengthModifiers, List.mem_cons, List.not_mem_nil, or_false] at hlength
  rcases hlength with rfl | rfl | rfl | rfl | rfl | rfl | rfl | rfl | rfl
  · exact hplain
  · rfl
  · show parseLengthMod ('h' :: c :: l) = _
    rw [parseLengthMod]
    intro L heq
    exact hh (List.cons.inj heq).1
  · rfl
  · show parseLengthMod ('l' :: c :: l) = _
    rw [parseLengthMod]
    intro L heq
    exact hl (List.cons.inj heq).1
  all_goals rfl

theorem parseLengthMod_split (L : List Char) :
    (parseLengthMod L).1 ∈ lengthModifiers ∧ L = (parseLengthMod L).1 ++ (parseLengthMod L).2 := by
  unfold parseLengthMod
  split
  case h_5 C L _ _ =>
    split
    · next h =>
      refine ⟨?_, rfl⟩
      rcases h with rfl | rfl | rfl | rfl <;> simp [lengthModifiers]
    · exact ⟨by simp [lengthModifiers], rfl⟩
  all_goals exact ⟨by simp [lengthModifiers], rfl⟩

theorem followers_of_length {length : List Char} (hlength : length ∈ lengthModifiers) {c : Char}
    (hc : c ∈ letters ∨ c = '[') (l : List Char) : ∃ d l', length ++ c :: l = d :: l' ∧ d ∈ followers := by
  match length, hlength with
  | [], _ =>
    refine ⟨c, l, rfl, ?_⟩
    rcases hc with hc | rfl
    · exact List.mem_append_left _ hc
    · decide
  | d :: length, hlength =>
    refine ⟨d, length ++ c :: l, rfl, ?_⟩
    have hall : ∀ w ∈ lengthModifiers, (w.head?.all fun d => d ∈ followers) = true := by decide
    exact of_decide_eq_true (hall _ hlength)

theorem parseConversion_append {write : WriteBehavior} {digits length text D L : List Char}
    (hdigits : ∀ c ∈ digits, isDigit c 10 = true) (hlength : length ∈ lengthModifiers) (h : ReadsConvSpec text D L) :
    parseConversion write (digits ++ (length ++ text)) = (.conversion write (string2Int digits) length D, L) := by
  obtain ⟨c, l, rfl, hc⟩ := h.head
  obtain ⟨d, l', heq, hd⟩ := followers_of_length hlength hc l
  have hstop : ∀ e ∈ (length ++ c :: l).head?, isDigit e 10 = false := by
    rw [heq]
    rintro e ⟨⟩
    exact followers_not_digit d hd
  obtain ⟨htake, hdrop⟩ := @takeWhile_append_stop (isDigit · 10) digits _ hdigits hstop
  rw [parseConversion, parseDigits, eatDigits, htake, hdrop, parseLengthMod_append hlength hc]
  show (FormatDirective.conversion _ _ _ (parseConvSpec (c :: l)).1, (parseConvSpec (c :: l)).2) = _
  rw [h.parse.1]

theorem isSpaceSkipDirective_eq {D : FormatDirective} (h : isSpaceSkipDirective D ≠ none) :
    isSpaceSkipDirective D = some (decide (SkipsSpace D)) := by
  cases D with
  | percent => rfl
  | whitespace => rfl
  | stringDir c => rfl
  | conversion write width length D =>
    match D, h with
    | [], h => exact absurd rfl h
    | c :: D, _ =>
      by_cases hc : c = '['
      · subst hc
        show some false = _
        rw [decide_eq_false fun h => h.2.2 rfl]
      · rw [isSpaceSkipDirective]
        · have hhead : (c :: D).head? ≠ some '[' := fun h => hc (Option.some.inj h)
          simp only [SkipsSpace, ne_eq, hhead, not_false_eq_true, and_true, Bool.decide_and]
        · intro h
          exact absurd h (List.cons_ne_nil _ _)
        · intro D' h
          exact hc (List.cons.inj h).1

theorem isSpaceSkipDirective_ne_none {write : WriteBehavior} {width : ℕ} {length D : List Char} (hD : D ≠ []) :
    isSpaceSkipDirective (.conversion write width length D) ≠ none := by
  match D, hD with
  | c :: D, _ =>
    by_cases hc : c = '['
    · rw [hc]
      exact fun h => nomatch h
    · rw [isSpaceSkipDirective]
      · exact fun h => nomatch h
      · intro h
        exact absurd h (List.cons_ne_nil _ _)
      · intro D' h
        exact hc (List.cons.inj h).1

/-- **One directive is read as the grammar says.** -/
theorem Reads.parse {L L' : List Char} {D : FormatDirective} (h : Reads L D L') :
    L ≠ [] ∧ parseDirective L = (D, L') ∧ isSpaceSkipDirective D ≠ none := by
  cases h with
  | @whitespace w L hne hw hstop =>
    match w, hne, hw with
    | c :: w, _, hw =>
      have hc := hw c List.mem_cons_self
      have hpercent : c ≠ '%' := by
        rintro rfl
        exact absurd hc (by decide +kernel)
      refine ⟨List.cons_ne_nil _ _, ?_, by simp [isSpaceSkipDirective]⟩
      show parseDirective (c :: (w ++ L')) = _
      rw [parseDirective]
      · rw [if_pos hc, eatWhitespace,
          (takeWhile_append_stop (fun d hd => hw d (List.mem_cons_of_mem _ hd)) hstop).2]
      all_goals
        intros
        exact hpercent ‹_›
  | @stringDir c L hpercent hc =>
    refine ⟨List.cons_ne_nil _ _, ?_, by simp [isSpaceSkipDirective]⟩
    rw [parseDirective]
    · rw [if_neg (by rw [hc]; exact Bool.false_ne_true)]
    all_goals
      intros
      exact hpercent ‹_›
  | percent => exact ⟨List.cons_ne_nil _ _, rfl, by simp [isSpaceSkipDirective]⟩
  | @conversion write flag digits length text D L hflag hdigits hlength hspec =>
    refine ⟨List.cons_ne_nil _ _, ?_, ?_⟩
    · have hconv := @parseConversion_append write digits length text D L' hdigits hlength hspec
      have hassoc : '%' :: flag ++ digits ++ length ++ text = '%' :: flag ++ (digits ++ (length ++ text)) := by
        simp only [List.append_assoc, List.cons_append]
      rw [hassoc]
      cases hflag with
      | dirRead => exact hconv
      | dirAlloc => exact hconv
      | dirWrite =>
        obtain ⟨c, l, htext, hc⟩ := hspec.head
        obtain ⟨d, l', hfirst, hd⟩ : ∃ d l', digits ++ (length ++ text) = d :: l' ∧
            (isDigit d 10 = true ∨ d ∈ followers) := by
          match digits, hdigits with
          | [], _ =>
            obtain ⟨d, l', heq, hd⟩ := followers_of_length hlength hc l
            exact ⟨d, l', by rw [htext]; exact heq, .inr hd⟩
          | d :: ds, hdigits => exact ⟨d, _, rfl, .inl (hdigits d List.mem_cons_self)⟩
        obtain ⟨h1, h2, h3⟩ := not_flag hd
        show parseDirective ('%' :: (digits ++ (length ++ text))) = _
        rw [← hconv, hfirst, parseDirective]
        all_goals
          intro L' heq
          have := (List.cons.inj heq).1
          first | exact h1 this | exact h2 this | exact h3 this
    · exact isSpaceSkipDirective_ne_none hspec.parse.2

theorem parseConversion_reads {write : WriteBehavior} {flag L : List Char} (hflag : Writes write flag)
    (h : isSpaceSkipDirective (parseConversion write L).1 ≠ none) :
    Reads ('%' :: flag ++ L) (parseConversion write L).1 (parseConversion write L).2 := by
  obtain ⟨hlength, hsplit⟩ := parseLengthMod_split (eatDigits L)
  have hD : (parseConvSpec (parseLengthMod (eatDigits L)).2).1 ≠ [] := by
    intro hD
    refine h ?_
    show isSpaceSkipDirective (.conversion _ _ _ (parseConvSpec (parseLengthMod (eatDigits L)).2).1) = none
    rw [hD]
    rfl
  have hread := @Reads.conversion write flag (L.takeWhile (isDigit · 10)) _ _ _ _ hflag
    (fun c hc => by simpa using List.mem_takeWhile_imp hc) hlength (parseConvSpec_reads hD)
  rw [List.append_assoc, ← hsplit, List.append_assoc] at hread
  have hL : L.takeWhile (isDigit · 10) ++ eatDigits L = L := List.takeWhile_append_dropWhile
  rw [hL] at hread
  exact hread

theorem parseDirective_reads {L : List Char} (hL : L ≠ []) (h : isSpaceSkipDirective (parseDirective L).1 ≠ none) :
    Reads L (parseDirective L).1 (parseDirective L).2 := by
  revert h
  unfold parseDirective
  split
  case h_1 L => exact fun _ => .percent
  case h_2 L => exact parseConversion_reads .dirRead
  case h_3 L => exact parseConversion_reads .dirAlloc
  case h_4 L _ _ _ => exact parseConversion_reads .dirWrite
  case h_5 C L _ _ _ hpercent =>
    split
    · next hC =>
      intro _
      have hread := @Reads.whitespace (C :: L.takeWhile isWhitespace) (L.dropWhile isWhitespace)
        (List.cons_ne_nil _ _) ?_ head?_dropWhile_stop
      · rw [List.cons_append, List.takeWhile_append_dropWhile] at hread
        exact hread
      · intro c hc
        rcases List.mem_cons.1 hc with rfl | hc
        · exact hC
        · exact List.mem_takeWhile_imp hc
    · next hC => exact fun _ => .stringDir (fun h => hpercent h) (by simpa using hC)
  case h_6 => exact absurd rfl hL

/-! ## The format -/

theorem withSkips_cons (B : Bool) (D : FormatDirective) (Ds : List FormatDirective) :
    (withSkips B (D :: Ds)).map normalizeDirective =
      (if SkipsSpace D ∧ B = false then [.whitespace] else []) ++
        normalizeDirective D :: (withSkips (D = .whitespace) Ds).map normalizeDirective := by
  rw [withSkips, List.map_append, List.map_cons]
  congr 1
  split <;> rfl

/-- One round of the parser. -/
theorem parseFormat'_cons {B : Bool} {L L' : List Char} {D : FormatDirective} (h : Reads L D L') :
    parseFormat' B L = (parseFormat' (D = .whitespace) L').map fun Ds =>
      (if SkipsSpace D ∧ B = false then [.whitespace] else []) ++ normalizeDirective D :: Ds := by
  obtain ⟨hL, hparse, hskip⟩ := h.parse
  have hskip' := isSpaceSkipDirective_eq hskip
  rw [parseFormat', dif_neg hL]
  simp only [hparse, hskip', Option.bind_eq_bind, Option.bind_some]
  by_cases hs : SkipsSpace D
  · have hspace : decide (D = .whitespace) = false := by
      rw [decide_eq_false_iff_not]
      rintro rfl
      exact hs
    rw [if_pos (by simpa using hs), hspace]
    cases parseFormat' false L' with
    | none => rfl
    | some Ds => cases B <;> simp [hs]
  · rw [if_neg (by simpa using hs)]
    cases parseFormat' (decide (D = .whitespace)) L' with
    | none => rfl
    | some Ds => simp [hs]

/-- **The format is split into its directives.**  By its length. -/
theorem parseFormat'_iff (n : ℕ) : ∀ {L : List Char} {B : Bool} {r : List FormatDirective}, L.length ≤ n →
    (parseFormat' B L = some r ↔ ∃ Ds, Splits L Ds ∧ r = (withSkips B Ds).map normalizeDirective) := by
  induction n with
  | zero =>
    intro L B r hlen
    obtain rfl : L = [] := List.eq_nil_of_length_eq_zero (by omega)
    rw [parseFormat', dif_pos rfl]
    constructor
    · intro h
      exact ⟨[], .nil, (Option.some.inj h).symm⟩
    · rintro ⟨Ds, hsplits, rfl⟩
      cases hsplits with
      | nil => rfl
      | cons hread _ => exact absurd rfl hread.parse.1
  | succ n ih =>
    intro L B r hlen
    by_cases hL : L = []
    · subst hL
      exact ih (Nat.zero_le _)
    · have hshort := length_parseDirective hL
      constructor
      · intro h
        have hskip : isSpaceSkipDirective (parseDirective L).1 ≠ none := by
          intro hnone
          rw [parseFormat', dif_neg hL] at h
          simp only [hnone, Option.bind_eq_bind, Option.bind_none] at h
          exact absurd h (fun h => nomatch h)
        have hread := parseDirective_reads hL hskip
        rw [parseFormat'_cons hread] at h
        obtain ⟨Ds', hDs', rfl⟩ := Option.map_eq_some_iff.1 h
        obtain ⟨Ds, hsplits, rfl⟩ := (ih (by omega)).1 hDs'
        exact ⟨_ :: Ds, .cons hread hsplits, (withSkips_cons _ _ _).symm⟩
      · rintro ⟨Ds, hsplits, rfl⟩
        cases hsplits with
        | nil => exact absurd rfl hL
        | @cons _ L' D Ds hread hsplits =>
          have hshort' : L'.length < L.length := by
            rw [hread.parse.2.1] at hshort
            exact hshort
          rw [parseFormat'_cons hread, (ih (show L'.length ≤ n by omega)).2 ⟨Ds, hsplits, rfl⟩]
          exact congrArg some (withSkips_cons _ _ _).symm

theorem parseFormat_iff {L : List Char} {r : List FormatDirective} :
    parseFormat L = some r ↔ ∃ Ds, Splits L Ds ∧ r = (withSkips false Ds).map normalizeDirective :=
  parseFormat'_iff L.length (Nat.le_refl _)

end CSemantics.ScanFormat
