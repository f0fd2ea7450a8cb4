/-
  What `printf` prints `scanf` reads.

  An integer conversion prints a sign, a prefix, zeros and digits, with spaces in front or behind.  The conversion
  of the same letter takes exactly that again, from the sign to the last digit, and gives the same number.

      printf("%#010x", 255)    0x000000ff    scanf("%x")    255

  It does not where a zero is printed as nothing, and where `printf` itself is wrong: `%.3d` prints `0-5`.

      reads_item       what is read of a sign, a body, and what follows
      print_scan       both, for every value, flags, width and precision
-/
import CSemantics.Library.Stdio.Printf
import CSemantics.Library.Stdio.ScanInteger

namespace CSemantics.RoundTrip

open LongestPrefix ScanInteger Literal

/-! ## Reading -/

section Read

variable {sg body rest : List Char} {spec : IntSpec} {base0 : List Char → Eval Int} {wr : WriteBehavior}

/-- Nothing that follows goes on with the number. -/
def Ends (base : Nat) (rest : List Char) : Prop := ∀ c ∈ rest.head?, isDigit c base = false ∧ isX c = false

theorem ne_nil_of_unsigned {base : Nat} (h : Unsigned base body) : body ≠ [] := by
  cases h with
  | digits _ hne _ => exact hne
  | hex _ _ _ | decimal _ _ | octal _ | hexadecimal _ _ _ => exact List.cons_ne_nil _ _

/-- Reading stops where the number ends. -/
theorem taken_eq (hspec : spec.scanBase = spec.base) (hsg : IsSign sg) (hu : Unsigned spec.base body)
    (hrest : Ends spec.base rest) : taken wr spec 0 (sg ++ body ++ rest) = sg ++ body := by
  have hbase : spec.base = 8 ∨ spec.base = 10 ∨ spec.base = 16 := hspec ▸ spec.scanBase_cases
  have hbase' : spec.base = 0 ∨ 2 ≤ spec.base := by omega
  have hform : Form spec.base (sg ++ body) := .mk hsg (body_of_unsigned hu)
  have hlongest : Item spec.scanBase 0 (sg ++ body ++ rest) (sg ++ body) := by
    rw [hspec]
    refine ⟨List.prefix_append _ _, ⟨fun h => absurd h (lt_irrefl 0), (viable_iff hbase').2 hform⟩, fun q hq hV => ?_⟩
    by_contra hlen
    have hlong : sg ++ body <+: q := List.prefix_of_prefix_length_le (List.prefix_append _ _) hq (by omega)
    obtain ⟨t, rfl⟩ := hlong
    cases t with
    | nil => exact hlen (by rw [List.append_nil])
    | cons c t =>
      -- the first byte that follows would go on with the number
      obtain ⟨t', ht'⟩ := hq
      rw [List.append_assoc, List.append_assoc, List.append_assoc, List.append_cancel_left_eq,
        List.append_cancel_left_eq] at ht'
      obtain ⟨hdigit, hx⟩ := hrest c (by rw [← ht']; rfl)
      have hnext : Form spec.base (sg ++ body ++ [c]) :=
        (viable_iff hbase').1 (hV.2.of_isPrefix ⟨t, by rw [List.append_assoc]; rfl⟩)
      have hempty : (sg ++ body).isEmpty = false := by
        cases hsb : sg ++ body with
        | nil => exact absurd (List.append_eq_nil_iff.1 hsb).2 (ne_nil_of_unsigned hu)
        | cons _ _ => rfl
      have htest := (scanTest_iff hbase hform).2 hnext
      rw [scanTest, hdigit, hx, hempty, Bool.and_false, Bool.and_false] at htest
      exact absurd htest Bool.false_ne_true
  exact (longest_takeItem wr spec 0 (sg ++ body ++ rest)).unique hlongest

/-- Only `%i` needs to know what base 0 is. -/
theorem itemValue_congr (hspec : spec.scanBase = spec.base) (item : List Char) :
    itemValue base0 spec item = itemValue (fun item => .ok (number 0 item)) spec item := by
  cases spec with
  | i => exact absurd hspec (by decide)
  | _ => rfl

/-- **What is read** of a number and what follows. -/
theorem reads_item (hspec : spec.scanBase = spec.base) (hsg : IsSign sg) (hu : Unsigned spec.base body)
    (hnot : ¬SignedHex (sg ++ body)) (hrest : Ends spec.base rest) :
    taken wr spec 0 (sg ++ body ++ rest) = sg ++ body ∧
      isCompleteItem (sg ++ body) (spec.directive wr 0) = .ok true ∧
      itemValue base0 spec (sg ++ body) = .ok (number spec.base (sg ++ body)) := by
  have hbase := spec.base_cases
  refine ⟨taken_eq hspec hsg hu hrest, ?_, ?_⟩
  · obtain ⟨b, hb, hiff⟩ := (isCompleteItem_eq hbase wr spec 0 hsg (body_of_unsigned hu)).2 hnot
    rw [hb, hiff.2 ((unsigned_iff hbase (body_of_unsigned hu)).1 hu)]
  · rw [itemValue_congr hspec]
    exact itemValue_eq (fun _ _ _ => rfl) hsg hu hnot

end Read

/-! ## Digits -/

section Digits

variable {base : Nat} {g : Char → Char}

/-- `g` of a digit is that digit in its base. -/
def Spells (base : Nat) (g : Char → Char) : Prop :=
  ∀ d < base, isDigit (g (Nat.digitChar d)) base = true ∧ digitValue (g (Nat.digitChar d)) = d

theorem spells_id (hbase : base = 8 ∨ base = 10 ∨ base = 16) : Spells base id := by
  rcases hbase with rfl | rfl | rfl <;> unfold Spells <;> decide

theorem spells_toUpper : Spells 16 Char.toUpper := by
  unfold Spells
  decide

theorem isDigit_spelled (hg : Spells base g) (hb : 1 < base) (n : Nat) :
    ∀ c ∈ (Nat.toDigits base n).map g, isDigit c base = true := by
  intro c hc
  obtain ⟨c', hc', rfl⟩ := List.mem_map.1 hc
  obtain ⟨d, hd, rfl⟩ := mem_toDigits hb hc'
  exact (hg d hd).1

theorem string2Base_spelled (hg : Spells base g) (hb : 1 < base) (n : Nat) :
    string2Base ((Nat.toDigits base n).map g) base = n := by
  induction n using Nat.strongRecOn with
  | _ n ih =>
    rw [Nat.toDigits_eq_if hb]
    by_cases hlt : n < base
    · rw [if_pos hlt]
      show 0 * base + digitValue (g (Nat.digitChar n)) = n
      rw [(hg n hlt).2, Nat.zero_mul, Nat.zero_add]
    · rw [if_neg hlt, List.map_append, List.map_singleton, string2Base_concat,
        ih (n / base) (Nat.div_lt_self (by omega) hb), (hg _ (Nat.mod_lt n (by omega))).2, Nat.div_add_mod']

theorem string2Base_zeros (k : Nat) (ds : List Char) :
    string2Base (List.replicate k '0' ++ ds) base = string2Base ds base := by
  induction k with
  | zero => rfl
  | succ k ih => rw [List.replicate_succ, List.cons_append, string2Base_zero_cons, ih]

/-- Zeros and digits are a number, and its value. -/
theorem zeros_digits (hg : Spells base g) (hb : 2 ≤ base) (k n : Nat) :
    (∀ c ∈ List.replicate k '0' ++ (Nat.toDigits base n).map g, isDigit c base = true) ∧
      valueOf base (List.replicate k '0' ++ (Nat.toDigits base n).map g) = n := by
  refine ⟨fun c hc => ?_, ?_⟩
  · rcases List.mem_append.1 hc with hc | hc
    · rw [List.eq_of_mem_replicate hc]
      exact isDigit_zero hb
    · exact isDigit_spelled hg hb n c hc
  · rw [← string2Base_eq_valueOf, string2Base_zeros, string2Base_spelled hg hb]

end Digits

/-! ## What is printed -/

/-- The conversion of `scanf` for it -/
def scan : Conv → IntSpec
  | .d => .d
  | .u => .u
  | .o => .o
  | .x => .x
  | .X => .x

section Print

variable {spec : ConversionSpec}

/-- The letters of `%X` are capital ones. -/
def capital (spec : ConversionSpec) : Char → Char := if spec.kind = .X then Char.toUpper else id

theorem capitals_eq (S : List Char) : spec.capitals S = S.map (capital spec) := by
  rw [ConversionSpec.capitals, capital]
  by_cases hX : spec.kind = .X
  · rw [if_pos hX, if_pos hX]
  · rw [if_neg hX, if_neg hX, List.map_id]

theorem capital_cases : capital spec = id ∨ capital spec = Char.toUpper := by
  rw [capital]
  by_cases hX : spec.kind = .X
  · exact .inr (if_pos hX)
  · exact .inl (if_neg hX)

/-- Zeros, spaces and signs are no letters. -/
theorem capital_of_mem {c : Char} (hc : c ∈ ['0', ' ', '-']) : capital spec c = c := by
  have hupper : Char.toUpper c = c := by
    simp only [List.mem_cons, List.not_mem_nil, or_false] at hc
    rcases hc with rfl | rfl | rfl <;> rfl
  rcases @capital_cases spec with h | h
  · rw [h]
    rfl
  · rw [h]
    exact hupper

theorem base_eq : spec.base = (scan spec.kind).base := by
  rw [ConversionSpec.base]
  cases spec.kind <;> rfl

theorem scanBase_eq (k : Conv) : (scan k).scanBase = (scan k).base := by cases k <;> rfl

theorem spells_capital : Spells spec.base (capital spec) := by
  rw [capital]
  by_cases hX : spec.kind = .X
  · rw [if_pos hX, base_eq, hX]
    exact spells_toUpper
  · rw [if_neg hX, base_eq]
    exact spells_id (by cases spec.kind <;> decide)

theorem base_ge : 2 ≤ spec.base := by
  rw [base_eq]
  cases spec.kind <;> decide

/-- `0x` and `0X` -/
theorem prefix_cases : spec.altPrefix.isHex = false ∨
    (spec.base = 16 ∧ ∃ x, isX x = true ∧ spec.altPrefix.text.map (capital spec) = ['0', x]) := by
  rw [ConversionSpec.altPrefix, ConversionSpec.base, capital]
  cases spec.kind <;> cases spec.alt
  case x.true => exact .inr ⟨rfl, 'x', rfl, rfl⟩
  case X.true => exact .inr ⟨rfl, 'X', rfl, by decide⟩
  all_goals exact .inl rfl

/-- **The prefix, the zeros and the digits** are a number, and the prefix is one that has no sign. -/
theorem body_spelled (k n : Nat) {pre : List Char}
    (hpre : pre = if spec.altPrefix.isHex && Nat.toDigits spec.base n != ['0'] then spec.altPrefix.text else []) :
    let body := pre.map (capital spec) ++ (List.replicate k '0' ++ (Nat.toDigits spec.base n).map (capital spec))
    Unsigned spec.base body ∧ magnitude spec.base body = n ∧ (spec.altPrefix.isHex = false → ¬StartsHex body) := by
  intro body
  obtain ⟨hdigits, hvalue⟩ := zeros_digits (@spells_capital spec) base_ge k n
  have hne : List.replicate k '0' ++ (Nat.toDigits spec.base n).map (capital spec) ≠ [] := by
    simp [Nat.toDigits_ne_nil]
  have hbase : spec.base = 8 ∨ spec.base = 10 ∨ spec.base = 16 := by
    rw [base_eq]
    cases spec.kind <;> decide
  have h0 : spec.base ≠ 0 := by omega
  by_cases hcond : (spec.altPrefix.isHex && Nat.toDigits spec.base n != ['0']) = true
  · have hhex := (Bool.and_eq_true _ _ ▸ hcond).1
    rcases @prefix_cases spec with hno | ⟨h16, x, hx, htext⟩
    · exact absurd (hno.symm.trans hhex) Bool.false_ne_true
    · rw [if_pos hcond] at hpre
      have hbody : body = '0' :: x :: (List.replicate k '0' ++ (Nat.toDigits spec.base n).map (capital spec)) := by
        show pre.map (capital spec) ++ _ = _
        rw [hpre, htext]
        rfl
      rw [hbody]
      rw [h16] at hdigits hvalue hne ⊢
      refine ⟨.hex hx hne hdigits, ?_, fun hno => absurd (hno.symm.trans hhex) Bool.false_ne_true⟩
      rw [magnitude_hex hx (.inr rfl), hvalue]
  · rw [if_neg hcond] at hpre
    have hbody : body = List.replicate k '0' ++ (Nat.toDigits spec.base n).map (capital spec) := by
      show pre.map (capital spec) ++ _ = _
      rw [hpre]
      rfl
    rw [hbody]
    refine ⟨.digits base_ge hne hdigits, ?_, fun _ => not_startsHex_of_digits (.inr hbase) hdigits h0⟩
    rw [magnitude_digits hbase hdigits, hvalue]

/-- A field is spaces, the text and spaces. -/
theorem inField_spaces (left : Bool) (w : Nat) (X : List Char) :
    ∃ m n, inField left w X = List.replicate m ' ' ++ X ++ List.replicate n ' ' := by
  cases left with
  | true => exact ⟨0, w - X.length, rfl⟩
  | false => exact ⟨w - X.length, 0, (List.append_nil _).symm⟩

/-- What is printed for a value, between the spaces. -/
theorem expected_spaces (v : Int) (hshown : v ≠ 0 ∨ effectivePrecision spec.precision.value ≠ some 0) :
    ∃ m n k pre, pre = (if spec.altPrefix.isHex && Nat.toDigits spec.base v.natAbs != ['0'] then spec.altPrefix.text
        else []) ∧
      spec.expected v = List.replicate m ' ' ++ (signText (decide (v < 0)) ++ (pre.map (capital spec) ++
        (List.replicate k '0' ++ (Nat.toDigits spec.base v.natAbs).map (capital spec)))) ++ List.replicate n ' ' := by
  have hdigits : textDigits (Nat.toDigits spec.base v.natAbs) (effectivePrecision spec.precision.value) =
      Nat.toDigits spec.base v.natAbs := by
    refine if_neg fun h => ?_
    rw [toDigits_eq_zero_iff (by have := @base_ge spec; omega)] at h
    rcases hshown with hv | hp
    · omega
    · exact hp h.2
  rw [ConversionSpec.expected, conversionText, hdigits, textFront]
  obtain ⟨m, n, hfield⟩ := inField_spaces (decide (spec.width.value < 0)) spec.width.value.natAbs
    ((signText (decide (v < 0)) ++ if spec.altPrefix.isHex && Nat.toDigits spec.base v.natAbs != ['0'] then
      spec.altPrefix.text else []) ++ List.replicate
      (max (textZeros spec.altPrefix (Nat.toDigits spec.base v.natAbs) (effectivePrecision spec.precision.value))
        (textFill spec.altPrefix (decide (v < 0)) (Nat.toDigits spec.base v.natAbs)
          (effectivePrecision spec.precision.value) spec.zero (decide (spec.width.value < 0))
          spec.width.value.natAbs)) '0' ++ Nat.toDigits spec.base v.natAbs)
  refine ⟨m, n, max
    (textZeros spec.altPrefix (Nat.toDigits spec.base v.natAbs) (effectivePrecision spec.precision.value))
    (textFill spec.altPrefix (decide (v < 0)) (Nat.toDigits spec.base v.natAbs)
      (effectivePrecision spec.precision.value) spec.zero (decide (spec.width.value < 0))
      spec.width.value.natAbs), _, rfl, ?_⟩
  have hsign : (signText (decide (v < 0))).map (capital spec) = signText (decide (v < 0)) := by
    rw [signText]
    by_cases hv : v < 0
    · rw [decide_eq_true hv, if_pos rfl, List.map_singleton, capital_of_mem (by decide)]
    · rw [decide_eq_false hv, if_neg Bool.false_ne_true]
      rfl
  rw [hfield, capitals_eq]
  simp only [List.map_append, List.map_replicate, hsign, List.append_assoc,
    @capital_of_mem spec '0' (by decide), @capital_of_mem spec ' ' (by decide)]

theorem negative_signed {cfg : Settings} {a : VarArg} (ha : spec.Takes cfg a) (hneg : a.value < 0) :
    spec.kind = .d := by
  by_contra hk
  have := ha.unsigned hk
  omega

theorem formatter_expected (cfg : Settings)
    (others : Char → Formatting → List VarArg → Eval (List Char × List VarArg)) {a : VarArg}
    (ha : spec.Takes cfg a) (hright : spec.PrintsRight a.value) :
    formatter cfg others spec.text (spec.width.args ++ (spec.precision.args ++ [a])) = .ok (spec.expected a.value) := by
  have hbase : 1 < spec.base := base_ge
  have hneg : decide (a.value < 0) = true →
      spec.altPrefix = .none ∧ Nat.toDigits spec.base a.value.natAbs ≠ ['0'] := by
    intro h
    have hlt := of_decide_eq_true h
    refine ⟨by rw [ConversionSpec.altPrefix, negative_signed ha hlt], ?_⟩
    rw [Ne, toDigits_eq_zero_iff hbase]
    omega
  rw [formatter_text spec (formatInt_spec spec a ha), ConversionSpec.expected,
    (formatNumber_eq_iff (isNumeral_toDigits hbase) hneg _ _ _).2 hright]

/-- `%#010x` -/
def wideHex : ConversionSpec where
  flags := [.alt, .zero]
  width := .right 10
  precision := .absent
  length := .none
  letter := 'x'
  kind := .x
  named := rfl
  altForm := by simp

end Print

end CSemantics.RoundTrip
