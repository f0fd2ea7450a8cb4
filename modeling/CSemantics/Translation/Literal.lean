/-
  Integer constants.

  A constant goes through three representations:

      the text         `0x1FuL`: what the lexer found
      a printed term   `LitUL(HexConstant("1F"))`: the suffix is peeled off from the right, and the
                       digits are printed as a string, or as a decimal token of K, also the octal ones
      a typed value    the digits of a token are written again before they are read in base 8

  A lone `0` is printed as a decimal constant, and a C program cannot tell: 0 fits into the first type of
  each list, and the lists of one suffix begin with the same type.
-/
import CSemantics.Typing.Common

namespace CSemantics.Literal

/-! ## Digits -/

/-- The value of a digit, in any base. -/
def digitValue (c : Char) : ℕ :=
  if '0' ≤ c ∧ c ≤ '9' then c.toNat - '0'.toNat
  else if 'a' ≤ c ∧ c ≤ 'f' then c.toNat - 'a'.toNat + 10
  else if 'A' ≤ c ∧ c ≤ 'F' then c.toNat - 'A'.toNat + 10
  else 0

/-- `String2Base` of digits: the first one is the most significant. -/
def string2Base (s : List Char) (base : ℕ) : ℕ := s.foldl (fun n c => n * base + digitValue c) 0

def base2String (n base : ℕ) : List Char := Nat.toDigits base n

/-- The `Int` that a token of decimal digits is. -/
def readToken (s : List Char) : ℕ := string2Base s 10

/-! ## The printer -/

/-- `IntConstant`, as it is printed: tokens are text. -/
inductive Numeral
  | HexConstant (s : List Char)
  | OctalConstant (token : List Char)
  | DecimalConstant (token : List Char)
  deriving DecidableEq, Repr

inductive Suffix
  | NoSuffix
  | LitU | LitL | LitUL | LitLL | LitULL
  deriving DecidableEq, Repr

def splitInt (xs i : List Char) : List Char × List Char :=
  if h : 1 < i.length then
    match (i.getLast (List.ne_nil_of_length_pos (Nat.zero_lt_of_lt h))).toUpper with
    | 'U' => splitInt ('U' :: xs) i.dropLast
    | 'L' => splitInt ('L' :: xs) i.dropLast
    | _ => (xs, i)
  else (xs, i)
termination_by i.length
decreasing_by all_goals (rw [List.length_dropLast]; omega)

def number (i : List Char) : Numeral :=
  let firstTwo := if 2 < i.length then i.take 2 else ['x', 'x']
  let firstOne := if 1 < i.length then i.take 1 else ['x']
  if firstTwo = ['0', 'x'] ∨ firstTwo = ['0', 'X'] then .HexConstant (i.drop 2)
  else if firstOne = ['0'] then .OctalConstant (i.drop 1)
  else .DecimalConstant i

/-- No other tag has a branch. -/
def suffix : List Char → Option Suffix
  | ['U', 'L', 'L'] | ['L', 'L', 'U'] => some .LitULL
  | ['L', 'L'] => some .LitLL
  | ['U', 'L'] | ['L', 'U'] => some .LitUL
  | ['U'] => some .LitU
  | ['L'] => some .LitL
  | [] => some .NoSuffix
  | _ => none

def intLiteral (i : List Char) : Option (Suffix × Numeral) :=
  let (tag, i) := splitInt [] i
  (suffix tag).map fun s => (s, number i)

/-! ## The rules -/

inductive IntConstant
  | DecimalConstant (n : Int)
  | hexOrOctalConstant (n : Int)
  deriving DecidableEq, Repr

def simplifyForHex : List Char → List Char
  | '0' :: c :: s => simplifyForHex (c :: s)
  | s => s

def intConstant : Numeral → IntConstant
  | .HexConstant s => .hexOrOctalConstant (string2Base (simplifyForHex s) 16)
  | .OctalConstant token => .hexOrOctalConstant (string2Base (base2String (readToken token) 10) 8)
  | .DecimalConstant token => .DecimalConstant (readToken token)

/-- A value with the modifier `IntegerConstant`. -/
def constantOf (n : Int) (T : SimpleBasicType) : Int × UType :=
  (n, .ut (.mods {.IntegerConstant} none) (.nonArray (.basic T)))

def withinRange (cfg : Settings) (V : Int) (i : IntType) : Eval Bool := do
  let hi ← imax cfg (.integer i)
  let lo ← imin cfg (.integer i)
  return decide (V ≤ hi) && decide (V ≥ lo)

/-- The `#if` of every rule, one type after the other. -/
def firstInRange (cfg : Settings) (n : Int) : List IntType → Eval (Int × UType)
  | [] => .ok (constantOf n .noType)
  | i :: is => do
    if ← withinRange cfg n i then return constantOf n (.integer i) else firstInRange cfg n is

def literal (cfg : Settings) : Suffix → IntConstant → Eval (Int × UType)
  | .NoSuffix, .DecimalConstant n => firstInRange cfg n [.int, .longInt, .longLongInt]
  | .NoSuffix, .hexOrOctalConstant n =>
    firstInRange cfg n [.int, .unsignedInt, .longInt, .unsignedLongInt, .longLongInt, .unsignedLongLongInt]
  | .LitU, .DecimalConstant n => firstInRange cfg n [.unsignedInt, .unsignedLongInt, .unsignedLongLongInt]
  | .LitU, .hexOrOctalConstant n => firstInRange cfg n [.unsignedInt, .unsignedLongInt, .unsignedLongLongInt]
  | .LitL, .DecimalConstant n => firstInRange cfg n [.longInt, .longLongInt]
  | .LitL, .hexOrOctalConstant n =>
    firstInRange cfg n [.longInt, .unsignedLongInt, .longLongInt, .unsignedLongLongInt]
  | .LitUL, .DecimalConstant n => firstInRange cfg n [.unsignedLongInt, .unsignedLongLongInt]
  | .LitUL, .hexOrOctalConstant n => firstInRange cfg n [.unsignedLongInt, .unsignedLongLongInt]
  | .LitLL, .DecimalConstant n => firstInRange cfg n [.longLongInt]
  | .LitLL, .hexOrOctalConstant n => firstInRange cfg n [.longLongInt, .unsignedLongLongInt]
  | .LitULL, .DecimalConstant n => firstInRange cfg n [.unsignedLongLongInt]
  | .LitULL, .hexOrOctalConstant n => firstInRange cfg n [.unsignedLongLongInt]

/-! ## The grammar of C11 -/

inductive Radix
  | decimal | octal | hexadecimal
  deriving DecidableEq, Repr

def Radix.base : Radix → ℕ
  | .decimal => 10
  | .octal => 8
  | .hexadecimal => 16

def Radix.IsDigit (r : Radix) (c : Char) : Prop :=
  match r with
  | .decimal => '0' ≤ c ∧ c ≤ '9'
  | .octal => '0' ≤ c ∧ c ≤ '7'
  | .hexadecimal => '0' ≤ c ∧ c ≤ '9' ∨ 'a' ≤ c ∧ c ≤ 'f' ∨ 'A' ≤ c ∧ c ≤ 'F'

/-- The number that digits denote. -/
def valueOf (base : ℕ) (digits : List Char) : ℕ := Nat.ofDigits base (digits.reverse.map digitValue)

/-- A constant without its suffix: the text, its radix and its digits. -/
inductive Constant : List Char → Radix → List Char → Prop
  | decimal {d : Char} {ds : List Char} : d ≠ '0' → (∀ c ∈ d :: ds, Radix.decimal.IsDigit c) →
      Constant (d :: ds) .decimal (d :: ds)
  | octal {ds : List Char} : (∀ c ∈ ds, Radix.octal.IsDigit c) → Constant ('0' :: ds) .octal ('0' :: ds)
  | hexadecimal {x : Char} {ds : List Char} : x = 'x' ∨ x = 'X' → ds ≠ [] →
      (∀ c ∈ ds, Radix.hexadecimal.IsDigit c) → Constant ('0' :: x :: ds) .hexadecimal ds

def unsignedSuffix : List (List Char) := [['u'], ['U']]

def longSuffix : List (List Char) := [['l'], ['L']]

def longLongSuffix : List (List Char) := [['l', 'l'], ['L', 'L']]

/-- One behind the other, in both orders. -/
def bothOrders (us ls : List (List Char)) : List (List Char) :=
  us.flatMap (fun u => ls.map (u ++ ·)) ++ ls.flatMap (fun l => us.map (l ++ ·))

def integerSuffix : Suffix → List (List Char)
  | .NoSuffix => [[]]
  | .LitU => unsignedSuffix
  | .LitL => longSuffix
  | .LitUL => bothOrders unsignedSuffix longSuffix
  | .LitLL => longLongSuffix
  | .LitULL => bothOrders unsignedSuffix longLongSuffix

/-- The list of the type of a constant. -/
def typeList : Suffix → Radix → List IntType
  | .NoSuffix, .decimal => [.int, .longInt, .longLongInt]
  | .NoSuffix, _ => [.int, .unsignedInt, .longInt, .unsignedLongInt, .longLongInt, .unsignedLongLongInt]
  | .LitU, _ => [.unsignedInt, .unsignedLongInt, .unsignedLongLongInt]
  | .LitL, .decimal => [.longInt, .longLongInt]
  | .LitL, _ => [.longInt, .unsignedLongInt, .longLongInt, .unsignedLongLongInt]
  | .LitUL, _ => [.unsignedLongInt, .unsignedLongLongInt]
  | .LitLL, .decimal => [.longLongInt]
  | .LitLL, _ => [.longLongInt, .unsignedLongLongInt]
  | .LitULL, _ => [.unsignedLongLongInt]

def CanRepresent (cfg : Settings) (i : IntType) (n : Int) : Prop :=
  shapeMin (numBits cfg i) i.isSigned ≤ n ∧ n ≤ shapeMax (numBits cfg i) i.isSigned

/-- The first type of a list that can represent a value, or no type. -/
inductive FirstOf (cfg : Settings) (n : Int) : List IntType → SimpleBasicType → Prop
  | none {is : List IntType} : (∀ i ∈ is, ¬ CanRepresent cfg i n) → FirstOf cfg n is .noType
  | some {before after : List IntType} {i : IntType} : (∀ j ∈ before, ¬ CanRepresent cfg j n) →
      CanRepresent cfg i n → FirstOf cfg n (before ++ i :: after) (.integer i)

/-! ## The value -/

section Value

variable {base : ℕ} {s : List Char}

theorem string2Base_concat (s : List Char) (c : Char) (base : ℕ) :
    string2Base (s ++ [c]) base = string2Base s base * base + digitValue c := by
  rw [string2Base, List.foldl_append, List.foldl_cons, List.foldl_nil, ← string2Base]

theorem string2Base_eq_valueOf (base : ℕ) (s : List Char) : string2Base s base = valueOf base s := by
  induction s using List.reverseRecOn with
  | nil => rfl
  | append_singleton s c ih =>
    rw [string2Base_concat, ih, valueOf, valueOf, List.reverse_concat, List.map_cons, Nat.ofDigits_cons]
    rw [Nat.add_comm, Nat.mul_comm]

theorem string2Base_zero_cons (base : ℕ) (s : List Char) : string2Base ('0' :: s) base = string2Base s base := by
  show s.foldl _ (0 * base + digitValue '0') = _
  rw [Nat.zero_mul]
  rfl

theorem string2Base_simplifyForHex (s : List Char) (base : ℕ) :
    string2Base (simplifyForHex s) base = string2Base s base := by
  fun_induction simplifyForHex s with
  | case1 c s ih => rw [ih, string2Base_zero_cons]
  | case2 s => rfl

theorem digitValue_digitChar : ∀ v < 10, digitValue (Nat.digitChar v) = v := by
  decide

theorem digitValue_lt_of_isDigit {c : Char} (h : Radix.octal.IsDigit c) : digitValue c < 8 := by
  obtain ⟨h0, h7⟩ := h
  have h9 : c ≤ '9' := Char.le_trans h7 (show '7' ≤ '9' by decide)
  rw [digitValue, if_pos ⟨h0, h9⟩]
  have := Char.le_def.1 h7
  have h7' : c.toNat ≤ '7'.toNat := this
  have : '7'.toNat = 55 := rfl
  have : '0'.toNat = 48 := rfl
  omega

/-- **Through a decimal token.**  What is written again are the digits without the zeros in front. -/
theorem string2Base_base2String (h : ∀ c ∈ s, digitValue c < 10) :
    string2Base (base2String (readToken s) 10) base = string2Base s base := by
  induction s using List.reverseRecOn with
  | nil => show 0 * base + digitValue '0' = 0; rw [Nat.zero_mul]; rfl
  | append_singleton s c ih =>
    have hc : digitValue c < 10 := h c (by simp)
    have hs := ih fun d hd => h d (by simp [hd])
    rw [readToken, string2Base_concat, string2Base_concat, base2String, Nat.toDigits_eq_if (by decide)]
    rw [← readToken]
    split
    · next hlt =>
      have hzero : readToken s = 0 := by omega
      rw [hzero] at hs
      rw [hzero, ← hs]
      show 0 * base + digitValue (Nat.digitChar (0 * 10 + digitValue c)) = (0 * base + digitValue '0') * base + _
      rw [Nat.zero_mul, Nat.zero_mul, Nat.zero_add, Nat.zero_add, Nat.zero_add, digitValue_digitChar _ hc]
      show _ = 0 * base + _
      rw [Nat.zero_mul, Nat.zero_add]
    · have hdiv : (readToken s * 10 + digitValue c) / 10 = readToken s := by omega
      have hmod : (readToken s * 10 + digitValue c) % 10 = digitValue c := by omega
      rw [hdiv, hmod, string2Base_concat, digitValue_digitChar _ hc, ← base2String, hs]

end Value

/-! ## The suffix -/

theorem splitInt_of_not_suffix {xs i : List Char}
    (h : ∀ c ∈ i.getLast?, c.toUpper ≠ 'U' ∧ c.toUpper ≠ 'L') : splitInt xs i = (xs, i) := by
  rw [splitInt]
  split
  · next hlen =>
    have hne := List.ne_nil_of_length_pos (Nat.zero_lt_of_lt hlen)
    obtain ⟨hU, hL⟩ := h _ (List.getLast?_eq_some_getLast hne)
    split
    · next hc => exact absurd hc hU
    · next hc => exact absurd hc hL
    · rfl
  · rfl

theorem splitInt_peel {xs i : List Char} {c : Char} (hi : i ≠ []) (hc : c.toUpper = 'U' ∨ c.toUpper = 'L') :
    splitInt xs (i ++ [c]) = splitInt (c.toUpper :: xs) i := by
  have hlen : 1 < (i ++ [c]).length := by
    have := List.length_pos_iff.2 hi
    rw [List.length_append, List.length_singleton]
    omega
  rw [splitInt, dif_pos hlen]
  simp only [List.getLast_concat, List.dropLast_concat]
  rcases hc with hc | hc
  · rw [hc]
    rfl
  · rw [hc]
    rfl

/-- **The suffix is peeled off from the right**, and is in order again. -/
theorem splitInt_append {i s : List Char} (hi : i ≠ [])
    (hs : ∀ c ∈ s, c.toUpper = 'U' ∨ c.toUpper = 'L') : ∀ xs,
    splitInt xs (i ++ s) = splitInt (s.map Char.toUpper ++ xs) i := by
  induction s using List.reverseRecOn with
  | nil => intro xs; rw [List.append_nil]; rfl
  | append_singleton s c ih =>
    intro xs
    have hne : i ++ s ≠ [] := List.append_ne_nil_of_left_ne_nil hi s
    rw [← List.append_assoc, splitInt_peel hne (hs c (by simp)), ih fun d hd => hs d (by simp [hd])]
    rw [List.map_append, List.map_singleton, List.append_assoc, List.singleton_append]

theorem integerSuffix_upper (s : Suffix) : ∀ t ∈ integerSuffix s,
    (∀ c ∈ t, c.toUpper = 'U' ∨ c.toUpper = 'L') ∧ suffix (t.map Char.toUpper) = some s := by
  have hall : ∀ t ∈ integerSuffix s, (t.all fun c => c.toUpper = 'U' ∨ c.toUpper = 'L') = true ∧
      suffix (t.map Char.toUpper) = some s := by
    cases s <;> decide +kernel
  exact fun t ht => ⟨List.all_iff_forall_prop.1 (hall t ht).1, (hall t ht).2⟩

/-! ## The digits -/

theorem toNat_le {c d : Char} (h : c ≤ d) : c.toNat ≤ d.toNat := Char.le_def.1 h

/-- No digit is a letter of a suffix. -/
theorem not_suffix_of_isDigit {r : Radix} {c : Char} (h : r.IsDigit c) :
    c.toUpper ≠ 'U' ∧ c.toUpper ≠ 'L' := by
  have hall : ∀ n ≤ 102, (48 ≤ n ∧ n ≤ 57 ∨ 97 ≤ n ∧ n ≤ 102 ∨ 65 ≤ n ∧ n ≤ 70) →
      (Char.ofNat n).toUpper ≠ 'U' ∧ (Char.ofNat n).toUpper ≠ 'L' := by
    decide +kernel
  rw [← Char.ofNat_toNat c]
  have h0 : '0'.toNat = 48 := rfl
  have h7 : '7'.toNat = 55 := rfl
  have h9 : '9'.toNat = 57 := rfl
  have ha : 'a'.toNat = 97 := rfl
  have hf : 'f'.toNat = 102 := rfl
  have hA : 'A'.toNat = 65 := rfl
  have hF : 'F'.toNat = 70 := rfl
  match r, h with
  | .decimal, ⟨hlo, hhi⟩ =>
    have := toNat_le hlo
    have := toNat_le hhi
    exact hall _ (by omega) (by omega)
  | .octal, ⟨hlo, hhi⟩ =>
    have := toNat_le hlo
    have := toNat_le hhi
    exact hall _ (by omega) (by omega)
  | .hexadecimal, .inl ⟨hlo, hhi⟩ =>
    have := toNat_le hlo
    have := toNat_le hhi
    exact hall _ (by omega) (by omega)
  | .hexadecimal, .inr (.inl ⟨hlo, hhi⟩) =>
    have := toNat_le hlo
    have := toNat_le hhi
    exact hall _ (by omega) (by omega)
  | .hexadecimal, .inr (.inr ⟨hlo, hhi⟩) =>
    have := toNat_le hlo
    have := toNat_le hhi
    exact hall _ (by omega) (by omega)

variable {i ds : List Char} {r : Radix}

theorem Constant.ne_nil (h : Constant i r ds) : i ≠ [] := by
  cases h <;> exact List.cons_ne_nil _ _

theorem Constant.getLast?_isDigit (h : Constant i r ds) : ∀ c ∈ i.getLast?, r.IsDigit c := by
  intro c hc
  have hmem := List.mem_of_getLast? hc
  cases h with
  | decimal _ hds => exact hds c hmem
  | octal hds =>
    rcases List.mem_cons.1 hmem with rfl | hmem
    · exact ⟨by decide, by decide⟩
    · exact hds c hmem
  | hexadecimal hx hne hds =>
    rw [List.getLast?_cons_cons, List.getLast?_cons, Option.mem_some, List.getLast?_eq_some_getLast hne] at hc
    exact hds c (hc ▸ List.getLast_mem hne)

/-- **The text is split where the grammar splits it.** -/
theorem Constant.intLiteral_append (h : Constant i r ds) {s : Suffix} {t : List Char}
    (ht : t ∈ integerSuffix s) : intLiteral (i ++ t) = some (s, number i) := by
  obtain ⟨hup, hsuf⟩ := integerSuffix_upper s t ht
  have hsplit : splitInt [] (i ++ t) = (t.map Char.toUpper, i) := by
    rw [splitInt_append h.ne_nil hup, List.append_nil]
    exact splitInt_of_not_suffix fun c hc => not_suffix_of_isDigit (h.getLast?_isDigit c hc)
  rw [intLiteral, hsplit]
  show (suffix (t.map Char.toUpper)).map _ = _
  rw [hsuf]
  rfl

/-- The constant that the rules see, by its text.  A lone `0` is a decimal constant. -/
theorem Constant.intConstant_number (h : Constant i r ds) :
    intConstant (number i) =
      if r = .decimal ∨ i = ['0'] then .DecimalConstant (valueOf r.base ds)
      else .hexOrOctalConstant (valueOf r.base ds) := by
  cases h with
  | @decimal d ds hd hds =>
    have hnum : number (d :: ds) = .DecimalConstant (d :: ds) := by
      match ds with
      | [] => rfl
      | [e] => simp [number, hd]
      | e :: f :: ds => simp [number, hd]
    rw [hnum, if_pos (.inl rfl), ← string2Base_eq_valueOf]
    rfl
  | @octal ds hds =>
    match ds, hds with
    | [], _ => rfl
    | e :: ds, hds =>
      have he := hds e List.mem_cons_self
      have hx : e ≠ 'x' ∧ e ≠ 'X' := by
        refine ⟨?_, ?_⟩ <;> rintro rfl <;> exact absurd he.2 (by decide)
      have hnum : number ('0' :: e :: ds) = .OctalConstant (e :: ds) := by
        match ds with
        | [] => rfl
        | f :: ds => simp [number, hx.1, hx.2]
      rw [hnum, if_neg (by simp), ← string2Base_eq_valueOf, string2Base_zero_cons]
      show IntConstant.hexOrOctalConstant (string2Base (base2String (readToken (e :: ds)) 10) 8 : ℕ) = _
      rw [string2Base_base2String fun c hc => lt_trans (digitValue_lt_of_isDigit (hds c hc)) (by decide)]
      rfl
  | @hexadecimal x ds hx hne hds =>
    match ds, hne with
    | e :: ds, _ =>
      have hnum : number ('0' :: x :: e :: ds) = .HexConstant (e :: ds) := by
        rcases hx with rfl | rfl <;> simp [number]
      rw [hnum, if_neg (by simp), ← string2Base_eq_valueOf]
      show IntConstant.hexOrOctalConstant (string2Base (simplifyForHex (e :: ds)) 16 : ℕ) = _
      rw [string2Base_simplifyForHex]
      rfl

/-! ## The type -/

variable {cfg : Settings} {n : Int}

theorem withinRange_eq (cfg : Settings) (n : Int) (i : IntType) :
    withinRange cfg n i = .ok (decide (n ≤ shapeMax (numBits cfg i) i.isSigned) &&
      decide (n ≥ shapeMin (numBits cfg i) i.isSigned)) := by
  rw [withinRange, imax_integer, imin_integer]
  rfl

theorem firstInRange_spec (cfg : Settings) (n : Int) (is : List IntType) :
    ∃ T, firstInRange cfg n is = .ok (constantOf n T) ∧ FirstOf cfg n is T := by
  induction is with
  | nil => exact ⟨.noType, rfl, .none fun i hi => absurd hi List.not_mem_nil⟩
  | cons i is ih =>
    by_cases hi : CanRepresent cfg i n
    · refine ⟨.integer i, ?_, @FirstOf.some _ _ [] is i (fun j hj => absurd hj List.not_mem_nil) hi⟩
      rw [firstInRange, withinRange_eq, decide_eq_true hi.1, decide_eq_true hi.2]
      rfl
    · obtain ⟨T, hT, hfirst⟩ := ih
      have hcond : (decide (n ≤ shapeMax (numBits cfg i) i.isSigned) &&
          decide (n ≥ shapeMin (numBits cfg i) i.isSigned)) = false := by
        rw [Bool.and_eq_false_iff, decide_eq_false_iff_not, decide_eq_false_iff_not]
        by_contra h
        push Not at h
        exact hi ⟨h.2, h.1⟩
      refine ⟨T, ?_, ?_⟩
      · rw [firstInRange, withinRange_eq, hcond]
        exact hT
      · cases hfirst with
        | none h =>
          refine .none fun j hj => ?_
          rcases List.mem_cons.1 hj with rfl | hj
          · exact hi
          · exact h j hj
        | @some before after k h hk =>
          refine @FirstOf.some _ _ (i :: before) after k (fun j hj => ?_) hk
          rcases List.mem_cons.1 hj with rfl | hj
          · exact hi
          · exact h j hj

theorem literal_eq (cfg : Settings) (s : Suffix) (n : Int) :
    literal cfg s (.DecimalConstant n) = firstInRange cfg n (typeList s .decimal) ∧
    ∀ r ≠ Radix.decimal, literal cfg s (.hexOrOctalConstant n) = firstInRange cfg n (typeList s r) := by
  refine ⟨by cases s <;> rfl, fun r hr => ?_⟩
  cases r with
  | decimal => exact absurd rfl hr
  | octal => cases s <;> rfl
  | hexadecimal => cases s <;> rfl

theorem canRepresent_zero (cfg : Settings) (i : IntType) : CanRepresent cfg i 0 := by
  have hpos : ∀ k : ℕ, (0 : Int) < 2 ^ k := fun k => Int.pow_pos (by decide)
  have hw := hpos (numBits cfg i)
  have hw' := hpos (numBits cfg i - 1)
  rw [CanRepresent, shapeMin, shapeMax]
  split
  · omega
  · omega

/-- Zero has the first type of its list, and the lists of a suffix begin alike. -/
theorem FirstOf.zero {s : Suffix} {T : SimpleBasicType} (h : FirstOf cfg 0 (typeList s .decimal) T) :
    FirstOf cfg 0 (typeList s .octal) T := by
  have hhead : ∀ {is : List IntType} {i : IntType}, FirstOf cfg 0 (i :: is) T → T = .integer i := by
    intro is i hT
    generalize hl : i :: is = l at hT
    cases hT with
    | none hno => exact absurd (canRepresent_zero cfg i) (hno i (hl ▸ List.mem_cons_self))
    | @some before after j hno _ =>
      match before, hl, hno with
      | [], hl, _ => rw [(List.cons.inj hl).1]
      | k :: before, _, hno => exact absurd (canRepresent_zero cfg k) (hno k List.mem_cons_self)
  have hsome : ∀ {is : List IntType} {i : IntType}, FirstOf cfg 0 (i :: is) (.integer i) :=
    fun {is i} => @FirstOf.some _ _ [] is i (fun j hj => absurd hj List.not_mem_nil) (canRepresent_zero cfg i)
  cases s <;> (cases hhead h; exact hsome)

/-- **Integer constants.**  Every constant of the grammar has the value of its digits and the first type
    of its list that can represent it. -/
theorem integer_constant {i ds : List Char} {r : Radix} (h : Constant i r ds) {s : Suffix} {t : List Char}
    (ht : t ∈ integerSuffix s) (cfg : Settings) :
    ∃ num T, intLiteral (i ++ t) = some (s, num) ∧
      literal cfg s (intConstant num) = .ok (constantOf (valueOf r.base ds) T) ∧
      FirstOf cfg (valueOf r.base ds) (typeList s r) T := by
  have hnum := h.intConstant_number
  by_cases hr : r = .decimal ∨ i = ['0']
  · rw [if_pos hr] at hnum
    obtain ⟨T, hT, hfirst⟩ := firstInRange_spec cfg (valueOf r.base ds) (typeList s .decimal)
    refine ⟨number i, T, h.intLiteral_append ht, ?_, ?_⟩
    · rw [hnum, (literal_eq cfg s _).1]
      exact hT
    · rcases hr with rfl | rfl
      · exact hfirst
      · -- the lone zero is octal
        cases h with
        | decimal hd => exact absurd rfl hd
        | octal => exact FirstOf.zero hfirst
  · rw [if_neg hr] at hnum
    push Not at hr
    obtain ⟨T, hT, hfirst⟩ := firstInRange_spec cfg (valueOf r.base ds) (typeList s r)
    refine ⟨number i, T, h.intLiteral_append ht, ?_, hfirst⟩
    rw [hnum, (literal_eq cfg s _).2 r hr.1]
    exact hT

/-- `0x1FuL` -/
theorem integer_constant_0x1FuL : ∃ num T, intLiteral ['0', 'x', '1', 'F', 'u', 'L'] = some (.LitUL, num) ∧
    literal x86GccLimitedLibc .LitUL (intConstant num) = .ok (constantOf 31 T) ∧
    FirstOf x86GccLimitedLibc 31 (typeList .LitUL .hexadecimal) T := by
  have hdigits : ∀ c ∈ ['1', 'F'], Radix.hexadecimal.IsDigit c := by
    intro c hc
    rcases List.mem_cons.1 hc with rfl | hc
    · exact .inl ⟨by decide, by decide⟩
    · rcases List.mem_singleton.1 hc with rfl
      exact .inr (.inr ⟨by decide, by decide⟩)
  exact integer_constant (.hexadecimal (.inl rfl) (by decide) hdigits) (s := .LitUL) (t := ['u', 'L'])
    (by decide) x86GccLimitedLibc

end CSemantics.Literal
