/-
  String literals: what `escape.ml` prints and how `clexer.mll` reads it.

  The lexer takes the LONGEST sequence a rule matches.  After a backslash that is all the hexadecimal
  digits behind an `x`, but no more than three octal digits, and exactly four or eight digits behind
  `u` and `U`.

      escape_string    a character that is not printable is three octal digits
      escape_wstring   from 256 on three octal digits, from 512 on `\u` and at least four digits

  What is read behind a `\u` is encoded in UTF-8.  So strings are read back as they were, and wide
  strings are up to the first character from 512 on.
-/
import Mathlib

namespace CSemantics.StringLiteral

/-! ## The lexer -/

/-- A `char` of OCaml -/
abbrev Byte := Fin 256

def byte (c : Char) : Byte := Fin.ofNat 256 c.toNat

/-- `Int64.of_int (Char.code c)` -/
def code (c : Byte) : BitVec 64 := .ofNat 64 c.val

def isOctDigit (c : Byte) : Bool := byte '0' ≤ c ∧ c ≤ byte '7'

def isHexDigit (c : Byte) : Bool :=
  (byte '0' ≤ c ∧ c ≤ byte '9') ∨ (byte 'a' ≤ c ∧ c ≤ byte 'f') ∨ (byte 'A' ≤ c ∧ c ≤ byte 'F')

def valueOfDigit (c : Byte) : Option ℕ :=
  if byte '0' ≤ c ∧ c ≤ byte '9' then some (c.val - (byte '0').val)
  else if byte 'a' ≤ c ∧ c ≤ byte 'z' then some (c.val - (byte 'a').val + 10)
  else if byte 'A' ≤ c ∧ c ≤ byte 'Z' then some (c.val - (byte 'A').val + 10)
  else none

/-- `scan_escape`; there are no more in the mode of GCC. -/
def scanEscape (c : Byte) : Option Byte :=
  if c = byte 'n' then some 10
  else if c = byte 'r' then some 13
  else if c = byte 't' then some 9
  else if c = byte 'b' then some 8
  else if c = byte 'f' then some 12
  else if c = byte 'v' then some 11
  else if c = byte 'a' then some 7
  else if c = byte 'e' ∨ c = byte 'E' then some 27
  else if c = byte '\'' then some (byte '\'')
  else if c = byte '"' then some (byte '"')
  else if c = byte '?' then some (byte '?')
  else if c = byte '(' then some (byte '(')
  else if c = byte (Char.ofNat 123) then some (byte (Char.ofNat 123))
  else if c = byte '[' then some (byte '[')
  else if c = byte '%' then some (byte '%')
  else if c = byte '\\' then some (byte '\\')
  else none

/-- `scan_hex_escape`, `scan_oct_escape` and `scan_u_escape`, on the digits -/
def scanDigits (radix : ℕ) (ds : List Byte) : Option (BitVec 64) :=
  ds.foldlM (fun v d => (valueOfDigit d).map fun n => v * .ofNat 64 radix + .ofNat 64 n) 0

inductive Lexeme
  | quote
  | hexEscape (ds : List Byte)
  | octEscape (ds : List Byte)
  | uEscape (ds : List Byte)
  | escape (c : Byte)
  | unescaped (c : Byte)
  deriving DecidableEq, Repr

/-- What is behind a backslash. -/
def escapeLexeme : List Byte → Lexeme × List Byte
  | [] => (.unescaped (byte '\\'), [])
  | x :: cs =>
    if (x = byte 'x' ∨ x = byte 'X') ∧ cs.takeWhile isHexDigit ≠ [] then
      (.hexEscape (cs.takeWhile isHexDigit), cs.dropWhile isHexDigit)
    else if isOctDigit x then
      (.octEscape (x :: (cs.takeWhile isOctDigit).take 2), cs.drop ((cs.takeWhile isOctDigit).take 2).length)
    else if x = byte 'u' ∧ 4 ≤ (cs.takeWhile isHexDigit).length then (.uEscape (cs.take 4), cs.drop 4)
    else if x = byte 'U' ∧ 8 ≤ (cs.takeWhile isHexDigit).length then (.uEscape (cs.take 8), cs.drop 8)
    else (.escape x, cs)

/-- The rule of `str` that matches the most. -/
def lexeme : List Byte → Option (Lexeme × List Byte)
  | [] => none
  | c :: cs =>
    if c = byte '"' then some (.quote, cs)
    else if c = byte '\\' then some (escapeLexeme cs)
    else some (.unescaped c, cs)

theorem length_escapeLexeme (cs : List Byte) : (escapeLexeme cs).2.length ≤ cs.length := by
  cases cs with
  | nil => exact le_rfl
  | cons x cs =>
    rw [escapeLexeme, List.length_cons]
    split
    · exact Nat.le_succ_of_le (List.dropWhile_suffix _).length_le
    split
    · exact Nat.le_succ_of_le (by rw [List.length_drop]; omega)
    split
    · exact Nat.le_succ_of_le (by rw [List.length_drop]; omega)
    split
    · exact Nat.le_succ_of_le (by rw [List.length_drop]; omega)
    · exact Nat.le_succ _

theorem length_lexeme {cs rest : List Byte} {L : Lexeme} (h : lexeme cs = some (L, rest)) :
    rest.length < cs.length := by
  cases cs with
  | nil => cases h
  | cons c cs =>
    rw [lexeme] at h
    split at h
    · cases h
      exact Nat.lt_succ_self _
    split at h
    · have hle := length_escapeLexeme cs
      rw [Option.some.inj h] at hle
      exact Nat.lt_succ_of_le hle
    · cases h
      exact Nat.lt_succ_self _

section Lexer

-- `utf8_encode` prints a character with a library for Unicode.
variable (utf8Encode : BitVec 64 → Option (List (BitVec 64)))

/-- What a rule puts in front of the remainder. -/
def Lexeme.codes : Lexeme → Option (List (BitVec 64))
  | quote => some []
  | hexEscape ds => (scanDigits 16 ds).map ([·])
  | octEscape ds => (scanDigits 8 ds).map ([·])
  | uEscape ds => (scanDigits 16 ds).bind utf8Encode
  | escape c => (scanEscape c).map fun c => [code c]
  | unescaped c => some [code c]

/-- The rules of `str`, and what is behind the literal. -/
def str (input : List Byte) : Option (List (BitVec 64) × List Byte) :=
  match _h : lexeme input with
  | none => none
  | some (L, rest) =>
    if L = .quote then some ([], rest)
    else (L.codes utf8Encode).bind fun cs => (str rest).map fun r => (cs ++ r.1, r.2)
termination_by input.length
decreasing_by exact length_lexeme _h

end Lexer

/-! ## The printer -/

/-- A digit of a numeral, in lower case -/
def digit (d : ℕ) : Byte := Fin.ofNat 256 (if d < 10 then '0'.toNat + d else 'a'.toNat + (d - 10))

def digits (b : ℕ) : ℕ → ℕ → List Byte
  | 0, _ => []
  | fuel + 1, n => if n = 0 then [] else digits b fuel (n / b) ++ [digit (n % b)]

/-- `%03o` and `%04x`: the numeral of `n`, with zeros up to the width. -/
def padded (b width n : ℕ) : List Byte :=
  List.replicate (width - (digits b n n).length) (byte '0') ++ digits b n n

def escapeChar (c : Byte) : List Byte :=
  if c = 7 then [byte '\\', byte 'a']
  else if c = 8 then [byte '\\', byte 'b']
  else if c = 9 then [byte '\\', byte 't']
  else if c = 10 then [byte '\\', byte 'n']
  else if c = 11 then [byte '\\', byte 'v']
  else if c = 12 then [byte '\\', byte 'f']
  else if c = 13 then [byte '\\', byte 'r']
  else if c = byte '"' then [byte '\\', byte '"']
  else if c = byte '\'' then [byte '\\', byte '\'']
  else if c = byte '\\' then [byte '\\', byte '\\']
  else if byte ' ' ≤ c ∧ c ≤ byte '~' then [c]
  else byte '\\' :: padded 8 3 c.val

def escapeString (s : List Byte) : List Byte := s.flatMap escapeChar

/-- `escape_wchar`, on a character that is not negative. -/
def escapeWchar (n : ℕ) : Option (List Byte) :=
  if n < 0x100 then some (escapeChar (Fin.ofNat 256 n))
  else if n < 0o1000 then some (byte '\\' :: padded 8 3 n)
  else if n < 0x10000 then some (byte '\\' :: byte 'u' :: padded 16 4 n)
  else if n < 0x100000000 then some (byte '\\' :: byte 'u' :: padded 16 4 n)
  else none

def escapeWstring : List ℕ → Option (List Byte)
  | [] => some []
  | n :: l => do
    let e ← escapeWchar n
    let es ← escapeWstring l
    return e ++ es

/-! ## Reading one character -/

section Reading

variable {utf8Encode : BitVec 64 → Option (List (BitVec 64))} {input rest : List Byte} {L : Lexeme}

theorem str_of_lexeme (h : lexeme input = some (L, rest)) (hL : L ≠ .quote) :
    str utf8Encode input =
      (L.codes utf8Encode).bind fun cs => (str utf8Encode rest).map fun r => (cs ++ r.1, r.2) := by
  rw [str]
  split
  · next hnone => cases h.symm.trans hnone
  · next L' rest' hsome =>
    obtain ⟨rfl, rfl⟩ := Prod.mk.inj (Option.some.inj (h.symm.trans hsome))
    rw [if_neg hL]

theorem str_quote (rest : List Byte) : str utf8Encode (byte '"' :: rest) = some ([], rest) := by
  have h : lexeme (byte '"' :: rest) = some (.quote, rest) := by rw [lexeme, if_pos rfl]
  rw [str]
  split
  · next hnone => cases h.symm.trans hnone
  · next L' rest' hsome =>
    obtain ⟨rfl, rfl⟩ := Prod.mk.inj (Option.some.inj (h.symm.trans hsome))
    rw [if_pos rfl]

/-- The text stands for one code, whatever follows it: a character, an escape sequence of one letter, or three
    octal digits. -/
def spells (v : BitVec 64) : List Byte → Bool
  | [c] => c ≠ byte '"' ∧ c ≠ byte '\\' ∧ code c = v
  | [b, x] =>
    b = byte '\\' ∧ (scanEscape x).map code = some v ∧ isOctDigit x = false ∧
      x ∉ [byte 'x', byte 'X', byte 'u', byte 'U']
  | [b, d₁, d₂, d₃] =>
    b = byte '\\' ∧ isOctDigit d₁ = true ∧ isOctDigit d₂ = true ∧ isOctDigit d₃ = true ∧
      scanDigits 8 [d₁, d₂, d₃] = some v
  | _ => false

theorem isOctDigit_ne : ∀ c ∈ [byte 'x', byte 'X', byte 'u', byte 'U'], isOctDigit c = false := by decide +kernel

theorem lexeme_backslash (cs : List Byte) : lexeme (byte '\\' :: cs) = some (escapeLexeme cs) := by
  rw [lexeme, if_neg (by decide), if_pos rfl]

/-- **A text that stands for a code is read as that code.** -/
theorem str_spells {v : BitVec 64} {e : List Byte} (h : spells v e = true) (t : List Byte) :
    str utf8Encode (e ++ t) = (str utf8Encode t).map fun r => (v :: r.1, r.2) := by
  rcases e with _ | ⟨b, _ | ⟨d₁, _ | ⟨d₂, _ | ⟨d₃, _ | ⟨d, e⟩⟩⟩⟩⟩
  · cases h
  · simp only [spells, decide_eq_true_eq] at h
    obtain ⟨hquote, hslash, rfl⟩ := h
    have hlex : lexeme (b :: t) = some (.unescaped b, t) := by rw [lexeme, if_neg hquote, if_neg hslash]
    rw [List.singleton_append, str_of_lexeme hlex (by simp)]
    rfl
  · simp only [spells, decide_eq_true_eq] at h
    obtain ⟨rfl, hscan, hoct, hx⟩ := h
    obtain ⟨c, hc, rfl⟩ := Option.map_eq_some_iff.1 hscan
    simp only [List.mem_cons, List.not_mem_nil, or_false, not_or] at hx
    have hlex : lexeme (byte '\\' :: d₁ :: t) = some (.escape d₁, t) := by
      rw [lexeme_backslash, escapeLexeme, if_neg (fun h => h.1.elim hx.1 hx.2.1), if_neg (by rw [hoct]; simp),
        if_neg (fun h => hx.2.2.1 h.1), if_neg (fun h => hx.2.2.2 h.1)]
    show str utf8Encode (byte '\\' :: d₁ :: t) = _
    rw [str_of_lexeme hlex (by simp), Lexeme.codes, hc]
    rfl
  · cases h
  · simp only [spells, decide_eq_true_eq] at h
    obtain ⟨rfl, h₁, h₂, h₃, hscan⟩ := h
    have hx : ¬ (d₁ = byte 'x' ∨ d₁ = byte 'X') := by
      rintro (rfl | rfl)
      · exact absurd h₁ (by rw [isOctDigit_ne _ (by simp)]; simp)
      · exact absurd h₁ (by rw [isOctDigit_ne _ (by simp)]; simp)
    have htake : ((d₂ :: d₃ :: t).takeWhile isOctDigit).take 2 = [d₂, d₃] := by
      rw [List.takeWhile_cons_of_pos h₂, List.takeWhile_cons_of_pos h₃]
      rfl
    have hlex : lexeme (byte '\\' :: d₁ :: d₂ :: d₃ :: t) = some (.octEscape [d₁, d₂, d₃], t) := by
      rw [lexeme_backslash, escapeLexeme, if_neg (fun h => hx h.1), if_pos h₁, htake]
      rfl
    show str utf8Encode (byte '\\' :: d₁ :: d₂ :: d₃ :: t) = _
    rw [str_of_lexeme hlex (by simp), Lexeme.codes, hscan]
    rfl
  · cases h

/-- What is printed for the codes below 512 stands for them. -/
theorem spells_escapeWchar : ∀ n : Fin 512, (escapeWchar n.val).any (spells (.ofNat 64 n.val)) = true := by
  decide +kernel

theorem spells_escapeChar (c : Byte) : spells (code c) (escapeChar c) = true := by
  have h := spells_escapeWchar ⟨c.val, by omega⟩
  rwa [escapeWchar, if_pos c.isLt, Option.any_some,
    show Fin.ofNat 256 c.val = c from Fin.ext (Nat.mod_eq_of_lt c.isLt)] at h

theorem str_escapeString (s rest : List Byte) :
    str utf8Encode (escapeString s ++ byte '"' :: rest) = some (s.map code, rest) := by
  induction s with
  | nil => exact str_quote rest
  | cons c s ih =>
    show str utf8Encode ((escapeChar c ++ escapeString s) ++ _) = _
    rw [List.append_assoc, str_spells (spells_escapeChar c), ih]
    rfl

/-! ## Wide characters -/

theorem isHexDigit_digit : ∀ d < 16, isHexDigit (digit d) = true := by decide +kernel

theorem isHexDigit_of_mem_digits (fuel : ℕ) : ∀ n, ∀ d ∈ digits 16 fuel n, isHexDigit d = true := by
  induction fuel with
  | zero => exact fun n d h => absurd h List.not_mem_nil
  | succ fuel ih =>
    intro n d h
    rw [digits] at h
    split at h
    · exact absurd h List.not_mem_nil
    · rcases List.mem_append.1 h with h | h
      · exact ih _ d h
      · rw [List.mem_singleton.1 h]
        exact isHexDigit_digit _ (Nat.mod_lt _ (by decide))

theorem isHexDigit_of_mem_padded {w n : ℕ} : ∀ d ∈ padded 16 w n, isHexDigit d = true := by
  intro d h
  rcases List.mem_append.1 h with h | h
  · rw [List.eq_of_mem_replicate h]
    decide
  · exact isHexDigit_of_mem_digits n n d h

theorem le_length_padded (b w n : ℕ) : w ≤ (padded b w n).length := by
  rw [padded, List.length_append, List.length_replicate]
  omega

/-- From 512 on what is printed is read as UTF-8. -/
theorem str_padded (n : ℕ) (t : List Byte) :
    str utf8Encode (byte '\\' :: byte 'u' :: padded 16 4 n ++ t) =
      ((scanDigits 16 ((padded 16 4 n).take 4)).bind utf8Encode).bind fun cs =>
        (str utf8Encode ((padded 16 4 n).drop 4 ++ t)).map fun r => (cs ++ r.1, r.2) := by
  have hlen := le_length_padded 16 4 n
  have hfour : 4 ≤ ((padded 16 4 n ++ t).takeWhile isHexDigit).length := by
    rw [List.takeWhile_append_of_pos isHexDigit_of_mem_padded, List.length_append]
    omega
  have hlex : lexeme (byte '\\' :: byte 'u' :: padded 16 4 n ++ t) =
      some (.uEscape ((padded 16 4 n).take 4), (padded 16 4 n).drop 4 ++ t) := by
    show lexeme (byte '\\' :: byte 'u' :: (padded 16 4 n ++ t)) = _
    rw [lexeme_backslash, escapeLexeme, if_neg (fun h => absurd h.1 (by decide)), if_neg (by decide),
      if_pos ⟨rfl, hfour⟩, List.take_append_of_le_length hlen, List.drop_append_of_le_length hlen]
  rw [str_of_lexeme hlex (by simp)]
  rfl

end Reading

/-- **Strings are read back as they were printed, and wide strings exactly where all their characters are below
    512.**  UTF-8 is in bytes. -/
theorem literal_round_trip {utf8Encode : BitVec 64 → Option (List (BitVec 64))}
    (hutf8 : ∀ v bs, utf8Encode v = some bs → ∃ b bs', bs = b :: bs' ∧ b.toNat < 256) :
    (∀ s rest, str utf8Encode (escapeString s ++ byte '"' :: rest) = some (s.map code, rest)) ∧
      ∀ l text rest, escapeWstring l = some text →
        (str utf8Encode (text ++ byte '"' :: rest) = some (l.map (BitVec.ofNat 64), rest) ↔ ∀ n ∈ l, n < 512) := by
  refine ⟨str_escapeString, fun l => ?_⟩
  induction l with
  | nil =>
    intro text rest h
    obtain rfl := Option.some.inj h
    exact ⟨fun _ n hn => absurd hn List.not_mem_nil, fun _ => str_quote rest⟩
  | cons n l ih =>
    intro text rest h
    obtain ⟨e, he, h⟩ := Option.bind_eq_some_iff.1 h
    obtain ⟨es, hes, h⟩ := Option.bind_eq_some_iff.1 h
    obtain rfl := Option.some.inj h
    rw [List.append_assoc, List.forall_mem_cons, ← ih es rest hes]
    by_cases hn : n < 512
    · have hspells := spells_escapeWchar ⟨n, hn⟩
      rw [he, Option.any_some] at hspells
      rw [str_spells hspells]
      constructor
      · intro hstr
        obtain ⟨r, hr, heq⟩ := Option.map_eq_some_iff.1 hstr
        obtain ⟨hcodes, hrest⟩ := Prod.mk.inj heq
        refine ⟨hn, hr.trans (congrArg some (Prod.ext ?_ hrest))⟩
        exact (List.cons.inj hcodes).2
      · rintro ⟨-, hstr⟩
        rw [hstr]
        rfl
    · refine ⟨fun hstr => ?_, fun h => absurd h.1 hn⟩
      have hwide : n < 2 ^ 32 ∧ e = byte '\\' :: byte 'u' :: padded 16 4 n := by
        rw [escapeWchar, if_neg (by omega), if_neg (by omega)] at he
        split at he
        · exact ⟨by omega, (Option.some.inj he).symm⟩
        split at he
        · exact ⟨by omega, (Option.some.inj he).symm⟩
        · cases he
      obtain ⟨hlt, rfl⟩ := hwide
      rw [str_padded] at hstr
      obtain ⟨bs, hbs, hstr⟩ := Option.bind_eq_some_iff.1 hstr
      obtain ⟨r, -, heq⟩ := Option.map_eq_some_iff.1 hstr
      obtain ⟨v, -, hv⟩ := Option.bind_eq_some_iff.1 hbs
      obtain ⟨b, bs', rfl, hb⟩ := hutf8 v bs hv
      have hhead : b = BitVec.ofNat 64 n := (List.cons.inj (Prod.mk.inj heq).1).1
      rw [hhead, BitVec.toNat_ofNat, Nat.mod_eq_of_lt (by omega)] at hb
      omega

/-- UTF-8 up to four bytes -/
def utf8 (v : BitVec 64) : Option (List (BitVec 64)) :=
  let n := v.toNat
  if n < 0x80 then some [v]
  else if n < 0x800 then some ([0xC0 + n / 2 ^ 6, 0x80 + n % 2 ^ 6].map (BitVec.ofNat 64))
  else if n < 0x10000 then
    some ([0xE0 + n / 2 ^ 12, 0x80 + n / 2 ^ 6 % 2 ^ 6, 0x80 + n % 2 ^ 6].map (BitVec.ofNat 64))
  else if n < 0x200000 then
    some ([0xF0 + n / 2 ^ 18, 0x80 + n / 2 ^ 12 % 2 ^ 6, 0x80 + n / 2 ^ 6 % 2 ^ 6, 0x80 + n % 2 ^ 6].map
      (BitVec.ofNat 64))
  else none

/-- A character above U+FFFF has five digits, and its last one is read as a character. -/
theorem emoji_is_not_read_back :
    ¬ ∃ text, escapeWstring [0x1F600] = some text ∧ str utf8 (text ++ [byte '"']) = some ([0x1F600], []) := by
  rintro ⟨text, htext, h⟩
  have hutf8 : ∀ v bs, utf8 v = some bs → ∃ b bs', bs = b :: bs' ∧ b.toNat < 256 := by
    intro v bs hbs
    simp only [utf8] at hbs
    split at hbs
    · exact ⟨v, [], (Option.some.inj hbs).symm, by omega⟩
    split at hbs
    · exact ⟨_, _, (Option.some.inj hbs).symm, by rw [BitVec.toNat_ofNat]; omega⟩
    split at hbs
    · exact ⟨_, _, (Option.some.inj hbs).symm, by rw [BitVec.toNat_ofNat]; omega⟩
    split at hbs
    · exact ⟨_, _, (Option.some.inj hbs).symm, by rw [BitVec.toNat_ofNat]; omega⟩
    · cases hbs
  exact absurd (((literal_round_trip hutf8).2 [0x1F600] text [] htext).1 h 0x1F600 List.mem_cons_self) (by decide)

end CSemantics.StringLiteral
