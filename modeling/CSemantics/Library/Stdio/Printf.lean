/-
  The `printf` engine and its integer conversions.

  The format is read character by character.  After a `%` the flags, the width, the precision and the
  length modifier are collected in cells until a letter names the conversion; a `*` is replaced by an
  argument.  The flag `-` is part of the width: it is the sign of a negative number.

  A conversion specification is given here by what it says (`ConversionSpec`), with the text it is
  written as; the engine is run on that text.

      formatter_integer_iff   the text printed is the one that the standard asks for, iff `FormatsRight`

  The conversions of characters, strings, pointers and floating-point numbers are a parameter.
-/
import CSemantics.Library.Stdio.Format
import CSemantics.Promotion
import CSemantics.Typing.Equality

namespace CSemantics

/-! ## Numbers as text -/

/-- `Base2String` -/
def base2String (n : Int) (b : Nat) : List Char :=
  signText (decide (n < 0)) ++ Nat.toDigits b n.natAbs

def showInt (n : Int) : List Char := base2String n 10

/-- The number that a list of digits spells. -/
def digits2Int (ds : List Char) : Eval Int :=
  if ds ≠ [] ∧ ds.all Char.isDigit then .ok (Nat.ofDigitChars 10 ds 0) else .error .stuck

/-- `String2Int` -/
def string2Int : List Char → Eval Int
  | '-' :: ds => do return -(← digits2Int ds)
  | '+' :: ds => digits2Int ds
  | ds => digits2Int ds

/-! ## The cells -/

inductive FormatState
  | normal
  /-- `%` -/
  | percent
  /-- `%.` -/
  | precision
  deriving DecidableEq, Repr

structure Formatting where
  padZero : Bool
  altForm : Bool
  fieldWidth : List Char
  precision : List Char
  length : List Char
  deriving DecidableEq, Repr

def Formatting.reset : Formatting := ⟨false, false, [], [], []⟩

/-- The integer conversions; `%i` is `%d`. -/
inductive Conv
  | d | u | o | x | X
  deriving DecidableEq, Repr

def Conv.ofChar : Char → Option Conv
  | 'd' | 'i' => some .d
  | 'u' => some .u
  | 'o' => some .o
  | 'x' => some .x
  | 'X' => some .X
  | _ => none

def Conv.state : Conv → String
  | .d => "%d"
  | .u => "%u"
  | .o => "%o"
  | .x => "%x"
  | .X => "%X"

def sizeut : IntType := .unsignedLongInt

def ptrdiffut : IntType := .longInt

/-- `getFormatType'` for the integer conversions -/
def getFormatType' : Conv → String → Option IntType
  | .d, "hh" => some .signedChar
  | _, "hh" => some .unsignedChar
  | .d, "h" => some .shortInt
  | _, "h" => some .unsignedShortInt
  | .d, "" => some .int
  | _, "" => some .unsignedInt
  | .d, "l" => some .longInt
  | _, "l" => some .unsignedLongInt
  | .d, "ll" => some .longLongInt
  | _, "ll" => some .unsignedLongLongInt
  | .d, "z" => some .longInt
  | _, "z" => some sizeut
  | .d, "t" => some ptrdiffut
  | _, "t" => some .unsignedLongInt
  | _, _ => none

/-! ## Arguments -/

structure VarArg where
  type : IntType
  value : Int
  deriving DecidableEq, Repr

def argMismatch (k : Conv) : Stop :=
  UNDEF "STDIO1" ("'printf': Mismatch between the type expected by the conversion specifier " ++ k.state ++
    " and the type of the argument.")

def altFormInvalid : Stop := UNDEF "STDIO10" "'printf': Invalid conversion specifier with '#' flag."

def padZeroInvalid : Stop := UNDEF "STDIO11" "'printf': Invalid conversion specifier with '0' flag."

def tooFewArgs : Stop := UNDEF "STDIO12" "Insufficient arguments supplied for the format string."

def invalidLength (k : Conv) (length : String) : Stop :=
  UNDEF "STDIO13" ("Invalid length modifier '" ++ length ++ "' for conversion specifier '" ++ k.state ++
    "' in a format string.")

section Engine

variable (cfg : Settings)

/-- The argument has the type that is expected, or the one that it is promoted to. -/
def argMatches (T : IntType) (a : VarArg) : Bool :=
  T == a.type ||
    match promote cfg [] T.toSimple.toUType with
    | .ok P => decide (P = a.type.toSimple.toUType)
    | .error _ => false

def nextvarg (k : Conv) (T : IntType) (a : VarArg) : Eval Int :=
  if argMatches cfg T a then .ok a.value else .error (argMismatch k)

/-- A width or a precision that may be a star: it is replaced by an argument. -/
def starCell (k : Conv) (cell : List Char) (args : List VarArg) : Eval (List Char × List VarArg) :=
  if cell = ['*'] then
    match args with
    | [] => .error tooFewArgs
    | a :: args => do return (showInt (← nextvarg cfg k .int a), args)
  else .ok (cell, args)

/-- The text of a number. -/
def formatConv (k : Conv) (alt : Bool) (D P : Int) (Z : Bool) (W : Int) : List Char :=
  match k with
  | .d => formatPrecisionWidth (showInt D) P Z .none W
  | .u => formatPrecisionWidth (showInt D) P Z .none W
  | .o => formatPrecisionWidth (base2String D 8) P Z (if alt then .zero else .none) W
  | .x => formatPrecisionWidth (base2String D 16) P Z (if alt then .hex else .none) W
  | .X => (formatPrecisionWidth (base2String D 16) P Z (if alt then .HEX else .none) W).map Char.toUpper

/-- An integer conversion, from its start to `reset`. -/
def formatInt (k : Conv) (f : Formatting) (args : List VarArg) : Eval (List Char × List VarArg) := do
  let Z := if f.precision = [] then f.padZero else false
  let (W, args) ← starCell cfg k f.fieldWidth args
  let (P, args) ← starCell cfg k (if f.precision = [] then ['1'] else f.precision) args
  match args with
  | [] => .error tooFewArgs
  | a :: args =>
    match getFormatType' k (String.ofList f.length) with
    | none => .error (invalidLength k (String.ofList f.length))
    | some T =>
      let D ← nextvarg cfg k T a
      if f.altForm ∧ (k = .d ∨ k = .u) then .error altFormInvalid
      else
        let w ← string2Int (if W = [] then ['0'] else W)
        return (formatConv k f.altForm D (← string2Int P) Z w, args)

/-! ## The engine -/

/-- What a character of the format does. -/
inductive FormatStep
  /-- it is printed -/
  | text
  /-- it changes the cells -/
  | cells (f : Formatting) (s : FormatState)
  | convert (k : Conv) (f : Formatting)
  /-- `%%` -/
  | percentSign
  /-- one of the other conversions -/
  | other (f : Formatting)

/-- A character in state `%`. -/
def percentStep (f : Formatting) (c : Char) : Eval FormatStep :=
  if c = '0' then
    if f.fieldWidth = [] then .ok (.cells { f with padZero := true } .percent)
    else .ok (.cells { f with fieldWidth := f.fieldWidth ++ ['0'] } .percent)
  else if c = '#' then
    if f.fieldWidth = [] then .ok (.cells { f with altForm := true } .percent) else .error .stuck
  else if c = '+' ∨ c = '-' ∨ c.isDigit then
    .ok (.cells { f with fieldWidth := f.fieldWidth ++ [c] } .percent)
  else if c = '*' then
    if f.fieldWidth = [] then .ok (.cells { f with fieldWidth := ['*'] } .percent) else .error .stuck
  else if c = '.' then
    if f.precision = [] then .ok (.cells f .precision) else .error .stuck
  else if c ∈ ['l', 'h', 'j', 'z', 't'] then .ok (.cells { f with length := f.length ++ [c] } .percent)
  else if c = '%' then
    if f.altForm then .error altFormInvalid
    else if f.padZero then .error padZeroInvalid
    else if f = .reset then .ok .percentSign
    else .error .stuck
  else
    match Conv.ofChar c with
    | some k => .ok (.convert k f)
    | none => .ok (.other f)

def formatStep (s : FormatState) (f : Formatting) (c : Char) : Eval FormatStep :=
  match s with
  | .normal => if c = '%' then .ok (.cells f .percent) else .ok .text
  | .percent => percentStep f c
  | .precision =>
    if c.isDigit then .ok (.cells { f with precision := f.precision ++ [c] } .precision)
    else if c = '*' then
      if f.precision = [] then .ok (.cells { f with precision := ['*'] } .percent) else .error .stuck
    else percentStep { f with precision := if f.precision = [] then ['0'] else f.precision } c

-- the other conversions
variable (others : Char → Formatting → List VarArg → Eval (List Char × List VarArg))

/-- `formatter'`; outside of a conversion specification the cells are as after a reset. -/
def formatter' : List Char → FormatState → Formatting → List VarArg → Eval (List Char)
  | [], .normal, _, _ => .ok []
  | [], _, _, _ => .error .stuck
  | c :: fmt, s, f, args => do
    match ← formatStep s f c with
    | .text => return c :: (← formatter' fmt .normal .reset args)
    | .cells f' s' => formatter' fmt s' f' args
    | .convert k f' =>
      let (S, args') ← formatInt cfg k f' args
      return S ++ (← formatter' fmt .normal .reset args')
    | .percentSign => return '%' :: (← formatter' fmt .normal .reset args)
    | .other f' =>
      let (S, args') ← others c f' args
      return S ++ (← formatter' fmt .normal .reset args')

def formatter (fmt : List Char) (args : List VarArg) : Eval (List Char) :=
  formatter' cfg others fmt .normal .reset args

end Engine

/-! ## Digits -/

section Digits

variable {b n : Nat}

/-- The digits of a number are digits. -/
theorem mem_toDigits (hb : 1 < b) {c : Char} (hc : c ∈ Nat.toDigits b n) : ∃ d < b, c = d.digitChar := by
  induction n using Nat.strongRecOn with
  | _ n ih =>
    rw [Nat.toDigits_eq_if hb] at hc
    split at hc
    · next hlt => exact ⟨n, hlt, List.mem_singleton.mp hc⟩
    · next hge =>
      rcases List.mem_append.mp hc with hc | hc
      · exact ih (n / b) (Nat.div_lt_self (by omega) hb) hc
      · exact ⟨n % b, Nat.mod_lt n (by omega), List.mem_singleton.mp hc⟩

/-- A number other than zero does not start with a zero. -/
theorem head_toDigits (hb : 1 < b) (hn : n ≠ 0) : (Nat.toDigits b n).head? ≠ some '0' := by
  induction n using Nat.strongRecOn with
  | _ n ih =>
    rw [Nat.toDigits_eq_if hb]
    split
    · simpa using hn
    · next hge =>
      rw [List.head?_append_of_ne_nil _ Nat.toDigits_ne_nil]
      exact ih (n / b) (Nat.div_lt_self (by omega) hb) (Nat.div_ne_zero_iff.mpr ⟨by omega, by omega⟩)

theorem toDigits_eq_zero_iff (hb : 1 < b) : Nat.toDigits b n = ['0'] ↔ n = 0 := by
  constructor
  · intro h
    by_contra hn
    exact head_toDigits hb hn (by rw [h]; rfl)
  · rintro rfl
    exact Nat.toDigits_zero b

theorem isNumeral_toDigits (hb : 1 < b) : IsNumeral (Nat.toDigits b n) where
  ne_nil := Nat.toDigits_ne_nil
  head := by
    by_cases hn : n = 0
    · exact .inl ((toDigits_eq_zero_iff hb).mpr hn)
    · exact .inr (head_toDigits hb hn)
  noSpace := by
    intro hc
    obtain ⟨d, hd, hcd⟩ := mem_toDigits hb hc
    exact Nat.digitChar_ne ' ' (by decide) hcd.symm

theorem isDigit_zeros (z n : Nat) : ∀ c ∈ List.replicate z '0' ++ Nat.toDigits 10 n, c.isDigit = true := by
  intro c hc
  rcases List.mem_append.mp hc with hc | hc
  · rw [List.eq_of_mem_replicate hc]
    decide
  · exact Nat.isDigit_of_mem_toDigits (by decide) (by decide) hc

/-- The decimal digits with zeros in front spell the number. -/
theorem digits2Int_zeros (z n : Nat) :
    digits2Int (List.replicate z '0' ++ Nat.toDigits 10 n) = .ok (n : Int) := by
  have hall : (List.replicate z '0' ++ Nat.toDigits 10 n).all Char.isDigit = true :=
    List.all_eq_true.mpr (isDigit_zeros z n)
  have hne : List.replicate z '0' ++ Nat.toDigits 10 n ≠ [] := by simp [Nat.toDigits_ne_nil]
  rw [digits2Int, if_pos ⟨hne, hall⟩, Nat.ofDigitChars_append, Nat.ofDigitChars_replicate_zero, Nat.mul_zero,
    Nat.ofDigitChars_ten_toDigits]

/-- A list of digits has no sign. -/
theorem string2Int_of_isDigit {ds : List Char} (h : ∀ c ∈ ds, c.isDigit = true) :
    string2Int ds = digits2Int ds := by
  unfold string2Int
  split
  · have := h '-' List.mem_cons_self
    simp at this
  · have := h '+' List.mem_cons_self
    simp at this
  · rfl

theorem string2Int_toDigits (n : Nat) : string2Int (Nat.toDigits 10 n) = .ok (n : Int) := by
  rw [string2Int_of_isDigit fun c hc => Nat.isDigit_of_mem_toDigits (by decide) (by decide) hc]
  exact digits2Int_zeros 0 n

/-- A number that is printed and read again. -/
theorem string2Int_showInt (n : Int) : string2Int (showInt n) = .ok n := by
  unfold showInt base2String
  by_cases hn : n < 0
  · have hsign : signText (decide (n < 0)) ++ Nat.toDigits 10 n.natAbs = '-' :: Nat.toDigits 10 n.natAbs := by
      simp [signText, hn]
    rw [hsign, string2Int, show digits2Int (Nat.toDigits 10 n.natAbs) = .ok (n.natAbs : Int) from digits2Int_zeros 0 _]
    show Except.ok (-(n.natAbs : Int)) = _
    congr 1
    omega
  · have hsign : signText (decide (n < 0)) ++ Nat.toDigits 10 n.natAbs = Nat.toDigits 10 n.natAbs := by
      simp [signText, hn]
    rw [hsign, string2Int_toDigits]
    congr 1
    omega

end Digits

/-! ## Conversion specifications -/

/-- A flag in front of the width. -/
inductive Flag
  | zero | alt
  deriving DecidableEq, Repr

def Flag.char : Flag → Char
  | .zero => '0'
  | .alt => '#'

/-- The width; zeros that come after the flag `-` are the flag `0` again. -/
inductive WidthSpec
  | absent
  | right (n : ℕ+)
  | left (zeros n : Nat)
  /-- `*`, with its argument -/
  | star (a : Int)

inductive PrecisionSpec
  | absent
  /-- a period alone -/
  | dot
  | given (zeros n : Nat)
  /-- `.*`, with its argument -/
  | star (a : Int)

inductive LengthMod
  | none | hh | h | l | ll | z | t
  deriving DecidableEq, Repr

def WidthSpec.text : WidthSpec → List Char
  | .absent => []
  | .right n => Nat.toDigits 10 n
  | .left zeros n => '-' :: (List.replicate zeros '0' ++ Nat.toDigits 10 n)
  | .star _ => ['*']

/-- A width to the left is a negative one; with `-` but no width the side makes no difference. -/
def WidthSpec.value : WidthSpec → Int
  | .absent => 0
  | .right n => (n : Nat)
  | .left _ n => -n
  | .star a => a

def WidthSpec.args : WidthSpec → List VarArg
  | .star a => [⟨.int, a⟩]
  | _ => []

def PrecisionSpec.text : PrecisionSpec → List Char
  | .absent => []
  | .dot => ['.']
  | .given zeros n => '.' :: (List.replicate zeros '0' ++ Nat.toDigits 10 n)
  | .star _ => ['.', '*']

def PrecisionSpec.value : PrecisionSpec → Option Int
  | .absent => Option.none
  | .dot => some 0
  | .given _ n => some n
  | .star a => some a

def PrecisionSpec.args : PrecisionSpec → List VarArg
  | .star a => [⟨.int, a⟩]
  | _ => []

def LengthMod.text : LengthMod → List Char
  | .none => []
  | .hh => ['h', 'h']
  | .h => ['h']
  | .l => ['l']
  | .ll => ['l', 'l']
  | .z => ['z']
  | .t => ['t']

/-- An integer conversion that the format parser accepts. -/
structure ConversionSpec where
  flags : List Flag
  width : WidthSpec
  precision : PrecisionSpec
  length : LengthMod
  letter : Char
  kind : Conv
  named : Conv.ofChar letter = some kind
  altForm : .alt ∈ flags → kind ≠ .d ∧ kind ≠ .u

namespace ConversionSpec

variable (spec : ConversionSpec)

def text : List Char :=
  '%' :: (spec.flags.map Flag.char ++ spec.width.text ++ spec.precision.text ++ spec.length.text ++ [spec.letter])

def zero : Bool := decide (.zero ∈ spec.flags)

def alt : Bool := decide (.alt ∈ spec.flags)

def base : Nat :=
  match spec.kind with
  | .d => 10
  | .u => 10
  | .o => 8
  | .x => 16
  | .X => 16

def altPrefix : AltPrefix :=
  match spec.kind, spec.alt with
  | .o, true => .zero
  | .x, true => .hex
  | .X, true => .HEX
  | _, _ => .none

/-- The letters of `%X` are capital ones. -/
def capitals (S : List Char) : List Char := if spec.kind = .X then S.map Char.toUpper else S

/-- The text for the value `v`. -/
def expected (v : Int) : List Char :=
  spec.capitals (conversionText spec.altPrefix (decide (v < 0)) (Nat.toDigits spec.base v.natAbs)
    (effectivePrecision spec.precision.value) spec.zero (decide (spec.width.value < 0)) spec.width.value.natAbs)

/-- The text is printed right. -/
def PrintsRight (v : Int) : Prop :=
  FormatsRight spec.altPrefix (decide (v < 0)) (Nat.toDigits spec.base v.natAbs) spec.precision.value
    spec.zero (decide (spec.width.value < 0)) spec.width.value.natAbs

/-- The argument has a type that the conversion takes, and an unsigned conversion a value of its type. -/
structure Takes (cfg : Settings) (a : VarArg) : Prop where
  typed : ∃ T, getFormatType' spec.kind (String.ofList spec.length.text) = some T ∧ argMatches cfg T a = true
  unsigned : spec.kind ≠ .d → 0 ≤ a.value

end ConversionSpec

/-! ## Reading the specification -/

section Parse

variable {cfg : Settings} {others : Char → Formatting → List VarArg → Eval (List Char × List VarArg)}
  {f : Formatting} {args : List VarArg}

theorem formatter'_cells {c : Char} {fmt : List Char} {s s' : FormatState} {f' : Formatting}
    (h : formatStep s f c = .ok (.cells f' s')) :
    formatter' cfg others (c :: fmt) s f args = formatter' cfg others fmt s' f' args := by
  rw [formatter', h]
  rfl

/-- The flags set their cells. -/
theorem formatter'_flags (flags : List Flag) (fmt : List Char) (hw : f.fieldWidth = []) :
    formatter' cfg others (flags.map Flag.char ++ fmt) .percent f args =
      formatter' cfg others fmt .percent
        { f with
          padZero := f.padZero || decide (.zero ∈ flags)
          altForm := f.altForm || decide (.alt ∈ flags) } args := by
  induction flags generalizing f with
  | nil => simp
  | cons flag flags ih =>
    cases flag with
    | zero =>
      have hstep : formatStep .percent f '0' = .ok (.cells { f with padZero := true } .percent) := by
        simp [formatStep, percentStep, hw]
      rw [List.map_cons, List.cons_append, Flag.char, formatter'_cells hstep,
        ih (f := { f with padZero := true }) hw]
      simp
    | alt =>
      have hstep : formatStep .percent f '#' = .ok (.cells { f with altForm := true } .percent) := by
        simp [formatStep, percentStep, hw]
      rw [List.map_cons, List.cons_append, Flag.char, formatter'_cells hstep,
        ih (f := { f with altForm := true }) hw]
      simp

/-- Digits go into the width once it has begun. -/
theorem formatter'_width_digits (ds fmt : List Char) (hds : ∀ c ∈ ds, c.isDigit = true) (hw : f.fieldWidth ≠ []) :
    formatter' cfg others (ds ++ fmt) .percent f args =
      formatter' cfg others fmt .percent { f with fieldWidth := f.fieldWidth ++ ds } args := by
  induction ds generalizing f with
  | nil => simp
  | cons c ds ih =>
    have hc : c.isDigit = true := hds c List.mem_cons_self
    have hstep : formatStep .percent f c =
        .ok (.cells { f with fieldWidth := f.fieldWidth ++ [c] } .percent) := by
      have hne : c ≠ '#' := fun h => by rw [h] at hc; simp at hc
      by_cases h0 : c = '0'
      · simp [formatStep, percentStep, h0, hw]
      · simp [formatStep, percentStep, h0, hne, hc]
    rw [List.cons_append, formatter'_cells hstep, ih (fun c' hc' => hds c' (List.mem_cons_of_mem c hc')) (by simp)]
    simp

/-- The width, however it is written, is in its cell. -/
theorem formatter'_width (w : WidthSpec) (fmt : List Char) (hw : f.fieldWidth = []) :
    formatter' cfg others (w.text ++ fmt) .percent f args =
      formatter' cfg others fmt .percent { f with fieldWidth := w.text } args := by
  cases w with
  | absent =>
    rw [WidthSpec.text, List.nil_append, ← hw]
  | right n =>
    have hdig : ∀ c ∈ Nat.toDigits 10 n, c.isDigit = true := fun c hc =>
      Nat.isDigit_of_mem_toDigits (by decide) (by decide) hc
    have hhead : (Nat.toDigits 10 n).head? ≠ some '0' := head_toDigits (by decide) n.ne_zero
    rw [WidthSpec.text]
    cases hds : Nat.toDigits 10 n with
    | nil => exact absurd hds Nat.toDigits_ne_nil
    | cons c ds =>
      rw [hds] at hdig hhead
      have hc : c.isDigit = true := hdig c List.mem_cons_self
      have h0 : c ≠ '0' := by simpa using hhead
      have hne : c ≠ '#' := fun h => by rw [h] at hc; simp at hc
      have hstep : formatStep .percent f c = .ok (.cells { f with fieldWidth := [c] } .percent) := by
        simp [formatStep, percentStep, h0, hne, hc, hw]
      rw [List.cons_append, formatter'_cells hstep,
        formatter'_width_digits ds fmt (fun c' hc' => hdig c' (List.mem_cons_of_mem c hc')) (by simp)]
      simp
  | left zeros n =>
    have hstep : formatStep .percent f '-' = .ok (.cells { f with fieldWidth := ['-'] } .percent) := by
      simp [formatStep, percentStep, hw]
    rw [WidthSpec.text, List.cons_append, formatter'_cells hstep, formatter'_width_digits _ fmt (isDigit_zeros zeros n) (by simp)]
    simp
  | star a =>
    have hstep : formatStep .percent f '*' = .ok (.cells { f with fieldWidth := ['*'] } .percent) := by
      simp [formatStep, percentStep, hw]
    exact formatter'_cells hstep

theorem formatter'_precision_digits (ds fmt : List Char) (hds : ∀ c ∈ ds, c.isDigit = true) :
    formatter' cfg others (ds ++ fmt) .precision f args =
      formatter' cfg others fmt .precision { f with precision := f.precision ++ ds } args := by
  induction ds generalizing f with
  | nil => simp
  | cons c ds ih =>
    have hc : c.isDigit = true := hds c List.mem_cons_self
    have hstep : formatStep .precision f c =
        .ok (.cells { f with precision := f.precision ++ [c] } .precision) := by
      simp [formatStep, hc]
    rw [List.cons_append, formatter'_cells hstep, ih (fun c' hc' => hds c' (List.mem_cons_of_mem c hc'))]
    simp

/-- A character that ends the precision is looked at again. -/
theorem formatter'_precision_end {c : Char} (fmt : List Char) (hc : c.isDigit = false) (hs : c ≠ '*') :
    formatter' cfg others (c :: fmt) .precision f args = formatter' cfg others (c :: fmt) .percent
      { f with precision := if f.precision = [] then ['0'] else f.precision } args := by
  have hstep : formatStep .precision f c =
      formatStep .percent { f with precision := if f.precision = [] then ['0'] else f.precision } c := by
    simp [formatStep, hc, hs]
  rw [formatter', formatter', hstep]

/-- The precision, however it is written, is in its cell, and a period alone is a zero.  Something that
    is neither a digit nor a star comes after it. -/
def PrecisionSpec.cell : PrecisionSpec → List Char
  | .absent => []
  | .dot => ['0']
  | .given zeros n => List.replicate zeros '0' ++ Nat.toDigits 10 n
  | .star _ => ['*']

theorem formatter'_precision (p : PrecisionSpec) {c : Char} (fmt : List Char) (hp : f.precision = [])
    (hc : c.isDigit = false) (hs : c ≠ '*') :
    formatter' cfg others (p.text ++ c :: fmt) .percent f args =
      formatter' cfg others (c :: fmt) .percent { f with precision := p.cell } args := by
  have hdot : formatStep .percent f '.' = .ok (.cells f .precision) := by
    simp [formatStep, percentStep, hp]
  cases p with
  | absent =>
    rw [PrecisionSpec.text, PrecisionSpec.cell, List.nil_append, ← hp]
  | dot =>
    rw [PrecisionSpec.text, List.singleton_append, formatter'_cells hdot, formatter'_precision_end fmt hc hs]
    simp [PrecisionSpec.cell, hp]
  | given zeros n =>
    rw [PrecisionSpec.text, List.cons_append, formatter'_cells hdot, formatter'_precision_digits _ _ (isDigit_zeros zeros n),
      formatter'_precision_end fmt hc hs]
    simp [PrecisionSpec.cell, hp, Nat.toDigits_ne_nil]
  | star a =>
    have hstar : formatStep .precision f '*' = .ok (.cells { f with precision := ['*'] } .percent) := by
      simp [formatStep, hp]
    show formatter' cfg others ('.' :: '*' :: c :: fmt) .percent f args = _
    rw [formatter'_cells hdot, formatter'_cells hstar]
    rfl

theorem formatter'_length_chars (cs fmt : List Char) (hcs : ∀ c ∈ cs, c ∈ ['h', 'l', 'z', 't']) :
    formatter' cfg others (cs ++ fmt) .percent f args =
      formatter' cfg others fmt .percent { f with length := f.length ++ cs } args := by
  induction cs generalizing f with
  | nil => simp
  | cons c cs ih =>
    have hc := hcs c List.mem_cons_self
    have hstep : formatStep .percent f c = .ok (.cells { f with length := f.length ++ [c] } .percent) := by
      simp only [List.mem_cons, List.not_mem_nil, or_false] at hc
      rcases hc with rfl | rfl | rfl | rfl <;> simp [formatStep, percentStep, Char.isDigit]
    rw [List.cons_append, formatter'_cells hstep, ih fun c' hc' => hcs c' (List.mem_cons_of_mem c hc')]
    simp

theorem LengthMod.mem_text (len : LengthMod) : ∀ c ∈ len.text, c ∈ ['h', 'l', 'z', 't'] := by
  cases len <;> simp [LengthMod.text]

/-- What comes after the precision neither is a digit nor a star. -/
theorem ConversionSpec.exists_tail (spec : ConversionSpec) :
    ∃ c fmt, spec.length.text ++ [spec.letter] = c :: fmt ∧ c.isDigit = false ∧ c ≠ '*' := by
  have hletter : spec.letter.isDigit = false ∧ spec.letter ≠ '*' := by
    have hnamed := spec.named
    unfold Conv.ofChar at hnamed
    split at hnamed <;> simp_all [Char.isDigit]
  cases hl : spec.length with
  | none => exact ⟨_, _, rfl, hletter⟩
  | hh => exact ⟨'h', ['h', spec.letter], rfl, by decide, by decide⟩
  | h => exact ⟨'h', [spec.letter], rfl, by decide, by decide⟩
  | l => exact ⟨'l', [spec.letter], rfl, by decide, by decide⟩
  | ll => exact ⟨'l', ['l', spec.letter], rfl, by decide, by decide⟩
  | z => exact ⟨'z', [spec.letter], rfl, by decide, by decide⟩
  | t => exact ⟨'t', [spec.letter], rfl, by decide, by decide⟩

/-- The cells when the letter of the conversion is reached. -/
def ConversionSpec.cells (spec : ConversionSpec) : Formatting where
  padZero := spec.zero
  altForm := spec.alt
  fieldWidth := spec.width.text
  precision := spec.precision.cell
  length := spec.length.text

/-- **The engine reads a specification** into its cells and makes the conversion. -/
theorem formatter_text (spec : ConversionSpec) {S : List Char} {rest : List VarArg}
    (h : formatInt cfg spec.kind spec.cells args = .ok (S, rest)) :
    formatter cfg others spec.text args = .ok S := by
  obtain ⟨c, fmt, htail, hc, hs⟩ := spec.exists_tail
  have hpercent : formatStep .normal .reset '%' = .ok (.cells .reset .percent) := rfl
  have hletter : formatStep .percent spec.cells spec.letter = .ok (.convert spec.kind spec.cells) := by
    have hnamed := spec.named
    unfold Conv.ofChar at hnamed
    split at hnamed <;> simp_all [formatStep, percentStep, Conv.ofChar, Char.isDigit]
  rw [formatter, ConversionSpec.text, formatter'_cells hpercent, List.append_assoc, List.append_assoc,
    List.append_assoc, formatter'_flags _ _ rfl, formatter'_width _ _ rfl, htail,
    formatter'_precision _ _ rfl hc hs, ← htail, formatter'_length_chars _ _ spec.length.mem_text]
  have hcells : ({ Formatting.reset with
      padZero := Formatting.reset.padZero || decide (.zero ∈ spec.flags)
      altForm := Formatting.reset.altForm || decide (.alt ∈ spec.flags)
      fieldWidth := spec.width.text
      precision := spec.precision.cell
      length := Formatting.reset.length ++ spec.length.text } : Formatting) = spec.cells := by
    simp [Formatting.reset, ConversionSpec.cells, ConversionSpec.zero, ConversionSpec.alt]
  rw [show formatter' cfg others [spec.letter] .percent _ args =
    formatter' cfg others [spec.letter] .percent spec.cells args from by rw [← hcells], formatter', hletter]
  show (formatInt cfg spec.kind spec.cells args >>= fun r =>
    formatter' cfg others [] .normal .reset r.2 >>= fun t => pure (r.1 ++ t)) = _
  rw [h]
  show Except.ok (S ++ []) = _
  rw [List.append_nil]

end Parse

/-! ## The conversion -/

section Convert

variable {cfg : Settings} {k : Conv}

theorem starCell_of_ne {cell : List Char} (h : cell ≠ ['*']) (args : List VarArg) :
    starCell cfg k cell args = .ok (cell, args) := if_neg h

theorem starCell_star (a : Int) (args : List VarArg) :
    starCell cfg k ['*'] (⟨.int, a⟩ :: args) = .ok (showInt a, args) := by
  have hmatch : argMatches cfg .int ⟨.int, a⟩ = true := by simp [argMatches]
  rw [starCell, if_pos rfl, nextvarg, if_pos hmatch]
  rfl

/-- Digits are no star. -/
theorem ne_star_of_isDigit {ds : List Char} (h : ∀ c ∈ ds, c.isDigit = true) : ds ≠ ['*'] := by
  rintro rfl
  have := h '*' (by simp)
  simp at this

/-- The width that is used is the one that is written, or the argument. -/
theorem starCell_width (w : WidthSpec) (rest : List VarArg) :
    ∃ W, starCell cfg k w.text (w.args ++ rest) = .ok (W, rest) ∧
      string2Int (if W = [] then ['0'] else W) = .ok w.value := by
  cases w with
  | absent => exact ⟨[], starCell_of_ne (by simp [WidthSpec.text]) rest, rfl⟩
  | right n =>
    have hdig : ∀ c ∈ Nat.toDigits 10 n, c.isDigit = true := isDigit_zeros 0 n
    refine ⟨Nat.toDigits 10 n, starCell_of_ne (ne_star_of_isDigit hdig) rest, ?_⟩
    rw [if_neg Nat.toDigits_ne_nil, string2Int_toDigits]
    rfl
  | left zeros n =>
    refine ⟨_, starCell_of_ne (by simp [WidthSpec.text]) rest, ?_⟩
    rw [WidthSpec.text, if_neg (by simp), string2Int, digits2Int_zeros]
    rfl
  | star a =>
    refine ⟨showInt a, starCell_star a rest, ?_⟩
    rw [if_neg (by simp [showInt, base2String, Nat.toDigits_ne_nil]), string2Int_showInt]
    rfl

/-- The precision that is used is the one that is written, the argument, or 1. -/
theorem starCell_precision (p : PrecisionSpec) (rest : List VarArg) :
    ∃ P, starCell cfg k (if p.cell = [] then ['1'] else p.cell) (p.args ++ rest) = .ok (P, rest) ∧
      string2Int P = .ok (p.value.getD 1) := by
  cases p with
  | absent => exact ⟨['1'], rfl, rfl⟩
  | dot => exact ⟨['0'], rfl, rfl⟩
  | given zeros n =>
    refine ⟨List.replicate zeros '0' ++ Nat.toDigits 10 n, ?_, ?_⟩
    · rw [PrecisionSpec.cell, if_neg (by simp [Nat.toDigits_ne_nil])]
      exact starCell_of_ne (ne_star_of_isDigit (isDigit_zeros zeros n)) rest
    · rw [string2Int_of_isDigit (isDigit_zeros zeros n), digits2Int_zeros]
      rfl
  | star a => exact ⟨showInt a, starCell_star a rest, string2Int_showInt a⟩

theorem PrecisionSpec.cell_eq_nil (p : PrecisionSpec) : p.cell = [] ↔ p.value.isNone = true := by
  cases p <;> simp [PrecisionSpec.cell, PrecisionSpec.value, Nat.toDigits_ne_nil]

/-- The rules of the conversions differ in the base, the prefix and the capitals. -/
theorem formatConv_eq (spec : ConversionSpec) (v P : Int) (Z : Bool) (W : Int) :
    formatConv spec.kind spec.alt v P Z W = spec.capitals
      (formatPrecisionWidth (signText (decide (v < 0)) ++ Nat.toDigits spec.base v.natAbs) P Z spec.altPrefix W) := by
  unfold ConversionSpec.capitals ConversionSpec.base ConversionSpec.altPrefix formatConv
  cases spec.kind <;> cases spec.alt <;> rfl

/-- **A conversion prints `formatNumber`** of what the specification says. -/
theorem formatInt_spec (spec : ConversionSpec) (a : VarArg) (ha : spec.Takes cfg a) :
    formatInt cfg spec.kind spec.cells (spec.width.args ++ (spec.precision.args ++ [a])) =
      .ok (spec.capitals (formatNumber spec.altPrefix (decide (a.value < 0)) (Nat.toDigits spec.base a.value.natAbs)
        spec.precision.value spec.zero spec.width.value), []) := by
  obtain ⟨T, hT, hmatch⟩ := ha.typed
  obtain ⟨W, hW, hw⟩ := @starCell_width cfg spec.kind spec.width (spec.precision.args ++ [a])
  obtain ⟨P, hP, hp⟩ := @starCell_precision cfg spec.kind spec.precision [a]
  have hZ : (if spec.precision.cell = [] then spec.zero else false) =
      (spec.zero && spec.precision.value.isNone) := by
    by_cases hnil : spec.precision.cell = []
    · rw [if_pos hnil, (spec.precision.cell_eq_nil).mp hnil, Bool.and_true]
    · have hsome : spec.precision.value.isNone = false := by
        by_contra h
        exact hnil ((spec.precision.cell_eq_nil).mpr (by simpa using h))
      rw [if_neg hnil, hsome, Bool.and_false]
  have halt : ¬(spec.alt = true ∧ (spec.kind = .d ∨ spec.kind = .u)) := by
    rintro ⟨h, hk⟩
    obtain ⟨hd, hu⟩ := spec.altForm (by simpa [ConversionSpec.alt] using h)
    exact hk.elim hd hu
  have hP' : starCell cfg spec.kind (if spec.cells.precision = [] then ['1'] else spec.cells.precision)
      (spec.precision.args ++ [a]) = .ok (P, [a]) := hP
  have hZ' : (if spec.cells.precision = [] then spec.cells.padZero else false) =
      (spec.zero && spec.precision.value.isNone) := hZ
  have halt' : ¬(spec.cells.altForm = true ∧ (spec.kind = .d ∨ spec.kind = .u)) := halt
  have hT' : getFormatType' spec.kind (String.ofList spec.cells.length) = some T := hT
  rw [formatInt, show starCell cfg spec.kind spec.cells.fieldWidth _ = _ from hW, Eval.ok_bind]
  dsimp only
  rw [hP', Eval.ok_bind]
  dsimp only
  rw [hT']
  dsimp only
  rw [nextvarg, if_pos hmatch, Eval.ok_bind, if_neg halt', hw, Eval.ok_bind, hp, Eval.ok_bind, hZ', formatNumber,
    show spec.cells.altForm = spec.alt from rfl, formatConv_eq]
  rfl

/-! ## Capitals -/

/-- The characters of a hexadecimal number in its field. -/
def hexChars : List Char := "0123456789abcdefX ".toList

/-- `toUpper` undone on them. -/
def lowerHex (c : Char) : Char := if c = 'X' then c else c.toLower

theorem lowerHex_toUpper : ∀ c ∈ hexChars, lowerHex c.toUpper = c := by
  have hall : (hexChars.all fun c => decide (lowerHex c.toUpper = c)) = true := by decide
  intro c hc
  exact of_decide_eq_true (List.all_eq_true.mp hall c hc)

theorem map_toUpper_inj {A B : List Char} (hA : ∀ c ∈ A, c ∈ hexChars) (hB : ∀ c ∈ B, c ∈ hexChars) :
    A.map Char.toUpper = B.map Char.toUpper ↔ A = B := by
  have hback : ∀ L : List Char, (∀ c ∈ L, c ∈ hexChars) → (L.map Char.toUpper).map lowerHex = L := by
    intro L hL
    rw [List.map_map]
    conv_rhs => rw [← List.map_id L]
    exact List.map_congr_left fun c hc => lowerHex_toUpper c (hL c hc)
  constructor
  · intro h
    rw [← hback A hA, ← hback B hB, h]
  · intro h
    rw [h]

/-- The characters of a conversion without a sign. -/
theorem ConversionSpec.mem_hexChars {spec : ConversionSpec} (hX : spec.kind = .X) {v : Int} {c : Char}
    (h : c ∈ Nat.toDigits spec.base v.natAbs ∨ c = '0' ∨ c = ' ' ∨ c ∈ spec.altPrefix.text) : c ∈ hexChars := by
  have hdigit : ∀ d < 16, d.digitChar ∈ hexChars := by decide
  rcases h with h | rfl | rfl | h
  · have hbase : spec.base = 16 := by simp [ConversionSpec.base, hX]
    rw [hbase] at h
    obtain ⟨d, hd, rfl⟩ := mem_toDigits (by decide) h
    exact hdigit d hd
  · decide
  · decide
  · have hpre : spec.altPrefix = .HEX ∨ spec.altPrefix = .none := by
      unfold ConversionSpec.altPrefix
      rw [hX]
      cases spec.alt
      · exact .inr rfl
      · exact .inl rfl
    rcases hpre with hpre | hpre
    · have hall : (AltPrefix.HEX.text.all fun c => decide (c ∈ hexChars)) = true := by decide
      rw [hpre] at h
      exact of_decide_eq_true (List.all_eq_true.mp hall c h)
    · rw [hpre] at h
      cases h

/-- `%.3u` -/
def threeDigits : ConversionSpec where
  flags := []
  width := .absent
  precision := .given 0 3
  length := .none
  letter := 'u'
  kind := .u
  named := rfl
  altForm := by simp

/-- `%.3d` -/
def threeDigitsSigned : ConversionSpec where
  flags := []
  width := .absent
  precision := .given 0 3
  length := .none
  letter := 'd'
  kind := .d
  named := rfl
  altForm := by simp

end Convert

end CSemantics
