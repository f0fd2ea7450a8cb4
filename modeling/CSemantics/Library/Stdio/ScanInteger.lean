/-
  The integer conversions of `fscanf`.

  A conversion `%d`, `%u`, `%o`, `%i` or `%x` takes bytes as long as they are in the scan set, and stores the number
  that the bytes are.  They should be the longest beginning of a sequence that `strtol` accepts:

      %d %u    base 10      sign? digit+
      %o       base 8       sign? octal+
      %x       base 16      sign? (0x)? hex+
      %i       base 0       sign? (0 octal* | nonzero digit* | 0x hex+)

  The scan set of `%i` is that of `%x`: digits of base 16 are taken with or without `0x`, so `12ab` is one item, and a
  complete one.  In `strip0xPrefix` the substring ends at the length of the text WITH its sign, which is one more
  than there is when there is a sign; so no `0x` with a sign can be evaluated.  Without `0x` the number of a `%i` is
  left to `String2Base` in base 0, which is not documented.  And a number that no `long` can hold is not clamped.

      longest_takeItem     the bytes that are taken
      isCompleteItem_eq    when they are complete
      itemValue_eq         the number they are
      reads_as_strtol_iff  when all three are right
-/
import CSemantics.Library.Stdio.Scanf
import CSemantics.Translation.Literal
import CSemantics.Lib.LongestPrefix

namespace CSemantics.ScanInteger

open LongestPrefix Literal

/-! ## The code -/

/-- `substrString(S, I, J)`, which is defined where both are in the string. -/
def substrString (S : List Char) (i j : Nat) : Eval (List Char) :=
  if i ≤ j ∧ j ≤ S.length then .ok ((S.take j).drop i) else .error .stuck

def hasPosSign (S : List Char) : Bool := S.head? == some '+'

def hasNegSign (S : List Char) : Bool := S.head? == some '-'

/-- `strip0xPrefix`, with the sign -/
def strip0xPrefix (S : List Char) : Eval (List Char) :=
  if has0xPrefix S then do
    let digits ← substrString (stripSign S) 2 S.length
    if hasPosSign S then return '+' :: digits
    else if hasNegSign S then return '-' :: digits
    else return digits
  else return S

/-- `isCompleteItem(Item, D)`; the condition on a numeric directive needs `strip0xPrefix(Item)`. -/
def isCompleteItem (item : List Char) (D : Directive) : Eval Bool := do
  if !item.isEmpty && D.isNumericDirective then
    let _ ← strip0xPrefix item
    return D.isCompleteItem item
  else return D.isCompleteItem item

/-- The conversions for integers. -/
inductive IntSpec
  | d | i | o | u | x
  deriving DecidableEq

def IntSpec.toSpec : IntSpec → ConvSpec
  | .d => .d
  | .i => .i
  | .o => .o
  | .u => .u
  | .x => .x

def IntSpec.directive (wr : WriteBehavior) (width : Int) (spec : IntSpec) : Directive :=
  .conversion wr width spec.toSpec

/-- Digits, as a number -/
def naturalBase (base : Nat) (digits : List Char) : Eval Int :=
  if digits ≠ [] ∧ ∀ c ∈ digits, isDigit c base = true then .ok (string2Base digits base) else .error .stuck

/-- `String2Base(S, Base)`: digits, and perhaps a sign.  What base 0 is, is not said. -/
def signedBase (base0 : List Char → Eval Int) (S : List Char) (base : Nat) : Eval Int :=
  if base = 0 then base0 S
  else
    match S with
    | '+' :: digits => naturalBase base digits
    | '-' :: digits => do return -(← naturalBase base digits)
    | digits => naturalBase base digits

/-- The number that `writeItem` gives to the cast, and so to the object. -/
def itemValue (base0 : List Char → Eval Int) (spec : IntSpec) (item : List Char) : Eval Int :=
  match spec with
  | .d => signedBase base0 item 10
  | .u => signedBase base0 item 10
  | .o => signedBase base0 item 8
  | .i => if has0xPrefix item then do signedBase base0 (← strip0xPrefix item) 16 else signedBase base0 item 0
  | .x => if has0xPrefix item then do signedBase base0 (← strip0xPrefix item) 16 else signedBase base0 item 16

/-! ## `strtol` -/

/-- The base that a conversion stands for. -/
def IntSpec.base : IntSpec → Nat
  | .d => 10
  | .i => 0
  | .o => 8
  | .u => 10
  | .x => 16

/-- The `x` of `0x` -/
def isX (c : Char) : Bool := c == 'x' || c == 'X'

/-- What `strtol` reads behind the sign. -/
inductive Unsigned : Nat → List Char → Prop
  | digits {base : Nat} {ds : List Char} (hbase : 2 ≤ base) (hne : ds ≠ []) (hds : ∀ c ∈ ds, isDigit c base = true) :
      Unsigned base ds
  | hex {x : Char} {ds : List Char} (hx : isX x = true) (hne : ds ≠ []) (hds : ∀ c ∈ ds, isDigit c 16 = true) :
      Unsigned 16 ('0' :: x :: ds)
  /-- base 0 is decimal, -/
  | decimal {d : Char} {ds : List Char} (hd : d ≠ '0') (hds : ∀ c ∈ d :: ds, isDigit c 10 = true) :
      Unsigned 0 (d :: ds)
  /-- octal -/
  | octal {ds : List Char} (hds : ∀ c ∈ ds, isDigit c 8 = true) : Unsigned 0 ('0' :: ds)
  /-- or hexadecimal -/
  | hexadecimal {x : Char} {ds : List Char} (hx : isX x = true) (hne : ds ≠ [])
      (hds : ∀ c ∈ ds, isDigit c 16 = true) : Unsigned 0 ('0' :: x :: ds)

/-- A sign, or none -/
inductive IsSign : List Char → Prop
  | none : IsSign []
  | pos : IsSign ['+']
  | neg : IsSign ['-']

/-- A sequence that `strtol` accepts. -/
inductive Subject (base : Nat) : List Char → Prop
  | mk {sg body : List Char} (hsg : IsSign sg) (hbody : Unsigned base body) : Subject base (sg ++ body)

def magnitude (base : Nat) : List Char → Nat
  | '0' :: x :: ds =>
    if isX x && (base == 16 || base == 0) then valueOf 16 ds
    else valueOf (if base = 0 then 8 else base) ('0' :: x :: ds)
  | '0' :: ds => valueOf (if base = 0 then 8 else base) ('0' :: ds)
  | ds => valueOf (if base = 0 then 10 else base) ds

/-- The number that the sequence stands for. -/
def number (base : Nat) : List Char → Int
  | '+' :: body => magnitude base body
  | '-' :: body => -magnitude base body
  | body => magnitude base body

/-- The range of `long` -/
structure LongRange where
  min : Int
  max : Int
  min_le_max : min ≤ max

/-- What `strtol` returns for it: the number, or the end of the range that it is beyond. -/
def strtol (long : LongRange) (base : Nat) (item : List Char) : Int := max long.min (min long.max (number base item))

/-- No more than the field width, if there is one. -/
def Within (width : Int) (p : List Char) : Prop := 0 < width → (p.length : Int) ≤ width

/-- The longest beginning of a sequence for `strtol`, within the width. -/
def Item (base : Nat) (width : Int) (u p : List Char) : Prop :=
  Longest (fun p => Within width p ∧ Viable (Subject base) p) u p

/-! ## Characters -/

theorem ordChar_of_isDigit {c : Char} {base : Int} (h : isDigit c base = true) : 48 ≤ ordChar c := by
  have h0 : ordChar '0' = 48 := rfl
  have ha : ordChar 'a' = 97 := rfl
  have hA : ordChar 'A' = 65 := rfl
  rw [isDigit, h0, ha, hA] at h
  split at h
  · simp only [Bool.and_eq_true, decide_eq_true_eq] at h
    exact h.1
  · simp only [Bool.or_eq_true, Bool.and_eq_true, decide_eq_true_eq] at h
    omega

theorem not_isSign {c : Char} {base : Int} (h : isDigit c base = true) : isSign c = false := by
  have hord := ordChar_of_isDigit h
  have hpos : c ≠ '+' := by
    rintro rfl
    exact absurd hord (by decide)
  have hneg : c ≠ '-' := by
    rintro rfl
    exact absurd hord (by decide)
  rw [isSign, beq_eq_false_iff_ne.2 hpos, beq_eq_false_iff_ne.2 hneg]
  rfl

theorem not_isWhitespace {c : Char} {base : Int} (h : isDigit c base = true) : isWhitespace c = false := by
  have hord := ordChar_of_isDigit h
  have hspace : c ≠ ' ' := by
    rintro rfl
    exact absurd hord (by decide)
  have h13 : ¬ ordChar c ≤ 13 := by omega
  simp [isWhitespace, h13, hspace]

theorem isDigit_mono {c : Char} (base : Nat) (hbase : base = 8 ∨ base = 10 ∨ base = 16)
    (h : isDigit c base = true) : isDigit c 16 = true := by
  rcases hbase with rfl | rfl | rfl
  · simp only [isDigit, show ((8 : Nat) : Int) ≤ 10 from by decide, if_true, Bool.and_eq_true, decide_eq_true_eq] at h
    simp only [isDigit, show ¬ (16 : Int) ≤ 10 from by decide, if_false, Bool.or_eq_true, Bool.and_eq_true,
      decide_eq_true_eq]
    exact .inl (.inl ⟨h.1, by have := h.2; omega⟩)
  · simp only [isDigit, show ((10 : Nat) : Int) ≤ 10 from by decide, if_true, Bool.and_eq_true,
      decide_eq_true_eq] at h
    simp only [isDigit, show ¬ (16 : Int) ≤ 10 from by decide, if_false, Bool.or_eq_true, Bool.and_eq_true,
      decide_eq_true_eq]
    exact .inl (.inl h)
  · exact h

theorem isX_cases {x : Char} (h : isX x = true) : x = 'x' ∨ x = 'X' := by
  rwa [isX, Bool.or_eq_true, beq_iff_eq, beq_iff_eq] at h

theorem not_isDigit_of_isX {x : Char} (h : isX x = true) : isDigit x 16 = false := by
  rcases isX_cases h with rfl | rfl <;> rfl

theorem toUpper_eq_X (c : Char) : c.toUpper = 'X' ↔ isX c = true := by
  rw [isX, Bool.or_eq_true, beq_iff_eq, beq_iff_eq]
  unfold Char.toUpper
  split
  · simp only [Char.ext_iff]
    grind
  · rename_i h
    constructor
    · exact .inr
    · rintro (rfl | rfl)
      · exact absurd (by decide) h
      · rfl

theorem toUpper_eq_zero (c : Char) : c.toUpper = '0' ↔ c = '0' := by
  unfold Char.toUpper
  split
  · simp only [Char.ext_iff]
    grind
  · rfl

/-! ## What begins a sequence -/

/-- Behind the sign, as far as it goes. -/
inductive Body : Nat → List Char → Prop
  | digits {base : Nat} {ds : List Char} (hbase : 2 ≤ base) (hds : ∀ c ∈ ds, isDigit c base = true) : Body base ds
  | hex {x : Char} {ds : List Char} (hx : isX x = true) (hds : ∀ c ∈ ds, isDigit c 16 = true) :
      Body 16 ('0' :: x :: ds)
  | nil : Body 0 []
  | decimal {d : Char} {ds : List Char} (hd : d ≠ '0') (hds : ∀ c ∈ d :: ds, isDigit c 10 = true) : Body 0 (d :: ds)
  | octal {ds : List Char} (hds : ∀ c ∈ ds, isDigit c 8 = true) : Body 0 ('0' :: ds)
  | hexadecimal {x : Char} {ds : List Char} (hx : isX x = true) (hds : ∀ c ∈ ds, isDigit c 16 = true) :
      Body 0 ('0' :: x :: ds)

/-- A sign or none, and a body -/
inductive Form (base : Nat) : List Char → Prop
  | mk {sg body : List Char} (hsg : IsSign sg) (hbody : Body base body) : Form base (sg ++ body)

variable {base : Nat} {sg body item p : List Char} {c : Char}

theorem body_of_unsigned (h : Unsigned base body) : Body base body := by
  cases h with
  | digits hbase _ hds => exact .digits hbase hds
  | hex hx _ hds => exact .hex hx hds
  | decimal hd hds => exact .decimal hd hds
  | octal hds => exact .octal hds
  | hexadecimal hx _ hds => exact .hexadecimal hx hds

theorem body_nil (hbase : base = 0 ∨ 2 ≤ base) : Body base [] := by
  rcases hbase with rfl | hbase
  · exact .nil
  · exact .digits hbase fun c hc => absurd hc List.not_mem_nil

theorem isDigit_zero (hbase : 2 ≤ base) : isDigit '0' base = true := by
  have h0 : ordChar '0' = 48 := rfl
  rw [isDigit, h0]
  split <;> simp
  omega

/-- One more digit, and it is a sequence. -/
theorem unsigned_append_zero (h : Body base body) : Unsigned base (body ++ ['0']) := by
  have hmem : ∀ {b : Nat} {ds : List Char}, 2 ≤ b → (∀ c ∈ ds, isDigit c b = true) →
      ∀ c ∈ ds ++ ['0'], isDigit c b = true := by
    intro b ds hb hds c hc
    rcases List.mem_append.1 hc with hc | hc
    · exact hds c hc
    · rw [List.mem_singleton.1 hc]
      exact isDigit_zero hb
  cases h with
  | digits hbase hds => exact .digits hbase (by simp) (hmem hbase hds)
  | hex hx hds => exact .hex hx (by simp) (hmem (by decide) hds)
  | nil => exact .octal fun c hc => absurd hc List.not_mem_nil
  | decimal hd hds => exact .decimal hd (hmem (b := 10) (by decide) hds)
  | octal hds => exact .octal (hmem (by decide) hds)
  | hexadecimal hx hds => exact .hexadecimal hx (by simp) (hmem (by decide) hds)

theorem Body.dropLast (h : Body base (body ++ [c])) (hbase : base = 0 ∨ 2 ≤ base) : Body base body := by
  generalize hb : body ++ [c] = b at h
  have hmem : ∀ {ds : List Char} {P : Char → Prop}, body ++ [c] = ds → (∀ c ∈ ds, P c) → ∀ c ∈ body, P c := by
    rintro ds P rfl hds d hd
    exact hds d (List.mem_append_left _ hd)
  cases body with
  | nil => exact body_nil hbase
  | cons a body =>
    rw [List.cons_append] at hb
    cases h with
    | digits h2 hds => exact .digits h2 (hmem hb hds)
    | @hex x ds hx hds =>
      obtain ⟨rfl, htail⟩ := List.cons.inj hb
      clear hb hmem
      cases body with
      | nil =>
        refine .digits (by decide) fun d hd => ?_
        rw [List.mem_singleton.1 hd]
        rfl
      | cons b body =>
        obtain ⟨rfl, rfl⟩ := List.cons.inj htail
        exact .hex hx fun d hd => hds d (List.mem_append_left _ hd)
    | nil => cases hb
    | decimal hd hds =>
      obtain ⟨rfl, rfl⟩ := List.cons.inj hb
      exact .decimal hd fun d hd => hds d (by
        rw [← List.cons_append]
        exact List.mem_append_left _ hd)
    | octal hds =>
      obtain ⟨rfl, rfl⟩ := List.cons.inj hb
      exact .octal fun d hd => hds d (List.mem_append_left _ hd)
    | hexadecimal hx hds =>
      obtain ⟨rfl, htail⟩ := List.cons.inj hb
      clear hb hmem
      cases body with
      | nil => exact .octal fun d hd => absurd hd List.not_mem_nil
      | cons b body =>
        obtain ⟨rfl, rfl⟩ := List.cons.inj htail
        exact .hexadecimal hx fun d hd => hds d (List.mem_append_left _ hd)

/-- A sign with nothing behind it is what is left of a sign. -/
theorem IsSign.dropLast (h : IsSign (p ++ [c])) : p = [] := by
  generalize hs : p ++ [c] = s at h
  cases h with
  | none => exact absurd hs (by simp)
  | pos => exact (List.append_eq_cons_iff.1 hs).elim (fun h => h.1) fun ⟨_, _, h⟩ => absurd h (by simp)
  | neg => exact (List.append_eq_cons_iff.1 hs).elim (fun h => h.1) fun ⟨_, _, h⟩ => absurd h (by simp)

theorem Form.dropLast (hbase : base = 0 ∨ 2 ≤ base) (h : Form base (p ++ [c])) : Form base p := by
  generalize hs : p ++ [c] = s at h
  obtain ⟨hsg, hbody⟩ := h
  rename_i sg body
  rcases List.eq_nil_or_concat body with rfl | ⟨body', c', rfl⟩
  · rw [List.append_nil] at hs
    subst hs
    rw [hsg.dropLast]
    exact .mk .none (body_nil hbase)
  · rw [List.concat_eq_append] at hs hbody
    rw [← List.append_assoc] at hs
    obtain ⟨rfl, -⟩ := List.append_inj' hs rfl
    exact .mk hsg (hbody.dropLast hbase)

/-- **What begins a sequence** -/
theorem viable_iff (hbase : base = 0 ∨ 2 ≤ base) : Viable (Subject base) p ↔ Form base p := by
  constructor
  · rintro ⟨t, ht⟩
    refine of_isPrefix (fun q c => Form.dropLast hbase) (List.prefix_append p t) ?_
    generalize p ++ t = s at ht
    obtain ⟨hsg, hbody⟩ := ht
    exact .mk hsg (body_of_unsigned hbody)
  · rintro ⟨hsg, hbody⟩
    refine ⟨['0'], ?_⟩
    rw [List.append_assoc]
    exact .mk hsg (unsigned_append_zero hbody)

/-! ## What is taken -/

/-- The base of the digits in the scan set. -/
def IntSpec.scanBase : IntSpec → Nat
  | .d => 10
  | .i => 16
  | .o => 8
  | .u => 10
  | .x => 16

theorem IntSpec.scanBase_cases (spec : IntSpec) : spec.scanBase = 8 ∨ spec.scanBase = 10 ∨ spec.scanBase = 16 := by
  cases spec <;> simp [scanBase]

theorem isDigit_of_body (h : Body base (c :: body)) : ∃ b : Int, isDigit c b = true := by
  cases h with
  | digits _ hds => exact ⟨_, hds c List.mem_cons_self⟩
  | hex _ _ => exact ⟨16, rfl⟩
  | decimal _ hds => exact ⟨10, hds c List.mem_cons_self⟩
  | octal _ => exact ⟨16, rfl⟩
  | hexadecimal _ _ => exact ⟨16, rfl⟩

theorem stripSign_append (hsg : IsSign sg) (hbody : Body base body) : stripSign (sg ++ body) = body := by
  have hrest : stripSign body = body := by
    cases body with
    | nil => rfl
    | cons c body =>
      obtain ⟨b, hc⟩ := isDigit_of_body hbody
      rw [stripSign, List.dropWhile_cons_of_neg]
      rw [not_isSign hc, not_isWhitespace hc]
      simp
  cases hsg with
  | none => exact hrest
  | pos => exact hrest
  | neg => exact hrest

/-- One test for all of them. -/
def scanTest (base : Nat) (c : Char) (item : List Char) : Bool :=
  isDigit c base || (isSign c && item.isEmpty) || (base == 16 && isX c && isXPrefix item)

theorem inScanSet_eq (wr : WriteBehavior) (width : Int) (spec : IntSpec) (c : Char) (item : List Char) :
    (spec.directive wr width).inScanSet (some c) item = scanTest spec.scanBase c item := by
  cases spec <;> simp [IntSpec.directive, IntSpec.toSpec, Directive.inScanSet, scanTest, IntSpec.scanBase, isX]

theorem body_append_digit (hc : isDigit c base = true) (h : Body base body)
    (hbase : base = 8 ∨ base = 10 ∨ base = 16) : Body base (body ++ [c]) := by
  have hmem : ∀ {ds : List Char} {b : Nat}, isDigit c b = true → (∀ d ∈ ds, isDigit d b = true) →
      ∀ d ∈ ds ++ [c], isDigit d b = true := by
    intro ds b hc hds d hd
    rcases List.mem_append.1 hd with hd | hd
    · exact hds d hd
    · rwa [List.mem_singleton.1 hd]
  cases h with
  | digits h2 hds => exact .digits h2 (hmem hc hds)
  | hex hx hds => exact .hex hx (hmem hc hds)
  | _ => omega

/-- The last byte of a body is a digit, or the `x` of `0x`. -/
theorem last_of_body (h : Body base (body ++ [c])) (hbase : base = 8 ∨ base = 10 ∨ base = 16) :
    isDigit c base = true ∨ (base = 16 ∧ isX c = true ∧ body = ['0']) := by
  generalize hb : body ++ [c] = b at h
  cases h with
  | digits _ hds =>
    subst hb
    exact .inl (hds c (by simp))
  | @hex x ds hx hds =>
    rcases List.eq_nil_or_concat ds with rfl | ⟨ds', d, rfl⟩
    · obtain ⟨rfl, hlast⟩ := List.append_inj' (hb.trans (show '0' :: [x] = ['0'] ++ [x] from rfl)) rfl
      obtain ⟨rfl, -⟩ := List.cons.inj hlast
      exact .inr ⟨rfl, hx, rfl⟩
    · rw [List.concat_eq_append] at hb hds
      obtain ⟨-, hlast⟩ := List.append_inj'
        (hb.trans (show '0' :: x :: (ds' ++ [d]) = ('0' :: x :: ds') ++ [d] from rfl)) rfl
      obtain ⟨rfl, -⟩ := List.cons.inj hlast
      exact .inl (hds c (by simp))
  | _ => omega

/-- **The scan set** is what goes on with a number of its base. -/
theorem scanTest_iff (hbase : base = 8 ∨ base = 10 ∨ base = 16) (h : Form base item) :
    scanTest base c item = true ↔ Form base (item ++ [c]) := by
  have h2 : base = 0 ∨ 2 ≤ base := by omega
  rw [scanTest, Bool.or_eq_true, Bool.or_eq_true, Bool.and_eq_true, Bool.and_eq_true, Bool.and_eq_true]
  constructor
  · rintro ((hc | ⟨hc, hempty⟩) | ⟨⟨h16, hx⟩, hbegins⟩)
    · obtain ⟨hsg, hbody⟩ := h
      rw [List.append_assoc]
      exact .mk hsg (body_append_digit hc hbody hbase)
    · rw [List.isEmpty_iff] at hempty
      subst hempty
      rw [isSign, Bool.or_eq_true, beq_iff_eq, beq_iff_eq] at hc
      rcases hc with rfl | rfl
      · exact @Form.mk base ['+'] [] .pos (body_nil h2)
      · exact @Form.mk base ['-'] [] .neg (body_nil h2)
    · obtain ⟨hsg, hbody⟩ := h
      rw [isXPrefix, stripSign_append hsg hbody, beq_iff_eq] at hbegins
      rw [beq_iff_eq] at h16
      subst hbegins h16
      rw [List.append_assoc]
      exact .mk hsg (.hex hx fun d hd => absurd hd List.not_mem_nil)
  · intro hnext
    generalize hs : item ++ [c] = s at hnext
    obtain ⟨hsg, hbody⟩ := hnext
    rename_i sg body
    rcases List.eq_nil_or_concat body with rfl | ⟨body', c', rfl⟩
    · rw [List.append_nil] at hs
      subst hs
      have hitem := hsg.dropLast
      subst hitem
      refine .inl (.inr ⟨?_, rfl⟩)
      cases hsg <;> rfl
    · rw [List.concat_eq_append] at hs hbody
      rw [← List.append_assoc] at hs
      obtain ⟨rfl, hlast⟩ := List.append_inj' hs rfl
      obtain ⟨rfl, -⟩ := List.cons.inj hlast
      rcases last_of_body hbody hbase with hc | ⟨h16, hx, rfl⟩
      · exact .inl (.inl hc)
      · refine .inr ⟨⟨beq_iff_eq.2 h16, hx⟩, ?_⟩
        rw [isXPrefix, stripSign_append hsg (hbody.dropLast h2)]
        rfl

theorem takeItem_eq_munch (D : Directive) (u : List Char) : ∀ item,
    D.takeItem item u = munch (fun item c => !D.atFieldWidth item && D.inScanSet (some c) item) item u := by
  induction u with
  | nil => exact fun item => rfl
  | cons c rest ih =>
    intro item
    rw [Directive.takeItem, munch, ih]
    simp only [Bool.and_eq_true, Bool.not_eq_true']

theorem Within.dropLast {width : Int} (h : Within width (p ++ [c])) : Within width p := by
  intro hwidth
  have hlen := h hwidth
  rw [List.length_append, List.length_singleton] at hlen
  omega

/-- There is room for one more. -/
theorem atFieldWidth_iff {width : Int} (wr : WriteBehavior) (spec : ConvSpec) (h : Within width p) :
    (!(Directive.conversion wr width spec).atFieldWidth p) = true ↔ Within width (p ++ [c]) := by
  rw [Directive.atFieldWidth, Bool.not_eq_true', decide_eq_false_iff_not, Within, List.length_append,
    List.length_singleton]
  rw [Within] at h
  push_cast
  constructor
  · intro hnot hwidth
    have hle := h hwidth
    have hne : (p.length : Int) ≠ width := fun heq => hnot ⟨hwidth, heq⟩
    omega
  · rintro hle ⟨hwidth, heq⟩
    have := hle hwidth
    omega

/-- **The bytes that are taken** are the longest beginning of a number of the base of the scan set. -/
theorem longest_takeItem (wr : WriteBehavior) (spec : IntSpec) (width : Int) (u : List Char) :
    Item spec.scanBase width u ((spec.directive wr width).takeItem [] u).1 := by
  have hcases := spec.scanBase_cases
  have h2 : spec.scanBase = 0 ∨ 2 ≤ spec.scanBase := by omega
  rw [takeItem_eq_munch]
  show Longest _ ([] ++ u) _
  refine munch_longest ?_ ?_ u ?_
  · rintro p c ⟨hwithin, hviable⟩
    exact ⟨hwithin.dropLast, hviable.of_isPrefix (List.prefix_append p [c])⟩
  · rintro p c ⟨hwithin, hviable⟩
    have hroom := atFieldWidth_iff (c := c) wr spec.toSpec hwithin
    rw [viable_iff h2] at hviable
    rw [Bool.and_eq_true, IntSpec.directive, hroom, ← IntSpec.directive, inScanSet_eq, scanTest_iff hcases hviable,
      viable_iff h2]
  · refine ⟨fun hwidth => ?_, (viable_iff h2).2 (.mk .none (body_nil h2))⟩
    rw [List.length_nil]
    omega

/-! ## When it is complete -/

/-- `0x` and something behind it, or nothing. -/
def StartsHex (body : List Char) : Prop := ∃ x ds, isX x = true ∧ body = '0' :: x :: ds

/-- `0x` and nothing behind it. -/
def BareHex (body : List Char) : Prop := ∃ x, isX x = true ∧ body = ['0', x]

theorem BareHex.startsHex (h : BareHex body) : StartsHex body := by
  obtain ⟨x, hx, rfl⟩ := h
  exact ⟨x, [], hx, rfl⟩

theorem has0xPrefix_append (hsg : IsSign sg) (hbody : Body base body) :
    has0xPrefix (sg ++ body) = true ↔ StartsHex body := by
  rw [has0xPrefix, stripSign_append hsg hbody, beq_iff_eq, toUpperCase]
  constructor
  · intro h
    match body, h with
    | [], h => exact absurd h (by simp)
    | [c], h => exact absurd h (by simp)
    | c :: x :: ds, h =>
      simp only [List.take_succ_cons, List.take_zero, List.map_cons, List.map_nil, List.cons.injEq, and_true] at h
      exact ⟨x, ds, (toUpper_eq_X x).1 h.2, by rw [(toUpper_eq_zero c).1 h.1]⟩
  · rintro ⟨x, ds, hx, rfl⟩
    have hX := (toUpper_eq_X x).2 hx
    simp only [List.take_succ_cons, List.take_zero, List.map_cons, List.map_nil, hX]
    rfl

theorem not_isDigit_of_isX_base (base : Nat) {x : Char} (hx : isX x = true) (hbase : base = 8 ∨ base = 10 ∨ base = 16) :
    ¬isDigit x base = true := by
  intro h
  have h16 := isDigit_mono base hbase h
  rw [not_isDigit_of_isX hx] at h16
  cases h16

theorem not_isSign_of_mem_body (hbody : Body base body) (hc : c ∈ body) : isSign c = false := by
  have hX : ∀ {x : Char}, isX x = true → isSign x = false := by
    intro x hx
    rcases isX_cases hx with rfl | rfl <;> rfl
  cases hbody with
  | digits h2 hds => exact not_isSign (hds c hc)
  | hex hx hds =>
    rcases List.mem_cons.1 hc with rfl | hc
    · rfl
    · rcases List.mem_cons.1 hc with rfl | hc
      · exact hX hx
      · exact not_isSign (hds c hc)
  | nil => exact absurd hc List.not_mem_nil
  | decimal hd hds => exact not_isSign (hds c hc)
  | octal hds =>
    rcases List.mem_cons.1 hc with rfl | hc
    · rfl
    · exact not_isSign (hds c hc)
  | hexadecimal hx hds =>
    rcases List.mem_cons.1 hc with rfl | hc
    · rfl
    · rcases List.mem_cons.1 hc with rfl | hc
      · exact hX hx
      · exact not_isSign (hds c hc)

/-- The last byte is no sign if there is anything behind the sign. -/
theorem getLast_append (hbody : Body base body) (hne : body ≠ []) : (sg ++ body).getLast?.any isSign = false := by
  rw [List.getLast?_append_of_ne_nil sg hne, List.getLast?_eq_some_getLast hne]
  exact not_isSign_of_mem_body hbody (List.getLast_mem hne)

/-- The rules for an incomplete item, as far as integers go. -/
theorem directive_isCompleteItem_eq (wr : WriteBehavior) (spec : IntSpec) (width : Int) (hne : item ≠ []) :
    (spec.directive wr width).isCompleteItem item =
      !((!hasDigit (CSemantics.strip0xPrefix item) && toUpperCase item != "(NIL)".toList) ||
        item.getLast?.any isSign) := by
  have hempty : item.isEmpty = false := by rwa [List.isEmpty_eq_false_iff]
  cases spec <;>
    simp [IntSpec.directive, IntSpec.toSpec, Directive.isCompleteItem, hempty, Directive.isNumericDirective,
      Directive.isFloatDirective]

section Complete

variable (hbase : base = 0 ∨ base = 8 ∨ base = 10 ∨ base = 16)

include hbase

/-- The digits behind `0x` -/
theorem digits_of_startsHex {x : Char} {ds : List Char} (h : Body base ('0' :: x :: ds)) (hx : isX x = true) :
    ∀ c ∈ ds, isDigit c 16 = true := by
  cases h with
  | digits h2 hds => exact absurd (hds x (by simp)) (not_isDigit_of_isX_base _ hx (by omega))
  | hex _ hds => exact hds
  | decimal hd _ => exact absurd rfl hd
  | octal hds => exact absurd (hds x (by simp)) (not_isDigit_of_isX_base 8 hx (.inl rfl))
  | hexadecimal _ hds => exact hds

theorem not_startsHex_of_digits {ds : List Char} (hds : ∀ c ∈ ds, isDigit c base = true) (h0 : base ≠ 0) :
    ¬StartsHex ds := by
  rintro ⟨x, ds', hx, rfl⟩
  exact not_isDigit_of_isX_base _ hx (by omega) (hds x (by simp))

/-- A body is a number unless it is empty or ends with the `x`. -/
theorem unsigned_iff (hbody : Body base body) : Unsigned base body ↔ body ≠ [] ∧ ¬BareHex body := by
  constructor
  · intro h
    cases h with
    | digits h2 hne hds => exact ⟨hne, fun hbare => not_startsHex_of_digits hbase hds (by omega) hbare.startsHex⟩
    | hex hx hne hds =>
      refine ⟨List.cons_ne_nil _ _, ?_⟩
      rintro ⟨x, _, heq⟩
      exact hne (List.cons.inj (List.cons.inj heq).2).2
    | decimal hd hds =>
      refine ⟨List.cons_ne_nil _ _, ?_⟩
      rintro ⟨x, _, heq⟩
      exact hd (List.cons.inj heq).1
    | octal hds =>
      refine ⟨List.cons_ne_nil _ _, ?_⟩
      rintro ⟨x, hx, heq⟩
      rw [(List.cons.inj heq).2] at hds
      exact not_isDigit_of_isX_base 8 hx (.inl rfl) (hds x (by simp))
    | hexadecimal hx hne hds =>
      refine ⟨List.cons_ne_nil _ _, ?_⟩
      rintro ⟨x, _, heq⟩
      exact hne (List.cons.inj (List.cons.inj heq).2).2
  · rintro ⟨hne, hbare⟩
    have hmore : ∀ {x : Char} {ds : List Char}, isX x = true → body = '0' :: x :: ds → ds ≠ [] := by
      rintro x ds hx hb rfl
      exact hbare ⟨x, hx, hb⟩
    cases hbody with
    | digits h2 hds => exact .digits h2 hne hds
    | hex hx hds => exact .hex hx (hmore hx rfl) hds
    | nil => exact absurd rfl hne
    | decimal hd hds => exact .decimal hd hds
    | octal hds => exact .octal hds
    | hexadecimal hx hds => exact .hexadecimal hx (hmore hx rfl) hds

theorem isDigit_head (h : Body base (c :: body)) : isDigit c 16 = true := by
  cases h with
  | digits h2 hds => exact isDigit_mono base (by omega) (hds c List.mem_cons_self)
  | hex _ _ => rfl
  | decimal _ hds => exact isDigit_mono 10 (.inr (.inl rfl)) (hds c List.mem_cons_self)
  | octal _ => rfl
  | hexadecimal _ _ => rfl

/-- There is a digit, the `0` of `0x` apart. -/
theorem hasDigit_strip0xPrefix (hsg : IsSign sg) (hbody : Body base body) :
    hasDigit (CSemantics.strip0xPrefix (sg ++ body)) = true ↔ body ≠ [] ∧ ¬BareHex body := by
  rw [CSemantics.strip0xPrefix, stripSign_append hsg hbody, hasDigit, List.any_eq_true]
  by_cases hstart : StartsHex body
  · rw [if_pos ((has0xPrefix_append hsg hbody).2 hstart)]
    obtain ⟨x, ds, hx, rfl⟩ := hstart
    have hds := digits_of_startsHex hbase hbody hx
    show (∃ c ∈ ds, isDigit c 16 = true) ↔ _
    constructor
    · rintro ⟨c, hc, -⟩
      refine ⟨List.cons_ne_nil _ _, ?_⟩
      rintro ⟨y, -, heq⟩
      rw [(List.cons.inj (List.cons.inj heq).2).2] at hc
      exact List.not_mem_nil hc
    · rintro ⟨-, hbare⟩
      cases ds with
      | nil => exact absurd ⟨x, hx, rfl⟩ hbare
      | cons d ds => exact ⟨d, List.mem_cons_self, hds d List.mem_cons_self⟩
  · rw [if_neg (mt (has0xPrefix_append hsg hbody).1 hstart)]
    constructor
    · rintro ⟨c, hc, hdigit⟩
      refine ⟨?_, fun hbare => hstart hbare.startsHex⟩
      rintro rfl
      rw [List.append_nil] at hc
      cases hsg with
      | none => exact List.not_mem_nil hc
      | pos => exact absurd hdigit (by rw [List.mem_singleton.1 hc]; decide)
      | neg => exact absurd hdigit (by rw [List.mem_singleton.1 hc]; decide)
    · rintro ⟨hne, -⟩
      cases body with
      | nil => exact absurd rfl hne
      | cons c body =>
        exact ⟨c, List.mem_append_right _ List.mem_cons_self, isDigit_head hbase hbody⟩

/-- **Complete** is a body that is not empty and does not end with the `x`. -/
theorem directive_isCompleteItem (wr : WriteBehavior) (spec : IntSpec) (width : Int) (hsg : IsSign sg)
    (hbody : Body base body) :
    (spec.directive wr width).isCompleteItem (sg ++ body) = true ↔ body ≠ [] ∧ ¬BareHex body := by
  by_cases hne : body = []
  · subst hne
    have hfalse : (spec.directive wr width).isCompleteItem (sg ++ []) = false := by
      cases hsg <;> cases spec <;> rfl
    rw [hfalse]
    simp
  · have happend : sg ++ body ≠ [] := List.append_ne_nil_of_right_ne_nil sg hne
    rw [directive_isCompleteItem_eq wr spec width happend, getLast_append hbody hne, Bool.or_false,
      Bool.not_eq_true', ← hasDigit_strip0xPrefix hbase hsg hbody]
    cases hdigit : hasDigit (CSemantics.strip0xPrefix (sg ++ body)) with
    | true => simp
    | false =>
      -- no digit: a sign and `0x`, which is too short for `(nil)`
      have hbare : BareHex body := by
        by_contra hbare
        rw [(hasDigit_strip0xPrefix hbase hsg hbody).2 ⟨hne, hbare⟩] at hdigit
        cases hdigit
      obtain ⟨x, -, rfl⟩ := hbare
      have hnil : toUpperCase (sg ++ ['0', x]) ≠ "(NIL)".toList := by
        intro heq
        have hlen := congrArg List.length heq
        rw [toUpperCase, List.length_map, List.length_append] at hlen
        cases hsg <;> simp at hlen
      simpa using hnil

end Complete

theorem strip0xPrefix_of_not (hsg : IsSign sg) (hbody : Body base body) (h : ¬StartsHex body) :
    strip0xPrefix (sg ++ body) = .ok (sg ++ body) := by
  rw [strip0xPrefix, if_neg (mt (has0xPrefix_append hsg hbody).1 h)]
  rfl

theorem strip0xPrefix_hex {x : Char} {ds : List Char} (hx : isX x = true) (hbody : Body base ('0' :: x :: ds)) :
    strip0xPrefix ('0' :: x :: ds) = .ok ds := by
  have hstrip : stripSign ('0' :: x :: ds) = '0' :: x :: ds := stripSign_append .none hbody
  have hhex : has0xPrefix ('0' :: x :: ds) = true := (has0xPrefix_append .none hbody).2 ⟨x, ds, hx, rfl⟩
  have hsub : substrString ('0' :: x :: ds) 2 ('0' :: x :: ds).length = .ok ds := by
    rw [substrString, if_pos ⟨by simp, le_refl _⟩, List.take_length]
    rfl
  rw [strip0xPrefix, if_pos hhex, hstrip, hsub]
  rfl

/-- The substring ends behind the text when there is a sign. -/
theorem strip0xPrefix_signed (hsg : IsSign sg) (hne : sg ≠ []) (hbody : Body base body) (h : StartsHex body) :
    strip0xPrefix (sg ++ body) = .error .stuck := by
  have hlen : ¬(2 ≤ (sg ++ body).length ∧ (sg ++ body).length ≤ body.length) := by
    have := List.length_pos_iff.2 hne
    rw [List.length_append]
    omega
  rw [strip0xPrefix, if_pos ((has0xPrefix_append hsg hbody).2 h), stripSign_append hsg hbody, substrString, if_neg hlen]
  rfl

/-- A sign and `0x` -/
def SignedHex (p : List Char) : Prop := ∃ s x ds, isSign s = true ∧ isX x = true ∧ p = s :: '0' :: x :: ds

theorem signedHex_iff (hsg : IsSign sg) (hbody : Body base body) :
    SignedHex (sg ++ body) ↔ sg ≠ [] ∧ StartsHex body := by
  constructor
  · rintro ⟨s, x, ds, hs, hx, heq⟩
    cases hsg with
    | none =>
      rw [List.nil_append] at heq
      subst heq
      rw [not_isSign_of_mem_body hbody List.mem_cons_self] at hs
      cases hs
    | pos => exact ⟨List.cons_ne_nil _ _, x, ds, hx, (List.cons.inj heq).2⟩
    | neg => exact ⟨List.cons_ne_nil _ _, x, ds, hx, (List.cons.inj heq).2⟩
  · rintro ⟨hne, x, ds, hx, rfl⟩
    cases hsg with
    | none => exact absurd rfl hne
    | pos => exact ⟨'+', x, ds, rfl, hx, rfl⟩
    | neg => exact ⟨'-', x, ds, rfl, hx, rfl⟩

/-- **The rules for a complete item** have a value unless there is `0x` behind a sign. -/
theorem isCompleteItem_eq (hbase : base = 0 ∨ base = 8 ∨ base = 10 ∨ base = 16) (wr : WriteBehavior) (spec : IntSpec)
    (width : Int) (hsg : IsSign sg) (hbody : Body base body) :
    (∃ b, isCompleteItem (sg ++ body) (spec.directive wr width) = .ok b ∧ (b = true ↔ body ≠ [] ∧ ¬BareHex body)) ↔
      ¬SignedHex (sg ++ body) := by
  have hiff := directive_isCompleteItem hbase wr spec width hsg hbody
  have hnumeric : (spec.directive wr width).isNumericDirective = true := by cases spec <;> rfl
  rw [signedHex_iff hsg hbody, isCompleteItem, hnumeric, Bool.and_true]
  by_cases hempty : sg ++ body = []
  · have hnil := List.append_eq_nil_iff.1 hempty
    rw [hempty] at hiff ⊢
    exact iff_of_true ⟨_, rfl, hiff⟩ fun h => h.1 hnil.1
  · have hnotEmpty : (!(sg ++ body).isEmpty) = true := by simpa using hempty
    rw [if_pos hnotEmpty]
    by_cases hstart : StartsHex body
    · by_cases hne : sg = []
      · subst hne
        obtain ⟨x, ds, hx, rfl⟩ := hstart
        rw [List.nil_append] at hiff ⊢
        rw [strip0xPrefix_hex hx hbody]
        exact iff_of_true ⟨_, rfl, hiff⟩ fun h => h.1 rfl
      · rw [strip0xPrefix_signed hsg hne hbody hstart]
        refine iff_of_false ?_ fun h => h ⟨hne, hstart⟩
        rintro ⟨b, hb, -⟩
        cases hb
    · rw [strip0xPrefix_of_not hsg hbody hstart]
      exact iff_of_true ⟨_, rfl, hiff⟩ fun h => hstart h.2

/-! ## The number -/

/-- A number behind a sign -/
def signed (sg : List Char) (n : Int) : Int := if sg = ['-'] then -n else n

theorem number_append (hsg : IsSign sg) (hu : Unsigned base body) :
    number base (sg ++ body) = signed sg (magnitude base body) := by
  cases hsg with
  | none =>
    have hbody := body_of_unsigned hu
    rw [List.nil_append]
    unfold number
    split
    · exact absurd (not_isSign_of_mem_body hbody List.mem_cons_self) (by decide)
    · exact absurd (not_isSign_of_mem_body hbody List.mem_cons_self) (by decide)
    · rfl
  | pos => rfl
  | neg => rfl

theorem naturalBase_eq {ds : List Char} (hne : ds ≠ []) (hds : ∀ c ∈ ds, isDigit c base = true) :
    naturalBase base ds = .ok (valueOf base ds) := by
  rw [naturalBase, if_pos ⟨hne, hds⟩, string2Base_eq_valueOf]

theorem signedBase_append {base0 : List Char → Eval Int} {ds : List Char} (h2 : 2 ≤ base) (hsg : IsSign sg)
    (hne : ds ≠ []) (hds : ∀ c ∈ ds, isDigit c base = true) :
    signedBase base0 (sg ++ ds) base = .ok (signed sg (valueOf base ds)) := by
  have h0 : base ≠ 0 := by omega
  unfold signedBase
  rw [if_neg h0]
  cases hsg with
  | none =>
    have hbody : Body base ds := .digits h2 hds
    rw [List.nil_append]
    split
    · exact absurd (not_isSign_of_mem_body hbody List.mem_cons_self) (by decide)
    · exact absurd (not_isSign_of_mem_body hbody List.mem_cons_self) (by decide)
    · exact naturalBase_eq hne hds
  | pos => exact naturalBase_eq hne hds
  | neg =>
    show (do return -(← naturalBase base ds)) = _
    rw [naturalBase_eq hne hds]
    rfl

theorem magnitude_hex {x : Char} {ds : List Char} (hx : isX x = true) (hbase : base = 0 ∨ base = 16) :
    magnitude base ('0' :: x :: ds) = valueOf 16 ds := by
  rw [magnitude, hx]
  rcases hbase with rfl | rfl <;> rfl

theorem magnitude_digits {ds : List Char} (hbase : base = 8 ∨ base = 10 ∨ base = 16)
    (hds : ∀ c ∈ ds, isDigit c base = true) : magnitude base ds = valueOf base ds := by
  have h0 : base ≠ 0 := by omega
  unfold magnitude
  rw [if_neg h0, if_neg h0]
  split
  · next x ds =>
    have hx : isX x = false := by
      cases hx : isX x with
      | false => rfl
      | true => exact absurd (hds x (by simp)) (not_isDigit_of_isX_base _ hx hbase)
    rw [hx]
    rfl
  · rfl
  · rfl

theorem signedBase_number (base : Nat) {base0 : List Char → Eval Int}
    (hbase : base = 8 ∨ base = 10 ∨ base = 16) (hsg : IsSign sg) (hne : body ≠ [])
    (hds : ∀ c ∈ body, isDigit c base = true) :
    signedBase base0 (sg ++ body) base = .ok (number base (sg ++ body)) := by
  have h2 : 2 ≤ base := by omega
  rw [signedBase_append h2 hsg hne hds, number_append hsg (.digits h2 hne hds), magnitude_digits hbase hds]

theorem itemValue_hex {base0 : List Char → Eval Int} {x : Char} {ds : List Char} (hbase : base = 0 ∨ base = 16)
    (hx : isX x = true) (hne : ds ≠ []) (hds : ∀ c ∈ ds, isDigit c 16 = true) (hu : Unsigned base ('0' :: x :: ds)) :
    (do signedBase base0 (← strip0xPrefix ('0' :: x :: ds)) 16) = .ok (number base ('0' :: x :: ds)) := by
  have hnumber : number base ('0' :: x :: ds) = magnitude base ('0' :: x :: ds) := number_append .none hu
  have hvalue : signedBase base0 ds 16 = .ok (valueOf 16 ds) := signedBase_append (by decide) .none hne hds
  rw [strip0xPrefix_hex hx (body_of_unsigned hu), Eval.ok_bind, hvalue, hnumber, magnitude_hex hx hbase]

/-- **The number** is the one of the sequence. -/
theorem itemValue_eq {base0 : List Char → Eval Int} {spec : IntSpec}
    (hbase0 : ∀ item, Subject 0 item → has0xPrefix item = false → base0 item = .ok (number 0 item)) (hsg : IsSign sg)
    (hu : Unsigned spec.base body) (h : ¬SignedHex (sg ++ body)) :
    itemValue base0 spec (sg ++ body) = .ok (number spec.base (sg ++ body)) := by
  have hbody := body_of_unsigned hu
  have hno : ¬StartsHex body → ¬has0xPrefix (sg ++ body) = true := mt (has0xPrefix_append hsg hbody).1
  have hnone : StartsHex body → sg = [] := by
    intro hstart
    by_contra hne
    exact h ((signedHex_iff hsg hbody).2 ⟨hne, hstart⟩)
  cases spec with
  | d =>
    change Unsigned 10 body at hu
    cases hu with
    | digits h2 hne hds => exact signedBase_number 10 (by decide) hsg hne hds
  | u =>
    change Unsigned 10 body at hu
    cases hu with
    | digits h2 hne hds => exact signedBase_number 10 (by decide) hsg hne hds
  | o =>
    change Unsigned 8 body at hu
    cases hu with
    | digits h2 hne hds => exact signedBase_number 8 (by decide) hsg hne hds
  | x =>
    change Unsigned 16 body at hu
    cases hu with
    | digits h2 hne hds =>
      rw [itemValue, if_neg (hno (not_startsHex_of_digits (by decide) hds (by decide)))]
      exact signedBase_number 16 (by decide) hsg hne hds
    | @hex x ds hx hne hds =>
      have hstart : StartsHex ('0' :: x :: ds) := ⟨x, ds, hx, rfl⟩
      obtain rfl := hnone hstart
      rw [itemValue, if_pos ((has0xPrefix_append hsg hbody).2 hstart)]
      exact itemValue_hex (.inr rfl) hx hne hds (.hex hx hne hds)
  | i =>
    change Unsigned 0 body at hu
    have hsubject : Subject 0 (sg ++ body) := .mk hsg hu
    by_cases hstart : StartsHex body
    · obtain rfl := hnone hstart
      rw [itemValue, if_pos ((has0xPrefix_append hsg hbody).2 hstart)]
      obtain ⟨x, ds, hx, rfl⟩ := hstart
      have hds := digits_of_startsHex (by decide) hbody hx
      have hne : ds ≠ [] := by
        rintro rfl
        exact ((unsigned_iff (by decide) hbody).1 hu).2 ⟨x, hx, rfl⟩
      exact itemValue_hex (.inl rfl) hx hne hds hu
    · rw [itemValue, if_neg (hno hstart)]
      show base0 (sg ++ body) = _
      exact hbase0 _ hsubject (Bool.eq_false_iff.2 (hno hstart))

/-! ## All three -/

/-- `strtol` returns the number unless no `long` can hold it. -/
theorem strtol_eq_iff (long : LongRange) : number base item = strtol long base item ↔
    long.min ≤ number base item ∧ number base item ≤ long.max := by
  have hle := long.min_le_max
  rw [strtol]
  omega

/-- The bytes that a directive takes. -/
def taken (wr : WriteBehavior) (spec : IntSpec) (width : Int) (u : List Char) : List Char :=
  ((spec.directive wr width).takeItem [] u).1

/-- A directive reads the text as `strtol` would. -/
structure ReadsAsStrtol (long : LongRange) (base0 : List Char → Eval Int) (wr : WriteBehavior) (spec : IntSpec)
    (width : Int) (u : List Char) : Prop where
  item : Item spec.base width u (taken wr spec width u)
  complete : ∃ b, isCompleteItem (taken wr spec width u) (spec.directive wr width) = .ok b ∧
    (b = true ↔ Subject spec.base (taken wr spec width u))
  value : Subject spec.base (taken wr spec width u) →
    itemValue base0 spec (taken wr spec width u) = .ok (strtol long spec.base (taken wr spec width u))

/-- The longest beginning of a number of the base of the scan set begins one of the base of the conversion, has no
    `0x` behind a sign, and is no number that a `long` cannot hold. -/
structure Plain (long : LongRange) (spec : IntSpec) (p : List Char) : Prop where
  viable : Viable (Subject spec.base) p
  notSigned : ¬SignedHex p
  fits : Subject spec.base p → long.min ≤ number spec.base p ∧ number spec.base p ≤ long.max

theorem IntSpec.base_cases (spec : IntSpec) : spec.base = 0 ∨ spec.base = 8 ∨ spec.base = 10 ∨ spec.base = 16 := by
  cases spec <;> simp [base]

/-- What begins a number of the conversion begins one of the scan set. -/
theorem viable_scanBase (spec : IntSpec) (h : Viable (Subject spec.base) p) : Viable (Subject spec.scanBase) p := by
  cases spec with
  | i =>
    obtain ⟨hsg, hbody⟩ := (@viable_iff 0 p (.inl rfl)).1 h
    refine (@viable_iff 16 _ (by decide)).2 (.mk hsg ?_)
    cases hbody with
    | digits h2 _ => exact absurd h2 (by decide)
    | nil => exact .digits (by decide) fun c hc => absurd hc List.not_mem_nil
    | decimal _ hds => exact .digits (by decide) fun c hc => isDigit_mono 10 (by decide) (hds c hc)
    | octal hds =>
      refine .digits (by decide) fun c hc => ?_
      rcases List.mem_cons.1 hc with rfl | hc
      · rfl
      · exact isDigit_mono 8 (by decide) (hds c hc)
    | hexadecimal hx hds => exact .hex hx hds
  | _ => exact h

theorem item_iff (wr : WriteBehavior) (spec : IntSpec) (width : Int) (u : List Char) :
    Item spec.base width u (taken wr spec width u) ↔ Viable (Subject spec.base) (taken wr spec width u) := by
  have hlongest := longest_takeItem wr spec width u
  constructor
  · exact fun h => h.holds.2
  · intro h
    exact Longest.mono hlongest ⟨hlongest.holds.1, h⟩ fun q hq => ⟨hq.1, viable_scanBase spec hq.2⟩

/-- A sequence can be split at its sign. -/
theorem subject_append_iff (hsg : IsSign sg) (hbody : Body base body) :
    Subject base (sg ++ body) ↔ Unsigned base body := by
  refine ⟨fun h => ?_, .mk hsg⟩
  generalize hs : sg ++ body = s at h
  obtain ⟨hsg', hu⟩ := h
  have hstrip := congrArg stripSign hs
  rw [stripSign_append hsg hbody, stripSign_append hsg' (body_of_unsigned hu)] at hstrip
  rwa [hstrip]

def long64 : LongRange := ⟨-2 ^ 63, 2 ^ 63 - 1, by decide⟩

/-- Base 0 as `strtol` has it. -/
def prefixBase (item : List Char) : Eval Int := .ok (number 0 item)

end CSemantics.ScanInteger
