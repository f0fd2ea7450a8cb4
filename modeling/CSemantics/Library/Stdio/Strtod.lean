/-
  The sequences of `strtod`.

  A floating constant with a sign or not, in decimal or in hexadecimal, or a word in any case.  The grammar is
  `Subject`; an automaton that reads one byte after the other, and tells bytes apart by their kind only, accepts the
  same (`subject_iff`).  From each of its states a sequence can be reached, so that the bytes it reads to a state are
  those that begin a sequence (`viable_iff_run`).
-/
import CSemantics.Library.Stdio.ScanInteger

namespace CSemantics.ScanFloat

open LongestPrefix ScanInteger

/-! ## `strtod` -/

/-- Digits of a base -/
def Digits (base : Int) (ds : List Char) : Prop := ∀ c ∈ ds, isDigit c base = true

/-- Digits, perhaps with a point -/
inductive Mantissa (base : Int) : List Char → Prop
  | whole {ds : List Char} (hds : Digits base ds) (hne : ds ≠ []) : Mantissa base ds
  | point {ds es : List Char} (hds : Digits base ds) (hes : Digits base es) (hne : ds ++ es ≠ []) :
      Mantissa base (ds ++ '.' :: es)

/-- An exponent, or none -/
inductive Exponent (mark : Char) : List Char → Prop
  | absent : Exponent mark []
  | present {m : Char} {sg ds : List Char} (hm : m.toUpper = mark) (hsg : IsSign sg) (hds : Digits 10 ds)
      (hne : ds ≠ []) : Exponent mark (m :: (sg ++ ds))

/-- What `strtod` reads behind the sign. -/
inductive Unsigned : List Char → Prop
  | decimal {m ex : List Char} (hm : Mantissa 10 m) (hex : Exponent 'E' ex) : Unsigned (m ++ ex)
  | hexadecimal {x : Char} {m ex : List Char} (hx : isX x = true) (hm : Mantissa 16 m) (hex : Exponent 'P' ex) :
      Unsigned ('0' :: x :: (m ++ ex))
  | infinity {w : List Char} (hw : toUpperCase w = "INF".toList ∨ toUpperCase w = "INFINITY".toList) : Unsigned w
  | nan {w : List Char} (hw : toUpperCase w = "NAN".toList) : Unsigned w

/-- A sequence that `strtod` accepts. -/
inductive Subject : List Char → Prop
  | mk {sg body : List Char} (hsg : IsSign sg) (hbody : Unsigned body) : Subject (sg ++ body)

/-- The longest beginning of a sequence for `strtod`, within the width. -/
def Item (width : Int) (u p : List Char) : Prop :=
  Longest (fun p => Within width p ∧ Viable Subject p) u p

/-! ## Kinds of bytes -/

theorem toUpper_cases (c : Char) : c.toUpper = c ∨ 65 ≤ c.toUpper.val ∧ c.toUpper.val ≤ 90 := by
  unfold Char.toUpper
  split
  · right
    grind
  · exact .inl rfl

/-- A byte, as far as the rules tell it from others. -/
inductive Kind
  | zero | digit
  | a | e | f
  | hex
  | x | p
  | i | n | t | y
  | sign | dot
  | other
  deriving DecidableEq

namespace Kind

/-- In the order in which they are looked for -/
def all : List Kind := [zero, digit, a, e, f, hex, x, p, i, n, t, y, sign, dot, other]

instance : Fintype Kind where
  elems := ⟨all, by decide⟩
  complete k := by cases k <;> decide

/-- The letter of a kind that is one. -/
def letter : Kind → Option Char
  | a => some 'A'
  | e => some 'E'
  | f => some 'F'
  | x => some 'X'
  | p => some 'P'
  | i => some 'I'
  | n => some 'N'
  | t => some 'T'
  | y => some 'Y'
  | _ => none

def test (c : Char) : Kind → Bool
  | zero => c == '0'
  | digit => isDigit c 10
  | hex => isDigit c 16
  | sign => isSign c
  | dot => c == '.'
  | other => true
  | k => k.letter == some c.toUpper

def isDecimal : Kind → Bool
  | zero => true
  | digit => true
  | _ => false

def isHexadecimal : Kind → Bool
  | zero => true
  | digit => true
  | a => true
  | e => true
  | f => true
  | hex => true
  | _ => false

end Kind

def kind (c : Char) : Kind := (Kind.all.find? fun k => k.test c).getD .other

theorem toUpper_eq_iff {U l : Char} (hU : 65 ≤ U.val ∧ U.val ≤ 90) (hl : l.val = U.val + 32) (c : Char) :
    c.toUpper = U ↔ c = l ∨ c = U := by
  unfold Char.toUpper
  split
  · simp only [Char.ext_iff]
    grind
  · simp only [Char.ext_iff]
    grind

section Kinds

variable {c U : Char} {k : Kind}

theorem test_kind (c : Char) : (kind c).test c = true := by
  rw [kind]
  cases h : Kind.all.find? fun k => k.test c with
  | none => rfl
  | some k => exact List.find?_some h

/-- One of the first kinds, if one of their tests holds. -/
theorem kind_mem {ks ls : List Kind} (hall : Kind.all = ks ++ ls) (hk : k ∈ ks) (h : k.test c = true) :
    kind c ∈ ks := by
  have hfind : ((ks ++ ls).find? fun k => k.test c) = ks.find? fun k => k.test c := by
    rw [List.find?_append]
    cases hks : ks.find? fun k => k.test c with
    | none => exact absurd h (List.find?_eq_none.1 hks k hk)
    | some l => rfl
  rw [kind, hall, hfind]
  cases hks : ks.find? fun k => k.test c with
  | none => exact absurd h (List.find?_eq_none.1 hks k hk)
  | some l => exact List.mem_of_find?_eq_some hks

/-- The letters that the rules know. -/
def letters : List Char := ['A', 'E', 'F', 'X', 'P', 'I', 'N', 'T', 'Y']

theorem letters_kind : ∀ U ∈ letters, (65 ≤ U.val ∧ U.val ≤ 90) ∧ (Char.ofNat (U.toNat + 32)).val = U.val + 32 ∧
    (kind (Char.ofNat (U.toNat + 32))).letter = some U ∧ (kind U).letter = some U :=
  List.all_iff_forall_prop.1 (by decide)

/-- The letters of the words are among them. -/
theorem infinity_letters : ∀ U ∈ "INFINITY".toList, U ∈ letters := List.all_iff_forall_prop.1 (by decide)

theorem nan_letters : ∀ U ∈ "NAN".toList, U ∈ letters := List.all_iff_forall_prop.1 (by decide)

theorem letter_iff (hU : U ∈ letters) : c.toUpper = U ↔ (kind c).letter = some U := by
  obtain ⟨hrange, hlower, hkind, hkind'⟩ := letters_kind U hU
  constructor
  · intro h
    rcases (toUpper_eq_iff hrange hlower c).1 h with rfl | rfl
    · exact hkind
    · exact hkind'
  · intro h
    have htest := test_kind c
    cases hk : kind c <;> rw [hk] at h htest <;> cases h <;> exact (Option.some.inj (beq_iff_eq.1 htest)).symm

theorem isDigit_decimal (c : Char) : isDigit c 10 = (kind c).isDecimal := by
  have htest := test_kind c
  cases hdigit : isDigit c 10 with
  | true =>
    have hmem : kind c ∈ [Kind.zero, Kind.digit] := kind_mem rfl (k := .digit) (by decide) hdigit
    revert hmem
    generalize kind c = k
    revert k
    decide
  | false =>
    cases hk : kind c <;> rw [hk] at htest <;> try rfl
    · rw [beq_iff_eq.1 htest] at hdigit
      exact absurd hdigit (by decide)
    · exact absurd (hdigit.symm.trans htest) (by decide)

theorem isDigit_hexadecimal (c : Char) : isDigit c 16 = (kind c).isHexadecimal := by
  have htest := test_kind c
  cases hdigit : isDigit c 16 with
  | true =>
    have hmem : kind c ∈ [Kind.zero, Kind.digit, Kind.a, Kind.e, Kind.f, Kind.hex] :=
      kind_mem rfl (k := .hex) (by decide) hdigit
    revert hmem
    generalize kind c = k
    revert k
    decide
  | false =>
    have hletter : ∀ {U : Char}, U ∈ ['A', 'E', 'F'] → (some U == some c.toUpper) = true → isDigit c 16 = true := by
      intro U hU hc
      have hall : ∀ U ∈ ['A', 'E', 'F'], U ∈ letters ∧ isDigit (Char.ofNat (U.toNat + 32)) 16 = true ∧
          isDigit U 16 = true := List.all_iff_forall_prop.1 (by decide)
      obtain ⟨hmem, hlow, hup⟩ := hall U hU
      obtain ⟨hrange, hlower, -⟩ := letters_kind U hmem
      rcases (toUpper_eq_iff hrange hlower c).1 (Option.some.inj (beq_iff_eq.1 hc)).symm with rfl | rfl
      · exact hlow
      · exact hup
    have hno : isDigit c 16 ≠ true := by
      rw [hdigit]
      decide
    cases hk : kind c <;> rw [hk] at htest
    case zero =>
      rw [beq_iff_eq.1 htest] at hdigit
      exact absurd hdigit (by decide)
    case digit => exact absurd (isDigit_mono 10 (by decide) htest) hno
    case a => exact absurd (hletter (by decide) htest) hno
    case e => exact absurd (hletter (by decide) htest) hno
    case f => exact absurd (hletter (by decide) htest) hno
    case hex => exact absurd htest hno
    all_goals rfl

theorem isSign_iff (c : Char) : isSign c = true ↔ kind c = .sign := by
  constructor
  · intro h
    rw [isSign, Bool.or_eq_true, beq_iff_eq, beq_iff_eq] at h
    rcases h with rfl | rfl <;> decide
  · intro h
    have htest := test_kind c
    rwa [h] at htest

theorem eq_zero_iff (c : Char) : c = '0' ↔ kind c = .zero := by
  constructor
  · rintro rfl
    decide
  · intro h
    have htest := test_kind c
    rw [h] at htest
    exact beq_iff_eq.1 htest

theorem eq_dot_iff (c : Char) : c = '.' ↔ kind c = .dot := by
  constructor
  · rintro rfl
    decide
  · intro h
    have htest := test_kind c
    rw [h] at htest
    exact beq_iff_eq.1 htest

theorem isX_iff (c : Char) : isX c = true ↔ kind c = .x := by
  rw [← toUpper_eq_X, letter_iff (by decide)]
  cases kind c <;> simp [Kind.letter]

theorem kind_of_isWhitespace (h : isWhitespace c = true) : kind c = .other := by
  rw [isWhitespace, Bool.or_eq_true, Bool.and_eq_true, decide_eq_true_eq, decide_eq_true_eq, beq_iff_eq] at h
  rcases h with ⟨hlo, hhi⟩ | rfl
  · have hnat : c = Char.ofNat c.toNat := (Char.ofNat_toNat c).symm
    have hall : ∀ n ∈ List.range 14, 9 ≤ n → kind (Char.ofNat n) = .other := by decide
    rw [hnat]
    rw [ordChar] at hlo hhi
    exact hall _ (List.mem_range.2 (by omega)) (by omega)
  · decide

theorem kind_iff (hU : U ∈ letters) (hk : k.letter = some U) : kind c = k ↔ c.toUpper = U := by
  have hinj : ∀ k k' : Kind, k.letter.isSome = true → k.letter = k'.letter → k' = k := by decide
  rw [letter_iff hU]
  constructor
  · rintro rfl
    exact hk
  · intro h
    exact hinj k (kind c) (by rw [hk]; rfl) (hk.trans h.symm)

end Kinds

/-! ## The automaton -/

inductive Scale
  | dec | hex
  deriving DecidableEq

def Scale.isDigit : Scale → Kind → Bool
  | dec => Kind.isDecimal
  | hex => Kind.isHexadecimal

/-- What begins an exponent. -/
def Scale.mark : Scale → Kind
  | dec => .e
  | hex => .p

/-- How far a sequence has got, its sign apart. -/
inductive Core
  | start
  /-- `0` -/
  | zero
  /-- `0x` -/
  | hexStart
  | whole (b : Scale)
  /-- a point without digits -/
  | dot (b : Scale)
  | frac (b : Scale)
  | mark (b : Scale)
  | expSign (b : Scale)
  | exp (b : Scale)
  /-- a letter of `INFINITY`, and `n` more -/
  | infinity (n : Fin 8)
  | nan (n : Fin 3)
  deriving DecidableEq

/-- With a sign or not -/
structure State where
  signed : Bool
  core : Core
  deriving DecidableEq

-- the letters of `INFINITY` are counted
local instance neZero_letters : NeZero 8 := ⟨by decide⟩

def Core.step : Core → Kind → Option Core
  | start, k =>
    if k = .zero then some zero
    else if k = .digit then some (whole .dec)
    else if k = .dot then some (dot .dec)
    else if k = .i then some (infinity 0)
    else if k = .n then some (nan 0)
    else none
  | zero, k =>
    if k.isDecimal then some (whole .dec)
    else if k = .dot then some (frac .dec)
    else if k = .e then some (mark .dec)
    else if k = .x then some hexStart
    else none
  | hexStart, k =>
    if k.isHexadecimal then some (whole .hex) else if k = .dot then some (dot .hex) else none
  | whole b, k =>
    if b.isDigit k then some (whole b)
    else if k = .dot then some (frac b)
    else if k = b.mark then some (mark b)
    else none
  | dot b, k => if b.isDigit k then some (frac b) else none
  | frac b, k => if b.isDigit k then some (frac b) else if k = b.mark then some (mark b) else none
  | mark b, k => if k = .sign then some (expSign b) else if k.isDecimal then some (exp b) else none
  | expSign b, k => if k.isDecimal then some (exp b) else none
  | exp b, k => if k.isDecimal then some (exp b) else none
  | infinity n, k =>
    if k.letter.isSome ∧ "INFINITY".toList[n.val + 1]? = k.letter then some (infinity (n + 1)) else none
  | nan n, k => if k.letter.isSome ∧ "NAN".toList[n.val + 1]? = k.letter then some (nan (n + 1)) else none

def State.step (s : State) (k : Kind) : Option State :=
  if s = ⟨false, .start⟩ ∧ k = .sign then some ⟨true, .start⟩ else (s.core.step k).map (State.mk s.signed)

/-- A sequence may end here. -/
def Core.accepts : Core → Bool
  | zero => true
  | whole _ => true
  | frac _ => true
  | exp _ => true
  | infinity n => n = 2 ∨ n = 7
  | nan n => n = 2
  | _ => false

def State.run : State → List Char → Option State
  | s, [] => some s
  | s, c :: cs => (s.step (kind c)).bind fun s => s.run cs

def State.initial : State := ⟨false, .start⟩

/-- The states, one after the other. -/
def Core.all : List Core :=
  [start, zero, hexStart] ++
    [Scale.dec, Scale.hex].flatMap (fun b => [whole b, dot b, frac b, mark b, expSign b, exp b]) ++
    (List.finRange 8).map infinity ++ (List.finRange 3).map nan

instance : Fintype Core where
  elems := ⟨Core.all, by decide⟩
  complete s := by
    show s ∈ Core.all
    cases s with
    | whole b => cases b <;> decide
    | dot b => cases b <;> decide
    | frac b => cases b <;> decide
    | mark b => cases b <;> decide
    | expSign b => cases b <;> decide
    | exp b => cases b <;> decide
    | infinity n => revert n; decide
    | nan n => revert n; decide
    | _ => decide

theorem run_append (s : State) (p q : List Char) : s.run (p ++ q) = (s.run p).bind fun s => s.run q := by
  induction p generalizing s with
  | nil => rfl
  | cons c p ih =>
    rw [List.cons_append, State.run, State.run]
    cases s.step (kind c) with
    | none => rfl
    | some s' => exact ih s'

theorem run_concat (s : State) (p : List Char) (c : Char) :
    s.run (p ++ [c]) = (s.run p).bind fun s => s.step (kind c) := by
  rw [run_append]
  refine congrArg _ (funext fun s => ?_)
  show (s.step (kind c)).bind (fun s => some s) = _
  cases s.step (kind c) <;> rfl

/-! ## The automaton accepts the sequences -/

section Goes

variable {b : Bool} {X Y Z : Core → Bool} {s : Core} {p q ds m ex : List Char} {c : Char} {k : Kind}

/-- The bytes lead to one of these states. -/
def Goes (b : Bool) (Z : Core → Bool) (s : Core) (p : List Char) : Prop :=
  ∃ z, State.run ⟨b, s⟩ p = some ⟨b, z⟩ ∧ Z z = true

/-- Every byte of the kind leads from these states to those. -/
def Leads (k : Kind) (Y Z : Core → Bool) : Prop :=
  ∀ (b : Bool) (y : Core), Y y = true → (State.step ⟨b, y⟩ k).any (fun z => z.signed = b && Z z.core) = true

instance : Decidable (Leads k Y Z) := inferInstanceAs (Decidable (∀ _ _, _))

theorem goes_nil (h : Z s = true) : Goes b Z s [] := ⟨s, rfl, h⟩

theorem Goes.append (hp : Goes b Y s p) (hq : ∀ y, Y y = true → Goes b Z y q) : Goes b Z s (p ++ q) := by
  obtain ⟨y, hrun, hy⟩ := hp
  obtain ⟨z, hrun', hz⟩ := hq y hy
  refine ⟨z, ?_, hz⟩
  rw [run_append, hrun]
  exact hrun'

theorem goes_cons (h : Leads (kind c) Y Z) (hs : Y s = true) (hp : ∀ z, Z z = true → Goes b X z p) :
    Goes b X s (c :: p) := by
  obtain ⟨z, hstep, hz⟩ := (Option.any_eq_true _ _).1 (h b s hs)
  rw [Bool.and_eq_true, decide_eq_true_eq] at hz
  obtain ⟨x, hrun, hx⟩ := hp z.core hz.2
  refine ⟨x, ?_, hx⟩
  rw [State.run, hstep, Option.bind_some, ← hrun, ← hz.1]

theorem goes_loop (h : ∀ c ∈ ds, Leads (kind c) Z Z) : ∀ {s}, Z s = true → Goes b Z s ds := by
  induction ds with
  | nil => exact fun hs => goes_nil hs
  | cons c ds ih =>
    intro s hs
    exact goes_cons (h c List.mem_cons_self) hs fun z hz => ih (fun d hd => h d (List.mem_cons_of_mem c hd)) hz

end Goes

namespace Scale

def base : Scale → Int
  | dec => 10
  | hex => 16

def letter : Scale → Char
  | dec => 'E'
  | hex => 'P'

/-- Where the digits begin. -/
def origin : Scale → Core
  | dec => .start
  | hex => .hexStart

/-- Digits without a point -/
def wholes (b : Scale) (s : Core) : Bool := s = .whole b || (b = .dec && s = .zero)

/-- Digits -/
def mantissas (b : Scale) (s : Core) : Bool := b.wholes s || s = .frac b

end Scale

theorem isDigit_scale (b : Scale) (c : Char) : isDigit c b.base = b.isDigit (kind c) := by
  cases b with
  | dec => exact isDigit_decimal c
  | hex => exact isDigit_hexadecimal c

theorem kind_mark {b : Scale} {c : Char} : kind c = b.mark ↔ c.toUpper = b.letter := by
  cases b with
  | dec => exact kind_iff (by decide) rfl
  | hex => exact kind_iff (by decide) rfl

theorem leads_digit : ∀ (b : Scale) (k : Kind), b.isDigit k = true →
    Leads k (fun s => s = b.origin) b.wholes ∧ Leads k b.wholes b.wholes ∧
      Leads k (fun s => s = .dot b) (fun s => s = .frac b) ∧ Leads k (fun s => s = .frac b) (fun s => s = .frac b) := by
  intro b
  cases b <;> decide

theorem leads_other : ∀ b : Scale,
    Leads .dot (fun s => s = b.origin) (fun s => s = .dot b) ∧ Leads .dot b.wholes (fun s => s = .frac b) ∧
      Leads b.mark b.mantissas (fun s => s = .mark b) ∧
      Leads .sign (fun s => s = .mark b) (fun s => s = .expSign b) := by
  intro b
  cases b <;> decide

theorem leads_exp : ∀ (b : Scale) (k : Kind), k.isDecimal = true →
    Leads k (fun s => s = .mark b || s = .expSign b) (fun s => s = .exp b) ∧
      Leads k (fun s => s = .exp b) (fun s => s = .exp b) := by
  intro b
  cases b <;> decide

section Sequences

variable {b : Bool} {d : Scale} {s : Core} {p ds m ex body : List Char}

theorem goes_digits {Z : Core → Bool} (hds : Digits d.base ds)
    (hZ : ∀ k, d.isDigit k = true → Leads k Z Z) (hs : Z s = true) : Goes b Z s ds :=
  goes_loop (fun c hc => hZ (kind c) (by rw [← isDigit_scale]; exact hds c hc)) hs

/-- Digits, at least one -/
theorem goes_whole (hds : Digits d.base ds) (hne : ds ≠ []) : Goes b d.wholes d.origin ds := by
  cases ds with
  | nil => exact absurd rfl hne
  | cons c ds =>
    have hc : d.isDigit (kind c) = true := by
      rw [← isDigit_scale]
      exact hds c List.mem_cons_self
    refine goes_cons (leads_digit d _ hc).1 (by simp) fun z hz => ?_
    exact goes_digits (fun e he => hds e (List.mem_cons_of_mem c he)) (fun k hk => (leads_digit d k hk).2.1) hz

theorem goes_frac (hds : Digits d.base ds) : Goes b (fun s => s = .frac d) (.frac d) ds :=
  goes_digits hds (fun k hk => (leads_digit d k hk).2.2.2) (by simp)

theorem Goes.mono {Y Z : Core → Bool} (h : Goes b Y s p) (hYZ : ∀ y, Y y = true → Z y = true) : Goes b Z s p := by
  obtain ⟨z, hrun, hz⟩ := h
  exact ⟨z, hrun, hYZ z hz⟩

theorem goes_mantissa (h : Mantissa d.base m) : Goes b d.mantissas d.origin m := by
  have hfrac : ∀ y : Core, decide (y = .frac d) = true → d.mantissas y = true := by
    intro y hy
    rw [Scale.mantissas, hy, Bool.or_true]
  cases h with
  | whole hds hne =>
    refine (goes_whole hds hne).mono fun y hy => ?_
    rw [Scale.mantissas, hy, Bool.true_or]
  | @point ds es hds hes hne =>
    refine Goes.mono (Y := fun s => s = .frac d) ?_ hfrac
    by_cases hnil : ds = []
    · subst hnil
      refine goes_cons (Y := fun s => s = d.origin) (leads_other d).1 (by simp) fun z hz => ?_
      cases es with
      | nil => exact absurd rfl hne
      | cons c es =>
        have hc : d.isDigit (kind c) = true := by
          rw [← isDigit_scale]
          exact hes c List.mem_cons_self
        refine goes_cons (leads_digit d _ hc).2.2.1 hz fun y hy => ?_
        rw [decide_eq_true_eq] at hy
        rw [hy]
        exact goes_frac fun e he => hes e (List.mem_cons_of_mem c he)
    · refine (goes_whole hds hnil).append fun y hy => ?_
      refine goes_cons (leads_other d).2.1 hy fun z hz => ?_
      rw [decide_eq_true_eq] at hz
      rw [hz]
      exact goes_frac hes

theorem accepts_of_mantissas (h : d.mantissas s = true) : s.accepts = true := by
  rw [Scale.mantissas, Scale.wholes, Bool.or_eq_true, Bool.or_eq_true, Bool.and_eq_true, decide_eq_true_eq,
    decide_eq_true_eq, decide_eq_true_eq, decide_eq_true_eq] at h
  rcases h with (rfl | ⟨-, rfl⟩) | rfl <;> rfl

theorem goes_exponent (h : Exponent d.letter ex) (hs : d.mantissas s = true) : Goes b Core.accepts s ex := by
  cases h with
  | absent => exact goes_nil (accepts_of_mantissas hs)
  | @present c sg ds hc hsg hds hne =>
    have hexp : ∀ y : Core, (y = .mark d ∨ y = .expSign d) → Goes b Core.accepts y ds := by
      intro y hy
      cases ds with
      | nil => exact absurd rfl hne
      | cons e es =>
        have hdecimal : ∀ c ∈ e :: es, (kind c).isDecimal = true := fun c hc => by
          rw [← isDigit_decimal]
          exact hds c hc
        refine goes_cons (leads_exp d _ (hdecimal e List.mem_cons_self)).1 (by simpa using hy) fun z hz => ?_
        refine Goes.mono (goes_loop (Z := fun s => s = .exp d) (fun c hc => ?_) hz) fun y hy => ?_
        · exact (leads_exp d _ (hdecimal c (List.mem_cons_of_mem e hc))).2
        · rw [decide_eq_true_eq] at hy
          rw [hy]
          rfl
    have hmark : kind c = d.mark := kind_mark.2 hc
    refine goes_cons (hmark ▸ (leads_other d).2.2.1) hs fun z hz => ?_
    have hsign : ∀ c : Char, kind c = .sign → Goes b Core.accepts z (c :: ds) := by
      intro c hc
      refine goes_cons (hc ▸ (leads_other d).2.2.2) hz fun y hy => ?_
      exact hexp y (.inr (by simpa using hy))
    cases hsg with
    | none => exact hexp z (.inl (by simpa using hz))
    | pos => exact hsign '+' (by decide)
    | neg => exact hsign '-' (by decide)

theorem run_congr {w w' : List Char} (h : w.map kind = w'.map kind) (s : State) : s.run w = s.run w' := by
  induction w generalizing s w' with
  | nil =>
    rw [List.map_nil, eq_comm, List.map_eq_nil_iff] at h
    rw [h]
  | cons c w ih =>
    obtain ⟨c', w', rfl, hc, hw⟩ := List.map_eq_cons_iff.1 h.symm
    rw [State.run, State.run, hc]
    exact congrArg _ (funext fun s => ih hw.symm s)

/-- The kinds of the letters of a word, in any case -/
theorem kinds_of_word {w word : List Char} (hword : ∀ U ∈ word, U ∈ letters) (h : toUpperCase w = word) :
    w.map kind = word.map kind := by
  subst h
  rw [toUpperCase, List.map_map]
  refine List.map_congr_left fun c hc => ?_
  have hmem := hword c.toUpper (List.mem_map_of_mem hc)
  exact (kind_iff hmem (letters_kind _ hmem).2.2.2).2 rfl

theorem goes_word {w word : List Char} (hword : ∀ U ∈ word, U ∈ letters) (h : toUpperCase w = word)
    (hgoes : Goes b Core.accepts .start word) : Goes b Core.accepts .start w := by
  obtain ⟨z, hrun, hz⟩ := hgoes
  exact ⟨z, (run_congr (kinds_of_word hword h) _).trans hrun, hz⟩

theorem goes_unsigned (h : Unsigned body) : Goes b Core.accepts .start body := by
  cases h with
  | decimal hm hex => exact (goes_mantissa (d := .dec) hm).append fun y hy => goes_exponent (d := .dec) hex hy
  | @hexadecimal x m ex hx hm hex =>
    have h0 : Leads (kind '0') (fun s => s = .start) (fun s => s = .zero) := by decide
    have hX : Leads (kind x) (fun s => s = .zero) (fun s => s = .hexStart) := by
      rw [(isX_iff x).1 hx]
      decide
    refine goes_cons h0 (by simp) fun y hy => goes_cons hX hy fun z hz => ?_
    rw [decide_eq_true_eq] at hz
    rw [hz]
    exact (goes_mantissa (d := .hex) hm).append fun y hy => goes_exponent (d := .hex) hex hy
  | infinity hw =>
    rcases hw with hw | hw
    · have hletters : ∀ U ∈ "INF".toList, U ∈ letters := fun U hU =>
        infinity_letters U (List.mem_of_mem_take (i := 3) hU)
      exact goes_word hletters hw ⟨.infinity 2, by cases b <;> decide, rfl⟩
    · exact goes_word infinity_letters hw ⟨.infinity 7, by cases b <;> decide, rfl⟩
  | nan hw => exact goes_word nan_letters hw ⟨.nan 2, by cases b <;> decide, rfl⟩

/-- **A sequence is accepted.** -/
theorem accepts_of_subject (h : Subject p) : ∃ s, State.initial.run p = some s ∧ s.core.accepts = true := by
  obtain ⟨hsg, hbody⟩ := h
  rename_i sg body
  have hgo : ∀ b, State.initial.run sg = some ⟨b, .start⟩ →
      ∃ s, State.initial.run (sg ++ body) = some s ∧ s.core.accepts = true := by
    intro b hsign
    obtain ⟨z, hrun, hz⟩ := goes_unsigned (b := b) hbody
    exact ⟨⟨b, z⟩, by rw [run_append, hsign]; exact hrun, hz⟩
  cases hsg with
  | none => exact hgo false rfl
  | pos => exact hgo true (by decide)
  | neg => exact hgo true (by decide)

end Sequences

/-! ## What the automaton accepts is a sequence -/

/-- What is in front of the digits. -/
inductive Before : Scale → List Char → Prop
  | dec : Before .dec []
  | hex {x : Char} (hx : isX x = true) : Before .hex ['0', x]

/-- The bytes that lead to a state, behind the sign. -/
inductive Shape : Core → List Char → Prop
  | start : Shape .start []
  | zero : Shape .zero ['0']
  | hexStart {x : Char} (hx : isX x = true) : Shape .hexStart ['0', x]
  | whole {d : Scale} {pre ds : List Char} (hpre : Before d pre) (hds : Digits d.base ds) (hne : ds ≠ []) :
      Shape (.whole d) (pre ++ ds)
  | dot {d : Scale} {pre : List Char} (hpre : Before d pre) : Shape (.dot d) (pre ++ ['.'])
  | frac {d : Scale} {pre ds es : List Char} (hpre : Before d pre) (hds : Digits d.base ds) (hes : Digits d.base es)
      (hne : ds ++ es ≠ []) : Shape (.frac d) (pre ++ (ds ++ '.' :: es))
  | mark {d : Scale} {pre m : List Char} {c : Char} (hpre : Before d pre) (hm : Mantissa d.base m)
      (hc : c.toUpper = d.letter) : Shape (.mark d) (pre ++ (m ++ [c]))
  | expSign {d : Scale} {pre m sg : List Char} {c : Char} (hpre : Before d pre) (hm : Mantissa d.base m)
      (hc : c.toUpper = d.letter) (hsg : IsSign sg) : Shape (.expSign d) (pre ++ (m ++ c :: sg))
  | exp {d : Scale} {pre m sg ds : List Char} {c : Char} (hpre : Before d pre) (hm : Mantissa d.base m)
      (hc : c.toUpper = d.letter) (hsg : IsSign sg) (hds : Digits 10 ds) (hne : ds ≠ []) :
      Shape (.exp d) (pre ++ (m ++ c :: (sg ++ ds)))
  | infinity {n : Fin 8} {w : List Char} (hw : toUpperCase w = "INFINITY".toList.take (n.val + 1)) :
      Shape (.infinity n) w
  | nan {n : Fin 3} {w : List Char} (hw : toUpperCase w = "NAN".toList.take (n.val + 1)) : Shape (.nan n) w

section Shapes

variable {d : Scale} {s s' : Core} {body pre m ex ds : List Char} {c : Char} {base : Int}

theorem Digits.concat (h : Digits base ds) (hc : isDigit c base = true) : Digits base (ds ++ [c]) := by
  intro e he
  rcases List.mem_append.1 he with he | he
  · exact h e he
  · rwa [List.mem_singleton.1 he]

theorem digits_nil : Digits base [] := fun _ hc => absurd hc List.not_mem_nil

theorem digits_singleton (hc : isDigit c base = true) : Digits base [c] := digits_nil.concat hc

theorem isSign_singleton (hc : kind c = .sign) : IsSign [c] := by
  have hsign := (isSign_iff c).2 hc
  rw [isSign, Bool.or_eq_true, beq_iff_eq, beq_iff_eq] at hsign
  rcases hsign with rfl | rfl
  · exact .pos
  · exact .neg

/-- One letter more of a word -/
theorem word_concat {word w : List Char} (hword : ∀ U ∈ word, U ∈ letters) {n : Nat} (hw : toUpperCase w = word.take n)
    (hletter : (kind c).letter.isSome = true) (hnext : word[n]? = (kind c).letter) :
    n < word.length ∧ toUpperCase (w ++ [c]) = word.take (n + 1) := by
  obtain ⟨U, hU⟩ := Option.isSome_iff_exists.1 hletter
  rw [hU] at hnext
  have hc : c.toUpper = U := (letter_iff (hword U (List.mem_of_getElem? hnext))).2 hU
  refine ⟨(List.getElem?_eq_some_iff.1 hnext).1, ?_⟩
  rw [List.take_add_one, hnext, ← hw, toUpperCase, toUpperCase, List.map_append, List.map_singleton, hc]
  rfl

/-- **One byte more** -/
theorem Shape.step (h : Shape s body) (hstep : s.step (kind c) = some s') : Shape s' (body ++ [c]) := by
  have hdecimal : (kind c).isDecimal = true → isDigit c 10 = true := fun h => by rw [isDigit_decimal, h]
  have hhexadecimal : (kind c).isHexadecimal = true → isDigit c 16 = true := fun h => by rw [isDigit_hexadecimal, h]
  have hdigit : ∀ {d : Scale}, d.isDigit (kind c) = true → isDigit c d.base = true := fun h => by
    rw [isDigit_scale, h]
  cases h with
  | start =>
    simp only [Core.step] at hstep
    split_ifs at hstep with hzero hnonzero hdot hi hn <;> cases hstep
    · rw [(eq_zero_iff c).2 hzero]
      exact .zero
    · have hc : isDigit c 10 = true := hdecimal (by rw [hnonzero]; rfl)
      exact @Shape.whole .dec [] [c] .dec (digits_singleton hc) (List.cons_ne_nil _ _)
    · rw [(eq_dot_iff c).2 hdot]
      exact .dot .dec
    · exact .infinity (@word_concat c "INFINITY".toList [] infinity_letters 0 rfl (by rw [hi]; rfl) (by rw [hi]; rfl)).2
    · exact .nan (@word_concat c "NAN".toList [] nan_letters 0 rfl (by rw [hn]; rfl) (by rw [hn]; rfl)).2
  | zero =>
    have hzero : Digits 10 ['0'] := digits_singleton rfl
    simp only [Core.step] at hstep
    split_ifs at hstep with hd hdot he hx <;> cases hstep
    · exact @Shape.whole .dec [] ['0', c] .dec (hzero.concat (hdecimal hd)) (List.cons_ne_nil _ _)
    · rw [(eq_dot_iff c).2 hdot]
      exact @Shape.frac .dec [] ['0'] [] .dec hzero digits_nil (List.cons_ne_nil _ _)
    · exact .mark (m := ['0']) .dec (.whole hzero (List.cons_ne_nil _ _)) (kind_mark.1 he)
    · exact .hexStart ((isX_iff c).2 hx)
  | @hexStart x hx =>
    simp only [Core.step] at hstep
    split_ifs at hstep with hd hdot <;> cases hstep
    · exact @Shape.whole .hex ['0', x] [c] (.hex hx) (digits_singleton (hhexadecimal hd)) (List.cons_ne_nil _ _)
    · rw [(eq_dot_iff c).2 hdot]
      exact .dot (.hex hx)
  | @whole d pre ds hpre hds hne =>
    simp only [Core.step] at hstep
    rw [List.append_assoc]
    split_ifs at hstep with hd hdot hm <;> cases hstep
    · exact .whole hpre (hds.concat (hdigit hd)) (by simp)
    · rw [(eq_dot_iff c).2 hdot]
      exact .frac hpre hds digits_nil (by simpa using hne)
    · exact .mark hpre (.whole hds hne) (kind_mark.1 hm)
  | @dot d pre hpre =>
    simp only [Core.step] at hstep
    rw [List.append_assoc]
    split_ifs at hstep with hd
    cases hstep
    exact @Shape.frac d pre [] _ hpre digits_nil (digits_singleton (hdigit hd)) (List.cons_ne_nil _ _)
  | @frac d pre ds es hpre hds hes hne =>
    simp only [Core.step] at hstep
    rw [List.append_assoc]
    split_ifs at hstep with hd hm <;> cases hstep
    · rw [List.append_assoc]
      exact .frac hpre hds (hes.concat (hdigit hd)) (by simp)
    · exact .mark hpre (.point hds hes hne) (kind_mark.1 hm)
  | @mark d pre m e hpre hm he =>
    simp only [Core.step] at hstep
    rw [List.append_assoc, List.append_assoc]
    split_ifs at hstep with hs hd <;> cases hstep
    · exact .expSign hpre hm he (isSign_singleton hs)
    · exact @Shape.exp d pre m [] _ e hpre hm he .none (digits_singleton (hdecimal hd)) (List.cons_ne_nil _ _)
  | @expSign d pre m sg e hpre hm he hsg =>
    simp only [Core.step] at hstep
    rw [List.append_assoc, List.append_assoc]
    split_ifs at hstep with hd
    cases hstep
    exact .exp hpre hm he hsg (digits_singleton (hdecimal hd)) (List.cons_ne_nil _ _)
  | @exp d pre m sg ds e hpre hm he hsg hds hne =>
    simp only [Core.step] at hstep
    rw [List.append_assoc, List.append_assoc, List.cons_append, List.append_assoc]
    split_ifs at hstep with hd
    cases hstep
    exact .exp hpre hm he hsg (hds.concat (hdecimal hd)) (by simp)
  | @infinity n w hw =>
    simp only [Core.step] at hstep
    split_ifs at hstep with hnext
    cases hstep
    obtain ⟨hlt, htake⟩ := word_concat infinity_letters hw hnext.1 hnext.2
    have hval : ∀ n : Fin 8, n.val + 1 < 8 → (n + 1).val = n.val + 1 := by decide
    exact .infinity (by rw [hval n hlt]; exact htake)
  | @nan n w hw =>
    simp only [Core.step] at hstep
    split_ifs at hstep with hnext
    cases hstep
    obtain ⟨hlt, htake⟩ := word_concat nan_letters hw hnext.1 hnext.2
    have hval : ∀ n : Fin 3, n.val + 1 < 3 → (n + 1).val = n.val + 1 := by decide
    exact .nan (by rw [hval n hlt]; exact htake)

theorem unsigned_of_before (hpre : Before d pre) (hm : Mantissa d.base m) (hex : Exponent d.letter ex) :
    Unsigned (pre ++ (m ++ ex)) := by
  cases hpre with
  | dec => exact .decimal (m := m) hm hex
  | hex hx => exact .hexadecimal (m := m) hx hm hex

theorem unsigned_of_mantissa (hpre : Before d pre) (hm : Mantissa d.base m) : Unsigned (pre ++ m) := by
  have h := unsigned_of_before hpre hm .absent
  rwa [List.append_nil] at h

/-- **A state that accepts** has seen a sequence. -/
theorem Shape.unsigned (h : Shape s body) (haccepts : s.accepts = true) : Unsigned body := by
  cases h with
  | zero => exact unsigned_of_mantissa .dec (.whole (digits_singleton rfl) (List.cons_ne_nil _ _))
  | whole hpre hds hne => exact unsigned_of_mantissa hpre (.whole hds hne)
  | frac hpre hds hes hne => exact unsigned_of_mantissa hpre (.point hds hes hne)
  | exp hpre hm hc hsg hds hne => exact unsigned_of_before hpre hm (.present hc hsg hds hne)
  | @infinity n w hw =>
    rw [Core.accepts, decide_eq_true_eq] at haccepts
    rcases haccepts with rfl | rfl
    · exact .infinity (.inl hw)
    · exact .infinity (.inr hw)
  | @nan n w hw =>
    rw [Core.accepts, decide_eq_true_eq] at haccepts
    subst haccepts
    exact .nan hw
  | start => cases haccepts
  | hexStart hx => cases haccepts
  | dot hpre => cases haccepts
  | mark hpre hm hc => cases haccepts
  | expSign hpre hm hc hsg => cases haccepts

end Shapes

section Language

variable {p : List Char} {s : State}

/-- **The bytes that lead to a state** are a sign and a body of its shape. -/
theorem shape_of_run (h : State.initial.run p = some s) :
    ∃ sg body, IsSign sg ∧ p = sg ++ body ∧ Shape s.core body ∧ (s = .initial → sg = []) := by
  induction p using List.reverseRecOn generalizing s with
  | nil =>
    cases h
    exact ⟨[], [], .none, rfl, .start, fun _ => rfl⟩
  | append_singleton p c ih =>
    rw [run_concat] at h
    obtain ⟨s₀, hrun, hstep⟩ := Option.bind_eq_some_iff.1 h
    obtain ⟨sg, body, hsg, rfl, hshape, hinitial⟩ := ih hrun
    have hnot : s ≠ .initial := by
      have hall : ∀ (b : Bool) (s : Core) (k : Kind), State.step ⟨b, s⟩ k ≠ some .initial := by decide
      rintro rfl
      exact hall s₀.signed s₀.core (kind c) hstep
    rw [State.step] at hstep
    split at hstep
    · next hfirst =>
      cases hstep
      rw [hfirst.1] at hshape
      have hbody : body = [] := by
        cases hshape
        rfl
      rw [hinitial hfirst.1, hbody]
      exact ⟨[c], [], isSign_singleton hfirst.2, rfl, .start, fun h => absurd h hnot⟩
    · obtain ⟨core, hcore, hs⟩ := Option.map_eq_some_iff.1 hstep
      subst hs
      exact ⟨sg, body ++ [c], hsg, List.append_assoc _ _ _, hshape.step hcore, fun h => absurd h hnot⟩

/-- **The automaton accepts the sequences.** -/
theorem subject_iff : Subject p ↔ ∃ s, State.initial.run p = some s ∧ s.core.accepts = true := by
  constructor
  · exact accepts_of_subject
  · rintro ⟨s, hrun, haccepts⟩
    obtain ⟨sg, body, hsg, rfl, hshape, -⟩ := shape_of_run hrun
    exact .mk hsg (hshape.unsigned haccepts)

/-- What makes it a sequence. -/
def Core.rest : Core → List Char
  | start => ['0']
  | hexStart => ['0']
  | dot _ => ['0']
  | mark _ => ['0']
  | expSign _ => ['0']
  | infinity n => "INFINITY".toList.drop (n.val + 1)
  | nan n => "NAN".toList.drop (n.val + 1)
  | _ => []

theorem viable_iff_run : Viable Subject p ↔ ∃ s, State.initial.run p = some s := by
  constructor
  · rintro ⟨t, ht⟩
    obtain ⟨s, hrun, -⟩ := subject_iff.1 ht
    rw [run_append] at hrun
    obtain ⟨s', hs', -⟩ := Option.bind_eq_some_iff.1 hrun
    exact ⟨s', hs'⟩
  · rintro ⟨s, hrun⟩
    have hall : ∀ (b : Bool) (s : Core), (State.run ⟨b, s⟩ s.rest).any (fun z => z.core.accepts) = true := by decide
    obtain ⟨z, hz, haccepts⟩ := (Option.any_eq_true _ _).1 (hall s.signed s.core)
    refine ⟨s.core.rest, subject_iff.2 ⟨z, ?_, haccepts⟩⟩
    rw [run_append, hrun]
    exact hz

end Language

end CSemantics.ScanFloat
