/-
  The directives of `fscanf`.

  `fscanf'` works on the first directive that is left: it takes bytes as long as they are in the scan set, and then
  the item is complete or it is not.  The byte that ended the item stays in front, for the next directive.  What is
  returned is a count that goes up with each conversion, or `EOF` when the input ends and the count is still 0.

  The count should be of the items ASSIGNED.  The rules for a suppressed conversion, `dirRead`, count it like
  the others; that is the one difference in what is returned.  And a literal has no rule for the end of a file: if the
  end has been seen when its byte is taken, as with a buffer, the call gets stuck.

      scanfStep             the rules
      scanfResult           what should be returned
      item_steps            the bytes of one item
      TakesItem.finishes    one directive, and literal_finishes
      fscanf_returns_iff    when the result is what it should be
      fscanf'_scanList      the function of one scan list is these rules
-/
import CSemantics.Library.Stdio.Input
import CSemantics.Lib.Machine

namespace CSemantics

/-! ## Directives -/

inductive WriteBehavior
  | dirWrite | dirAlloc | dirRead
  deriving DecidableEq, Repr

/-- A conversion specifier, after `normalizeDirective`; `float` is `a`, `e`, `f` or `g`. -/
inductive ConvSpec
  | d | i | o | u | x | p | c | s | n
  | float
  | scanList (D : ScanList)

inductive Directive
  /-- `%(Wr, Width, _, C)` -/
  | conversion (wr : WriteBehavior) (width : Int) (spec : ConvSpec)
  /-- `%%` -/
  | percent
  | whitespace
  | stringDir (c : Char)

def isWhitespace (c : Char) : Bool := (9 ≤ ordChar c && ordChar c ≤ 13) || c == ' '

def isDigit (c : Char) (base : Int) : Bool :=
  if base ≤ 10 then ordChar '0' ≤ ordChar c && ordChar c < ordChar '0' + base
  else (ordChar '0' ≤ ordChar c && ordChar c < ordChar '0' + 10) ||
    (ordChar 'a' ≤ ordChar c && ordChar c < ordChar 'a' + (base - 10)) ||
    (ordChar 'A' ≤ ordChar c && ordChar c < ordChar 'A' + (base - 10))

def isSign (c : Char) : Bool := c == '+' || c == '-'

/-- `stripSign`, which takes white space away too -/
def stripSign (S : List Char) : List Char := S.dropWhile fun c => isSign c || isWhitespace c

def toUpperCase (S : List Char) : List Char := S.map Char.toUpper

def isXPrefix (S : List Char) : Bool := stripSign S == ['0']

def has0xPrefix (S : List Char) : Bool := toUpperCase ((stripSign S).take 2) == ['0', 'X']

/-- `strip0xPrefix`, up to the sign -/
def strip0xPrefix (S : List Char) : List Char := if has0xPrefix S then (stripSign S).drop 2 else S

def hasDigit (S : List Char) : Bool := S.any fun c => isDigit c 16

def hasRadix (S : List Char) : Bool :=
  if has0xPrefix S then 'p' ∈ S || 'P' ∈ S else 'e' ∈ S || 'E' ∈ S

/-- `inNil'`, `inInfinity'` and `inNan'`: `C` comes next in the word. -/
def comesNext (word : String) (c : Char) (item : List Char) : Bool := (item ++ [c]).isPrefixOf word.toList

def inNil (c : Char) (item : List Char) : Bool := comesNext "(NIL)" c.toUpper (toUpperCase (stripSign item))
def inInfinity (c : Char) (item : List Char) : Bool := comesNext "INFINITY" c.toUpper (toUpperCase (stripSign item))
def inNan (c : Char) (item : List Char) : Bool := comesNext "NAN" c.toUpper (toUpperCase item)

/-- The scan set of a floating conversion. -/
def inFloatSet (c : Char) (item : List Char) : Bool :=
  inInfinity c item || inNan c item ||
    (isDigit c 10 && !has0xPrefix item) ||
    (isDigit c 16 && has0xPrefix item && !hasRadix item) ||
    (isDigit c 2 && has0xPrefix item && hasRadix item) ||
    (isSign c && item.isEmpty) ||
    (isSign c && hasRadix item && item.getLast?.any fun l => l.toUpper == 'E' || l.toUpper == 'P') ||
    (c == '.' && !item.contains '.' && !hasRadix item) ||
    ((c == 'x' || c == 'X') && isXPrefix item) ||
    (hasRadix [c] && !hasRadix item && hasDigit item)

namespace Directive

/-- `inScanSet(C, D, Item)`; the empty string, at the end of the input, is only in a negated scan list. -/
def inScanSet (C : Option Char) (item : List Char) : Directive → Bool
  | stringDir c => C == some c && item.isEmpty
  | percent => C == some '%' && item.isEmpty
  | whitespace => C.any isWhitespace
  | conversion _ _ (.scanList D) => D.inScanSet C.toList
  | conversion _ _ .c => C.isSome
  | conversion _ _ .s => C.any fun c => !isWhitespace c
  | conversion _ _ .d => C.any fun c => isDigit c 10 || (isSign c && item.isEmpty)
  | conversion _ _ .u => C.any fun c => isDigit c 10 || (isSign c && item.isEmpty)
  | conversion _ _ .o => C.any fun c => isDigit c 8 || (isSign c && item.isEmpty)
  | conversion _ _ .i => C.any fun c =>
    isDigit c 16 || (isSign c && item.isEmpty) || ((c == 'x' || c == 'X') && isXPrefix item)
  | conversion _ _ .x => C.any fun c =>
    isDigit c 16 || (isSign c && item.isEmpty) || ((c == 'x' || c == 'X') && isXPrefix item)
  | conversion _ _ .p => C.any fun c =>
    isDigit c 16 || (isSign c && item.isEmpty) || ((c == 'x' || c == 'X') && isXPrefix item) || inNil c item
  | conversion _ _ .float => C.any fun c => inFloatSet c item
  | conversion _ _ .n => false

def isReadCountDirective : Directive → Bool
  | conversion _ _ .n => true
  | _ => false

def isFloatDirective : Directive → Bool
  | conversion _ _ .float => true
  | _ => false

def isNumericDirective : Directive → Bool
  | conversion _ _ .d => true
  | conversion _ _ .i => true
  | conversion _ _ .o => true
  | conversion _ _ .u => true
  | conversion _ _ .x => true
  | conversion _ _ .p => true
  | conversion _ _ .float => true
  | _ => false

def isWhitespaceDirective : Directive → Bool
  | whitespace => true
  | _ => false

/-- `isCompleteItem(Item, D)` -/
def isCompleteItem (item : List Char) (D : Directive) : Bool :=
  if item.isEmpty then D.isReadCountDirective || D.isWhitespaceDirective
  else
    !((D.isNumericDirective && !hasDigit (strip0xPrefix item) && toUpperCase item != "(NIL)".toList) ||
      (D.isNumericDirective && item.getLast?.any isSign) ||
      ((match D with | conversion _ _ .p => true | _ => false) &&
        ["(", "(N", "(NI", "(NIL"].any fun w => toUpperCase item == w.toList) ||
      (D.isFloatDirective &&
        ["N", "NA", "I", "IN", "INFI", "INFIN", "INFINI", "INFINIT"].any fun w =>
          toUpperCase (stripSign item) == w.toList))

/-- `atFieldWidth(Item, D)` -/
def atFieldWidth (item : List Char) : Directive → Bool
  | conversion _ width _ => decide (0 < width ∧ (item.length : Int) = width)
  | _ => false

/-- A conversion that is carried out counts; `%n` only if it is suppressed. -/
def counted : Directive → Int
  | conversion .dirRead _ _ => 1
  | conversion _ _ .n => 0
  | conversion _ _ _ => 1
  | _ => 0

/-- `%%` or a byte of the format. -/
def isLiteral : Directive → Bool
  | percent => true
  | stringDir _ => true
  | _ => false

end Directive

/-! ## The rules -/

/-- `fscanf'(FD, _, Directives, Matched, Item, _)`, with `str(C)` in front of it or not. -/
structure Scan where
  pending : Option (Option Char)
  directives : List Directive
  matched : Int
  item : List Char
  stream : Stream

/-- How it ends: it returns, or no rule applies. -/
inductive ScanEnd
  | returned (V : Int)
  | stopped (e : Stop)

/-- The directive has been carried out. -/
def Scan.next (x : Scan) (D : Directive) (ds : List Directive) : Scan :=
  { x with directives := ds, matched := x.matched + D.counted, item := [] }

/-- What is returned for an input failure. -/
def Scan.failed (x : Scan) : Int := if x.matched = 0 then eof else x.matched

/-- One rule. -/
def scanfStep (noIo : Bool) (x : Scan) : Except ScanEnd Scan :=
  match x.directives, x.pending with
  | [], _ => .error (.returned x.matched)
  | D :: ds, none =>
    if isReadable x.stream.mode = false then .error (.returned x.failed)
    else if D.atFieldWidth x.item = false ∧ x.stream.atEnd = false then
      if x.stream.ferror ≠ 0 then .error (.returned x.failed)
      else
        match readFD noIo x.stream 1 with
        | .ok (S, s) => .ok { x with pending := some S.head?, stream := s }
        | .error e => .error (.stopped e)
    else if D.isCompleteItem x.item then
      -- no rule takes a literal away here
      if D.isLiteral then .error (.stopped .stuck) else .ok (x.next D ds)
    else .error (.returned (if D.atFieldWidth x.item then x.matched else x.failed))
  | D :: ds, some C =>
    if D.inScanSet C x.item then .ok { x with pending := none, item := x.item ++ C.toList }
    else if D.isCompleteItem x.item then .ok (x.next D ds)
    else .error (.returned (if C = none then x.failed else x.matched))

/-- `fscanf`, or `sscanf` when the stream is a string, returns `V`. -/
def FscanfReturns (noIo : Bool) (s : Stream) (ds : List Directive) (V : Int) : Prop :=
  ∃ x, Steps (scanfStep noIo) ⟨none, ds, 0, [], s⟩ x ∧ scanfStep noIo x = .error (.returned V)

/-! ## What should be returned -/

namespace Directive

/-- The bytes of an item, and what is left. -/
def takeItem (D : Directive) : List Char → List Char → List Char × List Char
  | item, [] => (item, [])
  | item, c :: rest =>
    if D.atFieldWidth item = false ∧ D.inScanSet (some c) item then D.takeItem (item ++ [c]) rest else (item, c :: rest)

/-- A conversion that assigns an item. -/
def assigns : Directive → Int
  | conversion .dirRead _ _ => 0
  | conversion _ _ .n => 0
  | conversion _ _ _ => 1
  | _ => 0

/-- A conversion that takes an item, assigned or suppressed. -/
def converts : Directive → Int
  | conversion _ _ .n => 0
  | conversion _ _ _ => 1
  | _ => 0

def isSuppressed : Directive → Bool
  | conversion .dirRead _ _ => true
  | _ => false

end Directive

/-- The number of items assigned, or `EOF` if the input ends before a conversion is done. -/
def scanfResult (assigned converted : Int) : List Directive → List Char → Int
  | [], _ => assigned
  | D :: ds, u =>
    let item := (D.takeItem [] u).1
    let rest := (D.takeItem [] u).2
    if D.isCompleteItem item then scanfResult (assigned + D.assigns) (converted + D.converts) ds rest
    else if rest = [] ∧ D.atFieldWidth item = false ∧ converted = 0 then eof
    else assigned

/-- No suppressed conversion is carried out. -/
def NoSuppressed : List Directive → List Char → Prop
  | [], _ => True
  | D :: ds, u =>
    D.isCompleteItem (D.takeItem [] u).1 = true → D.isSuppressed = false ∧ NoSuppressed ds (D.takeItem [] u).2

/-- A literal takes the last byte. -/
def LiteralAtEnd : List Directive → List Char → Prop
  | [], _ => False
  | D :: ds, u =>
    D.isCompleteItem (D.takeItem [] u).1 = true ∧
      ((D.isLiteral = true ∧ (D.takeItem [] u).2 = []) ∨ LiteralAtEnd ds (D.takeItem [] u).2)

/-- The stream after `n` reads of one byte. -/
def afterReads (noIo : Bool) : Nat → Stream → Eval Stream
  | 0, s => .ok s
  | n + 1, s => do
    let (_, s) ← readFD noIo s 1
    afterReads noIo n s

/-- The end of the file is seen with the last byte. -/
def endSeen (noIo : Bool) (s : Stream) : Bool :=
  match afterReads noIo (unread s).length s with
  | .ok s' => s'.feof
  | .error _ => false

/-! ## One byte -/

section Step

variable {noIo ended : Bool} {s s' : Stream} {x : Scan} {D : Directive} {ds : List Directive} {u rest : List Char}

theorem endSeen_of_nil (hunread : unread s = []) : endSeen noIo s = s.feof := by
  rw [endSeen, hunread]
  rfl

/-- Whether the end is seen with the last byte does not change while bytes are left. -/
theorem endSeen_read {c : Char} {S : List Char} (hunread : unread s = c :: rest) (hrest : unread s' = rest)
    (hread : readFD noIo s 1 = .ok (S, s')) : endSeen noIo s' = endSeen noIo s := by
  rw [endSeen, endSeen, hrest, hunread, List.length_cons, afterReads, hread]
  rfl

/-- The text that is left, the byte in front included. -/
def Scan.text (x : Scan) : List Char :=
  match x.pending with
  | some (some c) => c :: unread x.stream
  | _ => unread x.stream

/-- What holds between two rules: `u` is left, and `ended` says whether the end is seen with its last byte. -/
structure Scan.Holds (noIo : Bool) (x : Scan) (u : List Char) (ended : Bool) : Prop where
  reading : Reading x.stream
  readable : isReadable x.stream.mode = true
  text : x.text = u
  atEnd : x.pending = some none → x.stream.atEnd = true
  seen : u ≠ [] → endSeen noIo x.stream = ended

/-- The byte in front is the next one. -/
theorem Scan.Holds.pending_eq {C : Option Char} (h : x.Holds noIo u ended) (hpending : x.pending = some C) :
    C = u.head? := by
  cases C with
  | none =>
    have htext := h.text
    rw [Scan.text, hpending] at htext
    rw [← htext, h.reading.unread_eq_nil (h.atEnd hpending)]
    rfl
  | some c =>
    rw [← h.text, Scan.text, hpending]
    rfl

theorem Scan.Holds.unread_eq (h : x.Holds noIo u ended) (hpending : x.pending = none) : unread x.stream = u := by
  have htext := h.text
  rwa [Scan.text, hpending] at htext

/-- A byte is read. -/
theorem Scan.Holds.read (h : x.Holds noIo u ended) (hds : x.directives = D :: ds) (hpending : x.pending = none)
    (hwidth : D.atFieldWidth x.item = false) (hend : x.stream.atEnd = false) :
    ∃ s', scanfStep noIo x = .ok { x with pending := some u.head?, stream := s' } ∧
      Scan.Holds noIo { x with pending := some u.head?, stream := s' } u ended := by
  have hunread := h.unread_eq hpending
  obtain ⟨s', hrun, hreading, hdrop, hsame, hshort⟩ := @readFD'_eq noIo x.stream h.reading 1
  rw [hunread] at hrun hdrop hshort
  have hread : readFD noIo x.stream 1 = .ok (u.take 1, s') := by rw [readFD_eq h.reading, hrun]
  have hhead : (u.take 1).head? = u.head? := by cases u <;> rfl
  refine ⟨s', ?_, hreading, by rw [hsame.mode, h.readable], ?_, ?_, ?_⟩
  · have hmode := h.readable
    have herror := h.reading.noError
    unfold scanfStep
    rw [hds, hpending]
    simp [hmode, hwidth, hend, herror, hread, hhead]
  · cases u with
    | nil => exact hdrop
    | cons c rest => exact congrArg (c :: ·) hdrop
  · intro hnone
    have hnil : u = [] := by
      cases u with
      | nil => rfl
      | cons c rest => cases hnone
    subst hnil
    rw [atEnd_eq_feof hdrop]
    exact hshort (by simp)
  · intro hne
    obtain ⟨c, rest, rfl⟩ := List.exists_cons_of_ne_nil hne
    rw [endSeen_read hunread hdrop hread]
    exact h.seen hne

/-- A byte of the scan set is taken. -/
theorem Scan.Holds.take {c : Char} (h : x.Holds noIo (c :: rest) ended) (hds : x.directives = D :: ds)
    (hpending : x.pending = some (some c)) (hin : D.inScanSet (some c) x.item = true) :
    scanfStep noIo x = .ok { x with pending := none, item := x.item ++ [c] } ∧
      Scan.Holds noIo { x with pending := none, item := x.item ++ [c] } rest ended ∧ unread x.stream = rest ∧
        endSeen noIo x.stream = ended := by
  have hunread : unread x.stream = rest := by
    have htext := h.text
    rw [Scan.text, hpending] at htext
    exact (List.cons.inj htext).2
  have hseen := h.seen (List.cons_ne_nil c rest)
  refine ⟨?_, ⟨h.reading, h.readable, hunread, (fun hnone => by cases hnone), fun _ => hseen⟩, hunread, hseen⟩
  unfold scanfStep
  rw [hds, hpending]
  simp [hin]

end Step

/-! ## One item -/

section Item

variable {noIo : Bool} {x x' y : Scan} {D : Directive} {ds : List Directive} {u rest item : List Char} {ended : Bool}

theorem Directive.takeItem_nil (D : Directive) (item : List Char) : D.takeItem item [] = (item, []) := by rw [takeItem]

theorem Directive.takeItem_width (hwidth : D.atFieldWidth item = true) : D.takeItem item u = (item, u) := by
  cases u with
  | nil => rw [takeItem]
  | cons c rest => rw [takeItem, hwidth, if_neg (by simp)]

/-- No item is at its width before it begins. -/
theorem Directive.atFieldWidth_nil (D : Directive) : D.atFieldWidth [] = false := by
  cases D with
  | conversion wr width spec =>
    rw [atFieldWidth, decide_eq_false_iff_not, List.length_nil]
    omega
  | percent => rfl
  | whitespace => rfl
  | stringDir c => rfl

/-- How an item ends. -/
inductive ItemEnd (D : Directive) (y : Scan) (rest : List Char) : Prop
  | mismatch : y.pending = some rest.head? → D.inScanSet rest.head? y.item = false → D.atFieldWidth y.item = false →
    ItemEnd D y rest
  | width : y.pending = none → D.atFieldWidth y.item = true → ItemEnd D y rest
  | input : y.pending = none → D.atFieldWidth y.item = false → y.stream.atEnd = true → ItemEnd D y rest

/-- The rules take an item from `x`, and `rest` is left. -/
structure TakesItem (noIo : Bool) (D : Directive) (ds : List Directive) (item rest : List Char) (ended : Bool)
    (x y : Scan) : Prop where
  steps : Steps (scanfStep noIo) x y
  directives : y.directives = D :: ds
  matched : y.matched = x.matched
  item : y.item = item
  holds : y.Holds noIo rest ended
  ends : ItemEnd D y rest

theorem TakesItem.head (hstep : scanfStep noIo x = .ok x') (hmatched : x'.matched = x.matched)
    (h : TakesItem noIo D ds item rest ended x' y) : TakesItem noIo D ds item rest ended x y :=
  ⟨.head hstep h.steps, h.directives, h.matched.trans hmatched, h.item, h.holds, h.ends⟩

/-- With nothing in front the item is over, or the next byte is read. -/
theorem item_of_none (h : x.Holds noIo u ended) (hds : x.directives = D :: ds) (hpending : x.pending = none)
    (hnext : ∀ s', Scan.Holds noIo { x with pending := some u.head?, stream := s' } u ended →
      D.atFieldWidth x.item = false → ∃ y, TakesItem noIo D ds (D.takeItem x.item u).1 (D.takeItem x.item u).2 ended
        { x with pending := some u.head?, stream := s' } y) :
    ∃ y, TakesItem noIo D ds (D.takeItem x.item u).1 (D.takeItem x.item u).2 ended x y := by
  cases hwidth : D.atFieldWidth x.item with
  | true =>
    rw [D.takeItem_width hwidth]
    exact ⟨x, .refl x, hds, rfl, rfl, h, .width hpending hwidth⟩
  | false =>
    cases hend : x.stream.atEnd with
    | true =>
      obtain rfl : u = [] := (h.unread_eq hpending).symm.trans (h.reading.unread_eq_nil hend)
      rw [D.takeItem_nil]
      exact ⟨x, .refl x, hds, rfl, rfl, h, .input hpending hwidth hend⟩
    | false =>
      obtain ⟨s', hstep, hholds⟩ := h.read hds hpending hwidth hend
      obtain ⟨y, hy⟩ := hnext s' hholds hwidth
      exact ⟨y, hy.head hstep rfl⟩

/-- At the end of the input the empty string is in front. -/
theorem item_of_end (h : x.Holds noIo [] ended) (hds : x.directives = D :: ds) (hpending : x.pending = some none)
    (hwidth : D.atFieldWidth x.item = false) :
    ∃ y, TakesItem noIo D ds (D.takeItem x.item []).1 (D.takeItem x.item []).2 ended x y := by
  rw [D.takeItem_nil]
  cases hin : D.inScanSet none x.item with
  | false => exact ⟨x, .refl x, hds, rfl, rfl, h, .mismatch hpending hin hwidth⟩
  | true =>
    have hend := h.atEnd hpending
    have hstep : scanfStep noIo x = .ok { x with pending := none } := by
      unfold scanfStep
      rw [hds, hpending]
      simp [hin]
    refine ⟨_, .single hstep, hds, rfl, rfl, ?_, .input rfl hwidth hend⟩
    exact ⟨h.reading, h.readable, h.reading.unread_eq_nil hend, fun _ => hend, h.seen⟩

/-- **One item** is what the directive takes of the text.  The induction is on the text. -/
theorem item_steps (u : List Char) : ∀ {x : Scan}, x.Holds noIo u ended → x.directives = D :: ds →
    (x.pending ≠ none → D.atFieldWidth x.item = false) →
      ∃ y, TakesItem noIo D ds (D.takeItem x.item u).1 (D.takeItem x.item u).2 ended x y := by
  induction u with
  | nil =>
    intro x h hds hwidth
    cases hpending : x.pending with
    | none => exact item_of_none h hds hpending fun s' h' hw => item_of_end h' hds rfl hw
    | some C =>
      obtain rfl : C = none := h.pending_eq hpending
      exact item_of_end h hds hpending (hwidth (by simp [hpending]))
  | cons c rest ih =>
    -- the next byte is in front
    have hsome : ∀ {x : Scan}, x.Holds noIo (c :: rest) ended → x.directives = D :: ds → x.pending = some (some c) →
        D.atFieldWidth x.item = false →
        ∃ y, TakesItem noIo D ds (D.takeItem x.item (c :: rest)).1 (D.takeItem x.item (c :: rest)).2 ended x y := by
      intro x h hds hpending hwidth
      rw [Directive.takeItem]
      cases hin : D.inScanSet (some c) x.item with
      | false =>
        rw [if_neg (by simp)]
        exact ⟨x, .refl x, hds, rfl, rfl, h, .mismatch hpending hin hwidth⟩
      | true =>
        rw [if_pos ⟨hwidth, rfl⟩]
        obtain ⟨hstep, hholds, -, -⟩ := h.take hds hpending hin
        obtain ⟨y, hy⟩ := ih hholds hds fun hne => absurd rfl hne
        exact ⟨y, hy.head hstep rfl⟩
    intro x h hds hwidth
    cases hpending : x.pending with
    | none => exact item_of_none h hds hpending fun s' h' hw => hsome h' hds rfl hw
    | some C =>
      obtain rfl : C = some c := h.pending_eq hpending
      exact hsome h hds hpending (hwidth (by simp [hpending]))

end Item

/-! ## One directive -/

/-- What the rules return, or nothing where they get stuck. -/
def codeReturn (ended : Bool) : Int → List Directive → List Char → Option Int
  | M, [], _ => some M
  | M, D :: ds, u =>
    let item := (D.takeItem [] u).1
    let rest := (D.takeItem [] u).2
    if D.isCompleteItem item then
      if D.isLiteral ∧ rest = [] ∧ ended then none else codeReturn ended (M + D.counted) ds rest
    else some (if M = 0 ∧ rest = [] ∧ D.atFieldWidth item = false then eof else M)

/-- How a call ends that returns this, or gets stuck. -/
def scanEnd : Option Int → ScanEnd
  | some V => .returned V
  | none => .stopped .stuck

section OneDirective

variable {noIo : Bool} {x y : Scan} {D : Directive} {ds : List Directive} {u rest item : List Char} {ended : Bool}

/-- The rules carry the directive out, and `rest` is left. -/
structure Finishes (noIo : Bool) (D : Directive) (ds : List Directive) (rest : List Char) (ended : Bool) (x z : Scan) :
    Prop where
  steps : Steps (scanfStep noIo) x z
  directives : z.directives = ds
  matched : z.matched = x.matched + D.counted
  item : z.item = []
  holds : z.Holds noIo rest ended

theorem Scan.Holds.next (h : y.Holds noIo rest ended) : (y.next D ds).Holds noIo rest ended :=
  ⟨h.reading, h.readable, h.text, h.atEnd, h.seen⟩

/-- A complete item of a directive that is no literal. -/
theorem TakesItem.finishes (h : TakesItem noIo D ds item rest ended x y) (hcomplete : D.isCompleteItem item = true)
    (hliteral : D.isLiteral = false) : Finishes noIo D ds rest ended x (y.next D ds) := by
  have hc : D.isCompleteItem y.item = true := by rw [h.item, hcomplete]
  have hstep : scanfStep noIo y = .ok (y.next D ds) := by
    have hmode := h.holds.readable
    unfold scanfStep
    rw [h.directives]
    rcases h.ends with ⟨hpending, hin, -⟩ | ⟨hpending, hwidth⟩ | ⟨hpending, hwidth, hend⟩
    · rw [hpending]
      simp [hin, hc]
    · rw [hpending]
      simp [hmode, hwidth, hc, hliteral]
    · rw [hpending]
      simp [hmode, hend, hc, hliteral]
  exact ⟨h.steps.trans (.single hstep), rfl, by rw [Scan.next, h.matched], rfl, h.holds.next⟩

/-- An item that is not complete. -/
theorem TakesItem.returns (h : TakesItem noIo D ds item rest ended x y) (hcomplete : D.isCompleteItem item = false) :
    scanfStep noIo y =
      .error (.returned (if x.matched = 0 ∧ rest = [] ∧ D.atFieldWidth item = false then eof else x.matched)) := by
  have hc : D.isCompleteItem y.item = false := by rw [h.item, hcomplete]
  have hmode := h.holds.readable
  rw [← h.item, ← h.matched]
  unfold scanfStep
  rw [h.directives]
  rcases h.ends with ⟨hpending, hin, hwidth⟩ | ⟨hpending, hwidth⟩ | ⟨hpending, hwidth, hend⟩
  · rw [hpending]
    cases rest with
    | nil => simpa [hc, Scan.failed, hwidth] using hin
    | cons c rest => simpa [hc, hwidth] using hin
  · rw [hpending]
    simp [hmode, hwidth, hc]
  · have hrest : rest = [] := (h.holds.unread_eq hpending).symm.trans (h.holds.reading.unread_eq_nil hend)
    rw [hpending, hrest]
    simp [hmode, hwidth, hend, hc, Scan.failed]

/-! ### Literals -/

theorem Directive.inScanSet_literal (hliteral : D.isLiteral = true) {C : Option Char} (hitem : item ≠ []) :
    D.inScanSet C item = false := by
  have hempty : item.isEmpty = false := by simpa using hitem
  cases D with
  | conversion wr width spec => cases hliteral
  | percent => rw [inScanSet, hempty, Bool.and_false]
  | whitespace => cases hliteral
  | stringDir c => rw [inScanSet, hempty, Bool.and_false]

theorem Directive.isCompleteItem_literal (hliteral : D.isLiteral = true) : D.isCompleteItem item = !item.isEmpty := by
  cases D with
  | conversion wr width spec => cases hliteral
  | percent => cases item <;> rfl
  | whitespace => cases hliteral
  | stringDir c => cases item <;> rfl

theorem Directive.atFieldWidth_literal (hliteral : D.isLiteral = true) : D.atFieldWidth item = false := by
  cases D with
  | conversion wr width spec => cases hliteral
  | percent => rfl
  | whitespace => cases hliteral
  | stringDir c => rfl

/-- The item of a literal is its byte. -/
theorem Directive.takeItem_literal (hliteral : D.isLiteral = true)
    (hcomplete : D.isCompleteItem (D.takeItem [] u).1 = true) :
    ∃ c rest, u = c :: rest ∧ D.inScanSet (some c) [] = true ∧ D.takeItem [] u = ([c], rest) := by
  rw [isCompleteItem_literal hliteral] at hcomplete
  cases u with
  | nil =>
    rw [takeItem_nil] at hcomplete
    cases hcomplete
  | cons c rest =>
    cases hin : D.inScanSet (some c) [] with
    | false =>
      rw [takeItem, hin, if_neg (by simp)] at hcomplete
      cases hcomplete
    | true =>
      refine ⟨c, rest, rfl, hin, ?_⟩
      rw [takeItem, hin, if_pos ⟨D.atFieldWidth_nil, rfl⟩]
      cases rest with
      | nil => rw [takeItem_nil, List.nil_append]
      | cons d rest =>
        rw [takeItem, D.inScanSet_literal hliteral (by simp), if_neg (by simp), List.nil_append]

/-- The byte of a literal is taken; behind the last one the end has been seen or not. -/
theorem literal_steps {c : Char} (h : x.Holds noIo (c :: rest) ended) (hds : x.directives = D :: ds)
    (hitem : x.item = []) (hin : D.inScanSet (some c) [] = true) :
    ∃ y, Steps (scanfStep noIo) x y ∧ y.directives = D :: ds ∧ y.matched = x.matched ∧ y.item = [c] ∧
      y.pending = none ∧ y.Holds noIo rest ended ∧ (rest = [] → y.stream.atEnd = ended) := by
  have hsome : ∀ {x : Scan}, x.Holds noIo (c :: rest) ended → x.directives = D :: ds → x.item = [] →
      x.pending = some (some c) →
      ∃ y, Steps (scanfStep noIo) x y ∧ y.directives = D :: ds ∧ y.matched = x.matched ∧ y.item = [c] ∧
        y.pending = none ∧ y.Holds noIo rest ended ∧ (rest = [] → y.stream.atEnd = ended) := by
    intro x h hds hitem hpending
    obtain ⟨hstep, hholds, hunread, hseen⟩ := h.take hds hpending (by rwa [hitem])
    refine ⟨_, .single hstep, hds, rfl, by rw [hitem, List.nil_append], rfl, hholds, fun hrest => ?_⟩
    rw [hrest] at hunread
    rw [← hseen, endSeen_of_nil hunread]
    exact atEnd_eq_feof hunread
  cases hpending : x.pending with
  | some C =>
    obtain rfl : C = some c := h.pending_eq hpending
    exact hsome h hds hitem hpending
  | none =>
    have hend : x.stream.atEnd = false := by
      refine Bool.eq_false_iff.mpr fun hend => ?_
      have hnil := (h.unread_eq hpending).symm.trans (h.reading.unread_eq_nil hend)
      cases hnil
    obtain ⟨s', hstep, hholds⟩ := h.read hds hpending (by rw [hitem, D.atFieldWidth_nil]) hend
    obtain ⟨y, hsteps, hy⟩ := hsome hholds hds hitem rfl
    exact ⟨y, .head hstep hsteps, hy⟩

/-- **A literal**: the next byte is asked for before it is taken away, so it gets stuck at the end. -/
theorem literal_finishes (h : x.Holds noIo u ended) (hds : x.directives = D :: ds) (hitem : x.item = [])
    (hliteral : D.isLiteral = true) (hcomplete : D.isCompleteItem (D.takeItem [] u).1 = true) :
    if (D.takeItem [] u).2 = [] ∧ ended = true
    then ∃ y, Steps (scanfStep noIo) x y ∧ scanfStep noIo y = .error (.stopped .stuck)
    else ∃ z, Finishes noIo D ds (D.takeItem [] u).2 ended x z := by
  obtain ⟨c, rest, rfl, hin, htake⟩ := Directive.takeItem_literal hliteral hcomplete
  obtain ⟨y, hsteps, hyds, hymatched, hyitem, hypending, hyholds, hyend⟩ := literal_steps h hds hitem hin
  have hwidth : D.atFieldWidth y.item = false := D.atFieldWidth_literal hliteral
  have hc : D.isCompleteItem y.item = true := by
    rw [hyitem, D.isCompleteItem_literal hliteral]
    rfl
  rw [htake]
  dsimp only
  split
  · next hlast =>
    refine ⟨y, hsteps, ?_⟩
    have hmode := hyholds.readable
    have hend : y.stream.atEnd = true := (hyend hlast.1).trans hlast.2
    unfold scanfStep
    rw [hyds, hypending]
    simp [hmode, hend, hc, hliteral]
  · next hlast =>
    have hend : y.stream.atEnd = false := by
      refine Bool.eq_false_iff.mpr fun hend => ?_
      have hnil : rest = [] := (hyholds.unread_eq hypending).symm.trans (hyholds.reading.unread_eq_nil hend)
      exact hlast ⟨hnil, (hyend hnil).symm.trans hend⟩
    obtain ⟨s', hread, hholds⟩ := hyholds.read hyds hypending hwidth hend
    have hout : D.inScanSet rest.head? y.item = false := D.inScanSet_literal hliteral (by rw [hyitem]; simp)
    have hnext : scanfStep noIo { y with pending := some rest.head?, stream := s' } =
        .ok (Scan.next { y with pending := some rest.head?, stream := s' } D ds) := by
      unfold scanfStep
      dsimp only
      rw [hyds]
      simp [hout, hc]
    refine ⟨_, hsteps.trans (.head hread (.single hnext)), rfl, ?_, rfl, hholds.next⟩
    rw [Scan.next, hymatched]

end OneDirective

/-! ## A whole call -/

section Call

variable {noIo : Bool} {s : Stream} {ended : Bool}

/-- **All directives**: the rules end as `codeReturn` says. -/
theorem scanf_steps (ds : List Directive) : ∀ {x : Scan} {u : List Char}, x.Holds noIo u ended → x.directives = ds →
    x.item = [] →
      ∃ y, Steps (scanfStep noIo) x y ∧ scanfStep noIo y = .error (scanEnd (codeReturn ended x.matched ds u)) := by
  induction ds with
  | nil =>
    intro x u h hds hitem
    refine ⟨x, .refl x, ?_⟩
    unfold scanfStep
    rw [hds]
    rfl
  | cons D ds ih =>
    intro x u h hds hitem
    have hgo : ∀ {z : Scan}, Finishes noIo D ds (D.takeItem [] u).2 ended x z →
        ∃ y, Steps (scanfStep noIo) x y ∧
          scanfStep noIo y = .error (scanEnd (codeReturn ended (x.matched + D.counted) ds (D.takeItem [] u).2)) := by
      intro z hz
      obtain ⟨y, hsteps, hend⟩ := ih hz.holds hz.directives hz.item
      rw [hz.matched] at hend
      exact ⟨y, hz.steps.trans hsteps, hend⟩
    obtain ⟨y, hy⟩ := item_steps u h hds fun _ => by rw [hitem, D.atFieldWidth_nil]
    rw [hitem] at hy
    rw [codeReturn]
    cases hcomplete : D.isCompleteItem (D.takeItem [] u).1 with
    | false => exact ⟨y, hy.steps, hy.returns hcomplete⟩
    | true =>
      cases hliteral : D.isLiteral with
      | false => simpa using hgo (hy.finishes hcomplete hliteral)
      | true =>
        have hlit := literal_finishes h hds hitem hliteral hcomplete
        simp only [true_and, if_true]
        split at hlit
        · next hlast =>
          rw [if_pos hlast]
          exact hlit
        · next hlast =>
          rw [if_neg hlast]
          obtain ⟨z, hz⟩ := hlit
          exact hgo hz

/-- **What is returned** is what `codeReturn` says. -/
theorem fscanfReturns_iff (h : Reading s) (hmode : isReadable s.mode = true) (ds : List Directive) (V : Int) :
    FscanfReturns noIo s ds V ↔ codeReturn (endSeen noIo s) 0 ds (unread s) = some V := by
  have hholds : Scan.Holds noIo ⟨none, ds, 0, [], s⟩ (unread s) (endSeen noIo s) :=
    ⟨h, hmode, rfl, (fun hnone => by cases hnone), fun _ => rfl⟩
  obtain ⟨y, hsteps, hend⟩ := scanf_steps ds hholds rfl rfl
  constructor
  · rintro ⟨x, hx, hret⟩
    obtain rfl := Steps.unique hsteps hx ⟨_, hend⟩ ⟨_, hret⟩
    rw [hend] at hret
    have hscan := Except.error.inj hret
    dsimp only at hscan
    revert hscan
    cases codeReturn (endSeen noIo s) 0 ds (unread s) with
    | none => exact fun hscan => by cases hscan
    | some W => exact fun hscan => by cases hscan; rfl
  · intro hV
    dsimp only at hend
    rw [hV] at hend
    exact ⟨y, hsteps, hend⟩

end Call

/-! ## What is returned and what should be -/

section Count

variable {D : Directive} {noIo ended : Bool}

theorem Directive.assigns_nonneg (D : Directive) : 0 ≤ D.assigns := by
  unfold assigns
  split <;> decide

/-- A directive that is not suppressed counts what it assigns. -/
theorem Directive.counted_eq (h : D.isSuppressed = false) : D.counted = D.assigns ∧ D.converts = D.assigns := by
  cases D with
  | conversion wr width spec =>
    cases wr with
    | dirRead => cases h
    | dirWrite => cases spec <;> exact ⟨rfl, rfl⟩
    | dirAlloc => cases spec <;> exact ⟨rfl, rfl⟩
  | percent => exact ⟨rfl, rfl⟩
  | whitespace => exact ⟨rfl, rfl⟩
  | stringDir c => exact ⟨rfl, rfl⟩

/-- A suppressed conversion counts and assigns nothing. -/
theorem Directive.counted_of_suppressed (h : D.isSuppressed = true) :
    D.counted = 1 ∧ D.assigns = 0 ∧ D.isLiteral = false := by
  cases D with
  | conversion wr width spec =>
    cases wr with
    | dirRead => exact ⟨rfl, rfl, rfl⟩
    | dirWrite => cases h
    | dirAlloc => cases h
  | percent => cases h
  | whitespace => cases h
  | stringDir c => cases h

theorem Directive.assigns_le_counted (D : Directive) : D.assigns ≤ D.counted := by
  cases h : D.isSuppressed with
  | false => exact (D.counted_eq h).1.ge
  | true =>
    obtain ⟨hcounted, hassigns, -⟩ := D.counted_of_suppressed h
    rw [hcounted, hassigns]
    decide

/-- Once too much has been counted, too much is returned. -/
theorem codeReturn_ne (ds : List Directive) : ∀ {a c M : Int} {u : List Char}, 0 ≤ a → a < M →
    codeReturn ended M ds u ≠ some (scanfResult a c ds u) := by
  induction ds with
  | nil =>
    intro a c M u ha hM heq
    exact hM.ne' (Option.some.inj heq)
  | cons D ds ih =>
    intro a c M u ha hM
    rw [codeReturn, scanfResult]
    split
    · split
      · simp
      · have hassigns := D.assigns_nonneg
        have hcounted := D.assigns_le_counted
        exact ih (by omega) (by omega)
    · rw [if_neg (by omega)]
      intro heq
      have hM' := Option.some.inj heq
      split at hM'
      · unfold eof at hM'
        omega
      · omega

/-- **The two agree** iff nothing suppressed is counted and no literal gets stuck.  `a` items have been assigned, and
    nothing else has been counted. -/
theorem codeReturn_eq_iff (ds : List Directive) : ∀ {a : Int} {u : List Char}, 0 ≤ a →
    (codeReturn ended a ds u = some (scanfResult a a ds u) ↔
      NoSuppressed ds u ∧ ¬(ended = true ∧ LiteralAtEnd ds u)) := by
  induction ds with
  | nil =>
    intro a u ha
    simp [codeReturn, scanfResult, NoSuppressed, LiteralAtEnd]
  | cons D ds ih =>
    intro a u ha
    rw [codeReturn, scanfResult, NoSuppressed, LiteralAtEnd]
    cases hcomplete : D.isCompleteItem (D.takeItem [] u).1 with
    | false => simp [and_comm, and_left_comm]
    | true =>
      simp only [if_true, true_and, forall_const]
      cases hsuppressed : D.isSuppressed with
      | true =>
        obtain ⟨hcounted, hassigns, hliteral⟩ := D.counted_of_suppressed hsuppressed
        have hne := @codeReturn_ne ended ds (a + D.assigns) (a + D.converts) (a + D.counted) (D.takeItem [] u).2
          (by omega) (by omega)
        simp [hliteral, hne]
      | false =>
        obtain ⟨hcounted, hconverts⟩ := D.counted_eq hsuppressed
        have hassigns := D.assigns_nonneg
        rw [hcounted, hconverts]
        by_cases hlast : D.isLiteral = true ∧ (D.takeItem [] u).2 = [] ∧ ended = true
        · rw [if_pos hlast]
          simp [hlast.1, hlast.2.1, hlast.2.2]
        · rw [if_neg hlast, ih (by omega)]
          have hiff : ended = true ∧
                ((D.isLiteral = true ∧ (D.takeItem [] u).2 = []) ∨ LiteralAtEnd ds (D.takeItem [] u).2) ↔
              ended = true ∧ LiteralAtEnd ds (D.takeItem [] u).2 := by
            refine ⟨fun ⟨hended, hor⟩ => ⟨hended, hor.resolve_left fun ⟨hl, hr⟩ => hlast ⟨hl, hr, hended⟩⟩, ?_⟩
            exact fun ⟨hended, hl⟩ => ⟨hended, .inr hl⟩
          rw [hiff]
          simp

end Count

/-! ## One scan list -/

section OneScanList

variable {noIo : Bool} {D : ScanList} {width : Nat}

/-- `%Width[..]`, or `[^..`. -/
def Directive.ofScanList (D : ScanList) (width : Nat) : Directive := .conversion .dirWrite width (.scanList D)

theorem isCompleteItem_ofScanList (item : List Char) :
    (Directive.ofScanList D width).isCompleteItem item = !item.isEmpty := by
  cases item with
  | nil => rfl
  | cons c rest => rfl

theorem atFieldWidth_ofScanList (hwidth : width ≠ 0) (item : List Char) :
    (Directive.ofScanList D width).atFieldWidth item = decide (item.length = width) := by
  rw [Directive.ofScanList, Directive.atFieldWidth]
  exact decide_eq_decide.mpr (by omega)

/-- A complete item counts, and nothing is left to do. -/
theorem scanList_returns {x : Scan} (hmatched : x.matched = 0)
    (hstep : scanfStep noIo x = .ok (x.next (.ofScanList D width) [])) :
    ∃ y, Steps (scanfStep noIo) x y ∧ scanfStep noIo y = .error (.returned 1) := by
  refine ⟨_, .single hstep, ?_⟩
  unfold scanfStep
  simp [Scan.next, hmatched, Directive.ofScanList, Directive.counted]

/-- **`fscanf'` for one scan list** is these rules. -/
theorem fscanf'_scanList (hwidth : width ≠ 0) (fuel : Nat) : ∀ {s s' : Stream} {item item' : List Char} {V : Int},
    Reading s → isReadable s.mode = true → fscanf' noIo D width fuel s item = .ok (V, item', s') →
      ∃ y, Steps (scanfStep noIo) ⟨none, [.ofScanList D width], 0, item, s⟩ y ∧
        scanfStep noIo y = .error (.returned V) := by
  induction fuel with
  | zero =>
    intro s s' item item' V h hmode hrun
    cases hrun
  | succ fuel ih =>
    intro s s' item item' V h hmode hrun
    have hcomplete := @isCompleteItem_ofScanList D width
    have hat := @atFieldWidth_ofScanList D width hwidth
    rw [fscanf'] at hrun
    split at hrun
    · next hend =>
      by_cases hitem : item = []
      · rw [if_pos hitem] at hrun
        cases hrun
        have hatEnd : s.atEnd = true := hend.resolve_right fun hlen => hwidth (by rw [← hlen, hitem]; rfl)
        refine ⟨_, .refl _, ?_⟩
        unfold scanfStep
        simp [hmode, hat, hatEnd, hcomplete, hitem, Scan.failed, hwidth.symm]
      · rw [if_neg hitem] at hrun
        cases hrun
        refine @scanList_returns noIo D width _ rfl ?_
        have hgo : ¬((Directive.ofScanList D width).atFieldWidth item = false ∧ s.atEnd = false) := by
          rw [hat]
          rcases hend with hend | hend <;> simp [hend]
        unfold scanfStep
        simp only [hmode, hgo, hcomplete, if_false, reduceCtorEq]
        simp [hitem, Directive.ofScanList, Directive.isLiteral]
    · next hend =>
      obtain ⟨hatEnd, hlen⟩ := not_or.mp hend
      obtain ⟨s₁, hread, hreading, hdrop, hsame, -⟩ := @readFD'_eq noIo s h 1
      rw [← readFD_eq h] at hread
      rw [hread, Eval.ok_bind] at hrun
      -- the byte is read
      have hfirst : scanfStep noIo ⟨none, [.ofScanList D width], 0, item, s⟩ =
          .ok ⟨some ((unread s).take 1).head?, [.ofScanList D width], 0, item, s₁⟩ := by
        unfold scanfStep
        simp [hmode, hat, hlen, hatEnd, h.noError, hread]
      have hlist : (((unread s).take 1).head?).toList = (unread s).take 1 := by cases unread s <;> rfl
      have hin : (Directive.ofScanList D width).inScanSet ((unread s).take 1).head? item =
          D.inScanSet ((unread s).take 1) := by
        rw [Directive.ofScanList, Directive.inScanSet, hlist]
      dsimp only at hrun
      split at hrun
      · next hset =>
        obtain ⟨y, hsteps, hy⟩ := ih hreading (by rw [hsame.mode, hmode]) hrun
        refine ⟨y, .head hfirst (.head ?_ hsteps), hy⟩
        unfold scanfStep
        simp only [hin, hset, if_true, hlist]
      · next hset =>
        have hout : D.inScanSet ((unread s).take 1) = false := Bool.eq_false_iff.mpr hset
        split at hrun
        · next hitem =>
          cases hrun
          obtain ⟨y, hsteps, hy⟩ := @scanList_returns noIo D width
            ⟨some ((unread s).take 1).head?, [.ofScanList D width], 0, item, s₁⟩ rfl (by
              unfold scanfStep
              simp [hin, hout, hcomplete, hitem])
          exact ⟨y, .head hfirst hsteps, hy⟩
        · next hitem =>
          obtain rfl : item = [] := not_not.mp hitem
          cases hrun
          refine ⟨_, .single hfirst, ?_⟩
          have hnotIn := hin.trans hout
          unfold scanfStep
          cases hunread : unread s with
          | nil =>
            rw [hunread] at hnotIn
            simpa [hcomplete, Scan.failed] using hnotIn
          | cons c rest =>
            rw [hunread] at hnotIn
            simpa [hcomplete] using hnotIn

end OneScanList

/-! ## `sscanf` -/

/-- The string that `sscanf` reads. -/
def openString (S : List Char) : Stream := { newFile .string "r" with readBuffer := S, input := [], sent := [] }

theorem reading_openString (S : List Char) : Reading (openString S) :=
  ⟨by simp [openString, newFile], rfl, rfl, rfl, fun _ => rfl, fun _ => rfl, fun _ => rfl⟩

theorem isReadable_openString (S : List Char) : isReadable (openString S).mode = true := by
  simp [openString, newFile, isReadable]

/-- The end of a string is not seen before a byte is asked for behind it. -/
theorem afterReads_string (noIo : Bool) {s : Stream} (h : Reading s) (hstring : s.fid = .string) (heof : s.feof = false)
    (n : Nat) : n ≤ (unread s).length → ∃ s', afterReads noIo n s = .ok s' ∧ s'.feof = false := by
  induction n generalizing s with
  | zero => exact fun _ => ⟨s, rfl, heof⟩
  | succ n ih =>
    intro hn
    have hbuffer : unread s = s.readBuffer := by rw [unread, h.noDescriptor hstring, List.append_nil]
    have hle : 1 ≤ s.readBuffer.length := by
      rw [hbuffer] at hn
      omega
    have hread : readFD noIo s 1 = .ok (s.readBuffer.take 1, took s 1) := by
      rw [readFD_eq h, readFD', if_neg h.notOutput, if_pos hle]
    have hlen : n ≤ (unread (took s 1)).length := by
      rw [unread_took hle, List.length_drop]
      omega
    obtain ⟨s', hrun, hfeof⟩ := ih (reading_took h 1) hstring heof hlen
    refine ⟨s', ?_, hfeof⟩
    rw [afterReads, hread]
    exact hrun

/-- A literal at the end of a string is no harm. -/
theorem endSeen_openString (noIo : Bool) (S : List Char) : endSeen noIo (openString S) = false := by
  obtain ⟨s', hrun, hfeof⟩ := afterReads_string noIo (reading_openString S) rfl rfl _ (le_refl _)
  rw [endSeen, hrun]
  exact hfeof

/-- `"%*d%d"` -/
def skipNumber : List Directive := [.whitespace, .conversion .dirRead 0 .d, .whitespace, .conversion .dirWrite 0 .d]

end CSemantics
