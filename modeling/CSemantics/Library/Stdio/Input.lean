/-
  Input functions of `stdio.h` on a stream.

  A read takes bytes from `<read-buffer>` and fills it from the descriptor when they are not enough.  How much
  a fill takes depends on the mode, so what is measured against is a stream WITHOUT a buffer: the bytes that are
  left, and whether a read has asked for more than there were.

  The bytes agree, whatever the mode.  `feof` does not: a fill that runs into the end of the file sets
  `<feof>`, and `feof` looks at that as soon as the buffer is empty.  Unbuffered, the end is only seen by a read that
  asks for more; with a buffer it has been seen when the last byte is handed out.

      Mirrors                 the stream and the one without a buffer
      Kept                    what reading one byte and putting it back preserves
      scan_mirrors            a scan list, as `fgets` uses it
      run_mirrors             a whole sequence of calls
      input_buffering_iff     the mode shows, iff `feof` is asked just behind the last byte
-/
import CSemantics.Library.Stdio.Output

namespace CSemantics

/-! ## Scan lists -/

/-- A scan list: `[^..` is negated. -/
structure ScanList where
  negated : Bool
  chars : List Char

/-- `inScanSet(C, %(_, _, _, D), _)` for a scan list `D`; there is nothing of the empty string to find. -/
def ScanList.inScanSet (D : ScanList) (C : List Char) : Bool :=
  if D.negated then !C.any (· ∈ D.chars) else C.any (· ∈ D.chars)

/-- `[^\n]` -/
def notNewline : ScanList := ⟨true, ['\n']⟩

/-- `[\n]` -/
def newline : ScanList := ⟨false, ['\n']⟩

/-! ## The calls -/

section Calls

variable (noIo : Bool) (s : Stream)

/-- The end of the file has been seen and nothing is left in the buffer. -/
def Stream.atEnd : Bool := s.readBuffer.isEmpty && s.feof

/-- `fscanf'` with the one directive `%(dirWrite, Width, "", D)`: what it returns, and the item it writes. -/
def fscanf' (D : ScanList) (width : Nat) : Nat → Stream → List Char → Eval (Int × List Char × Stream)
  | 0, _, _ => .error .stuck
  | fuel + 1, s, item =>
    if s.atEnd ∨ item.length = width then
      if item = [] then .ok (eof, [], s) else .ok (1, item, s)
    else do
      let (C, s) ← readFD noIo s 1
      if D.inScanSet C then fscanf' D width fuel s (item ++ C)
      else if item ≠ [] then .ok (1, item, unget s C)
      else .ok (if C = [] then eof else 0, [], unget s C)

/-- `fscanf` with such a format.  Each round but the last two lengthens the item. -/
def fscanf (D : ScanList) (width : Nat) : Eval (Int × List Char × Stream) := fscanf' noIo D width (width + 2) s []

/-- What is at the pointer after `fgets`. -/
inductive Line
  | untouched
  | null
  | text (S : List Char)
  deriving DecidableEq, Repr

def fgetc : Eval (Int × Stream) := do
  let (S, s) ← readFD noIo s 1
  return (match S with | [] => eof | c :: _ => ordChar c, s)

/-- `str(S) ~> fgets(Ptr, NMemb, FD)`: a newline that comes next belongs to the line. -/
def fgetsNewline (NMemb : Int) (S : List Char) : Eval (Line × Stream) :=
  if (S.length : Int) ≥ NMemb - 1 then .ok (.text S, s)
  else do
    let (_, C, s) ← fscanf noIo s newline 1
    return (.text (S ++ C), s)

/-- `getString` of the item: up to the first NUL. -/
def getString (item : List Char) : List Char := item.takeWhile (· ≠ Char.ofNat 0)

def fgets (NMemb : Int) : Eval (Line × Stream) :=
  if NMemb < 1 then .ok (.untouched, s)
  else if NMemb = 1 then .ok (.text [], s)
  else do
    let (V, item, s) ← fscanf noIo s notNewline (NMemb - 1).toNat
    if (V = eof ∧ s.atEnd = false) ∨ (V ≠ 1 ∧ s.atEnd = true) then return (.null, s)
    else fgetsNewline noIo s NMemb (if V = 1 then getString item else [])

/-- `fread`: the number of elements and the bytes; `%Int` has no value for a size of 0. -/
def fread (size nmemb : Nat) : Eval (Nat × List Char × Stream) := do
  let (S, s) ← readFD noIo s (size * nmemb)
  if size = 0 then .error .stuck else return (S.length / size, S, s)

def feof : Int := if s.atEnd then 1 else 0

end Calls

inductive InputOp
  | fgetc
  | fgets (n : Int)
  | fread (size nmemb : Nat)
  | feof
  deriving DecidableEq, Repr

inductive InputResult
  | char (v : Int)
  | line (l : Line)
  | items (count : Nat) (bytes : List Char)
  | feof (v : Int)
  deriving DecidableEq, Repr

/-- One call on a stream that is open for reading. -/
def inputStep (noIo : Bool) (s : Stream) : InputOp → Eval (InputResult × Stream)
  | .fgetc => do
    let (v, s) ← fgetc noIo s
    return (.char v, s)
  | .fgets n => do
    let (l, s) ← fgets noIo s n
    return (.line l, s)
  | .fread size nmemb => do
    let (n, S, s) ← fread noIo s size nmemb
    return (.items n S, s)
  | .feof => .ok (.feof (feof s), s)

/-- The results of a sequence of calls, up to one that gets stuck. -/
def runInput (noIo : Bool) : Stream → List InputOp → List (Eval InputResult)
  | _, [] => []
  | s, op :: ops =>
    match inputStep noIo s op with
    | .ok (r, s') => .ok r :: runInput noIo s' ops
    | .error e => [.error e]

/-- A file with this content, opened for reading, after `setvbuf`. -/
def openInput (mode : BufMode) (size : Int) (content : List Char) : Stream :=
  { newFile .fd "r" with bufferMode := mode, bufferSize := size, input := content, sent := [] }

/-! ## A stream without a buffer -/

/-- The bytes that are left, and whether a read has asked for more. -/
structure Plain where
  unread : List Char
  tried : Bool

namespace Plain

def read (p : Plain) (N : Nat) : Plain := ⟨p.unread.drop N, p.tried || decide (p.unread.length < N)⟩

/-- The bytes of a scan list, `width` of them at most. -/
def scan (D : ScanList) : Nat → Plain → List Char × Plain
  | 0, p => ([], p)
  | _ + 1, ⟨[], _⟩ => ([], ⟨[], true⟩)
  | width + 1, ⟨c :: rest, tried⟩ =>
    if D.inScanSet [c] then
      let (item, p) := scan D width ⟨rest, tried⟩
      (c :: item, p)
    else ([], ⟨c :: rest, tried⟩)

/-- The end of a line, of which `S` is there. -/
def fgetsNewline (p : Plain) (n : Int) (S : List Char) : Line × Plain :=
  if (S.length : Int) ≥ n - 1 then (.text S, p) else (.text (S ++ (p.scan newline 1).1), (p.scan newline 1).2)

/-- A line up to its newline, of at most `n - 1` bytes. -/
def fgets (p : Plain) (n : Int) : Line × Plain :=
  if n < 1 then (.untouched, p)
  else if n = 1 then (.text [], p)
  else
    let item := (p.scan notNewline (n - 1).toNat).1
    let p := (p.scan notNewline (n - 1).toNat).2
    if item = [] ∧ p.unread = [] then (.null, p) else p.fgetsNewline n (getString item)

/-- One call, where `feof` gives `ended`. -/
def step (ended : Bool) (p : Plain) : InputOp → Eval (InputResult × Plain)
  | .fgetc => .ok (.char (match p.unread with | [] => eof | c :: _ => ordChar c), p.read 1)
  | .fgets n => .ok (.line (p.fgets n).1, (p.fgets n).2)
  | .fread size nmemb =>
    if size = 0 then .error .stuck
    else .ok (.items ((p.unread.take (size * nmemb)).length / size) (p.unread.take (size * nmemb)), p.read (size * nmemb))
  | .feof => .ok (.feof (if ended then 1 else 0), p)

/-- A sequence of calls, where `feof` is what `ended` says of the place. -/
def run (ended : Plain → Bool) : Plain → List InputOp → List (Eval InputResult)
  | _, [] => []
  | p, op :: ops =>
    match p.step (ended p) op with
    | .ok (r, p') => .ok r :: run ended p' ops
    | .error e => [.error e]

/-- Just behind the last byte, before any read has asked for more. -/
def behindLast (content : List Char) (p : Plain) : Bool := !content.isEmpty && p.unread.isEmpty && !p.tried

/-- No call of `feof` where `bad` holds. -/
def NoFeof (bad : Plain → Bool) : Plain → List InputOp → Prop
  | _, [] => True
  | p, op :: ops =>
    (op = .feof → bad p = false) ∧
      match p.step false op with
      | .ok (_, p') => NoFeof bad p' ops
      | .error _ => True

end Plain

/-! ## The stream and the one without a buffer -/

/-- The two have the same bytes left, and the end has been seen if a read has asked for more. -/
structure Mirrors (s : Stream) (p : Plain) : Prop where
  reading : Reading s
  descriptor : s.fid = .fd
  unread : unread s = p.unread
  tried : p.tried = true → s.feof = true ∧ p.unread = []

section Mirror

variable {noIo : Bool} {s s' : Stream} {p : Plain}

theorem Reading.unread_eq_nil (h : Reading s) (hend : s.atEnd = true) : unread s = [] := by
  obtain ⟨hbuffer, heof⟩ := Bool.and_eq_true_iff.mp hend
  rw [unread, h.seenEof heof, List.isEmpty_iff.mp hbuffer, List.append_nil]

theorem atEnd_eq_feof (hunread : unread s = []) : s.atEnd = s.feof := by
  rw [Stream.atEnd, (List.append_eq_nil_iff.mp hunread).1]
  rfl

theorem Mirrors.unread_eq_nil (h : Mirrors s p) (hend : s.atEnd = true) : p.unread = [] := by
  rw [← h.unread]
  exact h.reading.unread_eq_nil hend

theorem Mirrors.atEnd_of_tried (h : Mirrors s p) (ht : p.tried = true) : s.atEnd = true := by
  obtain ⟨heof, hunread⟩ := h.tried ht
  rw [atEnd_eq_feof (h.unread.trans hunread), heof]

/-- Once the end has been seen, it stays so. -/
theorem feof_readFD' {N : Nat} {C : List Char} (heof : s.feof = true) (h : readFD' noIo s N = .ok (C, s')) :
    s'.feof = true := by
  rw [readFD'] at h
  split at h
  · cases h
  · split at h
    · cases h
      exact heof
    · rw [dif_pos (.inl heof)] at h
      cases h
      exact heof

/-- **A read** does the same to both. -/
theorem Mirrors.read (h : Mirrors s p) (N : Nat) :
    ∃ s', readFD noIo s N = .ok (p.unread.take N, s') ∧ readFD' noIo s N = .ok (p.unread.take N, s') ∧
      Mirrors s' (p.read N) ∧ SameSettings s s' := by
  obtain ⟨s', hrun, hreading, hunread, hsame, hshort⟩ := @readFD'_eq noIo s h.reading N
  rw [h.unread] at hrun hunread hshort
  refine ⟨s', by rw [readFD_eq h.reading, hrun], hrun, ⟨hreading, hsame.fid.trans h.descriptor, hunread, ?_⟩, hsame⟩
  intro ht
  rcases Bool.or_eq_true_iff.mp ht with ht | ht
  · obtain ⟨heof, hnil⟩ := h.tried ht
    exact ⟨feof_readFD' heof hrun, by rw [Plain.read, hnil, List.drop_nil]⟩
  · have hlt := of_decide_eq_true ht
    exact ⟨hshort hlt, List.drop_eq_nil_of_le hlt.le⟩

/-- A byte is read and put back. -/
theorem Mirrors.unget {c : Char} {rest : List Char} (h : Mirrors s p) (hp : p.unread = c :: rest)
    (h' : Mirrors s' (p.read 1)) : Mirrors (unget s' [c]) p := by
  refine ⟨reading_unget h'.reading [c], h'.descriptor, ?_, fun ht => ?_⟩
  · rw [unread_unget, h'.unread, Plain.read, hp]
    rfl
  · rw [(h.tried ht).2] at hp
    cases hp

/-- At the end there is nothing to put back. -/
theorem Mirrors.unget_nil (h : Mirrors s p) : Mirrors (CSemantics.unget s []) p :=
  ⟨reading_unget h.reading [], h.descriptor, by rw [unread_unget, h.unread]; rfl, h.tried⟩

end Mirror

/-! ## Scanning -/

/-- What a relation of the two needs to hold at the end of a call if it held at its start. -/
structure Kept (noIo : Bool) (I : Stream → Plain → Prop) : Prop where
  read : ∀ {s s' : Stream} {p : Plain} {N : Nat} {C : List Char},
    Mirrors s p → I s p → readFD' noIo s N = .ok (C, s') → I s' (p.read N)
  putBack : ∀ {s s' : Stream} {p : Plain} {c : Char} {rest : List Char},
    Mirrors s p → I s p → p.unread = c :: rest → readFD' noIo s 1 = .ok ([c], s') → I (unget s' [c]) p
  ungetNil : ∀ {s : Stream} {p : Plain}, I s p → I (unget s []) p
  tried : ∀ {s : Stream} {p : Plain}, I s p → I s { p with tried := true }

section Scan

variable {noIo : Bool} {s : Stream} {p : Plain} {I : Stream → Plain → Prop}

theorem Plain.read_one (c : Char) (rest : List Char) (tried : Bool) :
    (⟨c :: rest, tried⟩ : Plain).read 1 = ⟨rest, tried⟩ := by
  simp [Plain.read]

theorem Plain.read_nil (tried : Bool) : (⟨[], tried⟩ : Plain).read 1 = ⟨[], true⟩ := by simp [Plain.read]

/-- What `fscanf'` returns for the one directive. -/
def scanned (item : List Char) (p : Plain) : Int := if item ≠ [] then 1 else if p.unread = [] then eof else 0

/-- A round at the end of the file is the last one. -/
theorem fscanf'_atEnd (D : ScanList) (width fuel : Nat) {item : List Char} (hend : s.atEnd = true) :
    fscanf' noIo D width (fuel + 1) s item = .ok (scanned item ⟨[], true⟩, item, s) := by
  rw [fscanf', if_pos (.inl hend)]
  by_cases hitem : item = []
  · rw [if_pos hitem, hitem]
    rfl
  · rw [if_neg hitem, scanned, if_pos hitem]

/-- **Scanning** takes the same bytes from both.  The induction is on the width that is left. -/
theorem scan_mirrors (hI : Kept noIo I) (D : ScanList) {width : Nat} (hwidth : width ≠ 0) (w : Nat) :
    ∀ {s : Stream} {p : Plain} {item : List Char} {fuel : Nat}, Mirrors s p → I s p → item.length + w = width →
      w + 2 ≤ fuel →
      ∃ s', fscanf' noIo D width fuel s item =
          .ok (scanned (item ++ (p.scan D w).1) (p.scan D w).2, item ++ (p.scan D w).1, s') ∧
        Mirrors s' (p.scan D w).2 ∧ I s' (p.scan D w).2 := by
  induction w with
  | zero =>
    intro s p item fuel h hi hlen hfuel
    obtain ⟨fuel, rfl⟩ := Nat.exists_eq_succ_of_ne_zero (show fuel ≠ 0 by omega)
    have hitem : item ≠ [] := by
      rintro rfl
      exact hwidth (by simpa using hlen.symm)
    refine ⟨s, ?_, h, hi⟩
    rw [fscanf', if_pos (.inr (by omega)), if_neg hitem, Plain.scan, List.append_nil, scanned, if_pos hitem]
  | succ w ih =>
    intro s p item fuel h hi hlen hfuel
    obtain ⟨fuel, rfl⟩ := Nat.exists_eq_succ_of_ne_zero (show fuel ≠ 0 by omega)
    obtain ⟨u, tried⟩ := p
    by_cases hend : s.atEnd = true
    · -- nothing is left to scan
      obtain rfl : u = [] := h.unread_eq_nil hend
      refine ⟨s, ?_, ⟨h.reading, h.descriptor, h.unread, fun _ => ?_⟩, hI.tried hi⟩
      · rw [fscanf'_atEnd D width fuel hend, Plain.scan, List.append_nil]
      · exact ⟨(Bool.and_eq_true_iff.mp hend).2, rfl⟩
    · obtain ⟨s₁, hrun, hrun', h₁, -⟩ := h.read 1
      have hgo : ¬(s.atEnd = true ∨ item.length = width) := by
        rintro (hat | hat)
        · exact hend hat
        · omega
      have hstep : fscanf' noIo D width (fuel + 1) s item = (if D.inScanSet (u.take 1) then
            fscanf' noIo D width fuel s₁ (item ++ u.take 1)
          else if item ≠ [] then .ok (1, item, unget s₁ (u.take 1))
          else .ok (if u.take 1 = [] then eof else 0, [], unget s₁ (u.take 1))) := by
        rw [fscanf', if_neg hgo, hrun]
        rfl
      rw [hstep]
      have hi₁ := hI.read h hi hrun'
      cases u with
      | nil =>
        rw [Plain.read_nil] at h₁ hi₁
        rw [Plain.scan, List.append_nil, List.take_nil]
        by_cases hset : D.inScanSet [] = true
        · obtain ⟨fuel, rfl⟩ := Nat.exists_eq_succ_of_ne_zero (show fuel ≠ 0 by omega)
          refine ⟨s₁, ?_, h₁, hi₁⟩
          rw [if_pos hset, List.append_nil, fscanf'_atEnd D width fuel (h₁.atEnd_of_tried rfl)]
        · refine ⟨unget s₁ [], ?_, h₁.unget_nil, hI.ungetNil hi₁⟩
          rw [if_neg hset]
          by_cases hitem : item = []
          · rw [if_neg (not_not_intro hitem), hitem]
            rfl
          · rw [if_pos hitem, scanned, if_pos hitem]
      | cons c rest =>
        have htake : (c :: rest).take 1 = [c] := rfl
        rw [htake] at hrun' ⊢
        by_cases hset : D.inScanSet [c] = true
        · rw [Plain.read_one] at h₁ hi₁
          obtain ⟨s', hscan, h', hi'⟩ := @ih s₁ ⟨rest, tried⟩ (item ++ [c]) fuel h₁ hi₁
            (by rw [List.length_append, List.length_singleton]; omega) (by omega)
          rw [if_pos hset, Plain.scan, if_pos hset]
          rw [List.append_assoc] at hscan
          exact ⟨s', hscan, h', hi'⟩
        · refine ⟨unget s₁ [c], ?_, ?_, ?_⟩
          · rw [if_neg hset, Plain.scan, if_neg hset, List.append_nil]
            by_cases hitem : item = []
            · rw [if_neg (not_not_intro hitem), hitem]
              rfl
            · rw [if_pos hitem, scanned, if_pos hitem]
          · rw [Plain.scan, if_neg hset]
            exact h.unget rfl h₁
          · rw [Plain.scan, if_neg hset]
            exact hI.putBack h hi rfl hrun'

theorem fscanf_mirrors (hI : Kept noIo I) (D : ScanList) {width : Nat} (hwidth : width ≠ 0) (h : Mirrors s p)
    (hi : I s p) :
    ∃ s', fscanf noIo s D width = .ok (scanned (p.scan D width).1 (p.scan D width).2, (p.scan D width).1, s') ∧
      Mirrors s' (p.scan D width).2 ∧ I s' (p.scan D width).2 := by
  have hscan := @scan_mirrors noIo I hI D width hwidth width s p [] (width + 2) h hi (Nat.zero_add _) le_rfl
  rw [List.nil_append] at hscan
  exact hscan

theorem fgetsNewline_mirrors (hI : Kept noIo I) (h : Mirrors s p) (hi : I s p) (n : Int) (S : List Char) :
    ∃ s', fgetsNewline noIo s n S = .ok ((p.fgetsNewline n S).1, s') ∧ Mirrors s' (p.fgetsNewline n S).2 ∧
      I s' (p.fgetsNewline n S).2 := by
  unfold fgetsNewline Plain.fgetsNewline
  split
  · exact ⟨s, rfl, h, hi⟩
  · obtain ⟨s', hrun, h', hi'⟩ := fscanf_mirrors hI newline Nat.one_ne_zero h hi
    exact ⟨s', by rw [hrun]; rfl, h', hi'⟩

theorem fgets_mirrors (hI : Kept noIo I) (h : Mirrors s p) (hi : I s p) (n : Int) :
    ∃ s', fgets noIo s n = .ok ((p.fgets n).1, s') ∧ Mirrors s' (p.fgets n).2 ∧ I s' (p.fgets n).2 := by
  unfold fgets Plain.fgets
  by_cases hlt : n < 1
  · rw [if_pos hlt, if_pos hlt]
    exact ⟨s, rfl, h, hi⟩
  · rw [if_neg hlt, if_neg hlt]
    by_cases hone : n = 1
    · rw [if_pos hone, if_pos hone]
      exact ⟨s, rfl, h, hi⟩
    · rw [if_neg hone, if_neg hone]
      have hwidth : (n - 1).toNat ≠ 0 := by omega
      obtain ⟨s₁, hrun, h₁, hi₁⟩ := fscanf_mirrors hI notNewline hwidth h hi
      rw [hrun]
      generalize (p.scan notNewline (n - 1).toNat).1 = item at hrun ⊢
      generalize (p.scan notNewline (n - 1).toNat).2 = p₁ at h₁ hi₁ hrun ⊢
      simp only [Eval.ok_bind]
      -- what the scan returns: 1 and the item, nothing at the end of the file, nothing before a newline
      by_cases hitem : item = []
      · subst hitem
        by_cases hunread : p₁.unread = []
        · have hV : scanned [] p₁ = eof := by simp [scanned, hunread]
          have hnull : (scanned [] p₁ = eof ∧ s₁.atEnd = false) ∨ (scanned [] p₁ ≠ 1 ∧ s₁.atEnd = true) := by
            rw [hV]
            cases s₁.atEnd with
            | true => exact .inr ⟨by decide, rfl⟩
            | false => exact .inl ⟨rfl, rfl⟩
          rw [if_pos hnull, if_pos ⟨rfl, hunread⟩]
          exact ⟨s₁, rfl, h₁, hi₁⟩
        · have hV : scanned [] p₁ = 0 := by simp [scanned, hunread]
          have hgo : ¬((scanned [] p₁ = eof ∧ s₁.atEnd = false) ∨ (scanned [] p₁ ≠ 1 ∧ s₁.atEnd = true)) := by
            rw [hV]
            rintro (⟨hV, -⟩ | ⟨-, hend⟩)
            · exact absurd hV (by decide)
            · exact hunread (h₁.unread_eq_nil hend)
          have hne : (0 : Int) ≠ 1 := by decide
          rw [if_neg hgo, hV, if_neg hne, if_neg fun hnil => hunread hnil.2]
          exact fgetsNewline_mirrors hI h₁ hi₁ n []
      · have hV : scanned item p₁ = 1 := by rw [scanned, if_pos hitem]
        have hgo : ¬((scanned item p₁ = eof ∧ s₁.atEnd = false) ∨ (scanned item p₁ ≠ 1 ∧ s₁.atEnd = true)) := by
          rw [hV]
          rintro (⟨hV, -⟩ | ⟨hV, -⟩)
          · exact absurd hV (by decide)
          · exact hV rfl
        rw [if_neg hgo, hV, if_pos rfl, if_neg fun hnil => hitem hnil.1]
        exact fgetsNewline_mirrors hI h₁ hi₁ n (getString item)

/-! ## Sequences of calls -/

/-- **One call** has the same result on both, if `feof` has. -/
theorem step_mirrors (hI : Kept noIo I) (h : Mirrors s p) (hi : I s p) (ended : Bool) (op : InputOp)
    (hfeof : op = .feof → s.atEnd = ended) :
    (∃ r p' s', p.step ended op = .ok (r, p') ∧ inputStep noIo s op = .ok (r, s') ∧ Mirrors s' p' ∧ I s' p') ∨
      ∃ e, p.step ended op = .error e ∧ inputStep noIo s op = .error e := by
  cases op with
  | fgetc =>
    obtain ⟨s', hrun, hrun', h', -⟩ := h.read 1
    refine .inl ⟨_, _, s', rfl, ?_, h', hI.read h hi hrun'⟩
    rw [inputStep, fgetc, hrun]
    cases p.unread <;> rfl
  | fgets n =>
    obtain ⟨s', hrun, h', hi'⟩ := fgets_mirrors hI h hi n
    refine .inl ⟨_, _, s', rfl, ?_, h', hi'⟩
    rw [inputStep, hrun]
    rfl
  | fread size nmemb =>
    obtain ⟨s', hrun, hrun', h', -⟩ := h.read (size * nmemb)
    rw [inputStep, fread, hrun, Plain.step]
    by_cases hsize : size = 0
    · rw [if_pos hsize]
      refine .inr ⟨.stuck, rfl, ?_⟩
      simp only [Eval.ok_bind, if_pos hsize]
      rfl
    · rw [if_neg hsize]
      refine .inl ⟨_, _, s', rfl, ?_, h', hI.read h hi hrun'⟩
      simp only [Eval.ok_bind, if_neg hsize]
      rfl
  | feof =>
    refine .inl ⟨_, p, s, rfl, ?_, h, hi⟩
    rw [inputStep, feof, hfeof rfl]

/-- Where a call leads does not depend on what `feof` gives. -/
theorem Plain.step_next (ended ended' : Bool) (op : InputOp) :
    (p.step ended op).map Prod.snd = (p.step ended' op).map Prod.snd := by
  cases op <;> rfl

/-- **A sequence of calls** has the same results on both, if `feof` agrees wherever it is asked. -/
theorem run_mirrors (hI : Kept noIo I) {bad ended : Plain → Bool}
    (hended : ∀ {s p}, Mirrors s p → I s p → bad p = false → s.atEnd = ended p) (ops : List InputOp) :
    ∀ {s : Stream} {p : Plain}, Mirrors s p → I s p → p.NoFeof bad ops → runInput noIo s ops = p.run ended ops := by
  induction ops with
  | nil => exact fun _ _ _ => rfl
  | cons op ops ih =>
    intro s p h hi hno
    obtain ⟨hbad, hno⟩ := hno
    have hnext := p.step_next (ended p) false op
    rcases step_mirrors hI h hi (ended p) op fun hop => hended h hi (hbad hop) with
      ⟨r, p', s', hplain, hstream, h', hi'⟩ | ⟨e, hplain, hstream⟩
    · rw [hplain] at hnext
      have hno' : p'.NoFeof bad ops := by
        cases hstep : p.step false op with
        | error e => rw [hstep] at hnext; cases hnext
        | ok q =>
          obtain ⟨r', q⟩ := q
          rw [hstep] at hnext hno
          obtain rfl : p' = q := Except.ok.inj hnext
          exact hno
      rw [runInput, Plain.run, hplain, hstream]
      simp only
      rw [ih h' hi' hno']
    · rw [runInput, Plain.run, hplain, hstream]

theorem Plain.noFeof_of_forall {bad : Plain → Bool} (hbad : ∀ p, bad p = false) (ops : List InputOp) : ∀ p : Plain,
    p.NoFeof bad ops := by
  induction ops with
  | nil => exact fun _ => trivial
  | cons op ops ih =>
    intro p
    refine ⟨fun _ => hbad p, ?_⟩
    split
    · exact ih _
    · trivial

/-- Two answers of `feof` give the same results, iff they agree wherever it is asked. -/
theorem Plain.run_eq_iff (ended ended' : Plain → Bool) (ops : List InputOp) : ∀ p : Plain,
    p.run ended ops = p.run ended' ops ↔ p.NoFeof (fun p => ended p != ended' p) ops := by
  induction ops with
  | nil => exact fun p => ⟨fun _ => trivial, fun _ => rfl⟩
  | cons op ops ih =>
    intro p
    have hnext := p.step_next (ended p) false op
    have hnext' := p.step_next (ended' p) false op
    by_cases hop : op = .feof
    · subst hop
      rw [Plain.run, Plain.run, Plain.NoFeof]
      simp only [Plain.step, List.cons.injEq, Except.ok.injEq, InputResult.feof.injEq, ih p, forall_const]
      refine and_congr_left fun _ => ?_
      cases ended p <;> cases ended' p <;> simp
    · have hsame : p.step (ended p) op = p.step (ended' p) op ∧ p.step false op = p.step (ended' p) op := by
        cases op <;> first | exact ⟨rfl, rfl⟩ | exact absurd rfl hop
      rw [Plain.run, Plain.run, Plain.NoFeof, hsame.1, hsame.2]
      cases p.step (ended' p) op with
      | error e => exact ⟨fun _ => ⟨fun h => absurd h hop, trivial⟩, fun _ => rfl⟩
      | ok q =>
        simp only [List.cons.injEq, true_and, ih q.2]
        exact ⟨fun h => ⟨fun h' => absurd h' hop, h⟩, fun h => h.2⟩

end Scan

/-! ## The modes -/

section Modes

variable {noIo : Bool} {content C : List Char} {s s' : Stream} {p : Plain} {N : Nat}

/-- A read of nothing sees nothing. -/
theorem readFD'_zero (h : readFD' noIo s 0 = .ok (C, s')) : s' = took s 0 := by
  rw [readFD'] at h
  split at h
  · cases h
  · rw [if_pos (Nat.zero_le _)] at h
    cases h
    rfl

/-- A read that has to fill the buffer first. -/
theorem readFD'_fill (h : Reading s) (hfd : s.fid = .fd) (hlt : ¬N ≤ s.readBuffer.length) (heof : s.feof = false) :
    readFD' noIo s N = readFD' noIo (fillBuffer' s) N := by
  have hgo : ¬(s.feof = true ∨ s.ferror ≠ 0) := by
    rintro (hf | hne)
    · rw [heof] at hf
      cases hf
    · exact hne h.noError
  have hfill := @fillBuffer_eq noIo s h
  conv_lhs => rw [readFD', if_neg h.notOutput, if_neg hlt, dif_neg hgo]
  split
  · next hstr => cases hfd.symm.trans hstr
  · split
    · next e he => cases he.symm.trans hfill
    · next s₁ he =>
      cases he.symm.trans hfill
      rfl

/-- Unbuffered, a byte that is there is read and nothing else. -/
theorem fillBuffer'_noBuf (h : Reading s) (hmode : s.bufferMode = .noBuf) {c : Char} {rest : List Char}
    (hinput : s.input = c :: rest) : fillBuffer' s = { s with readBuffer := s.readBuffer ++ [c], input := rest } := by
  have hnext : s.nextByteEof = false := by
    cases hn : s.nextByteEof with
    | false => rfl
    | true =>
      rw [h.seenNext hn] at hinput
      cases hinput
  have hone : ¬fillsOn s.bufferMode s.bufferSize s.readBuffer c = true := by
    rw [hmode]
    exact Bool.false_ne_true
  rw [fillBuffer', if_neg (by rw [hnext]; exact Bool.false_ne_true), hinput, fillBufferFrom, if_neg hone]

/-- **Unbuffered**, a read that does not ask for more than there is does not see the end. -/
theorem feof_readFD'_noBuf (k : Nat) :
    ∀ {s : Stream}, Reading s → s.fid = .fd → s.bufferMode = .noBuf → s.feof = false →
    N ≤ (unread s).length → N = s.readBuffer.length + k → readFD' noIo s N = .ok (C, s') → s'.feof = false := by
  induction k with
  | zero =>
    intro s h hfd hmode heof hN hk hrun
    rw [readFD', if_neg h.notOutput, if_pos (by omega)] at hrun
    cases hrun
    exact heof
  | succ k ih =>
    intro s h hfd hmode heof hN hk hrun
    rw [readFD'_fill h hfd (by omega) heof] at hrun
    have hreading := reading_fillBuffer' h hfd
    cases hinput : s.input with
    | nil =>
      rw [unread, hinput, List.append_nil] at hN
      omega
    | cons c rest =>
      have hfill := fillBuffer'_noBuf h hmode hinput
      rw [hfill] at hreading hrun
      obtain ⟨hreading, hunread, -⟩ := hreading
      refine ih hreading hfd hmode heof (by rw [hunread]; exact hN) ?_ hrun
      rw [hk, List.length_append, List.length_singleton]
      omega

/-- A buffer larger than what there is takes all of it, and sees the end. -/
theorem feof_fillBufferFrom (l : List Char) : ∀ {s : Stream}, s.bufferMode = .fullBuf →
    ((s.readBuffer.length + l.length : Nat) : Int) < s.bufferSize → (fillBufferFrom s l).feof = true := by
  induction l with
  | nil => exact fun _ _ => rfl
  | cons c rest ih =>
    intro s hmode hsize
    rw [List.length_cons] at hsize
    have hon : fillsOn s.bufferMode s.bufferSize s.readBuffer c = true := by
      rw [hmode]
      exact decide_eq_true (by omega)
    rw [fillBufferFrom, if_pos hon]
    refine ih hmode ?_
    rw [List.length_append, List.length_singleton]
    refine lt_of_eq_of_lt ?_ hsize
    omega

/-- **With such a buffer** any read sees the end. -/
theorem feof_readFD'_whole (h : Reading s) (hfd : s.fid = .fd) (hmode : s.bufferMode = .fullBuf)
    (hsize : (s.input.length : Int) < s.bufferSize) (hbuffer : s.readBuffer = []) (hN : N ≠ 0)
    (hrun : readFD' noIo s N = .ok (C, s')) : s'.feof = true := by
  cases heof : s.feof with
  | true => exact feof_readFD' heof hrun
  | false =>
    have hlt : ¬N ≤ s.readBuffer.length := by
      rw [hbuffer]
      exact fun hle => hN (Nat.le_zero.mp hle)
    rw [readFD'_fill h hfd hlt heof] at hrun
    refine feof_readFD' ?_ hrun
    unfold fillBuffer'
    split
    · rfl
    · exact feof_fillBufferFrom s.input hmode (by rw [hbuffer, List.length_nil, Nat.zero_add]; exact hsize)

/-- Of an empty file, only a read that asks for something sees the end. -/
def EmptySeen (content : List Char) (s : Stream) (p : Plain) : Prop :=
  content = [] → p.unread = [] ∧ (s.feof = true → p.tried = true)

/-- Unbuffered, the end is seen by a read that asks for more. -/
def Unbuffered (s : Stream) (p : Plain) : Prop := s.bufferMode = .noBuf ∧ (s.feof = true → p.tried = true)

/-- With a buffer for the whole file, the end is seen by the first read. -/
structure Whole (content : List Char) (s : Stream) (p : Plain) : Prop where
  empty : EmptySeen content s p
  mode : s.bufferMode = .fullBuf
  size : (content.length : Int) < s.bufferSize
  seen : s.feof = true ∨ s.readBuffer = [] ∧ s.input = content

/-- The stream after a read has the settings it had. -/
theorem Mirrors.same_settings (h : Mirrors s p) (hrun : readFD' noIo s N = .ok (C, s')) : SameSettings s s' := by
  obtain ⟨s₁, -, hrun₁, -, hsame⟩ := @Mirrors.read noIo s p h N
  rw [hrun] at hrun₁
  cases hrun₁
  exact hsame

theorem kept_emptySeen (noIo : Bool) (content : List Char) : Kept noIo (EmptySeen content) where
  read := by
    intro s s' p N C h hi hrun hempty
    obtain ⟨hnil, hseen⟩ := hi hempty
    refine ⟨by rw [Plain.read, hnil, List.drop_nil], fun heof => ?_⟩
    cases N with
    | zero =>
      rw [readFD'_zero hrun] at heof
      rw [Plain.read, hseen heof]
      rfl
    | succ N => simp [Plain.read, hnil]
  putBack := by
    intro s s' p c rest h hi hp _ hempty
    rw [(hi hempty).1] at hp
    cases hp
  ungetNil := fun hi => hi
  tried := fun hi hempty => ⟨(hi hempty).1, fun _ => rfl⟩

theorem kept_unbuffered (noIo : Bool) : Kept noIo Unbuffered := by
  have hread : ∀ {s s' : Stream} {p : Plain} {N : Nat} {C : List Char}, Mirrors s p → Unbuffered s p →
      readFD' noIo s N = .ok (C, s') → Unbuffered s' (p.read N) := by
    intro s s' p N C h hi hrun
    refine ⟨(h.same_settings hrun).bufferMode.trans hi.1, fun heof => ?_⟩
    by_contra htried
    rw [Plain.read, Bool.not_eq_true, Bool.or_eq_false_iff, decide_eq_false_iff_not, not_lt] at htried
    have hfalse : s.feof = false := by
      cases hf : s.feof with
      | false => rfl
      | true => exact absurd (hi.2 hf) (by rw [htried.1]; exact Bool.false_ne_true)
    have hN : N ≤ (unread s).length := by
      rw [h.unread]
      exact htried.2
    have hsame : s'.feof = false := by
      by_cases hle : N ≤ s.readBuffer.length
      · rw [readFD', if_neg h.reading.notOutput, if_pos hle] at hrun
        cases hrun
        exact hfalse
      · exact feof_readFD'_noBuf (N - s.readBuffer.length) h.reading h.descriptor hi.1 hfalse hN (by omega) hrun
    rw [hsame] at heof
    cases heof
  refine ⟨hread, ?_, fun hi => hi, fun hi => ⟨hi.1, fun _ => rfl⟩⟩
  intro s s' p c rest h hi hp hrun
  obtain ⟨hmode, hseen⟩ := hread h hi hrun
  refine ⟨hmode, fun heof => ?_⟩
  simpa [Plain.read, hp] using hseen heof

theorem kept_whole (noIo : Bool) (content : List Char) : Kept noIo (Whole content) := by
  have hseen : ∀ {s s' : Stream} {p : Plain} {N : Nat} {C : List Char}, Mirrors s p → Whole content s p → N ≠ 0 →
      readFD' noIo s N = .ok (C, s') → s'.feof = true := by
    intro s s' p N C h hi hN hrun
    rcases hi.seen with heof | ⟨hbuffer, hinput⟩
    · exact feof_readFD' heof hrun
    · exact feof_readFD'_whole h.reading h.descriptor hi.mode (by rw [hinput]; exact hi.size) hbuffer hN hrun
  refine ⟨?_, ?_, fun hi => ⟨hi.empty, hi.mode, hi.size, ?_⟩, fun hi => ⟨?_, hi.mode, hi.size, hi.seen⟩⟩
  · intro s s' p N C h hi hrun
    have hsame := h.same_settings hrun
    refine ⟨(kept_emptySeen noIo content).read h hi.empty hrun, hsame.bufferMode.trans hi.mode,
      by rw [hsame.bufferSize]; exact hi.size, ?_⟩
    cases N with
    | zero =>
      rw [readFD'_zero hrun]
      exact hi.seen.imp id fun hfresh => ⟨by rw [took, hfresh.1]; rfl, hfresh.2⟩
    | succ N => exact .inl (hseen h hi (Nat.succ_ne_zero N) hrun)
  · intro s s' p c rest h hi hp hrun
    have hsame := h.same_settings hrun
    exact ⟨(kept_emptySeen noIo content).putBack h hi.empty hp hrun, hsame.bufferMode.trans hi.mode,
      by rw [show (unget s' [c]).bufferSize = s'.bufferSize from rfl, hsame.bufferSize]; exact hi.size,
      .inl (show s'.feof = true from hseen h hi Nat.one_ne_zero hrun)⟩
  · exact hi.seen
  · exact (kept_emptySeen noIo content).tried hi.empty

/-! ## A file that is read -/

theorem mirrors_openInput (mode : BufMode) (size : Int) (content : List Char) :
    Mirrors (openInput mode size content) ⟨content, false⟩ where
  reading := ⟨(fun h => by cases h), rfl, rfl, rfl, (fun h => by cases h), (fun h => by cases h), (fun h => by cases h)⟩
  descriptor := rfl
  unread := rfl
  tried := fun h => by cases h

/-- **Whatever the mode**, where `feof` is not asked just behind the last byte. -/
theorem runInput_openInput (noIo : Bool) (mode : BufMode) (size : Int) (content : List Char) (ops : List InputOp)
    (hno : (⟨content, false⟩ : Plain).NoFeof (Plain.behindLast content) ops) :
    runInput noIo (openInput mode size content) ops = Plain.run Plain.tried ⟨content, false⟩ ops := by
  refine run_mirrors (kept_emptySeen noIo content) (fun {s p} h hi hbad => ?_) ops (mirrors_openInput mode size content)
    (fun hempty => ⟨hempty, fun heof => by cases heof⟩) hno
  cases ht : p.tried with
  | true => exact h.atEnd_of_tried ht
  | false =>
    cases hend : s.atEnd with
    | false => rfl
    | true =>
      have hunread := h.unread_eq_nil hend
      have hempty : content = [] := by simpa [Plain.behindLast, hunread, ht] using hbad
      rw [← (hi hempty).2 (Bool.and_eq_true_iff.mp hend).2, ht]

/-- **Unbuffered**, `feof` says whether a read has asked for more. -/
theorem runInput_noBuf (noIo : Bool) (size : Int) (content : List Char) (ops : List InputOp) :
    runInput noIo (openInput .noBuf size content) ops = Plain.run Plain.tried ⟨content, false⟩ ops := by
  refine run_mirrors (kept_unbuffered noIo) (fun {s p} h hi _ => ?_) ops (mirrors_openInput .noBuf size content)
    ⟨rfl, fun heof => by cases heof⟩ (Plain.noFeof_of_forall (fun _ => rfl) ops _)
  cases ht : p.tried with
  | true => exact h.atEnd_of_tried ht
  | false =>
    cases hend : s.atEnd with
    | false => rfl
    | true => rw [← hi.2 (Bool.and_eq_true_iff.mp hend).2, ht]

/-- **With a buffer for the whole file**, `feof` looks ahead. -/
theorem runInput_whole (noIo : Bool) (content : List Char) (ops : List InputOp) :
    runInput noIo (openInput .fullBuf (content.length + 1) content) ops =
      Plain.run (fun p => p.tried || p.behindLast content) ⟨content, false⟩ ops := by
  have hopen : Whole content (openInput .fullBuf (content.length + 1) content) ⟨content, false⟩ :=
    ⟨fun hempty => ⟨hempty, fun heof => by cases heof⟩, rfl, Int.lt_succ _, .inr ⟨rfl, rfl⟩⟩
  refine run_mirrors (kept_whole noIo content) (fun {s p} h hi _ => ?_) ops (mirrors_openInput _ _ content) hopen
    (Plain.noFeof_of_forall (fun _ => rfl) ops _)
  cases ht : p.tried with
  | true => exact h.atEnd_of_tried ht
  | false =>
    rw [Bool.false_or]
    cases hend : s.atEnd with
    | true =>
      have hunread := h.unread_eq_nil hend
      have hcontent : content ≠ [] := by
        intro hempty
        have := (hi.empty hempty).2 (Bool.and_eq_true_iff.mp hend).2
        rw [ht] at this
        cases this
      simp [Plain.behindLast, hunread, ht, hcontent]
    | false =>
      -- bytes that are left, or nothing has been read yet
      cases hbehind : p.behindLast content with
      | false => rfl
      | true =>
        simp only [Plain.behindLast, ht, Bool.not_false, Bool.and_true, Bool.and_eq_true, Bool.not_eq_true',
          List.isEmpty_iff, List.isEmpty_eq_false_iff] at hbehind
        obtain ⟨hcontent, hnil⟩ := hbehind
        have hunread := h.unread
        rw [hnil, CSemantics.unread, List.append_eq_nil_iff] at hunread
        rcases hi.seen with heof | ⟨-, hinput⟩
        · rw [Stream.atEnd, hunread.1, heof] at hend
          cases hend
        · exact absurd (hinput.symm.trans hunread.2) hcontent

end Modes

/-! ## Whether the mode shows -/

/-- **The buffer is transparent** for these calls: all modes and sizes give the same results, and the results are
    those of a stream in which a read takes the next bytes, as many as there are. -/
structure InputTransparent (noIo : Bool) (content : List Char) (ops : List InputOp) : Prop where
  same : ∀ mode size mode' size',
    runInput noIo (openInput mode size content) ops = runInput noIo (openInput mode' size' content) ops
  bytes : ∀ mode size, runInput noIo (openInput mode size content) ops = Plain.run Plain.tried ⟨content, false⟩ ops

/-- **The mode shows** exactly if `feof` is asked just behind the last byte of a file that is not empty. -/
theorem input_buffering_iff (noIo : Bool) (content : List Char) (ops : List InputOp) :
    InputTransparent noIo content ops ↔ (⟨content, false⟩ : Plain).NoFeof (Plain.behindLast content) ops := by
  constructor
  · intro h
    have heq := h.bytes .fullBuf (content.length + 1)
    rw [runInput_whole, Plain.run_eq_iff] at heq
    have hbad : (fun p : Plain => (p.tried || p.behindLast content) != p.tried) = Plain.behindLast content := by
      funext p
      cases ht : p.tried <;> simp [Plain.behindLast, ht]
    rwa [hbad] at heq
  · intro hno
    have hbytes := fun mode size => runInput_openInput noIo mode size content ops hno
    exact ⟨fun mode size mode' size' => (hbytes mode size).trans (hbytes mode' size').symm, hbytes⟩

/-- A file of one byte: unbuffered it is not at its end behind that byte, with a buffer of two it is. -/
theorem feof_shows_buffer : ¬InputTransparent false ['a'] [.fgetc, .feof] := by
  intro h
  have heq := h.same .noBuf 1 .fullBuf (['a'].length + 1)
  rw [runInput_noBuf, runInput_whole] at heq
  simp [Plain.run, Plain.step, Plain.read, Plain.behindLast] at heq

end CSemantics
