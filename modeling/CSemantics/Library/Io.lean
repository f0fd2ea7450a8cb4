/-
  Streams: the `<file>` cell and the operations on it.

  Output is collected in `<write-buffer>` and sent to the descriptor byte by byte when the buffer is
  flushed; the buffering mode only decides WHEN.  Input is taken from `<read-buffer>`, which is filled
  from the descriptor: up to a newline, up to the buffer size, or one byte, again by the mode.

  A stream is modelled with what it exchanges with its descriptor: `sent` are the bytes given to
  `#putc`, `input` the bytes that `#getc` has still to deliver.  Strings are lists of characters, and
  a character is a number from 0 to 255 (`chrChar` has no value for any other).

  `flushAll` is modelled for the stream itself; what it does to the other streams is their `flush`.
-/
import CSemantics.Common

namespace CSemantics

/-! ## Characters -/

/-- `chrChar`, defined for 0 to 255. -/
def chrChar (n : Int) : Eval Char := if 0 ≤ n ∧ n < 256 then .ok (Char.ofNat n.toNat) else .error .stuck

def ordChar (c : Char) : Int := c.toNat

/-! ## The `<file>` cell -/

inductive BufMode
  | fullBuf | lineBuf | noBuf
  deriving DecidableEq, Repr

inductive LastFileOp
  | noLastOp | outputOp | flushOp | seekOp | inputOp
  deriving DecidableEq, Repr

/-- A descriptor, or the string that `sscanf` reads from. -/
inductive FauxFD
  | fd | string
  deriving DecidableEq, Repr

structure File where
  fid : FauxFD
  mode : String
  pos : Int
  /-- `<next-byte>` is -1.  A byte is in the cell only while `fillBuffer'` works on it. -/
  nextByteEof : Bool
  readBuffer : List Char
  writeBuffer : List Char
  bufferMode : BufMode
  bufferSize : Int
  sending : List (List Char)
  done : List Char
  feof : Bool
  ferror : Int
  lastOp : LastFileOp
  deriving DecidableEq, Repr

/-- A file with its descriptor: what `#getc` will deliver and what `#putc` was given. -/
structure Stream extends File where
  input : List Char
  sent : List Char
  deriving DecidableEq, Repr

/-- The cells of a file that has just been opened. -/
def newFile (fid : FauxFD) (mode : String) : File where
  fid := fid
  mode := mode
  pos := 0
  nextByteEof := false
  readBuffer := []
  writeBuffer := []
  bufferMode := .fullBuf
  bufferSize := 8192
  sending := []
  done := []
  feof := false
  ferror := 0
  lastOp := .noLastOp

def isReadWritable (mode : String) : Bool :=
  mode ∈ ["r+", "w+", "w+x", "a+", "r+b", "rb+", "w+b", "wb+", "w+bx", "wb+x", "a+b", "ab+"]

def isReadable (mode : String) : Bool := mode ∈ ["r", "rb"] || isReadWritable mode

def isWritable (mode : String) : Bool :=
  mode ∈ ["w", "wx", "a", "wb", "wbx", "ab"] || isReadWritable mode

/-! ## Flushing -/

section Output

-- the option `NoIO()`: nothing is sent
variable (noIo : Bool)

def sendString (s : Stream) : List Char → Stream
  | [] => s
  | c :: S => if noIo then s else sendString { s with sent := s.sent ++ [c] } S

/-- `sent(FD, S)` -/
def sentString (s : Stream) (S : List Char) : Eval Stream :=
  match s.sending with
  | S' :: rest => if S' = S then .ok { s with sending := rest, done := s.done ++ S } else .error .stuck
  | [] => .error .stuck

/-- `flush` has a rule for descriptors only. -/
def flush (s : Stream) : Eval Stream :=
  match s.fid with
  | .string => .error .stuck
  | .fd =>
    let S := s.writeBuffer
    sentString (sendString noIo { s with writeBuffer := [], sending := s.sending ++ [S] } S) S

def flushAll (s : Stream) : Eval Stream :=
  match s.fid with
  | .string => .ok s
  | .fd => flush noIo s

/-! ## Writing -/

def inputThenOutput : Stop :=
  UNDEF "IO1" "Stream input operation followed by an output operation without an intervening call to a file positioning function."

/-- `writeFD(FD, S)` -/
def writeFD (s : Stream) (S : List Char) : Eval Stream :=
  if s.lastOp = .inputOp ∧ (s.feof = true → s.readBuffer ≠ []) then .error inputThenOutput
  else
    let s' := { s with pos := s.pos + S.length, writeBuffer := s.writeBuffer ++ S, lastOp := .outputOp }
    match s.bufferMode with
    | .lineBuf => if '\n' ∈ S then flush noIo s' else .ok s'
    | .fullBuf => if ((s.writeBuffer ++ S).length : Int) < s.bufferSize then .ok s' else flush noIo s'
    | .noBuf => flush noIo s'

/-- `writeFD(FD, N)`; `%Int` has the sign of the dividend. -/
def writeFDInt (s : Stream) (N : Int) : Eval Stream := do
  writeFD noIo s [← chrChar (N.tmod 256)]

end Output

def setBuf (s : Stream) (mode : BufMode) (size : Int) : Stream :=
  { s with bufferMode := mode, bufferSize := size }

/-! ## Reading -/

/-- A byte has been put into the buffer: does `fillBuffer'` take another one? -/
def fillsOn (mode : BufMode) (size : Int) (buffer : List Char) (c : Char) : Bool :=
  match mode with
  | .lineBuf => c != '\n'
  | .fullBuf => decide ((buffer.length : Int) + 1 < size)
  | .noBuf => false

/-- `fillBuffer'`, given what `#getc` will deliver. -/
def fillBufferFrom (s : Stream) : List Char → Stream
  | [] => { s with input := [], nextByteEof := true, feof := true }
  | c :: rest =>
    let s' := { s with readBuffer := s.readBuffer ++ [c], input := rest }
    if fillsOn s.bufferMode s.bufferSize s.readBuffer c then fillBufferFrom s' rest else s'

/-- `fillBuffer'`: once -1 has been delivered, `#getc` is not asked again. -/
def fillBuffer' (s : Stream) : Stream :=
  if s.nextByteEof then { s with feof := true } else fillBufferFrom s s.input

def fillBuffer (noIo : Bool) (s : Stream) : Eval Stream :=
  if s.bufferMode = .lineBuf then (flushAll noIo s).map fillBuffer' else .ok (fillBuffer' s)

/-- What goes down while a read waits for more bytes. -/
def toFill (s : Stream) : Nat := s.input.length + if s.feof then 0 else 1

theorem toFill_fillBufferFrom_lt (s : Stream) (l : List Char) (hl : s.input = l) (heof : s.feof = false) :
    toFill (fillBufferFrom s l) < toFill s := by
  induction l generalizing s with
  | nil => simp [fillBufferFrom, toFill, heof]
  | cons c rest ih =>
    let s' := { s with readBuffer := s.readBuffer ++ [c], input := rest }
    have hstep : toFill s' < toFill s := by simp [toFill, s', hl]
    rw [fillBufferFrom]
    split
    · exact (ih s' rfl heof).trans hstep
    · exact hstep

theorem toFill_fillBuffer'_lt (s : Stream) (heof : s.feof = false) :
    toFill (fillBuffer' s) < toFill s := by
  unfold fillBuffer'
  split
  · simp [toFill, heof]
  · exact toFill_fillBufferFrom_lt s s.input rfl heof

theorem sendString_eq {noIo : Bool} (s : Stream) (S : List Char) :
    sendString noIo s S = { s with sent := s.sent ++ if noIo then [] else S } := by
  induction S generalizing s with
  | nil => simp [sendString]
  | cons c S ih =>
    cases noIo with
    | true => simp [sendString]
    | false => simp [sendString, ih]

theorem sentString_input {s s' : Stream} {S : List Char} (h : sentString s S = .ok s') :
    s'.input = s.input ∧ s'.feof = s.feof := by
  unfold sentString at h
  split at h
  · split at h
    · cases h
      exact ⟨rfl, rfl⟩
    · cases h
  · cases h

/-- A flush leaves the side of the input alone. -/
theorem flushAll_input {noIo : Bool} {s s' : Stream} (h : flushAll noIo s = .ok s') :
    s'.input = s.input ∧ s'.feof = s.feof := by
  unfold flushAll at h
  cases hfd : s.fid with
  | string =>
    rw [hfd] at h
    cases h
    exact ⟨rfl, rfl⟩
  | fd =>
    simp only [hfd, flush, sendString_eq] at h
    obtain ⟨hin, hfe⟩ := sentString_input h
    exact ⟨hin, hfe⟩

theorem toFill_fillBuffer_lt {noIo : Bool} {s s' : Stream} (h : fillBuffer noIo s = .ok s')
    (heof : s.feof = false) : toFill s' < toFill s := by
  unfold fillBuffer at h
  split at h
  · cases hf : flushAll noIo s with
    | error e => rw [hf] at h; cases h
    | ok s₁ =>
      rw [hf] at h
      cases h
      obtain ⟨hin, hfe⟩ := flushAll_input hf
      have hsame : toFill s₁ = toFill s := by rw [toFill, toFill, hin, hfe]
      rw [← hsame]
      exact toFill_fillBuffer'_lt s₁ (hfe.trans heof)
  · cases h
    exact toFill_fillBuffer'_lt s heof

def outputThenInput : Stop :=
  UNDEF "IO2" "Stream output operation followed by an input operation without an intervening call to fflush or a file positioning function."

/-- `n` bytes have been taken from the buffer. -/
def took (s : Stream) (n : Nat) : Stream :=
  { s with pos := s.pos + n, readBuffer := s.readBuffer.drop n, lastOp := .inputOp }

/-- `readFD'`: a string is at its end when it has no more bytes, a descriptor is asked for more. -/
def readFD' (noIo : Bool) (s : Stream) (N : Nat) : Eval (List Char × Stream) :=
  if s.lastOp = .outputOp then .error outputThenInput
  else if N ≤ s.readBuffer.length then .ok (s.readBuffer.take N, took s N)
  else if _h : s.feof = true ∨ s.ferror ≠ 0 then .ok (s.readBuffer, took s s.readBuffer.length)
  else
    match s.fid with
    | .string => .ok (s.readBuffer, { took s s.readBuffer.length with feof := true })
    | .fd =>
      match _hf : fillBuffer noIo s with
      | .error e => .error e
      | .ok s' => readFD' noIo s' N
  termination_by toFill s
  decreasing_by
    refine toFill_fillBuffer_lt _hf ?_
    simp only [not_or, Bool.not_eq_true] at _h
    exact _h.1

def readFD (noIo : Bool) (s : Stream) (N : Nat) : Eval (List Char × Stream) :=
  if s.bufferMode = .noBuf then flushAll noIo s >>= fun s' => readFD' noIo s' N else readFD' noIo s N

/-- `unget`; the empty string can be put back too. -/
def unget (s : Stream) (S : List Char) : Stream :=
  { s with pos := s.pos - 1, nextByteEof := false, readBuffer := S ++ s.readBuffer }

/-! ## What is sent -/

section Sent

variable {noIo : Bool} {s : Stream} {S : List Char}

/-- The state after a flush: the buffer is empty, its bytes are sent. -/
def flushed (noIo : Bool) (s : Stream) : Stream :=
  { s with
    writeBuffer := []
    done := s.done ++ s.writeBuffer
    sent := s.sent ++ if noIo then [] else s.writeBuffer }

/-- A descriptor that is not in the middle of sending can be flushed. -/
theorem flush_eq_ok (hfd : s.fid = .fd) (hsending : s.sending = []) :
    flush noIo s = .ok (flushed noIo s) := by
  unfold flush
  rw [hfd]
  simp [sendString_eq, sentString, hfd, hsending, flushed]

end Sent

/-! ## What is read -/

/-- The bytes that have not been read, whether or not they are in the buffer. -/
def unread (s : Stream) : List Char := s.readBuffer ++ s.input

/-- A stream that can be read.  Nothing waits to be written, and where the end has been seen the
    descriptor has nothing left. -/
structure Reading (s : Stream) : Prop where
  notOutput : s.lastOp ≠ .outputOp
  noError : s.ferror = 0
  idle : s.sending = []
  written : s.writeBuffer = []
  seenEof : s.feof = true → s.input = []
  seenNext : s.nextByteEof = true → s.input = []
  noDescriptor : s.fid = .string → s.input = []

/-- The settings of a file, which no read changes. -/
structure SameSettings (s s' : Stream) : Prop where
  fid : s'.fid = s.fid
  mode : s'.mode = s.mode
  bufferMode : s'.bufferMode = s.bufferMode
  bufferSize : s'.bufferSize = s.bufferSize

theorem SameSettings.refl (s : Stream) : SameSettings s s := ⟨rfl, rfl, rfl, rfl⟩

theorem SameSettings.trans {s s' s'' : Stream} (h : SameSettings s s') (h' : SameSettings s' s'') :
    SameSettings s s'' :=
  ⟨h'.fid.trans h.fid, h'.mode.trans h.mode, h'.bufferMode.trans h.bufferMode,
    h'.bufferSize.trans h.bufferSize⟩

section Read

variable {noIo : Bool} {s : Stream}

theorem flushAll_eq (h : Reading s) : flushAll noIo s = .ok s := by
  unfold flushAll
  cases hfd : s.fid with
  | string => rfl
  | fd =>
    rw [flush_eq_ok hfd h.idle, flushed]
    simp only [h.written, List.append_nil, ite_self]
    rw [← h.written]

/-- **What a fill does**: some more bytes are in the buffer, and where the end was seen they are all
    there are. -/
theorem fillBufferFrom_spec (s : Stream) (l : List Char) (hl : s.input = l) :
    ∃ k e, fillBufferFrom s l = { s with
        readBuffer := s.readBuffer ++ l.take k
        input := l.drop k
        nextByteEof := s.nextByteEof || e
        feof := s.feof || e } ∧ (e = true → l.length ≤ k) := by
  induction l generalizing s with
  | nil => exact ⟨0, true, by simp [fillBufferFrom], fun _ => Nat.le_refl 0⟩
  | cons c rest ih =>
    rw [fillBufferFrom]
    split
    · obtain ⟨k, e, heq, hle⟩ := ih { s with readBuffer := s.readBuffer ++ [c], input := rest } rfl
      refine ⟨k + 1, e, ?_, fun he => Nat.succ_le_succ (hle he)⟩
      rw [heq]
      simp
    · exact ⟨1, false, by simp, fun he => by cases he⟩

/-- A fill keeps the stream readable and what is unread. -/
theorem reading_fillBuffer' (h : Reading s) (hfd : s.fid = .fd) :
    Reading (fillBuffer' s) ∧ unread (fillBuffer' s) = unread s ∧
      SameSettings s (fillBuffer' s) := by
  unfold fillBuffer'
  split
  · next hnext =>
    exact ⟨⟨h.notOutput, h.noError, h.idle, h.written, fun _ => h.seenNext hnext, h.seenNext,
      h.noDescriptor⟩, rfl, ⟨rfl, rfl, rfl, rfl⟩⟩
  · next hnext =>
    obtain ⟨k, e, heq, hle⟩ := fillBufferFrom_spec s s.input rfl
    have hend : ∀ b : Bool, (b = true → s.input = []) → (b || e) = true → s.input.drop k = [] := by
      intro b hb hor
      rcases Bool.or_eq_true_iff.mp hor with hb' | he
      · rw [hb hb', List.drop_nil]
      · exact List.drop_eq_nil_of_le (hle he)
    rw [heq]
    refine ⟨⟨h.notOutput, h.noError, h.idle, h.written, hend _ h.seenEof, hend _ h.seenNext, ?_⟩, ?_,
      ⟨rfl, rfl, rfl, rfl⟩⟩
    · intro hstr
      cases hfd.symm.trans hstr
    · simp [unread, List.append_assoc]

theorem reading_took (h : Reading s) (n : Nat) : Reading (took s n) :=
  ⟨by simp [took], h.noError, h.idle, h.written, h.seenEof, h.seenNext, h.noDescriptor⟩

theorem unread_took {n : Nat} (hn : n ≤ s.readBuffer.length) : unread (took s n) = (unread s).drop n := by
  rw [unread, unread, List.drop_append_of_le_length hn]
  rfl

/-- A fill that was asked for, flushing or not. -/
theorem fillBuffer_eq (h : Reading s) : fillBuffer noIo s = .ok (fillBuffer' s) := by
  unfold fillBuffer
  rw [flushAll_eq h]
  split <;> rfl

/-- **A read of `N` bytes** gives the next `N` unread bytes, or all of them where there are fewer, and
    then the end has been seen. -/
theorem readFD'_eq (h : Reading s) (N : Nat) : ∃ s', readFD' noIo s N = .ok ((unread s).take N, s') ∧
    Reading s' ∧ unread s' = (unread s).drop N ∧ SameSettings s s' ∧
      ((unread s).length < N → s'.feof = true) := by
  induction s using readFD'.induct noIo N with
  | case1 s hout => exact absurd hout h.notOutput
  | case2 s hout hle =>
    rw [readFD', if_neg hout, if_pos hle]
    have hlen : s.readBuffer.length ≤ (unread s).length := by simp [unread]
    refine ⟨took s N, ?_, reading_took h N, unread_took hle, ⟨rfl, rfl, rfl, rfl⟩, fun hlt => absurd hlt (by omega)⟩
    rw [unread, List.take_append_of_le_length hle]
  | case3 s hout hle heof =>
    have hfeof : s.feof = true := heof.resolve_right fun hne => hne h.noError
    have hall : unread s = s.readBuffer := by rw [unread, h.seenEof hfeof, List.append_nil]
    have hlt : (unread s).length < N := by rw [hall]; omega
    rw [readFD', if_neg hout, if_neg hle, dif_pos heof]
    refine ⟨took s s.readBuffer.length, ?_, reading_took h _, ?_, ⟨rfl, rfl, rfl, rfl⟩, fun _ => hfeof⟩
    · rw [List.take_of_length_le (Nat.le_of_lt hlt), hall]
    · rw [unread_took (Nat.le_refl _), List.drop_eq_nil_of_le (Nat.le_of_lt hlt), hall, List.drop_length]
  | case4 s hout hle heof hstr =>
    have hall : unread s = s.readBuffer := by rw [unread, h.noDescriptor hstr, List.append_nil]
    have hlt : (unread s).length < N := by rw [hall]; omega
    rw [readFD', if_neg hout, if_neg hle, dif_neg heof, hstr]
    refine ⟨{ took s s.readBuffer.length with feof := true }, ?_, ?_, ?_, ⟨rfl, rfl, rfl, rfl⟩, fun _ => rfl⟩
    · rw [List.take_of_length_le (Nat.le_of_lt hlt), hall]
    · have ht := reading_took h s.readBuffer.length
      exact ⟨ht.notOutput, ht.noError, ht.idle, ht.written, fun _ => ht.noDescriptor hstr, ht.seenNext,
        ht.noDescriptor⟩
    · have htook := unread_took (s := s) (Nat.le_refl s.readBuffer.length)
      rw [List.drop_eq_nil_of_le (Nat.le_of_lt hlt)]
      rwa [hall, List.drop_length] at htook
  | case5 s hout hle heof hfd e hfill =>
    rw [fillBuffer_eq h] at hfill
    cases hfill
  | case6 s hout hle heof hfd s₁ hfill ih =>
    have hs₁ : fillBuffer' s = s₁ := by
      rw [fillBuffer_eq h] at hfill
      cases hfill
      rfl
    obtain ⟨hread, hunread, hsame⟩ := reading_fillBuffer' h hfd
    rw [hs₁] at hread hunread hsame
    obtain ⟨s', hrun, hread', hunread', hsame', hshort⟩ := ih hread
    refine ⟨s', ?_, hread', by rw [hunread', hunread], hsame.trans hsame', fun hlt => hshort (by rwa [hunread])⟩
    rw [readFD', if_neg hout, if_neg hle, dif_neg heof, hfd]
    simp only
    split
    · next e he => cases he.symm.trans hfill
    · next s₂ he =>
      cases he.symm.trans hfill
      rw [hrun, hunread]

/-- Without output to flush first, a read is the same in all modes. -/
theorem readFD_eq (h : Reading s) (N : Nat) : readFD noIo s N = readFD' noIo s N := by
  unfold readFD
  rw [flushAll_eq h]
  split <;> rfl

theorem reading_unget (h : Reading s) (S : List Char) : Reading (unget s S) :=
  ⟨h.notOutput, h.noError, h.idle, h.written, h.seenEof, (fun hn => by cases hn), h.noDescriptor⟩

theorem unread_unget (S : List Char) : unread (unget s S) = S ++ unread s := by
  simp [unread, unget]

end Read

end CSemantics
