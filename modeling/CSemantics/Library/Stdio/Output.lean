/-
  Output functions of `stdio.h` on a stream.

  Every output function ends in `writeFD`, which puts its bytes at the end of the write buffer and
  flushes it or not.  So the bytes sent and the bytes in the buffer, taken together, only ever GROW at
  the end, by the bytes of the call; changing the mode in mid-stream changes nothing about that.

      output_preserved_iff   nothing is lost or reordered, iff every call is accepted

  Two calls get stuck.  `fputc` converts its argument with `%Int 256`, which is negative for a
  negative number that is no multiple of 256, and there is no such character.  `fwrite` divides by the
  size of an element, which may be zero.

  The calls are given what they have read from memory already: the formatted text, the bytes of the
  array.  The `FILE` object itself is not modelled.
-/
import CSemantics.Library.Io

namespace CSemantics

/-! ## The calls -/

/-- `getErrno(#EBADF)` -/
def EBADF : Int := 9

def eof : Int := -1

def success : Int := 0

section Calls

variable (noIo : Bool) (s : Stream)

/-- A stream that is not open for writing. -/
def notWritable : Int × Stream := (eof, { s with ferror := EBADF })

def fputc (N : Int) : Eval (Int × Stream) :=
  if isWritable s.mode then do
    return (N, ← writeFDInt noIo s N)
  else .ok (notWritable s)

/-- `fprintf`, given the formatted text. -/
def fprintf (S : List Char) : Eval (Int × Stream) :=
  if isWritable s.mode then do
    return (S.length, ← writeFD noIo s S)
  else .ok (notWritable s)

/-- `fputs` is `fprintf` with the format `%s`. -/
def fputs (S : List Char) : Eval (Int × Stream) := fprintf noIo s S

/-- `puts` is `fprintf` with the format `%s\n`. -/
def puts (S : List Char) : Eval (Int × Stream) := fprintf noIo s (S ++ ['\n'])

/-- `fwrite`, given the bytes; `/Int` has no value for a size of 0. -/
def fwrite (S : List Char) (size : Nat) : Eval (Int × Stream) :=
  if isWritable s.mode then
    if size = 0 then .error .stuck
    else do
      return ((S.length / size : Nat), ← writeFD noIo s S)
  else .ok (notWritable s)

/-- `setvbuf` on the side of the stream. -/
def setvbuf (mode : BufMode) (size : Int) : Eval (Int × Stream) := .ok (success, setBuf s mode size)

def flushedInput : Stop :=
  UNDEF "STDIO7" "'fflush': called on an input stream or an input/output stream on which the most recent operation was input."

def fflush : Eval (Int × Stream) :=
  if isWritable s.mode ∧ s.lastOp ≠ .inputOp then do
    return (success, ← flush noIo { s with lastOp := .flushOp })
  else .error flushedInput

/-- `fclose`: the file as `close` finds it. -/
def fclose : Eval Stream := flush noIo s

end Calls

inductive OutputOp
  | fputc (N : Int)
  | fputs (S : List Char)
  | puts (S : List Char)
  | fprintf (S : List Char)
  | fwrite (S : List Char) (size : Nat)
  | setvbuf (mode : BufMode) (size : Int)
  | fflush
  deriving DecidableEq, Repr

def outputStep (noIo : Bool) (s : Stream) : OutputOp → Eval (Int × Stream)
  | .fputc N => fputc noIo s N
  | .fputs S => fputs noIo s S
  | .puts S => puts noIo s S
  | .fprintf S => fprintf noIo s S
  | .fwrite S size => fwrite noIo s S size
  | .setvbuf mode size => setvbuf s mode size
  | .fflush => fflush noIo s

/-- The calls one after the other; their results are not looked at. -/
def runOutput (noIo : Bool) : Stream → List OutputOp → Eval Stream
  | s, [] => .ok s
  | s, op :: ops => do
    let (_, s') ← outputStep noIo s op
    runOutput noIo s' ops

/-! ## What a call should put out -/

/-- The bytes of a call; an integer is converted to `unsigned char`. -/
def OutputOp.bytes : OutputOp → List Char
  | .fputc N => [Char.ofNat (N % 256).toNat]
  | .fputs S => S
  | .puts S => S ++ ['\n']
  | .fprintf S => S
  | .fwrite S _ => S
  | .setvbuf _ _ => []
  | .fflush => []

/-- The calls that are carried out. -/
def OutputOp.accepted : OutputOp → Prop
  | .fputc N => 0 ≤ N ∨ 256 ∣ N
  | .fwrite _ size => size ≠ 0
  | _ => True

/-- A stream that is open for writing and was not read since. -/
structure OutputStream extends Stream where
  descriptor : fid = .fd
  writable : isWritable mode = true
  notInput : lastOp ≠ .inputOp
  idle : sending = []

/-- The bytes that went out and the bytes that wait, before and after `bytes` are put out.  `<done>`
    has the record of what was sent; with `NoIO()` the descriptor itself gets nothing. -/
structure Delivers (noIo : Bool) (s s' : Stream) (bytes : List Char) : Prop where
  done : s'.done ++ s'.writeBuffer = s.done ++ s.writeBuffer ++ bytes
  sent : noIo = false → s'.sent ++ s'.writeBuffer = s.sent ++ s.writeBuffer ++ bytes

section Deliver

variable {noIo : Bool} {s s' s'' : Stream} {b b' : List Char}

theorem Delivers.refl (s : Stream) : Delivers noIo s s [] := ⟨by simp, fun _ => by simp⟩

theorem Delivers.trans (h : Delivers noIo s s' b) (h' : Delivers noIo s' s'' b') :
    Delivers noIo s s'' (b ++ b') where
  done := by rw [h'.done, h.done, List.append_assoc _ b]
  sent := fun hno => by rw [h'.sent hno, h.sent hno, List.append_assoc _ b]

/-- A flush moves bytes, it adds none. -/
theorem delivers_flushed (s : Stream) : Delivers noIo s (flushed noIo s) [] where
  done := by simp [flushed]
  sent := fun hno => by simp [flushed, hno]

end Deliver

/-! ## One call -/

section Step

variable {noIo : Bool}

/-- An output stream stays one when it is flushed. -/
def OutputStream.flushed (noIo : Bool) (o : OutputStream) : OutputStream where
  toStream := CSemantics.flushed noIo o.toStream
  descriptor := o.descriptor
  writable := o.writable
  notInput := o.notInput
  idle := o.idle

/-- `S` has been put into the write buffer. -/
def OutputStream.buffered (o : OutputStream) (S : List Char) : OutputStream where
  toStream :=
    { o.toStream with pos := o.pos + S.length, writeBuffer := o.writeBuffer ++ S, lastOp := .outputOp }
  descriptor := o.descriptor
  writable := o.writable
  notInput := by simp
  idle := o.idle

theorem OutputStream.flush_eq (o : OutputStream) :
    flush noIo o.toStream = .ok (o.flushed noIo).toStream := flush_eq_ok o.descriptor o.idle

theorem delivers_buffered (o : OutputStream) (S : List Char) :
    Delivers noIo o.toStream (o.buffered S).toStream S where
  done := by simp [OutputStream.buffered]
  sent := fun _ => by simp [OutputStream.buffered]

/-- A write leaves its bytes in the buffer or flushes it. -/
theorem writeFD_cases (o : OutputStream) (S : List Char) :
    writeFD noIo o.toStream S = .ok (o.buffered S).toStream ∨
      writeFD noIo o.toStream S = flush noIo (o.buffered S).toStream := by
  have hin : ¬(o.lastOp = .inputOp ∧ (o.feof = true → o.readBuffer ≠ [])) := fun h => o.notInput h.1
  rw [writeFD, if_neg hin]
  dsimp only
  split
  · split
    · exact .inr rfl
    · exact .inl rfl
  · split
    · exact .inl rfl
    · exact .inr rfl
  · exact .inr rfl

/-- **A write delivers its bytes**, whatever the mode and the size. -/
theorem writeFD_delivers (o : OutputStream) (S : List Char) :
    ∃ o' : OutputStream, writeFD noIo o.toStream S = .ok o'.toStream ∧
      Delivers noIo o.toStream o'.toStream S := by
  have hbuf : Delivers noIo o.toStream (o.buffered S).toStream S := delivers_buffered o S
  rcases writeFD_cases o S with hw | hw
  · exact ⟨o.buffered S, hw, hbuf⟩
  · refine ⟨(o.buffered S).flushed noIo, hw.trans (o.buffered S).flush_eq, ?_⟩
    have h := hbuf.trans (delivers_flushed (o.buffered S).toStream)
    rwa [List.append_nil] at h

/-- The remainder of `%Int` is a character exactly for the integers that are accepted. -/
theorem chrChar_tmod (N : Int) :
    chrChar (N.tmod 256) = if 0 ≤ N ∨ 256 ∣ N then .ok (Char.ofNat (N % 256).toNat) else .error .stuck := by
  unfold chrChar
  by_cases hN : 0 ≤ N
  · rw [Int.tmod_eq_emod_of_nonneg hN, if_pos (by omega), if_pos (.inl hN)]
  · by_cases hd : (256 : Int) ∣ N
    · have hz : N.tmod 256 = 0 := Int.tmod_eq_zero_of_dvd hd
      have hz' : N % 256 = 0 := Int.emod_eq_zero_of_dvd hd
      rw [hz, hz', if_pos (by omega), if_pos (.inr hd)]
    · have hneg : N.tmod 256 < 0 := by
        have hle : 0 ≤ (-N).tmod 256 := Int.tmod_nonneg 256 (by omega)
        rw [Int.neg_tmod] at hle
        have hne : N.tmod 256 ≠ 0 := fun h => hd (Int.dvd_of_tmod_eq_zero h)
        omega
      rw [if_neg (by omega), if_neg (by simp [hN, hd])]

/-- **A call delivers its bytes** when it is accepted, and gets stuck when it is not. -/
theorem outputStep_accepted (o : OutputStream) (op : OutputOp) (h : op.accepted) :
    ∃ (r : Int) (o' : OutputStream), outputStep noIo o.toStream op = .ok (r, o'.toStream) ∧
      Delivers noIo o.toStream o'.toStream op.bytes ∧ (op = .fflush → o'.writeBuffer = []) := by
  have hprintf : ∀ S, ∃ (r : Int) (o' : OutputStream), fprintf noIo o.toStream S = .ok (r, o'.toStream) ∧
      Delivers noIo o.toStream o'.toStream S := by
    intro S
    obtain ⟨o', hw, hd⟩ := @writeFD_delivers noIo o S
    refine ⟨S.length, o', ?_, hd⟩
    rw [fprintf, if_pos o.writable, hw]
    rfl
  cases op with
  | fputc N =>
    obtain ⟨o', hw, hd⟩ := @writeFD_delivers noIo o [Char.ofNat (N % 256).toNat]
    refine ⟨N, o', ?_, hd, by simp⟩
    have hN : 0 ≤ N ∨ 256 ∣ N := h
    rw [outputStep, fputc, if_pos o.writable, writeFDInt, chrChar_tmod, if_pos hN]
    show (writeFD noIo o.toStream [Char.ofNat (N % 256).toNat] >>= fun s' => pure (N, s')) = _
    rw [hw]
    rfl
  | fputs S =>
    obtain ⟨r, o', hw, hd⟩ := hprintf S
    exact ⟨r, o', hw, hd, by simp⟩
  | puts S =>
    obtain ⟨r, o', hw, hd⟩ := hprintf (S ++ ['\n'])
    exact ⟨r, o', hw, hd, by simp⟩
  | fprintf S =>
    obtain ⟨r, o', hw, hd⟩ := hprintf S
    exact ⟨r, o', hw, hd, by simp⟩
  | fwrite S size =>
    obtain ⟨o', hw, hd⟩ := @writeFD_delivers noIo o S
    refine ⟨(S.length / size : Nat), o', ?_, hd, by simp⟩
    rw [outputStep, fwrite, if_pos o.writable, if_neg h, hw]
    rfl
  | setvbuf mode size =>
    refine ⟨success, { o with bufferMode := mode, bufferSize := size }, rfl, ⟨?_, fun _ => ?_⟩, by simp⟩
    · simp [OutputOp.bytes]
    · simp [OutputOp.bytes]
  | fflush =>
    let o₁ : OutputStream := { o with lastOp := .flushOp, notInput := by simp }
    refine ⟨success, o₁.flushed noIo, ?_, ?_, fun _ => rfl⟩
    · rw [outputStep, fflush, if_pos ⟨o.writable, o.notInput⟩]
      show (flush noIo o₁.toStream >>= fun s' => pure (success, s')) = _
      rw [o₁.flush_eq]
      rfl
    · have hd : Delivers noIo o₁.toStream (o₁.flushed noIo).toStream [] := delivers_flushed o₁.toStream
      exact ⟨hd.done, hd.sent⟩

theorem outputStep_not_accepted (o : OutputStream) (op : OutputOp) (h : ¬op.accepted) :
    outputStep noIo o.toStream op = .error .stuck := by
  cases op with
  | fputc N =>
    have hN : ¬(0 ≤ N ∨ 256 ∣ N) := h
    rw [outputStep, fputc, if_pos o.writable, writeFDInt, chrChar_tmod, if_neg hN]
    rfl
  | fwrite S size => rw [outputStep, fwrite, if_pos o.writable, if_pos (not_not.mp h)]
  | fputs S => exact absurd trivial h
  | puts S => exact absurd trivial h
  | fprintf S => exact absurd trivial h
  | setvbuf mode size => exact absurd trivial h
  | fflush => exact absurd trivial h

end Step

/-! ## Every sequence of calls -/

/-- The calls of a run deliver their bytes, in order. -/
theorem runOutput_delivers {noIo : Bool} (o : OutputStream) (ops : List OutputOp)
    (h : ∀ op ∈ ops, op.accepted) : ∃ o' : OutputStream, runOutput noIo o.toStream ops = .ok o'.toStream ∧
      Delivers noIo o.toStream o'.toStream (ops.flatMap OutputOp.bytes) ∧
      (ops.getLast? = some .fflush → o'.writeBuffer = []) := by
  induction ops generalizing o with
  | nil => exact ⟨o, rfl, .refl _, by simp⟩
  | cons op ops ih =>
    obtain ⟨r, o₁, hstep, hd₁, hempty⟩ := @outputStep_accepted noIo o op (h op List.mem_cons_self)
    obtain ⟨o₂, hrun, hd₂, hempty₂⟩ := ih o₁ fun op' hop' => h op' (List.mem_cons_of_mem op hop')
    refine ⟨o₂, ?_, ?_, ?_⟩
    · rw [runOutput, hstep]
      exact hrun
    · rw [List.flatMap_cons]
      exact hd₁.trans hd₂
    · intro hlast
      cases ops with
      | nil =>
        have hsame : o₁.toStream = o₂.toStream := Except.ok.inj hrun
        rw [← hsame]
        exact hempty (by simpa using hlast)
      | cons op' ops' => exact hempty₂ (by simpa using hlast)

theorem runOutput_accepted {noIo : Bool} (o : OutputStream) (ops : List OutputOp) {s : Stream}
    (hrun : runOutput noIo o.toStream ops = .ok s) : ∀ op ∈ ops, op.accepted := by
  induction ops generalizing o with
  | nil => simp
  | cons op ops ih =>
    have hop : op.accepted := by
      by_contra hnot
      rw [runOutput, outputStep_not_accepted o op hnot] at hrun
      cases hrun
    obtain ⟨r, o₁, hstep, -, -⟩ := @outputStep_accepted noIo o op hop
    rw [runOutput, hstep] at hrun
    exact List.forall_mem_cons.mpr ⟨hop, ih o₁ hrun⟩

/-- **Buffered output loses and reorders nothing**: the bytes sent and the bytes in the buffer are the
    bytes of the calls, the buffer is empty after `fflush`, and `fclose` sends what is left, exactly
    when every `fputc` has an accepted integer and no `fwrite` has elements of size 0. -/
theorem output_preserved_iff (noIo : Bool) (o : OutputStream) (ops : List OutputOp) :
    (∃ s, runOutput noIo o.toStream ops = .ok s ∧
      Delivers noIo o.toStream s (ops.flatMap OutputOp.bytes) ∧
      (ops.getLast? = some .fflush → s.writeBuffer = []) ∧
      ∃ s', fclose noIo s = .ok s' ∧ s'.writeBuffer = [] ∧
        Delivers noIo o.toStream s' (ops.flatMap OutputOp.bytes)) ↔
      ∀ op ∈ ops, op.accepted := by
  constructor
  · rintro ⟨s, hrun, -⟩
    exact runOutput_accepted o ops hrun
  · intro h
    obtain ⟨o', hrun, hd, hempty⟩ := @runOutput_delivers noIo o ops h
    refine ⟨o'.toStream, hrun, hd, hempty, (o'.flushed noIo).toStream, o'.flush_eq, rfl, ?_⟩
    have hclose := hd.trans (delivers_flushed o'.toStream)
    rwa [List.append_nil] at hclose

/-- A file that has just been opened with mode `w`. -/
def openedForWriting : OutputStream where
  toFile := newFile .fd "w"
  input := []
  sent := []
  descriptor := rfl
  writable := by decide
  notInput := by decide
  idle := rfl

/-- `fputc(-1, f)` should put out the byte 255. -/
theorem fputc_negative_lost :
    ¬∃ s, runOutput false openedForWriting.toStream [.fputc (-1)] = .ok s ∧
      Delivers false openedForWriting.toStream s [Char.ofNat 255] := by
  rintro ⟨s, hrun, -⟩
  have hstuck : runOutput false openedForWriting.toStream [.fputc (-1)] = .error .stuck := by decide
  cases hstuck.symm.trans hrun

end CSemantics
