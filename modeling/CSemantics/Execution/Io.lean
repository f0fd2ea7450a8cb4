/-
  Reading and writing bytes in one thread.

  A write is checked and then put at the end of `<buffer>`; it reaches `<mem>` when it is flushed
  from the front, which can happen at any step.  A read looks only at `<mem>`, so it has to wait for
  the writes it depends on: a byte can be read when its location is not among `locations(Buffer)`.
  That function has rules for an empty buffer and for `bwrite`, and NONE for `bfill`: while a fill is
  anywhere in the buffer, the test has no answer and no byte can be read unless the buffer is empty.

  `<locs-written>` holds the locations at which the writes since the last sequence point START.

  What lives outside `<mem>`, native memory and hardware addresses, is not modelled, nor are the
  restrict bases (`Execution.CheckRestrict`); what an effective type says about an offset is a
  parameter.
-/
import CSemantics.Lib.StoreBuffer
import CSemantics.Memory.Objects

namespace CSemantics

/-! ## The buffer -/

/-- An entry of `<buffer>`; the location has been stripped of its provenance. -/
inductive BufferItem
  | bwrite (base : SymBase) (offset : Int) (bytes : List Bits)
  | bfill (base : SymBase) (offset : Int) (n : Nat) (v : Bits)

namespace BufferItem

def base : BufferItem → SymBase
  | bwrite b _ _ => b
  | bfill b _ _ _ => b

def offset : BufferItem → Int
  | bwrite _ o _ => o
  | bfill _ o _ _ => o

/-- The bytes that end up in memory. -/
def payload : BufferItem → List Bits
  | bwrite _ _ bytes => bytes
  | bfill _ _ n v => List.replicate n v

/-- The rule that takes an entry from the front of the buffer. -/
def flush (M : Mem) : BufferItem → Eval Mem
  | bwrite b o bytes => bufferWrite M b o bytes
  | bfill b o n v => bufferFill M b o n v

theorem flush_eq (M : Mem) (it : BufferItem) :
    it.flush M = bufferWrite M it.base it.offset it.payload := by
  cases it with
  | bwrite b o bytes => rfl
  | bfill b o n v => exact bufferFill_eq M b o n v

/-- The byte the entry puts at a place. -/
def byteAt (b : SymBase) (p : Int) (it : BufferItem) : Option Bits :=
  if b = it.base then writtenByte it.offset it.payload p else none

end BufferItem

/-- `#locations` -/
def locationsFrom (l : SymLoc) : Nat → List SymLoc
  | 0 => []
  | n + 1 => l :: locationsFrom (l.plusBytes 1) n

/-- `locations`; there is no rule for a fill. -/
def locations : List BufferItem → Eval (List SymLoc)
  | [] => .ok []
  | .bwrite b o bytes :: L => do
    let rest ← locations L
    return locationsFrom (.loc b o) bytes.length ++ rest
  | .bfill _ _ _ _ :: _ => .error .stuck

/-- Whether a read of one byte has to wait. -/
def isPending (buffer : List BufferItem) (l : SymLoc) : Eval Bool :=
  match buffer with
  | [] => .ok false
  | _ => do
    let ls ← locations buffer
    return decide (l ∈ ls)

/-! ## Reading -/

/-- What the effective type of an object says about one of its offsets. -/
structure Effective where
  getQualsAtOffset : EffectiveType → Int → Quals
  getUninitializedBits : SymLoc → EffectiveType → Bits

/-- The tests a read makes at each byte, in the order in which they are reported. -/
structure ReadFlags where
  seq : Bool
  outOfBounds : Bool
  volatileErr : Bool

/-- The last rule of `readBytes-aux`. -/
def ReadFlags.result (f : ReadFlags) (aux : List Bits) : Eval (List Bits) :=
  if f.seq then
    .error (UNDEF "EIO8" "Unsequenced side effect on scalar object with value computation of same object.")
  else if f.outOfBounds then .error (UNDEF "EIO7" "Reading outside the bounds of an object.")
  else if f.volatileErr then
    .error (UNDEF "EIO9"
      "Trying to access an object declared with volatile type through a non-volatile lvalue.")
  else .ok aux

/-- `readBytes-aux`: from the last byte to the first.  A byte that is `uninit` is not tested against
    the locations written. -/
def readBytesAux (E : Effective) (b : SymBase) (x : Object) (T : CType) (locs : Finset SymLoc)
    (buffer : List BufferItem) : Int → Nat → List Bits → ReadFlags → Eval (List Bits)
  | _, 0, aux, f => f.result aux
  | o, n + 1, aux, f => do
    if ← isPending buffer (.loc b o) then .error .stuck
    else
      let outOfBounds := f.outOfBounds || decide (o ≥ x.len)
      let volatileErr := f.volatileErr ||
        ((E.getQualsAtOffset x.type o).volatile && !(getQualifiers T).volatile)
      match x.byteAt o with
      | some v =>
        readBytesAux E b x T locs buffer (o - 1) n (v :: aux)
          ⟨f.seq || decide (SymLoc.loc b o ∈ locs), outOfBounds, volatileErr⟩
      | none =>
        readBytesAux E b x T locs buffer (o - 1) n (E.getUninitializedBits (.loc b o) x.type :: aux)
          ⟨f.seq, outOfBounds, volatileErr⟩

/-! ## The thread -/

/-- The cells of a thread that reading and writing touches, and the memory. -/
structure Thread where
  threadId : Int
  mem : Mem
  buffer : List BufferItem
  locsWritten : Finset SymLoc

namespace Thread

/-- The object belongs to another thread. -/
def isForeign (s : Thread) (b : SymBase) : Bool :=
  (isThreadDuration b || isAutoDuration b) && decide (some s.threadId ≠ getThreadId b)

/-- `readBytes` -/
def readBytes (E : Effective) (s : Thread) (l : SymLoc) (size : Nat) (T : CType) : Eval (List Bits) :=
  match l.stripProv with
  | .loc b o =>
    if s.isForeign b then
      .error (IMPL "EIO6" "Attempting to access an object with thread or auto storage duration in a thread other than the one in which the object is associated.")
    else
      match s.mem b with
      | none => .error .stuck
      | some x =>
        readBytesAux E b x T s.locsWritten s.buffer (o + size - 1) size [] ⟨false, false, false⟩
  | _ => .error .stuck

/-- `checkWrite` -/
def checkWrite (E : Effective) (s : Thread) (l : SymLoc) : Eval Unit :=
  match l with
  | .loc b o =>
    match s.mem b with
    | none => .error .stuck
    | some x =>
      if (E.getQualsAtOffset x.type o).const then
        .error (UNDEF "EIO3" "Trying to modify an object declared with const type.")
      else if s.isForeign b then
        .error (IMPL "EIO5" "Trying to modify an object with thread or auto storage duration in a thread other than the one in which the object is associated.")
      else if isLibcFixedDuration b then
        .error (UNDEF "EIO11" "Trying to modify an unmodifiable object returned by a library function.")
      else .ok ()
  | _ => .error .stuck

/-- `checkSeq` -/
def checkSeq (s : Thread) (l : SymLoc) : Eval Thread :=
  if l ∈ s.locsWritten then
    .error (UNDEF "EIO8" "Unsequenced side effect on scalar object with side effect of same object.")
  else .ok { s with locsWritten := insert l s.locsWritten }

/-- `checkBounds` -/
def checkBounds (s : Thread) (l : SymLoc) (size : Nat) : Eval Unit :=
  match l with
  | .loc b o =>
    match s.mem b with
    | none => .error .stuck
    | some x =>
      if o + size - 1 < x.len ∧ 0 ≤ o then .ok ()
      else .error (UNDEF "EIO2" "Trying to write outside the bounds of an object.")
  | _ => .error .stuck

/-- `writeBytesBuffered` -/
def writeBytesBuffered (s : Thread) (l : SymLoc) (bytes : List Bits) : Eval Thread :=
  match l with
  | .loc b o => .ok { s with buffer := s.buffer ++ [.bwrite b o bytes] }
  | _ => .error .stuck

/-- `fillBytesBuffered` -/
def fillBytesBuffered (s : Thread) (l : SymLoc) (n : Nat) (v : Bits) : Eval Thread :=
  match l with
  | .loc b o => .ok { s with buffer := s.buffer ++ [.bfill b o n v] }
  | _ => .error .stuck

/-- The checks every write makes, in their order. -/
def checkAccess (E : Effective) (s : Thread) (l : SymLoc) (size : Nat) : Eval Thread := do
  s.checkWrite E l
  let s ← s.checkSeq l
  s.checkBounds l size
  return s

/-- `writeBytes` -/
def writeBytes (E : Effective) (s : Thread) (l : SymLoc) (bytes : List Bits) : Eval Thread := do
  let s ← s.checkAccess E l.stripProv bytes.length
  s.writeBytesBuffered l.stripProv bytes

/-- `writeBytesFill` -/
def writeBytesFill (E : Effective) (s : Thread) (l : SymLoc) (n : Nat) (v : Bits) : Eval Thread := do
  let s ← s.checkAccess E l.stripProv n
  s.fillBytesBuffered l.stripProv n v

/-- `initBytes` -/
def initBytes (s : Thread) (l : SymLoc) (bytes : List Bits) : Eval Thread :=
  s.writeBytesBuffered l.stripProv bytes

/-- `initBytesFill` -/
def initBytesFill (s : Thread) (l : SymLoc) (n : Nat) (v : Bits) : Eval Thread :=
  s.fillBytesBuffered l.stripProv n v

/-- The entry at the front of the buffer takes effect. -/
def flush (s : Thread) : Eval Thread :=
  match s.buffer with
  | [] => .error .stuck
  | it :: rest => do
    let M ← it.flush s.mem
    return { s with mem := M, buffer := rest }

/-- `sequencePoint` -/
def sequencePoint (s : Thread) : Thread := { s with locsWritten := ∅ }

end Thread

/-! ## What has to be waited for -/

theorem mem_locationsFrom {b c : SymBase} {o p : Int} {n : Nat} :
    SymLoc.loc c p ∈ locationsFrom (.loc b o) n ↔ c = b ∧ o ≤ p ∧ p < o + n := by
  induction n generalizing o with
  | zero => simp [locationsFrom]
  | succ n ih =>
    rw [locationsFrom, List.mem_cons, SymLoc.plusBytes, ih]
    simp only [SymLoc.loc.injEq]
    constructor
    · rintro (⟨hc, hp⟩ | ⟨hc, h1, h2⟩)
      · exact ⟨hc, by omega, by omega⟩
      · exact ⟨hc, by omega, by omega⟩
    · rintro ⟨hc, h1, h2⟩
      by_cases hp : p = o
      · exact .inl ⟨hc, hp⟩
      · exact .inr ⟨hc, by omega, by omega⟩

/-- The only way `locations` can fail is to be stuck. -/
theorem locations_cases (buffer : List BufferItem) :
    locations buffer = .error .stuck ∨ ∃ ls, locations buffer = .ok ls ∧
      ∀ it ∈ buffer, ∀ b p, (it.byteAt b p).isSome = true → SymLoc.loc b p ∈ ls := by
  induction buffer with
  | nil => exact .inr ⟨[], rfl, by simp⟩
  | cons it buffer ih =>
    cases it with
    | bfill b o n v => exact .inl rfl
    | bwrite c o bytes =>
      rcases ih with h | ⟨ls, h, hls⟩
      · exact .inl (by rw [locations, h]; rfl)
      · refine .inr ⟨locationsFrom (.loc c o) bytes.length ++ ls, by rw [locations, h]; rfl, ?_⟩
        intro it hit b p hsome
        rw [List.mem_append]
        rcases List.mem_cons.mp hit with rfl | hmem
        · refine .inl (mem_locationsFrom.mpr ?_)
          unfold BufferItem.byteAt at hsome
          split at hsome
          · rename_i hb
            exact ⟨hb, writtenByte_isSome.mp hsome⟩
          · cases hsome
        · exact .inr (hls it hmem b p hsome)

theorem isPending_cases (buffer : List BufferItem) (l : SymLoc) :
    isPending buffer l = .error .stuck ∨ isPending buffer l = .ok true ∨
      isPending buffer l = .ok false := by
  unfold isPending
  split
  · exact .inr (.inr rfl)
  · rcases locations_cases buffer with h | ⟨ls, h, -⟩
    · exact .inl (by rw [h]; rfl)
    · rw [h]
      by_cases hl : l ∈ ls
      · exact .inr (.inl (congrArg _ (decide_eq_true hl)))
      · exact .inr (.inr (congrArg _ (decide_eq_false hl)))

/-- **A byte that can be read is not touched by anything in the buffer.** -/
theorem byteAt_eq_none_of_not_pending {buffer : List BufferItem} {b : SymBase} {p : Int}
    (h : isPending buffer (.loc b p) = .ok false) : ∀ it ∈ buffer, it.byteAt b p = none := by
  intro it hit
  unfold isPending at h
  split at h
  · cases hit
  · rcases locations_cases buffer with hstuck | ⟨ls, hls, hcover⟩
    · rw [hstuck] at h
      cases h
    · rw [hls] at h
      cases hval : it.byteAt b p with
      | none => rfl
      | some v =>
        have hmem := hcover it hit b p (by rw [hval]; rfl)
        injection h with h
        exact absurd hmem (of_decide_eq_false h)

/-! ## What a read does -/

section Reading

variable {E : Effective} {b : SymBase} {x : Object} {T : CType} {locs : Finset SymLoc}
  {buffer : List BufferItem}

/-- The byte a read finds at an offset. -/
def Effective.readByte (E : Effective) (b : SymBase) (x : Object) (p : Int) : Bits :=
  (x.byteAt p).getD (E.getUninitializedBits (.loc b p) x.type)

/-- A read that is not stuck did not have to wait for any of its bytes. -/
theorem not_pending_of_readBytesAux {o : Int} {n : Nat} {aux : List Bits} {f : ReadFlags}
    (h : readBytesAux E b x T locs buffer o n aux f ≠ .error .stuck) :
    ∀ p, o - n < p → p ≤ o → isPending buffer (.loc b p) = .ok false := by
  induction n generalizing o aux f with
  | zero => intro p h1 h2; omega
  | succ n ih =>
    rw [readBytesAux] at h
    rcases isPending_cases buffer (.loc b o) with hp | hp | hp
    · rw [hp] at h; exact absurd rfl h
    · rw [hp] at h; exact absurd rfl h
    · intro p h1 h2
      by_cases hpo : p = o
      · rw [hpo]; exact hp
      · rw [hp] at h
        simp only [bind, Except.bind] at h
        cases hx : x.byteAt o with
        | none =>
          rw [hx] at h
          exact ih h p (by omega) (by omega)
        | some v =>
          rw [hx] at h
          exact ih h p (by omega) (by omega)

/-- **What a read that does not have to wait does**: it collects the bytes, and the test for
    unsequenced effects fires when an initialised byte is among the locations written. -/
theorem readBytesAux_eq {o : Int} {n : Nat} {aux : List Bits} {f : ReadFlags}
    (hp : ∀ p, o - n < p → p ≤ o → isPending buffer (.loc b p) = .ok false) :
    ∃ f' : ReadFlags, readBytesAux E b x T locs buffer o n aux f =
        f'.result ((List.range n).map (fun i => E.readByte b x (o - n + 1 + (i : Nat))) ++ aux) ∧
      (f'.seq = true ↔ f.seq = true ∨
        ∃ p, o - n < p ∧ p ≤ o ∧ (x.byteAt p).isSome = true ∧ SymLoc.loc b p ∈ locs) := by
  induction n generalizing o aux f with
  | zero =>
    refine ⟨f, rfl, ?_⟩
    constructor
    · exact .inl
    · rintro (h | ⟨p, h1, h2, -⟩)
      · exact h
      · omega
  | succ n ih =>
    have hp0 : isPending buffer (.loc b o) = .ok false := hp o (by omega) (le_refl o)
    have hrest : ∀ p, o - 1 - n < p → p ≤ o - 1 → isPending buffer (.loc b p) = .ok false :=
      fun p h1 h2 => hp p (by omega) (by omega)
    -- the bytes before the last, then the last
    have hbytes : ∀ v, v = E.readByte b x o →
        (List.range n).map (fun i => E.readByte b x (o - 1 - n + 1 + (i : Nat))) ++ v :: aux =
        (List.range (n + 1)).map (fun i => E.readByte b x (o - (n + 1 : Nat) + 1 + (i : Nat))) ++ aux := by
      intro v hv
      have h1 : o - (n + 1 : Nat) + 1 = o - 1 - n + 1 := by omega
      have h2 : o - 1 - n + 1 + n = o := by omega
      rw [List.range_succ, List.map_append, List.append_assoc, h1, List.map_singleton, h2, ← hv]
      rfl
    -- the last byte and those before it
    have hsplit : (∃ p, o - (n + 1 : Nat) < p ∧ p ≤ o ∧ (x.byteAt p).isSome = true ∧
        SymLoc.loc b p ∈ locs) ↔ ((x.byteAt o).isSome = true ∧ SymLoc.loc b o ∈ locs) ∨
        ∃ p, o - 1 - n < p ∧ p ≤ o - 1 ∧ (x.byteAt p).isSome = true ∧ SymLoc.loc b p ∈ locs := by
      constructor
      · rintro ⟨p, h1, h2, h3⟩
        by_cases hpo : p = o
        · subst hpo; exact .inl h3
        · exact .inr ⟨p, by omega, by omega, h3⟩
      · rintro (h3 | ⟨p, h1, h2, h3⟩)
        · exact ⟨o, by omega, le_refl o, h3⟩
        · exact ⟨p, by omega, by omega, h3⟩
    rw [readBytesAux, hp0]
    simp only [bind, Except.bind]
    cases hx : x.byteAt o with
    | none =>
      obtain ⟨f', hf', hseq⟩ :=
        @ih (o - 1) (E.getUninitializedBits (.loc b o) x.type :: aux) _ hrest
      refine ⟨f', ?_, ?_⟩
      · rw [← hbytes (E.getUninitializedBits (.loc b o) x.type) (by simp [Effective.readByte, hx])]
        exact hf'
      · rw [hseq, hsplit, hx]
        simp
    | some v =>
      obtain ⟨f', hf', hseq⟩ := @ih (o - 1) (v :: aux) _ hrest
      refine ⟨f', ?_, ?_⟩
      · rw [← hbytes v (by simp [Effective.readByte, hx])]
        exact hf'
      · rw [hseq, hsplit, hx]
        simp [or_assoc]

end Reading

/-! ## The buffer is transparent -/

/-- The last value given to a byte by the entries issued, in program order. -/
def lastWrite (issued : List BufferItem) (b : SymBase) (p : Int) : Option Bits :=
  issued.reverse.findSome? (BufferItem.byteAt b p)

theorem byteAt_flush {M M' : Mem} {it : BufferItem} (h : it.flush M = .ok M') (b : SymBase) (p : Int) :
    M'.byteAt b p = (it.byteAt b p).or (M.byteAt b p) := by
  rw [BufferItem.flush_eq] at h
  exact byteAt_bufferWrite h b p

/-- A byte nothing in the buffer touches has the last value given to it. -/
theorem byteAt_of_not_pending {m₀ : Mem} {issued : List BufferItem} {s : StoreBuffer.State Mem BufferItem}
    (h : StoreBuffer.Run BufferItem.flush m₀ issued s) {b : SymBase} {p : Int}
    (hp : isPending s.buffer (.loc b p) = .ok false) :
    s.mem.byteAt b p = (lastWrite issued b p).or (m₀.byteAt b p) :=
  h.observe (fun M => M.byteAt b p) (BufferItem.byteAt b p) (fun _ _ _ hop => byteAt_flush hop b p)
    (byteAt_eq_none_of_not_pending hp)

/-- The object and the bytes of a read that is neither stuck nor foreign. -/
theorem Thread.readBytes_eq {E : Effective} {s : Thread} {l : SymLoc} {b : SymBase} {o : Int} {size : Nat}
    {T : CType} {r : Eval (List Bits)} (hl : l.stripProv = .loc b o) (h : s.readBytes E l size T = r)
    (hr : r ≠ .error .stuck) (hown : s.isForeign b = false) :
    ∃ x, s.mem b = some x ∧
      (∀ p, o ≤ p → p < o + size → isPending s.buffer (.loc b p) = .ok false) ∧
      ∃ f : ReadFlags, r = f.result ((List.range size).map fun i => E.readByte b x (o + (i : Nat))) ∧
        (f.seq = true ↔ ∃ p, o ≤ p ∧ p < o + size ∧ (x.byteAt p).isSome = true ∧
          SymLoc.loc b p ∈ s.locsWritten) := by
  unfold Thread.readBytes at h
  simp only [hl, hown, Bool.false_eq_true, if_false] at h
  cases hM : s.mem b with
  | none => rw [hM] at h; exact absurd h.symm hr
  | some x =>
    rw [hM] at h
    simp only at h
    have hwait := not_pending_of_readBytesAux (by rw [h]; exact hr)
    obtain ⟨f, hf, hseq⟩ := @readBytesAux_eq E b x T s.locsWritten s.buffer (o + size - 1) size []
      ⟨false, false, false⟩ hwait
    refine ⟨x, rfl, fun p h1 h2 => hwait p (by omega) (by omega), f, ?_, ?_⟩
    · rw [← h, hf, List.append_nil]
      have hstart : o + (size : Int) - 1 - size + 1 = o := by omega
      rw [hstart]
    · rw [hseq]
      simp only [Bool.false_eq_true, false_or]
      constructor
      · rintro ⟨p, h1, h2, h3⟩
        exact ⟨p, by omega, by omega, h3⟩
      · rintro ⟨p, h1, h2, h3⟩
        exact ⟨p, by omega, by omega, h3⟩

/-- **The store buffer is transparent.**  However the writes and fills of a thread are interleaved
    with flush steps, a read that can proceed returns for each byte the value the last write or fill
    gave it in program order, or the one it had at the start; and when the buffer is empty, memory is
    what applying them directly in program order gives. -/
theorem buffer_transparent (E : Effective) (m₀ : Mem) (issued : List BufferItem) (s : Thread)
    (h : StoreBuffer.Run BufferItem.flush m₀ issued ⟨s.mem, s.buffer⟩) :
    (∀ l b o size T data, l.stripProv = .loc b o → s.readBytes E l size T = .ok data →
      data.length = size ∧ ∀ i < size, ∀ v,
        (lastWrite issued b (o + i)).or (m₀.byteAt b (o + i)) = some v → data[i]? = some v) ∧
    (s.buffer = [] → StoreBuffer.applyAll BufferItem.flush m₀ issued = .ok s.mem) := by
  refine ⟨?_, h.drained⟩
  intro l b o size T data hl hread
  have hown : s.isForeign b = false := by
    cases hf : s.isForeign b with
    | false => rfl
    | true =>
      unfold Thread.readBytes at hread
      simp [hl, hf] at hread
  obtain ⟨x, hM, hwait, f, hres, -⟩ := s.readBytes_eq hl hread (by simp) hown
  have hdata : data = (List.range size).map fun i => E.readByte b x (o + (i : Nat)) := by
    unfold ReadFlags.result at hres
    split at hres
    · cases hres
    · split at hres
      · cases hres
      · split at hres
        · cases hres
        · exact Except.ok.inj hres
  subst hdata
  refine ⟨by simp, ?_⟩
  intro i hi v hv
  have hbyte : s.mem.byteAt b (o + i) = some v := by
    rw [← hv]
    exact byteAt_of_not_pending h (hwait (o + i) (by omega) (by omega))
  have hx : x.byteAt (o + i) = some v := by
    unfold Mem.byteAt at hbyte
    rw [hM] at hbyte
    exact hbyte
  simp [hi, Effective.readByte, hx]

/-- Two bytes are written and the second is filled again; both entries have been flushed. -/
theorem buffer_transparent_fill_after_write :
    let b := obj 0 1 .alloc
    let v : Int → Bits := fun n => ⟨.atom (.int n), 8⟩
    let E : Effective := ⟨fun _ _ => noQuals, fun _ _ => v 0⟩
    let T := IntType.char.toSimple.toType
    let m₀ : Mem := fun c => if c = b then some ⟨.dynamicType T, [none, none]⟩ else none
    let issued : List BufferItem := [.bwrite b 0 [v 1, v 2], .bfill b 1 1 (v 3)]
    ∃ s : Thread, StoreBuffer.Run BufferItem.flush m₀ issued ⟨s.mem, s.buffer⟩ ∧
      s.readBytes E (.loc b 0) 2 T = .ok [v 1, v 3] ∧ lastWrite issued b 1 = some (v 3) ∧
      [v 1, v 3][1]? = some (v 3) ∧ StoreBuffer.applyAll BufferItem.flush m₀ issued = .ok s.mem := by
  intro b v E T m₀ issued
  have h := StoreBuffer.Run.issue (BufferItem.bfill b 1 1 (v 3))
    (.issue (BufferItem.bwrite b 0 [v 1, v 2]) (@StoreBuffer.Run.init _ _ _ BufferItem.flush m₀))
  have hrun := StoreBuffer.Run.flush (.flush h rfl) rfl
  refine ⟨⟨0, _, [], ∅⟩, hrun, rfl, rfl, ?_, ?_⟩
  · exact ((buffer_transparent E m₀ issued ⟨0, _, [], ∅⟩ hrun).1 (.loc b 0) b 0 2 T _ rfl rfl).2 1
      (by decide) (v 3) rfl
  · exact (buffer_transparent E m₀ issued ⟨0, _, [], ∅⟩ hrun).2 rfl

end CSemantics
