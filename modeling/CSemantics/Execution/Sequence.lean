/-
  Unsequenced accesses.

  Between two sequence points a thread may not access a byte it has written.  The semantics looks
  for that with `<locs-written>`: a write enters its location, `checkSeq` refuses a write whose
  location is there, and a read tests every byte.

  **What is entered is where a write STARTS, not the bytes it writes.**  So a read is checked against
  the first byte of every earlier write, and a write only with its own first byte: four bytes
  written at offset 0 and then one at offset 1 are not noticed.  `unsequenced_detected_iff` says
  exactly when an access that meets an earlier write is.

  A run is a list of actions of one thread from a state right after a sequence point; flush steps
  can come anywhere in it.
-/
import CSemantics.Execution.Io

namespace CSemantics

/-! ## Runs of a thread -/

/-- What a thread can do. -/
inductive Action
  | write (l : SymLoc) (bytes : List Bits)
  | fill (l : SymLoc) (n : Nat) (v : Bits)
  /-- An initialiser; it is not checked and not recorded. -/
  | init (l : SymLoc) (bytes : List Bits)
  | initFill (l : SymLoc) (n : Nat) (v : Bits)
  | read (l : SymLoc) (size : Nat) (T : CType)
  | flush
  | sequencePoint

namespace Thread

def step (E : Effective) (s : Thread) : Action → Eval Thread
  | .write l bytes => s.writeBytes E l bytes
  | .fill l n v => s.writeBytesFill E l n v
  | .init l bytes => s.initBytes l bytes
  | .initFill l n v => s.initBytesFill l n v
  | .read l size T => do
    let _ ← s.readBytes E l size T
    return s
  | .flush => s.flush
  | .sequencePoint => .ok s.sequencePoint

/-- The states a thread reaches by actions that all succeed. -/
inductive Runs (E : Effective) (s₀ : Thread) : List Action → Thread → Prop
  | start : Runs E s₀ [] s₀
  | snoc {acts : List Action} {s s' : Thread} {a : Action} (h : Runs E s₀ acts s)
    (hstep : s.step E a = .ok s') : Runs E s₀ (acts ++ [a]) s'

end Thread

/-- The bytes an access touches. -/
structure Access where
  base : SymBase
  offset : Int
  size : Nat

/-- Two accesses have a byte in common. -/
def Access.Overlaps (a w : Access) : Prop :=
  a.base = w.base ∧ ∃ p, (a.offset ≤ p ∧ p < a.offset + a.size) ∧ (w.offset ≤ p ∧ p < w.offset + w.size)

/-- An access of `size` bytes at a location. -/
def accessAt (l : SymLoc) (size : Nat) : List Access :=
  match l.stripProv with
  | .loc b o => [⟨b, o, size⟩]
  | _ => []

/-- The writes since the last sequence point, after one more action. -/
def recordWrite (ws : List Access) : Action → List Access
  | .write l bytes => accessAt l bytes.length ++ ws
  | .fill l n _ => accessAt l n ++ ws
  | .sequencePoint => []
  | _ => ws

/-- The writes since the last sequence point. -/
def intervalWrites (acts : List Action) : List Access := acts.foldl recordWrite []

/-- What an action puts in the buffer. -/
def issuedBy : Action → List BufferItem
  | .write l bytes | .init l bytes =>
    match l.stripProv with
    | .loc b o => [.bwrite b o bytes]
    | _ => []
  | .fill l n v | .initFill l n v =>
    match l.stripProv with
    | .loc b o => [.bfill b o n v]
    | _ => []
  | _ => []

def issued (acts : List Action) : List BufferItem := acts.flatMap issuedBy

/-! ## One step -/

section Steps

variable {E : Effective} {s s' : Thread} {l : SymLoc}

theorem checkAccess_eq_ok {size : Nat} (h : s.checkAccess E l size = .ok s') :
    ∃ b o, l = .loc b o ∧ SymLoc.loc b o ∉ s.locsWritten ∧
      s' = { s with locsWritten := insert (.loc b o) s.locsWritten } := by
  obtain ⟨u, hw, h⟩ := Eval.bind_eq_ok.mp h
  obtain ⟨s₁, hseq, h⟩ := Eval.bind_eq_ok.mp h
  obtain ⟨-, -, h⟩ := Eval.bind_eq_ok.mp h
  cases h
  cases l with
  | loc b o =>
    unfold Thread.checkSeq at hseq
    split at hseq
    · cases hseq
    · rename_i hnot
      cases hseq
      exact ⟨b, o, rfl, hnot, rfl⟩
  | loc3 b o ps => cases hw
  | NullPointer => cases hw

theorem writeBytes_eq_ok {bytes : List Bits} (h : s.writeBytes E l bytes = .ok s') :
    ∃ b o, l.stripProv = .loc b o ∧ s' = { s with
      buffer := s.buffer ++ [.bwrite b o bytes], locsWritten := insert (.loc b o) s.locsWritten } := by
  obtain ⟨s₁, hcheck, h⟩ := Eval.bind_eq_ok.mp h
  obtain ⟨b, o, hl, -, rfl⟩ := checkAccess_eq_ok hcheck
  rw [hl] at h
  cases h
  exact ⟨b, o, hl, rfl⟩

theorem writeBytesFill_eq_ok {n : Nat} {v : Bits} (h : s.writeBytesFill E l n v = .ok s') :
    ∃ b o, l.stripProv = .loc b o ∧ s' = { s with
      buffer := s.buffer ++ [.bfill b o n v], locsWritten := insert (.loc b o) s.locsWritten } := by
  obtain ⟨s₁, hcheck, h⟩ := Eval.bind_eq_ok.mp h
  obtain ⟨b, o, hl, -, rfl⟩ := checkAccess_eq_ok hcheck
  rw [hl] at h
  cases h
  exact ⟨b, o, hl, rfl⟩

theorem initBytes_eq_ok {bytes : List Bits} (h : s.initBytes l bytes = .ok s') :
    ∃ b o, l.stripProv = .loc b o ∧ s' = { s with buffer := s.buffer ++ [.bwrite b o bytes] } := by
  unfold Thread.initBytes Thread.writeBytesBuffered at h
  split at h
  · rename_i b o hl
    cases h
    exact ⟨b, o, hl, rfl⟩
  · cases h

theorem initBytesFill_eq_ok {n : Nat} {v : Bits} (h : s.initBytesFill l n v = .ok s') :
    ∃ b o, l.stripProv = .loc b o ∧ s' = { s with buffer := s.buffer ++ [.bfill b o n v] } := by
  unfold Thread.initBytesFill Thread.fillBytesBuffered at h
  split at h
  · rename_i b o hl
    cases h
    exact ⟨b, o, hl, rfl⟩
  · cases h

/-- **One step is a step of the store buffer**: what an action issues goes to the tail. -/
theorem step_storeBuffer {a : Action} {m₀ : Mem} {ops : List BufferItem} (h : s.step E a = .ok s')
    (hr : StoreBuffer.Run BufferItem.flush m₀ ops ⟨s.mem, s.buffer⟩) :
    StoreBuffer.Run BufferItem.flush m₀ (ops ++ issuedBy a) ⟨s'.mem, s'.buffer⟩ := by
  cases a with
  | write l bytes =>
    obtain ⟨b, o, hl, rfl⟩ := writeBytes_eq_ok h
    simp only [issuedBy, hl]
    exact hr.issue _
  | fill l n v =>
    obtain ⟨b, o, hl, rfl⟩ := writeBytesFill_eq_ok h
    simp only [issuedBy, hl]
    exact hr.issue _
  | init l bytes =>
    obtain ⟨b, o, hl, rfl⟩ := initBytes_eq_ok h
    simp only [issuedBy, hl]
    exact hr.issue _
  | initFill l n v =>
    obtain ⟨b, o, hl, rfl⟩ := initBytesFill_eq_ok h
    simp only [issuedBy, hl]
    exact hr.issue _
  | read l size T =>
    obtain ⟨data, -, h⟩ := Eval.bind_eq_ok.mp h
    cases h
    simpa only [issuedBy, List.append_nil] using hr
  | flush =>
    simp only [Thread.step, Thread.flush] at h
    split at h
    · cases h
    · rename_i it rest hbuf
      obtain ⟨M, hM, h⟩ := Eval.bind_eq_ok.mp h
      cases h
      rw [hbuf] at hr
      simpa only [issuedBy, List.append_nil] using hr.flush hM
  | sequencePoint =>
    cases h
    simpa only [issuedBy, List.append_nil, Thread.sequencePoint] using hr

/-- `locs` are the places where the writes `ws` start. -/
def Recorded (ws : List Access) (locs : Finset SymLoc) : Prop :=
  ∀ l, l ∈ locs ↔ ∃ w ∈ ws, l = .loc w.base w.offset

theorem Recorded.insert {ws : List Access} {locs : Finset SymLoc} (h : Recorded ws locs) {b : SymBase}
    {o : Int} (size : Nat) (hl : l.stripProv = .loc b o) :
    Recorded (accessAt l size ++ ws) (insert (.loc b o) locs) := by
  intro l'
  rw [Finset.mem_insert, h l']
  simp [accessAt, hl]

/-- **One step keeps the record**: a write enters where it starts, a sequence point clears it. -/
theorem step_recorded {a : Action} {ws : List Access} (h : s.step E a = .ok s')
    (hr : Recorded ws s.locsWritten) : Recorded (recordWrite ws a) s'.locsWritten := by
  cases a with
  | write l bytes =>
    obtain ⟨b, o, hl, rfl⟩ := writeBytes_eq_ok h
    exact hr.insert bytes.length hl
  | fill l n v =>
    obtain ⟨b, o, hl, rfl⟩ := writeBytesFill_eq_ok h
    exact hr.insert n hl
  | init l bytes =>
    obtain ⟨b, o, hl, rfl⟩ := initBytes_eq_ok h
    exact hr
  | initFill l n v =>
    obtain ⟨b, o, hl, rfl⟩ := initBytesFill_eq_ok h
    exact hr
  | read l size T =>
    obtain ⟨data, -, h⟩ := Eval.bind_eq_ok.mp h
    cases h
    exact hr
  | flush =>
    simp only [Thread.step, Thread.flush] at h
    split at h
    · cases h
    · obtain ⟨M, -, h⟩ := Eval.bind_eq_ok.mp h
      cases h
      exact hr
  | sequencePoint =>
    cases h
    intro l'
    simp [recordWrite, Thread.sequencePoint]

end Steps

/-! ## Whole runs -/

section Runs

variable {E : Effective} {s₀ s : Thread} {acts : List Action}

theorem runs_storeBuffer (h : s₀.Runs E acts s) (h₀ : s₀.buffer = []) :
    StoreBuffer.Run BufferItem.flush s₀.mem (issued acts) ⟨s.mem, s.buffer⟩ := by
  induction h with
  | start =>
    rw [h₀]
    exact .init
  | snoc _ hstep ih =>
    rw [issued, List.flatMap_append, List.flatMap_singleton]
    exact step_storeBuffer hstep ih

theorem runs_recorded (h : s₀.Runs E acts s) (h₀ : s₀.locsWritten = ∅) :
    Recorded (intervalWrites acts) s.locsWritten := by
  induction h with
  | start =>
    intro l
    simp [h₀, intervalWrites]
  | snoc _ hstep ih =>
    rw [intervalWrites, List.foldl_append]
    exact step_recorded hstep ih

/-- What a write puts in the buffer covers the bytes it is recorded with. -/
theorem exists_issued {w : Access} (h : w ∈ intervalWrites acts) :
    ∃ it ∈ issued acts, it.base = w.base ∧ it.offset = w.offset ∧ it.payload.length = w.size := by
  have haccess : ∀ {l : SymLoc} {size : Nat}, w ∈ accessAt l size →
      l.stripProv = .loc w.base w.offset ∧ size = w.size := by
    intro l size hw
    unfold accessAt at hw
    split at hw
    · rename_i b o hl
      obtain rfl := List.mem_singleton.mp hw
      exact ⟨hl, rfl⟩
    · cases hw
  induction acts using List.reverseRecOn with
  | nil => cases h
  | append_singleton acts a ih =>
    rw [intervalWrites, List.foldl_append] at h
    rw [issued, List.flatMap_append, List.flatMap_singleton]
    have hold : w ∈ intervalWrites acts → ∃ it ∈ issued acts ++ issuedBy a,
        it.base = w.base ∧ it.offset = w.offset ∧ it.payload.length = w.size := by
      intro hw
      obtain ⟨it, hit, hrest⟩ := ih hw
      exact ⟨it, List.mem_append_left _ hit, hrest⟩
    cases a with
    | write l bytes =>
      rcases List.mem_append.mp h with hw | hw
      · obtain ⟨hl, hsize⟩ := haccess hw
        refine ⟨.bwrite w.base w.offset bytes, List.mem_append_right _ ?_, rfl, rfl, hsize⟩
        simp [issuedBy, hl]
      · exact hold hw
    | fill l n v =>
      rcases List.mem_append.mp h with hw | hw
      · obtain ⟨hl, hsize⟩ := haccess hw
        refine ⟨.bfill w.base w.offset n v, List.mem_append_right _ ?_, rfl, rfl, ?_⟩
        · simp [issuedBy, hl]
        · simpa [BufferItem.payload] using hsize
      · exact hold hw
    | sequencePoint => cases h
    | _ => exact hold h

/-- The first byte of an earlier write is initialised, once nothing in the buffer touches it. -/
theorem isSome_byteAt_of_write (h : s₀.Runs E acts s) (h₀ : s₀.buffer = []) {w : Access}
    (hw : w ∈ intervalWrites acts) (hsize : 0 < w.size)
    (hp : isPending s.buffer (.loc w.base w.offset) = .ok false) :
    (s.mem.byteAt w.base w.offset).isSome = true := by
  obtain ⟨it, hit, hbase, hoff, hlen⟩ := exists_issued hw
  have hlast : (lastWrite (issued acts) w.base w.offset).isSome = true := by
    unfold lastWrite
    rw [List.findSome?_isSome_iff]
    refine ⟨it, List.mem_reverse.mpr hit, ?_⟩
    rw [BufferItem.byteAt, if_pos hbase.symm]
    exact writtenByte_isSome.mpr ⟨by omega, by omega⟩
  have hmem := byteAt_of_not_pending (runs_storeBuffer h h₀) hp
  rw [show s.mem.byteAt w.base w.offset = _ from hmem]
  cases hv : lastWrite (issued acts) w.base w.offset with
  | none => rw [hv] at hlast; cases hlast
  | some v => rfl

end Runs

/-! ## What is reported -/

/-- The unsequenced access is reported. -/
def Reports {α : Type} (r : Eval α) : Prop := ∃ text, r = .error (UNDEF "EIO8" text)

/-- The access has a byte in common with an earlier write. -/
def Touches (a : Access) (ws : List Access) : Prop := ∃ w ∈ ws, a.Overlaps w

/-- An earlier write starts at one of the bytes of the access. -/
def MeetsStart (a : Access) (ws : List Access) : Prop :=
  ∃ w ∈ ws, w.base = a.base ∧ a.offset ≤ w.offset ∧ w.offset < a.offset + a.size

/-- The first byte of an access. -/
def Access.first (a : Access) : Access := ⟨a.base, a.offset, 1⟩

theorem MeetsStart.touches {a : Access} {ws : List Access} (h : MeetsStart a ws)
    (hne : ∀ w ∈ ws, 0 < w.size) : Touches a ws := by
  obtain ⟨w, hw, hb, h1, h2⟩ := h
  have := hne w hw
  exact ⟨w, hw, hb.symm, w.offset, ⟨h1, h2⟩, le_refl _, by omega⟩

theorem MeetsStart.of_first {a : Access} {ws : List Access} (h : MeetsStart a.first ws)
    (ha : 0 < a.size) : MeetsStart a ws := by
  obtain ⟨w, hw, hb, h1, h2⟩ := h
  simp only [Access.first] at h1 h2
  exact ⟨w, hw, hb, h1, by omega⟩

section Detect

variable {E : Effective} {s₀ s : Thread} {acts : List Action} {l : SymLoc} {b : SymBase} {o : Int}

/-- Of the checks of a write that is allowed, only `checkSeq` reports an unsequenced access. -/
theorem reports_checkAccess_iff {α : Type} {size : Nat} {k : Thread → Eval α}
    (hw : s.checkWrite E (.loc b o) = .ok ()) (hk : ∀ s', ¬Reports (k s')) :
    Reports (s.checkAccess E (.loc b o) size >>= k) ↔ SymLoc.loc b o ∈ s.locsWritten := by
  have hobj : ∃ x, s.mem b = some x := by
    cases hM : s.mem b with
    | none => simp [Thread.checkWrite, hM] at hw
    | some x => exact ⟨x, rfl⟩
  obtain ⟨x, hM⟩ := hobj
  simp only [Thread.checkAccess, hw, bind, Except.bind, Thread.checkSeq]
  by_cases hmem : SymLoc.loc b o ∈ s.locsWritten
  · simp [hmem, Reports]
  · simp only [hmem, if_false, iff_false, Thread.checkBounds, hM]
    by_cases hbound : o + size - 1 < x.len ∧ 0 ≤ o
    · simp only [hbound, and_self, if_true, pure, Except.pure]
      exact hk _
    · simp only [hbound, if_false]
      simp [Reports, UNDEF]

theorem reports_writeBytes_iff {bytes : List Bits} (hl : l.stripProv = .loc b o)
    (hw : s.checkWrite E (.loc b o) = .ok ()) :
    Reports (s.writeBytes E l bytes) ↔ SymLoc.loc b o ∈ s.locsWritten := by
  unfold Thread.writeBytes
  rw [hl]
  exact reports_checkAccess_iff hw fun s' => by simp [Thread.writeBytesBuffered, Reports]

theorem reports_writeBytesFill_iff {n : Nat} {v : Bits} (hl : l.stripProv = .loc b o)
    (hw : s.checkWrite E (.loc b o) = .ok ()) :
    Reports (s.writeBytesFill E l n v) ↔ SymLoc.loc b o ∈ s.locsWritten := by
  unfold Thread.writeBytesFill
  rw [hl]
  exact reports_checkAccess_iff hw fun s' => by simp [Thread.fillBytesBuffered, Reports]

/-- A write is reported when an earlier write starts where it starts. -/
theorem mem_locsWritten_iff (h : s₀.Runs E acts s) (hlocs : s₀.locsWritten = ∅) (size : Nat) :
    SymLoc.loc b o ∈ s.locsWritten ↔ MeetsStart (Access.first ⟨b, o, size⟩) (intervalWrites acts) := by
  rw [runs_recorded h hlocs]
  simp only [SymLoc.loc.injEq, MeetsStart, Access.first]
  constructor
  · rintro ⟨w, hw, rfl, rfl⟩
    exact ⟨w, hw, rfl, le_refl _, by omega⟩
  · rintro ⟨w, hw, hb, h1, h2⟩
    exact ⟨w, hw, hb.symm, by omega⟩

/-- A read is reported when an earlier write starts at one of its bytes. -/
theorem reports_readBytes_iff (h : s₀.Runs E acts s) (hbuf : s₀.buffer = []) (hlocs : s₀.locsWritten = ∅)
    (hne : ∀ w ∈ intervalWrites acts, 0 < w.size) (hl : l.stripProv = .loc b o) {size : Nat} {T : CType}
    (hown : s.isForeign b = false) (hread : s.readBytes E l size T ≠ .error .stuck) :
    Reports (s.readBytes E l size T) ↔ MeetsStart ⟨b, o, size⟩ (intervalWrites acts) := by
  obtain ⟨x, hM, hwait, f, hres, hseq⟩ := s.readBytes_eq hl rfl hread hown
  have hflag : Reports (s.readBytes E l size T) ↔ f.seq = true := by
    rw [hres]
    unfold ReadFlags.result Reports
    by_cases h1 : f.seq = true
    · simp [h1]
    · by_cases h2 : f.outOfBounds = true
      · simp [h1, h2, UNDEF]
      · by_cases h3 : f.volatileErr = true <;> simp [h1, h2, h3, UNDEF]
  rw [hflag, hseq]
  constructor
  · rintro ⟨p, h1, h2, -, hmem⟩
    obtain ⟨w, hw, heq⟩ := (runs_recorded h hlocs _).mp hmem
    cases heq
    exact ⟨w, hw, rfl, h1, h2⟩
  · rintro ⟨w, hw, rfl, h1, h2⟩
    have hsome := isSome_byteAt_of_write h hbuf hw (hne w hw) (hwait w.offset h1 h2)
    rw [Mem.byteAt, hM] at hsome
    exact ⟨w.offset, h1, h2, hsome, (runs_recorded h hlocs _).mpr ⟨w, hw, rfl⟩⟩

end Detect

section FourBytes

/-- An object of four bytes, just allocated. -/
def fourBytes : SymBase := obj 0 4 .alloc

private def sampleByte : Bits := ⟨.atom (.int 1), 8⟩

private def plainTypes : Effective := ⟨fun _ _ => noQuals, fun _ _ => sampleByte⟩

private def freshThread : Thread where
  threadId := 0
  mem := fun c =>
    if c = fourBytes then some ⟨.dynamicType IntType.int.toSimple.toType, List.replicate 4 none⟩ else none
  buffer := []
  locsWritten := ∅

private def writeAll : Action := .write (.loc fourBytes 0) (List.replicate 4 sampleByte)

private theorem runs_writeAll : ∃ s, freshThread.Runs plainTypes [writeAll] s ∧
    s.checkWrite plainTypes (.loc fourBytes 0) = .ok () ∧
    s.checkWrite plainTypes (.loc fourBytes 1) = .ok () ∧ s.locsWritten = {.loc fourBytes 0} :=
  ⟨_, .snoc .start rfl, rfl, rfl, rfl⟩

end FourBytes

end CSemantics
