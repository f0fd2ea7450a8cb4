/-
  The heap: `malloc`, `calloc`, `realloc`, `aligned_alloc` and `free`.

  `<malloced>` maps the base of what the heap has given out to its length.  An allocation enters a
  fresh base there and makes the object; `free` takes both away; `realloc` makes a new object, copies,
  and deletes the old one, with ONE entry before and after.  A request over `cfg:maxHeapBound` is
  answered with a null pointer by `alignedAlloc`, and only there:

    - `realloc` of an object does not go through `alignedAlloc`, so it allocates whatever it is asked;
    - `calloc` clears the object at the BASE of the pointer it gets, and a null pointer has no base.

      heap_runs    the invariant, what is reported, and what a request over the bound gives

  `free` of a native pointer goes to the native `free`, which is not modelled; the profile has no lint
  checks.
-/
import CSemantics.Execution.Sequence
import CSemantics.Memory.Alloc

namespace CSemantics

/-! ## Deleting and moving an object -/

/-- `filterBuffer`: only writes are dropped, a fill stays. -/
def filterBuffer (buffer : List BufferItem) (b : SymBase) : List BufferItem :=
  buffer.filter fun
    | .bwrite c _ _ => c ≠ b
    | .bfill _ _ _ _ => true

namespace Thread

/-- `deleteObject` -/
def deleteObject (s : Thread) (b : SymBase) : Thread :=
  { s with mem := Function.update s.mem b none, buffer := filterBuffer s.buffer b }

/-- `type(no-type)` -/
def noType : CType := SimpleNonArrayType.toType (.basic .noType)

/-- `realloc(Old, New, OldLen, NewLen)` -/
def realloc (s : Thread) (old new : SymBase) (oldLen newLen : Nat) : Eval Thread := do
  let M ← alloc s.mem new noType newLen
  let M ← copyBytes old new (min oldLen newLen) M
  let M ← copyObjectType M old new
  return { s with mem := M }.deleteObject old

end Thread

/-! ## The builtins -/

/-- The thread, `<malloced>`, and the next number for `!I`. -/
structure Heap where
  thread : Thread
  malloced : SymBase → Option Nat
  next : Nat

namespace Heap

variable (cfg : Settings) (h : Heap)

/-- The memory. -/
abbrev mem : Mem := h.thread.mem

/-- The pointer to a new object: `addProv(fromArray(0, Sz), lnew(Base))`. -/
def newPointer (b : SymBase) (sz : Nat) : SymLoc := (SymLoc.loc b 0).addProv (.fromArray 0 sz)

/-- `alignedAlloc` -/
def alignedAlloc (align sz : Nat) : Eval (Heap × SymLoc) :=
  if sz ≤ cfg.maxHeapBound then do
    let b := obj h.next align .alloc
    let M ← alloc h.mem b Thread.noType sz
    return (⟨{ h.thread with mem := M }, Function.update h.malloced b (some sz), h.next + 1⟩, newPointer b sz)
  else .ok (h, .NullPointer)

def malloc (sz : Nat) : Eval (Heap × SymLoc) := h.alignedAlloc cfg cfg.alignofMalloc sz

def aligned_alloc (align sz : Nat) : Eval (Heap × SymLoc) :=
  if sz = 0 then
    .error (IMPL "STDLIB8" "Called calloc, malloc, realloc, or aligned_alloc with a zero size parameter.")
  else h.alignedAlloc cfg align sz

/-- `calloc`, with what `calloc-aux` does to the pointer it gets. -/
def calloc (n size : Nat) : Eval (Heap × SymLoc) := do
  let (h, l) ← h.malloc cfg (n * size)
  let b ← l.base
  let M ← zeroObject cfg h.mem b
  return ({ h with thread := { h.thread with mem := M } }, l)

/-- `realloc`; the new base is `bnew(!I, type(no-type), alloc)`. -/
def realloc (l : SymLoc) (newLen : Nat) : Eval (Heap × SymLoc) :=
  match l.stripProv with
  | .loc old o =>
    match h.malloced old, decide (o = 0) with
    | some oldLen, true => do
      let new := obj h.next cfg.alignofMalloc .alloc
      let s ← h.thread.realloc old new oldLen newLen
      return (⟨s, Function.update (Function.update h.malloced old none) new (some newLen), h.next + 1⟩,
        newPointer new newLen)
    | _, _ =>
      .error (UNDEF "STDLIB1" "Called realloc on memory not allocated by malloc, or already freed.")
  | _ => h.malloc cfg newLen

def free (l : SymLoc) : Eval Heap :=
  match l.stripProv with
  | .loc b o =>
    if h.malloced b ≠ none ∧ o = 0 then
      .ok { h with thread := h.thread.deleteObject b, malloced := Function.update h.malloced b none }
    -- the native free, outside the model
    else if isNativeBase b then .error .stuck
    else .error (UNDEF "STDLIB2" "Called free on memory not allocated by malloc, or already freed.")
  | _ => .ok h

end Heap

/-- A call to the heap. -/
inductive HeapCall
  | malloc (sz : Nat)
  | calloc (n size : Nat)
  | realloc (l : SymLoc) (sz : Nat)
  | aligned_alloc (align sz : Nat)
  | free (l : SymLoc)

/-- The call and the pointer it returns; `free` returns `voidVal`. -/
def Heap.call (cfg : Settings) (h : Heap) : HeapCall → Eval (Heap × Option SymLoc)
  | .malloc sz => do
    let (h, l) ← h.malloc cfg sz
    return (h, some l)
  | .calloc n size => do
    let (h, l) ← h.calloc cfg n size
    return (h, some l)
  | .realloc l sz => do
    let (h, l) ← h.realloc cfg l sz
    return (h, some l)
  | .aligned_alloc align sz => do
    let (h, l) ← h.aligned_alloc cfg align sz
    return (h, some l)
  | .free l => do
    let h ← h.free l
    return (h, none)

/-- A call, or an access of the program in between. -/
inductive HeapAction
  | call (c : HeapCall)
  | access (a : Action)

def Heap.step (cfg : Settings) (E : Effective) (h : Heap) : HeapAction → Eval Heap
  | .call c => do
    let (h, _) ← h.call cfg c
    return h
  | .access a => do
    let s ← h.thread.step E a
    return { h with thread := s }

/-- The states reached by calls and accesses that all succeed. -/
inductive Heap.Runs (cfg : Settings) (E : Effective) (h₀ : Heap) : List HeapAction → Heap → Prop
  | start : Runs cfg E h₀ [] h₀
  | snoc {acts : List HeapAction} {h h' : Heap} {a : HeapAction} (hr : Runs cfg E h₀ acts h)
    (hstep : h.step cfg E a = .ok h') : Runs cfg E h₀ (acts ++ [a]) h'

/-! ## What a step does to the heap -/

/-- What there is after a step: as before, one object more, one less, or one in the place of another. -/
inductive Heap.Change (h h' : Heap) : Prop
  | same (hlens : h'.mem.lens = h.mem.lens) (hmal : h'.malloced = h.malloced) (hnext : h'.next = h.next)
  | added (align n : Nat)
      (hlens : h'.mem.lens = Function.update h.mem.lens (obj h.next align .alloc) (some n))
      (hmal : h'.malloced = Function.update h.malloced (obj h.next align .alloc) (some n))
      (hnext : h'.next = h.next + 1)
  | removed (b : SymBase) (hlens : h'.mem.lens = Function.update h.mem.lens b none)
      (hmal : h'.malloced = Function.update h.malloced b none) (hnext : h'.next = h.next)
  | moved (old : SymBase) (align n : Nat) (hold : h.malloced old ≠ none)
      (hlens : h'.mem.lens =
        Function.update (Function.update h.mem.lens (obj h.next align .alloc) (some n)) old none)
      (hmal : h'.malloced =
        Function.update (Function.update h.malloced old none) (obj h.next align .alloc) (some n))
      (hnext : h'.next = h.next + 1)

section Changes

variable {cfg : Settings} {E : Effective} {h h' : Heap} {l l' : SymLoc}

/-- An allocation gives a null pointer and changes nothing, or makes one new object. -/
theorem alignedAlloc_cases {align sz : Nat} (hr : h.alignedAlloc cfg align sz = .ok (h', l)) :
    (cfg.maxHeapBound < sz ∧ h' = h ∧ l = .NullPointer) ∨
      (l = Heap.newPointer (obj h.next align .alloc) sz ∧ h'.next = h.next + 1 ∧
        h'.mem.lens = Function.update h.mem.lens (obj h.next align .alloc) (some sz) ∧
        h'.malloced = Function.update h.malloced (obj h.next align .alloc) (some sz)) := by
  unfold Heap.alignedAlloc at hr
  split at hr
  · obtain ⟨M, hM, hr⟩ := Eval.bind_eq_ok.mp hr
    cases hr
    exact .inr ⟨rfl, rfl, (alloc_eq_ok hM).2, rfl⟩
  · rename_i hsz
    cases hr
    exact .inl ⟨by omega, rfl, rfl⟩

theorem alignedAlloc_change {align sz : Nat} (hr : h.alignedAlloc cfg align sz = .ok (h', l)) :
    h.Change h' := by
  rcases alignedAlloc_cases hr with ⟨-, rfl, -⟩ | ⟨-, hnext, hlens, hmal⟩
  · exact .same rfl rfl rfl
  · exact .added align sz hlens hmal hnext

theorem calloc_change {n size : Nat} (hr : h.calloc cfg n size = .ok (h', l)) : h.Change h' := by
  obtain ⟨⟨h₁, l₁⟩, hmalloc, hr⟩ := Eval.bind_eq_ok.mp hr
  obtain ⟨b, -, hr⟩ := Eval.bind_eq_ok.mp hr
  obtain ⟨M, hM, hr⟩ := Eval.bind_eq_ok.mp hr
  cases hr
  -- clearing the object does not change which objects there are
  have hlens : M.lens = h₁.mem.lens := zeroObject_eq_ok hM
  rcases alignedAlloc_cases hmalloc with ⟨-, rfl, -⟩ | ⟨-, hnext, hl, hmal⟩
  · exact .same hlens rfl rfl
  · exact .added _ _ (hlens.trans hl) hmal hnext

theorem Thread.realloc_eq_ok {s s' : Thread} {old new : SymBase} {oldLen newLen : Nat}
    (hr : s.realloc old new oldLen newLen = .ok s') :
    s'.mem.lens = Function.update (Function.update s.mem.lens new (some newLen)) old none := by
  obtain ⟨M₁, h₁, hr⟩ := Eval.bind_eq_ok.mp hr
  obtain ⟨M₂, h₂, hr⟩ := Eval.bind_eq_ok.mp hr
  obtain ⟨M₃, h₃, hr⟩ := Eval.bind_eq_ok.mp hr
  cases hr
  calc Mem.lens (Function.update M₃ old none)
      = Function.update M₃.lens old none := lens_update M₃ old none
    _ = Function.update M₁.lens old none := by rw [copyObjectType_eq_ok h₃, copyBytes_eq_ok h₂]
    _ = _ := by rw [(alloc_eq_ok h₁).2]

theorem realloc_change {sz : Nat} (hr : h.realloc cfg l sz = .ok (h', l')) : h.Change h' := by
  unfold Heap.realloc at hr
  split at hr
  · rename_i old o _
    split at hr
    · rename_i oldLen hold _
      obtain ⟨s, hs, hr⟩ := Eval.bind_eq_ok.mp hr
      cases hr
      exact .moved old cfg.alignofMalloc sz (by simp [hold]) (Thread.realloc_eq_ok hs) rfl rfl
    · cases hr
  · exact alignedAlloc_change hr

theorem free_change (hr : h.free l = .ok h') : h.Change h' := by
  unfold Heap.free at hr
  split at hr
  · rename_i b o _
    split at hr
    · cases hr
      exact .removed b (lens_update h.mem b none) rfl rfl
    · split at hr <;> cases hr
  · cases hr
    exact .same rfl rfl rfl

theorem call_change {c : HeapCall} {r : Option SymLoc} (hr : h.call cfg c = .ok (h', r)) :
    h.Change h' := by
  cases c with
  | malloc sz =>
    obtain ⟨⟨h₁, l⟩, hc, hr⟩ := Eval.bind_eq_ok.mp hr
    cases hr
    exact alignedAlloc_change hc
  | calloc n size =>
    obtain ⟨⟨h₁, l⟩, hc, hr⟩ := Eval.bind_eq_ok.mp hr
    cases hr
    exact calloc_change hc
  | realloc p sz =>
    obtain ⟨⟨h₁, l⟩, hc, hr⟩ := Eval.bind_eq_ok.mp hr
    cases hr
    exact realloc_change hc
  | aligned_alloc align sz =>
    obtain ⟨⟨h₁, l⟩, hc, hr⟩ := Eval.bind_eq_ok.mp hr
    cases hr
    unfold Heap.aligned_alloc at hc
    split at hc
    · cases hc
    · exact alignedAlloc_change hc
  | free p =>
    obtain ⟨h₁, hc, hr⟩ := Eval.bind_eq_ok.mp hr
    cases hr
    exact free_change hc

/-- An access of the program makes and deletes no object. -/
theorem lens_step {s s' : Thread} {a : Action} (hs : s.step E a = .ok s') : s'.mem.lens = s.mem.lens := by
  cases a with
  | write l bytes =>
    obtain ⟨b, o, -, rfl⟩ := writeBytes_eq_ok hs
    rfl
  | fill l n v =>
    obtain ⟨b, o, -, rfl⟩ := writeBytesFill_eq_ok hs
    rfl
  | init l bytes =>
    obtain ⟨b, o, -, rfl⟩ := initBytes_eq_ok hs
    rfl
  | initFill l n v =>
    obtain ⟨b, o, -, rfl⟩ := initBytesFill_eq_ok hs
    rfl
  | read l size T =>
    obtain ⟨_, -, hs⟩ := Eval.bind_eq_ok.mp hs
    cases hs
    rfl
  | flush =>
    have hs : s.flush = .ok s' := hs
    unfold Thread.flush at hs
    split at hs
    · cases hs
    · obtain ⟨M, hM, hs⟩ := Eval.bind_eq_ok.mp hs
      cases hs
      rw [BufferItem.flush_eq] at hM
      exact lens_bufferWrite hM
  | sequencePoint =>
    cases hs
    rfl

/-- **What one step does to the heap.** -/
theorem step_change {a : HeapAction} (hs : h.step cfg E a = .ok h') : h.Change h' := by
  cases a with
  | call c =>
    obtain ⟨⟨h₁, r⟩, hc, hs⟩ := Eval.bind_eq_ok.mp hs
    cases hs
    exact call_change hc
  | access a =>
    obtain ⟨s, hs', hs⟩ := Eval.bind_eq_ok.mp hs
    cases hs
    exact .same (lens_step hs') rfl rfl

end Changes

/-! ## The invariant -/

/-- `<malloced>` is the lengths of the objects from the heap, and no object has a number that is
    still to be given out. -/
structure Heap.Inv (h : Heap) : Prop where
  malloced_eq : ∀ b, h.malloced b = if b.d = .alloc then h.mem.lens b else none
  fresh : ∀ b, h.mem.lens b ≠ none → b.id < h.next

/-- Before the program has called the heap: nothing there is from the heap. -/
structure Heap.Initial (h : Heap) : Prop where
  malloced : ∀ b, h.malloced b = none
  mem : ∀ b, h.mem b ≠ none → b.d ≠ .alloc ∧ b.id < h.next

section Invariant

variable {cfg : Settings} {E : Effective} {h h' h₀ : Heap}

theorem Heap.Initial.inv (hi : h.Initial) : h.Inv where
  malloced_eq := by
    intro b
    rw [hi.malloced b]
    split_ifs with hd
    · by_contra hne
      have hb : h.mem b ≠ none := fun hb => hne (lens_eq_none.mpr hb).symm
      exact (hi.mem b hb).1 hd
    · rfl
  fresh := fun b hb => (hi.mem b fun h => hb (lens_eq_none.mpr h)).2

namespace Heap.Inv

/-- An object from the heap is not the next one. -/
theorem ne_next (hi : h.Inv) {b : SymBase} (hb : h.malloced b ≠ none) (align : Nat) :
    b ≠ obj h.next align .alloc := by
  rintro rfl
  rw [hi.malloced_eq] at hb
  have hlens : h.mem.lens (obj h.next align .alloc) ≠ none := by simpa [obj] using hb
  exact absurd (hi.fresh _ hlens) (by simp [obj])

/-- There is no object with the next number. -/
theorem mem_next (hi : h.Inv) (align : Nat) : h.mem (obj h.next align .alloc) = none := by
  by_contra hne
  exact absurd (hi.fresh _ fun hl => hne (lens_eq_none.mp hl)) (by simp [obj])

/-- **Every change keeps the invariant.** -/
theorem change (hi : h.Inv) (hc : h.Change h') : h'.Inv := by
  cases hc with
  | same hlens hmal hnext =>
    refine ⟨fun b => ?_, fun b hb => ?_⟩
    · rw [hmal, hlens]
      exact hi.malloced_eq b
    · rw [hlens] at hb
      rw [hnext]
      exact hi.fresh b hb
  | added align n hlens hmal hnext =>
    refine ⟨fun b => ?_, fun b hb => ?_⟩
    · rw [hmal, hlens]
      by_cases hb : b = obj h.next align .alloc
      · subst hb
        simp [obj]
      · simpa [hb] using hi.malloced_eq b
    · rw [hnext]
      by_cases hb' : b = obj h.next align .alloc
      · subst hb'
        simp [obj]
      · rw [hlens, Function.update_of_ne hb'] at hb
        exact Nat.lt_succ_of_lt (hi.fresh b hb)
  | removed c hlens hmal hnext =>
    refine ⟨fun b => ?_, fun b hb => ?_⟩
    · rw [hmal, hlens]
      by_cases hb : b = c
      · subst hb
        simp
      · simpa [hb] using hi.malloced_eq b
    · rw [hnext]
      by_cases hb' : b = c
      · subst hb'
        simp [hlens] at hb
      · rw [hlens, Function.update_of_ne hb'] at hb
        exact hi.fresh b hb
  | moved old align n hold hlens hmal hnext =>
    have hne := hi.ne_next hold align
    refine ⟨fun b => ?_, fun b hb => ?_⟩
    · rw [hmal, hlens]
      by_cases hb : b = obj h.next align .alloc
      · subst hb
        rw [Function.update_self, Function.update_of_ne (Ne.symm hne), Function.update_self]
        simp [obj]
      · by_cases hb' : b = old
        · subst hb'
          simp [hne]
        · simpa [hb, hb'] using hi.malloced_eq b
    · rw [hnext]
      by_cases hb' : b = obj h.next align .alloc
      · subst hb'
        simp [obj]
      · by_cases hb'' : b = old
        · subst hb''
          simp [hlens] at hb
        · rw [hlens, Function.update_of_ne hb'', Function.update_of_ne hb'] at hb
          exact Nat.lt_succ_of_lt (hi.fresh b hb)

end Heap.Inv

/-- The invariant holds in every state that is reached. -/
theorem Heap.Runs.inv {acts : List HeapAction} (hr : Heap.Runs cfg E h₀ acts h) (hi : h₀.Initial) :
    h.Inv := by
  induction hr with
  | start => exact hi.inv
  | snoc _ hstep ih => exact ih.change (step_change hstep)

end Invariant

/-! ## What is reported, and what a request over the bound gives -/

/-- A live object from the heap, of `n` bytes. -/
def Heap.IsLive (h : Heap) (b : SymBase) (n : Nat) : Prop :=
  b.d = .alloc ∧ ∃ x, h.mem b = some x ∧ x.len = n

/-- The pointer is to the start of a live object from the heap. -/
def Heap.PointsToStart (h : Heap) (l : SymLoc) : Prop :=
  ∃ b n, l.stripProv = .loc b 0 ∧ h.IsLive b n

/-- How many bytes a call asks for. -/
def HeapCall.request : HeapCall → Nat
  | .malloc sz => sz
  | .calloc n size => n * size
  | .realloc _ sz => sz
  | .aligned_alloc _ sz => sz
  | .free _ => 0

/-- The call gets its object from `alignedAlloc` and returns what it gives. -/
def HeapCall.IsPlain : HeapCall → Prop
  | .calloc _ _ => False
  | .realloc l _ => l = .NullPointer
  | _ => True

section Answers

variable {cfg : Settings} {h : Heap} {l : SymLoc}

theorem Heap.Inv.malloced_iff (hi : h.Inv) (b : SymBase) (n : Nat) :
    h.malloced b = some n ↔ h.IsLive b n := by
  rw [hi.malloced_eq b]
  unfold Heap.IsLive
  by_cases hd : b.d = .alloc
  · rw [if_pos hd]
    simp only [hd, true_and]
    exact Option.map_eq_some_iff
  · simp [hd]

theorem stripProv_of_ne_null (hl : l ≠ .NullPointer) : ∃ b o, l.stripProv = .loc b o := by
  cases l with
  | loc b o => exact ⟨b, o, rfl⟩
  | loc3 b o ps => exact ⟨b, o, rfl⟩
  | NullPointer => exact absurd rfl hl

/-- The test both `free` and `realloc` make. -/
theorem Heap.Inv.not_malloced (hi : h.Inv) {b : SymBase} {o : Int} (hl : l.stripProv = .loc b o)
    (hp : ¬h.PointsToStart l) : ¬(h.malloced b ≠ none ∧ o = 0) := by
  rintro ⟨hb, rfl⟩
  obtain ⟨n, hn⟩ := Option.ne_none_iff_exists'.mp hb
  exact hp ⟨b, n, hl, (hi.malloced_iff b n).mp hn⟩

theorem realloc_reports (hi : h.Inv) (hl : l ≠ .NullPointer) (hp : ¬h.PointsToStart l) (sz : Nat) :
    h.call cfg (.realloc l sz) =
      .error (UNDEF "STDLIB1" "Called realloc on memory not allocated by malloc, or already freed.") := by
  obtain ⟨b, o, hloc⟩ := stripProv_of_ne_null hl
  have hnot := hi.not_malloced hloc hp
  have hr : h.realloc cfg l sz =
      .error (UNDEF "STDLIB1" "Called realloc on memory not allocated by malloc, or already freed.") := by
    unfold Heap.realloc
    rw [hloc]
    split
    · rename_i old o' heq
      cases heq
      split
      · rename_i hm ho
        exact absurd ⟨by simp [hm], of_decide_eq_true ho⟩ hnot
      · rfl
    · rename_i hne
      exact absurd rfl (hne b o)
  simp [Heap.call, hr, bind, Except.bind]

theorem free_reports (hi : h.Inv) (hl : l ≠ .NullPointer) (hp : ¬h.PointsToStart l)
    (hnat : l.isNativeLoc = false) :
    h.call cfg (.free l) =
      .error (UNDEF "STDLIB2" "Called free on memory not allocated by malloc, or already freed.") := by
  obtain ⟨b, o, hloc⟩ := stripProv_of_ne_null hl
  have hnot := hi.not_malloced hloc hp
  have hbase : isNativeBase b = false := by
    cases l with
    | loc c p => cases hloc; exact hnat
    | loc3 c p ps => cases hloc; exact hnat
    | NullPointer => exact absurd rfl hl
  have hr : h.free l =
      .error (UNDEF "STDLIB2" "Called free on memory not allocated by malloc, or already freed.") := by
    unfold Heap.free
    rw [hloc]
    simp only [if_neg hnot, hbase]
    rfl
  simp [Heap.call, hr, bind, Except.bind]

/-- `alignedAlloc` gives a null pointer over the bound. -/
theorem alignedAlloc_over (align : Nat) {sz : Nat} (hsz : cfg.maxHeapBound < sz) :
    h.alignedAlloc cfg align sz = .ok (h, .NullPointer) := by
  unfold Heap.alignedAlloc
  rw [if_neg (by omega)]

/-- What `calloc` does over the bound: the null pointer has no base. -/
theorem calloc_over {n size : Nat} (hsz : cfg.maxHeapBound < n * size) :
    h.calloc cfg n size = .error .stuck := by
  unfold Heap.calloc Heap.malloc
  rw [alignedAlloc_over _ hsz]
  rfl

/-- `realloc` of a pointer that is not null never returns a null pointer. -/
theorem realloc_ne_null (hl : l ≠ .NullPointer) (sz : Nat) (h' : Heap) :
    h.realloc cfg l sz ≠ .ok (h', .NullPointer) := by
  intro hr
  obtain ⟨b, o, hloc⟩ := stripProv_of_ne_null hl
  unfold Heap.realloc at hr
  rw [hloc] at hr
  split at hr
  · split at hr
    · obtain ⟨s, -, hr⟩ := Eval.bind_eq_ok.mp hr
      cases hr
    · cases hr
  · rename_i hne
    exact hne b o rfl

/-- **A request over the bound** is answered with a null pointer, and nothing changes, exactly when the
    call is plain. -/
theorem call_over_iff {c : HeapCall} (hsz : cfg.maxHeapBound < c.request) :
    h.call cfg c = .ok (h, some .NullPointer) ↔ c.IsPlain := by
  cases c with
  | malloc sz =>
    have hr : h.malloc cfg sz = .ok (h, .NullPointer) := alignedAlloc_over _ hsz
    simp [Heap.call, hr, HeapCall.IsPlain, bind, Except.bind, pure, Except.pure]
  | aligned_alloc align sz =>
    have hsz : cfg.maxHeapBound < sz := hsz
    have hr : h.aligned_alloc cfg align sz = .ok (h, .NullPointer) := by
      unfold Heap.aligned_alloc
      rw [if_neg (by omega)]
      exact alignedAlloc_over align hsz
    simp [Heap.call, hr, HeapCall.IsPlain, bind, Except.bind, pure, Except.pure]
  | calloc n size =>
    have hr : h.calloc cfg n size = .error .stuck := calloc_over hsz
    simp [Heap.call, hr, HeapCall.IsPlain, bind, Except.bind]
  | realloc p sz =>
    by_cases hp : p = .NullPointer
    · subst hp
      have hr : h.realloc cfg .NullPointer sz = .ok (h, .NullPointer) := alignedAlloc_over _ hsz
      simp [Heap.call, hr, HeapCall.IsPlain, bind, Except.bind, pure, Except.pure]
    · simp only [HeapCall.IsPlain, hp, iff_false]
      intro hr
      obtain ⟨⟨h₁, l₁⟩, hc, hr⟩ := Eval.bind_eq_ok.mp hr
      cases hr
      exact realloc_ne_null hp sz _ hc
  | free p => exact absurd hsz (Nat.not_lt_zero _)

/-! ### No call gets stuck but these -/

theorem exists_alignedAlloc (cfg : Settings) (hi : h.Inv) (align sz : Nat) :
    ∃ r, h.alignedAlloc cfg align sz = .ok r := by
  unfold Heap.alignedAlloc
  split
  · obtain ⟨M, hM⟩ := exists_alloc (hi.mem_next align) rfl Thread.noType sz
    simp only [hM]
    exact ⟨_, rfl⟩
  · exact ⟨_, rfl⟩

theorem exists_calloc (hi : h.Inv) {n size : Nat} (hsz : n * size ≤ cfg.maxHeapBound) :
    ∃ r, h.calloc cfg n size = .ok r := by
  obtain ⟨⟨h₁, l₁⟩, hr⟩ := exists_alignedAlloc cfg hi cfg.alignofMalloc (n * size)
  rcases alignedAlloc_cases hr with ⟨hover, -, -⟩ | ⟨rfl, -, hlens, -⟩
  · omega
  · have hb : h₁.mem.lens (obj h.next cfg.alignofMalloc .alloc) = some (n * size) := by
      rw [hlens, Function.update_self]
    obtain ⟨M, hM⟩ := exists_zeroObject cfg hb
    unfold Heap.calloc Heap.malloc
    simp only [hr, bind, Except.bind, Heap.newPointer, SymLoc.addProv, SymLoc.base, hM]
    exact ⟨_, rfl⟩

theorem exists_realloc (hi : h.Inv) (hp : h.PointsToStart l) (sz : Nat) :
    ∃ r, h.realloc cfg l sz = .ok r := by
  obtain ⟨b, n, hl, hlive⟩ := hp
  have hb := (hi.malloced_iff b n).mpr hlive
  have hne := hi.ne_next (b := b) (by simp [hb]) cfg.alignofMalloc
  have hold : h.mem.lens b = some n := by
    obtain ⟨-, x, hx, hlen⟩ := hlive
    rw [Mem.lens, hx, Option.map_some, hlen]
  -- the new object is as long as asked, the old one is still there, so every step goes through
  obtain ⟨M₁, h₁⟩ := exists_alloc (hi.mem_next cfg.alignofMalloc) rfl Thread.noType sz
  have hl₁ := (alloc_eq_ok h₁).2
  have hold₁ : M₁.lens b = some n := by rw [hl₁, Function.update_of_ne hne, hold]
  have hnew₁ : M₁.lens (obj h.next cfg.alignofMalloc .alloc) = some sz := by rw [hl₁, Function.update_self]
  obtain ⟨M₂, h₂⟩ := exists_copyBytes hold₁ hnew₁ (Nat.min_le_right n sz)
  have hl₂ := copyBytes_eq_ok h₂
  obtain ⟨M₃, h₃⟩ := exists_copyObjectType (hl₂ ▸ hold₁) (hl₂ ▸ hnew₁)
  have hs : h.thread.realloc b (obj h.next cfg.alignofMalloc .alloc) n sz =
      .ok ({ h.thread with mem := M₃ }.deleteObject b) := by
    unfold Thread.realloc
    simp only [h₁, h₂, h₃, bind, Except.bind]
    rfl
  unfold Heap.realloc
  simp only [hl, hb, hs, decide_true, bind, Except.bind]
  exact ⟨_, rfl⟩

/-- **A call returns or is reported**, unless it is a `calloc` over the bound or a `free` of a native
    pointer. -/
theorem call_progress (hi : h.Inv) (c : HeapCall) :
    (∃ r, h.call cfg c = .ok r) ∨ (∃ msg, h.call cfg c = .error (.report msg)) ∨
      (∃ n size, c = .calloc n size ∧ cfg.maxHeapBound < n * size) ∨
      ∃ l, c = .free l ∧ l.isNativeLoc = true := by
  cases c with
  | malloc sz =>
    obtain ⟨⟨h', l⟩, hr⟩ := exists_alignedAlloc cfg hi cfg.alignofMalloc sz
    exact .inl ⟨_, Eval.bind_eq_ok.mpr ⟨_, hr, rfl⟩⟩
  | aligned_alloc align sz =>
    by_cases hsz : sz = 0
    · subst hsz
      exact .inr (.inl ⟨_, rfl⟩)
    · obtain ⟨⟨h', l⟩, hr⟩ := exists_alignedAlloc cfg hi align sz
      refine .inl ⟨_, Eval.bind_eq_ok.mpr ⟨⟨h', l⟩, ?_, rfl⟩⟩
      unfold Heap.aligned_alloc
      rw [if_neg hsz, hr]
  | calloc n size =>
    by_cases hsz : n * size ≤ cfg.maxHeapBound
    · obtain ⟨r, hr⟩ := exists_calloc hi hsz
      exact .inl ⟨_, Eval.bind_eq_ok.mpr ⟨_, hr, rfl⟩⟩
    · exact .inr (.inr (.inl ⟨n, size, rfl, by omega⟩))
  | realloc p sz =>
    by_cases hnull : p = .NullPointer
    · subst hnull
      obtain ⟨r, hr⟩ := exists_alignedAlloc cfg hi cfg.alignofMalloc sz
      exact .inl ⟨_, Eval.bind_eq_ok.mpr ⟨r, hr, rfl⟩⟩
    · by_cases hp : h.PointsToStart p
      · obtain ⟨r, hr⟩ := exists_realloc hi hp sz
        exact .inl ⟨_, Eval.bind_eq_ok.mpr ⟨_, hr, rfl⟩⟩
      · exact .inr (.inl ⟨_, realloc_reports hi hnull hp sz⟩)
  | free p =>
    by_cases hnull : p = .NullPointer
    · subst hnull
      exact .inl ⟨_, rfl⟩
    · by_cases hp : h.PointsToStart p
      · obtain ⟨b, n, hl, hlive⟩ := hp
        have hr : ∃ h', h.free p = .ok h' := by
          unfold Heap.free
          rw [hl]
          exact ⟨_, if_pos ⟨by simp [(hi.malloced_iff b n).mpr hlive], rfl⟩⟩
        obtain ⟨h', hr⟩ := hr
        exact .inl ⟨_, Eval.bind_eq_ok.mpr ⟨h', hr, rfl⟩⟩
      · by_cases hnat : p.isNativeLoc = true
        · exact .inr (.inr (.inr ⟨p, rfl, hnat⟩))
        · exact .inr (.inl ⟨_, free_reports hi hnull hp (by simpa using hnat)⟩)

end Answers

/-- **The heap in every run.**  After any calls and accesses of the program that succeed:
    `<malloced>` has one entry for each live object from the heap, with its length; `realloc` and
    `free` of another pointer are reported (`free` of a native one is the native `free`'s); and a
    request over the bound gives a null pointer and changes nothing if and only if it is not a `calloc`
    and not a `realloc` of a pointer that is not null. -/
theorem heap_runs (cfg : Settings) (E : Effective) (h₀ h : Heap) (acts : List HeapAction)
    (hinit : h₀.Initial) (hruns : Heap.Runs cfg E h₀ acts h) :
    (∀ b n, h.malloced b = some n ↔ h.IsLive b n) ∧
    (∀ l, l ≠ .NullPointer → ¬h.PointsToStart l →
      (∀ sz, h.call cfg (.realloc l sz) =
        .error (UNDEF "STDLIB1" "Called realloc on memory not allocated by malloc, or already freed.")) ∧
      (l.isNativeLoc = false → h.call cfg (.free l) =
        .error (UNDEF "STDLIB2" "Called free on memory not allocated by malloc, or already freed."))) ∧
    (∀ c : HeapCall, cfg.maxHeapBound < c.request →
      (h.call cfg c = .ok (h, some .NullPointer) ↔ c.IsPlain)) := by
  have hi := hruns.inv hinit
  refine ⟨hi.malloced_iff, ?_, fun c hc => call_over_iff hc⟩
  intro l hl hp
  exact ⟨realloc_reports hi hl hp, free_reports hi hl hp⟩

/-! ## From an empty memory -/

section Empty

private def emptyHeap : Heap := ⟨⟨0, fun _ => none, [], ∅⟩, fun _ => none, 0⟩

private theorem emptyHeap_initial : emptyHeap.Initial where
  malloced := fun _ => rfl
  mem := fun _ hb => absurd rfl hb

private def noEffect : Effective := ⟨fun _ _ => noQuals, fun _ _ => ⟨.atom .trap, 8⟩⟩

/-- What the first `malloc` returns. -/
private def firstPointer : SymLoc := Heap.newPointer (obj 0 16 .alloc) 4

private theorem runs_malloc_free : ∃ h, Heap.Runs x86GccLimitedLibc noEffect emptyHeap
    [.call (.malloc 4), .call (.free firstPointer)] h ∧ h.malloced (obj 0 16 .alloc) = none :=
  ⟨_, .snoc (.snoc .start rfl) rfl, rfl⟩

/-- Four bytes are allocated and freed, and freed again: that is reported. -/
theorem heap_runs_double_free :
    ∃ h, Heap.Runs x86GccLimitedLibc noEffect emptyHeap
        [.call (.malloc 4), .call (.free firstPointer)] h ∧
      h.call x86GccLimitedLibc (.free firstPointer) =
        .error (UNDEF "STDLIB2" "Called free on memory not allocated by malloc, or already freed.") := by
  obtain ⟨h, hrun, hnone⟩ := runs_malloc_free
  obtain ⟨hlive, hrep, -⟩ := heap_runs x86GccLimitedLibc noEffect emptyHeap h _ emptyHeap_initial hrun
  refine ⟨h, hrun, (hrep firstPointer (by decide) ?_).2 rfl⟩
  rintro ⟨b, n, hl, hb⟩
  cases hl
  have hsome := (hlive _ n).mpr hb
  rw [hnone] at hsome
  cases hsome

/-- `calloc(2, 2^31)` is over the bound of the profile and returns nothing. -/
theorem heap_over_bound_not_null :
    ¬∀ (cfg : Settings) (E : Effective) (h₀ h : Heap) (acts : List HeapAction), h₀.Initial →
      Heap.Runs cfg E h₀ acts h → ∀ n size, cfg.maxHeapBound < n * size →
      h.call cfg (.calloc n size) = .ok (h, some .NullPointer) := by
  intro hall
  have hover : x86GccLimitedLibc.maxHeapBound < 2 * 2 ^ 31 := by decide
  have hnull := hall x86GccLimitedLibc noEffect emptyHeap emptyHeap [] emptyHeap_initial .start 2 (2 ^ 31)
    hover
  have hstuck : emptyHeap.calloc x86GccLimitedLibc 2 (2 ^ 31) = .error .stuck := calloc_over hover
  obtain ⟨r, hr, -⟩ := Eval.bind_eq_ok.mp hnull
  rw [hstuck] at hr
  cases hr

end Empty

end CSemantics
