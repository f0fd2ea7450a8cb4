/-
  `setjmp` and `longjmp`.

  A thread has a stack of frames, a frame a stack of blocks, and a block the objects declared in it, which leaving
  the block deletes.  `longjmp` leaves the frames above the one that called `setjmp` block by block.  That frame
  itself it REPLACES by the saved one, and deletes the objects of its innermost block only:

      frames above      every block is popped
      target frame      innermost block deleted, the blocks around it NOT
      frames below      as they are

  So it is right when the innermost block is new since `setjmp` and the other new blocks are empty, or when no
  block is new and the innermost block is empty.  What is subtracted, the objects of the saved frame, are those of
  the frame of `_setjmp` itself, and these are gone.

  A step of the thread changes its innermost frame (`Local`), or calls, or returns.  `Local.changes` says once what
  a step can do to a frame; the invariant of one configuration (`Config.Ok`) and what a run keeps of the
  configuration at `setjmp` (`Since`) follow from it.
-/
import CSemantics.Common
import CSemantics.Symloc
import CSemantics.Statement
import CSemantics.Lib.AssocMap
import CSemantics.Memory.Objects

namespace CSemantics.Setjmp

/-! ## Frames and blocks -/

/-- The names in `<env>`: `funLabel` is bound to an object of the function that is running. -/
inductive Name
  | funLabel
  | var (x : VarId)
  deriving DecidableEq

/-- `<block-control>`, with the cells that matter here; `id` tells one block from another, and no rule reads it. -/
structure Block where
  id : Nat
  env : List (Name × SymBase)
  localAddresses : Finset SymBase

/-- `<function-control>`.  The block history has one entry for each block on the stack. -/
structure FunctionControl where
  blockControl : Block
  blockStack : List Block

def FunctionControl.blocks (f : FunctionControl) : List Block := f.blockControl :: f.blockStack

/-- `<thread-local>` -/
structure ThreadLocal where
  functionControl : FunctionControl
  callStack : List FunctionControl

def ThreadLocal.frames (t : ThreadLocal) : List FunctionControl := t.functionControl :: t.callStack

/-- A running thread; `next` is the number the next `!I` gets, and `nextBlock` the next block. -/
structure Config where
  thread : ThreadLocal
  mem : Mem
  next : Nat
  nextBlock : Nat

/-- An object that a declaration in a block has made. -/
def isLocal (b : SymBase) : Bool :=
  match b.d with
  | .auto _ => true
  | .register _ => true
  | _ => false

/-- `deleteObjects(Bases)` -/
def deleteObjects (M : Mem) (bs : Finset SymBase) : Mem := fun b => if b ∈ bs then none else M b

/-! ## What a thread does -/

/-- What happens in the innermost frame: `Local f M n k f' M' n' k'`, with the next number `n` of an object and
    `k` of a block. -/
inductive Local : FunctionControl → Mem → Nat → Nat → FunctionControl → Mem → Nat → Nat → Prop
  /-- `declareAndDefine` -/
  | declare {c cs M n k x b o} (hb : isLocal b = true) (hn : b.id = n) (hx : x ≠ .funLabel) :
      Local ⟨c, cs⟩ M n k
        ⟨{ c with env := AssocMap.update c.env x b, localAddresses := insert b c.localAddresses }, cs⟩
        (Function.update M b (some o)) (n + 1) k
  /-- A static or external object gets a name. -/
  | addToEnv {c cs M n k x b} (hb : isLocal b = false) (hx : x ≠ .funLabel) :
      Local ⟨c, cs⟩ M n k ⟨{ c with env := AssocMap.update c.env x b }, cs⟩ M n k
  /-- `rewindEnv`, of a `goto`: the name is what it is in the block around, or in the file, or nothing. -/
  | rewind {c cs M n k x b outer} (hx : x ≠ .funLabel) (henv : c.env.lookup x = some b) (hb : b ∈ c.localAddresses)
      (hother : ∀ y, y ≠ x → c.env.lookup y ≠ some b)
      (houter : ∀ b', outer = some b' → isLocal b' = false ∨ ∃ c', cs.head? = some c' ∧ c'.env.lookup x = some b') :
      Local ⟨c, cs⟩ M n k
        ⟨{ c with
            env := match outer with
              | some b' => AssocMap.update c.env x b'
              | none => AssocMap.remove c.env x
            localAddresses := c.localAddresses.erase b }, cs⟩
        (deleteObjects M {b}) n k
  | pushBlock {c cs M n k} : Local ⟨c, cs⟩ M n k ⟨⟨k, c.env, ∅⟩, c :: cs⟩ M n (k + 1)
  | popBlock {c c' cs M n k} : Local ⟨c, c' :: cs⟩ M n k ⟨c', cs⟩ (deleteObjects M c.localAddresses) n k
  /-- Anything else: objects are written, and objects that are not declared in a block come and go. -/
  | access {f M n k M' n'} (hM : ∀ b, isLocal b = true → ((M' b).isSome ↔ (M b).isSome)) (hn : n ≤ n') :
      Local f M n k f M' n' k

inductive Step : Config → Config → Prop
  | inFrame {f f' fs M M' n n' k k'} (h : Local f M n k f' M' n' k') :
      Step ⟨⟨f, fs⟩, M, n, k⟩ ⟨⟨f', fs⟩, M', n', k'⟩
  /-- `application`: the globals are in the environment, and the function gets its `funLabel`. -/
  | call {f fs M n k genv b o} (hgenv : ∀ x b', genv.lookup x = some b' → isLocal b' = false)
      (hb : isLocal b = true) (hn : b.id = n) :
      Step ⟨⟨f, fs⟩, M, n, k⟩
        ⟨⟨⟨⟨k, AssocMap.update genv .funLabel b, {b}⟩, []⟩, f :: fs⟩, Function.update M b (some o), n + 1, k + 1⟩
  /-- `Return'` and `return`, when every block has been left. -/
  | leave {c g fs M n k} :
      Step ⟨⟨⟨c, []⟩, g :: fs⟩, M, n, k⟩ ⟨⟨g, fs⟩, deleteObjects M c.localAddresses, n, k⟩

/-- The entry point has been called, and no object is declared. -/
inductive Start : Config → Prop
  | start {M n k genv b o} (hM : ∀ b, isLocal b = true → M b = none)
      (hgenv : ∀ x b', genv.lookup x = some b' → isLocal b' = false) (hb : isLocal b = true) (hn : b.id = n) :
      Start ⟨⟨⟨⟨k, AssocMap.update genv .funLabel b, {b}⟩, []⟩, []⟩, Function.update M b (some o), n + 1, k + 1⟩

def Reachable (s : Config) : Prop := ∃ s₀, Start s₀ ∧ Relation.ReflTransGen Step s₀ s

/-! ## The rules for jumps -/

/-- `jmpBuf(K, C, B)`; the computation `K` that is saved returns from `_setjmp`. -/
structure JmpBuf where
  thread : ThreadLocal
  base : SymBase

/-- `addJmpBuf`: `_setjmp` runs in a frame of its own, and the function that called it is the next. -/
def addJmpBuf (t : ThreadLocal) : Option JmpBuf :=
  match t.callStack with
  | g :: _ => (g.blockControl.env.lookup .funLabel).map fun B => ⟨t, B⟩
  | [] => none

/-- `longjmp(jmpBuf(K, C, B), V)`, with `deleteLocals`: the thread, and the memory. -/
def longjmp (jb : JmpBuf) (f : FunctionControl) (fs : List FunctionControl) (M : Mem) : Eval (ThreadLocal × Mem) :=
  if M jb.base = none then
    .error (UNDEF "SETJMP2" "'longjmp' invoked to restore the environment of a function that has since terminated.")
  else if f.blockControl.env.lookup .funLabel = some jb.base then
    .ok (jb.thread, deleteObjects M
      (f.blockControl.localAddresses \ jb.thread.functionControl.blockControl.localAddresses))
  else match _hf : f.blockStack with
    | c :: cs => longjmp jb ⟨c, cs⟩ fs (deleteObjects M f.blockControl.localAddresses)
    | [] => match fs with
      | g :: gs => longjmp jb g gs (deleteObjects M f.blockControl.localAddresses)
      | [] => .error .stuck
termination_by (fs.length, f.blockStack.length)
decreasing_by
  · rw [_hf]
    exact Prod.Lex.right _ (Nat.lt_succ_self _)
  · exact Prod.Lex.left _ _ (Nat.lt_succ_self _)

/-- The saved computation returns from `_setjmp`, which is a function without blocks. -/
def returnFrom (t : ThreadLocal) (M : Mem) : Eval (ThreadLocal × Mem) :=
  match t.functionControl.blockStack, t.callStack with
  | [], g :: gs => .ok (⟨g, gs⟩, deleteObjects M t.functionControl.blockControl.localAddresses)
  | _, _ => .error .stuck

/-- What follows a `longjmp`, up to the second return of `setjmp`. -/
def longjmpReturns (jb : JmpBuf) (s : Config) : Eval (ThreadLocal × Mem) := do
  let (t, M) ← longjmp jb s.thread.functionControl s.thread.callStack s.mem
  returnFrom t M

/-! ## Frames -/

/-- `b` is an object of a block of the frame. -/
def FunctionControl.Holds (f : FunctionControl) (b : SymBase) : Prop := ∃ c ∈ f.blocks, b ∈ c.localAddresses

/-- `b` has a name in the frame. -/
def FunctionControl.Names (f : FunctionControl) (b : SymBase) : Prop := ∃ c ∈ f.blocks, ∃ x, c.env.lookup x = some b

/-- The frame is the one with that `funLabel`, which its outermost block holds. -/
def FunctionControl.Labelled (f : FunctionControl) (B : SymBase) : Prop :=
  (∀ c ∈ f.blocks, c.env.lookup .funLabel = some B) ∧ ∃ c, f.blocks.getLast? = some c ∧ B ∈ c.localAddresses

theorem FunctionControl.Labelled.holds {f : FunctionControl} {B : SymBase} (h : f.Labelled B) : f.Holds B := by
  obtain ⟨-, c, hc, hB⟩ := h
  exact ⟨c, List.mem_of_getLast? hc, hB⟩

/-- A frame whose blocks have their objects in memory, each block its own. -/
structure FunctionControl.Ok (f : FunctionControl) (M : Mem) (n : Nat) : Prop where
  locals : ∀ b, f.Holds b → isLocal b = true
  next : ∀ b, f.Holds b → b.id < n
  inMem : ∀ b, f.Holds b → (M b).isSome
  disjoint : f.blocks.Pairwise fun c c' => Disjoint c.localAddresses c'.localAddresses
  names : ∀ b, f.Names b → isLocal b = true → b.id < n
  labelled : ∃ B, f.Labelled B

/-- **What happens in a frame**, as the rest of the thread sees it. -/
structure Changes (f : FunctionControl) (M : Mem) (n k : Nat) (f' : FunctionControl) (M' : Mem) (n' k' : Nat) :
    Prop where
  ok : f'.Ok M' n'
  next_le : n ≤ n'
  nextBlock_le : k ≤ k'
  holds : ∀ b, f'.Holds b → f.Holds b ∨ n ≤ b.id
  names : ∀ b, isLocal b = true → f'.Names b → f.Names b ∨ n ≤ b.id
  /-- Objects outside the frame stay, and those inside are in memory as long as the frame holds them. -/
  mem : ∀ b, isLocal b = true → ((M' b).isSome ↔ ((M b).isSome ∧ ¬ f.Holds b) ∨ f'.Holds b)
  /-- Objects stay in their blocks. -/
  origin : ∀ c' ∈ f'.blocks, ∀ b ∈ c'.localAddresses, n ≤ b.id ∨ ∃ c ∈ f.blocks, c.id = c'.id ∧ b ∈ c.localAddresses
  ids : (f'.blocks.map Block.id = k :: f.blocks.map Block.id ∧ k < k') ∨
    f'.blocks.map Block.id <:+ f.blocks.map Block.id
  labelled : ∀ B, f.Labelled B → f'.Labelled B

section Frames

variable {f f' : FunctionControl} {M M' : Mem} {n n' k k' : Nat}

theorem holds_cons {c : Block} {cs : List Block} {b : SymBase} :
    FunctionControl.Holds ⟨c, cs⟩ b ↔ b ∈ c.localAddresses ∨ ∃ c' ∈ cs, b ∈ c'.localAddresses := by
  simp [FunctionControl.Holds, FunctionControl.blocks]

theorem names_cons {c : Block} {cs : List Block} {b : SymBase} :
    FunctionControl.Names ⟨c, cs⟩ b ↔ (∃ x, c.env.lookup x = some b) ∨ ∃ c' ∈ cs, ∃ x, c'.env.lookup x = some b := by
  simp [FunctionControl.Names, FunctionControl.blocks]

/-- The label does not change while the innermost block keeps it. -/
theorem labelled_setBlock {c c' : Block} {cs : List Block} {B : SymBase} (h : FunctionControl.Labelled ⟨c, cs⟩ B)
    (henv : c'.env.lookup .funLabel = c.env.lookup .funLabel) (hB : B ∈ c.localAddresses → B ∈ c'.localAddresses) :
    FunctionControl.Labelled ⟨c', cs⟩ B := by
  obtain ⟨hall, d, hd, hBd⟩ := h
  refine ⟨?_, ?_⟩
  · intro e he
    rcases List.mem_cons.mp he with rfl | he
    · rw [henv]
      exact hall c List.mem_cons_self
    · exact hall e (List.mem_cons_of_mem _ he)
  · cases cs with
    | nil =>
      cases hd
      exact ⟨c', rfl, hB hBd⟩
    | cons e es => exact ⟨d, hd, hBd⟩

/-- The innermost block becomes `c'`: it loses objects and names, or gets new ones. -/
theorem changes_setBlock {c c' : Block} {cs : List Block} (hf : FunctionControl.Ok ⟨c, cs⟩ M n) (hid : c'.id = c.id)
    (haddr : ∀ b ∈ c'.localAddresses, b ∈ c.localAddresses ∨ (isLocal b = true ∧ n ≤ b.id ∧ b.id < n'))
    (hnames : ∀ x b, isLocal b = true → c'.env.lookup x = some b →
      FunctionControl.Names ⟨c, cs⟩ b ∨ (n ≤ b.id ∧ b.id < n'))
    (hlookup : c'.env.lookup .funLabel = c.env.lookup .funLabel)
    (hlabel : ∀ B, c.env.lookup .funLabel = some B → B ∈ c.localAddresses → B ∈ c'.localAddresses)
    (hmem : ∀ b, isLocal b = true →
      ((M' b).isSome ↔ ((M b).isSome ∧ b ∉ c.localAddresses) ∨ b ∈ c'.localAddresses))
    (hn : n ≤ n') : Changes ⟨c, cs⟩ M n k ⟨c', cs⟩ M' n' k := by
  have hdisj := List.pairwise_cons.mp hf.disjoint
  have hrest : ∀ b, (∃ d ∈ cs, b ∈ d.localAddresses) → b ∉ c.localAddresses := by
    rintro b ⟨d, hd, hbd⟩ hbc
    exact Finset.disjoint_left.mp (hdisj.1 d hd) hbc hbd
  have hcur : ∀ b ∈ c.localAddresses, FunctionControl.Holds ⟨c, cs⟩ b := fun b hb => holds_cons.mpr (.inl hb)
  have hmem' : ∀ b, isLocal b = true → ((M' b).isSome ↔
      ((M b).isSome ∧ ¬ FunctionControl.Holds ⟨c, cs⟩ b) ∨ FunctionControl.Holds ⟨c', cs⟩ b) := by
    intro b hb
    rw [hmem b hb, holds_cons, holds_cons]
    constructor
    · rintro (⟨hM, hbc⟩ | hbc')
      · by_cases hr : ∃ d ∈ cs, b ∈ d.localAddresses
        · exact .inr (.inr hr)
        · exact .inl ⟨hM, fun h => h.elim hbc hr⟩
      · exact .inr (.inl hbc')
    · rintro (⟨hM, hno⟩ | hbc' | hr)
      · exact .inl ⟨hM, fun h => hno (.inl h)⟩
      · exact .inr hbc'
      · exact .inl ⟨hf.inMem b (holds_cons.mpr (.inr hr)), hrest b hr⟩
  have hlab : ∀ B, FunctionControl.Labelled ⟨c, cs⟩ B → FunctionControl.Labelled ⟨c', cs⟩ B := by
    intro B hB
    exact labelled_setBlock hB hlookup (hlabel B (hB.1 c List.mem_cons_self))
  refine { ok := ?_, next_le := hn, nextBlock_le := le_refl k, holds := ?_, names := ?_, mem := hmem', origin := ?_,
           ids := .inr ?_, labelled := hlab }
  · refine { locals := ?_, next := ?_, inMem := ?_, disjoint := ?_, names := ?_, labelled := ?_ }
    · intro b hb
      rcases holds_cons.mp hb with hb | hr
      · exact (haddr b hb).elim (fun h => hf.locals b (hcur b h)) (fun h => h.1)
      · exact hf.locals b (holds_cons.mpr (.inr hr))
    · intro b hb
      rcases holds_cons.mp hb with hb | hr
      · exact (haddr b hb).elim (fun h => lt_of_lt_of_le (hf.next b (hcur b h)) hn) (fun h => h.2.2)
      · exact lt_of_lt_of_le (hf.next b (holds_cons.mpr (.inr hr))) hn
    · intro b hb
      have hlocal : isLocal b = true := by
        rcases holds_cons.mp hb with hb | hr
        · exact (haddr b hb).elim (fun h => hf.locals b (hcur b h)) (fun h => h.1)
        · exact hf.locals b (holds_cons.mpr (.inr hr))
      exact (hmem' b hlocal).mpr (.inr hb)
    · refine List.pairwise_cons.mpr ⟨?_, hdisj.2⟩
      intro d hd
      refine Finset.disjoint_left.mpr fun b hb hbd => ?_
      rcases haddr b hb with h | ⟨-, hge, -⟩
      · exact Finset.disjoint_left.mp (hdisj.1 d hd) h hbd
      · have := hf.next b (holds_cons.mpr (.inr ⟨d, hd, hbd⟩))
        omega
    · intro b hb hlocal
      rcases names_cons.mp hb with ⟨x, hx⟩ | hr
      · exact (hnames x b hlocal hx).elim (fun h => lt_of_lt_of_le (hf.names b h hlocal) hn) (fun h => h.2)
      · exact lt_of_lt_of_le (hf.names b (names_cons.mpr (.inr hr)) hlocal) hn
    · obtain ⟨B, hB⟩ := hf.labelled
      exact ⟨B, hlab B hB⟩
  · intro b hb
    rcases holds_cons.mp hb with hb | hr
    · exact (haddr b hb).imp (hcur b) (fun h => h.2.1)
    · exact .inl (holds_cons.mpr (.inr hr))
  · intro b hlocal hb
    rcases names_cons.mp hb with ⟨x, hx⟩ | hr
    · exact (hnames x b hlocal hx).imp_right (fun h => h.1)
    · exact .inl (names_cons.mpr (.inr hr))
  · intro d hd b hb
    rcases List.mem_cons.mp hd with rfl | hd
    · exact (haddr b hb).symm.imp (fun h => h.2.1) fun h => ⟨c, List.mem_cons_self, hid.symm, h⟩
    · exact .inr ⟨d, List.mem_cons_of_mem _ hd, rfl, hb⟩
  · have hids : (FunctionControl.blocks ⟨c', cs⟩).map Block.id = (FunctionControl.blocks ⟨c, cs⟩).map Block.id := by
      simp [FunctionControl.blocks, hid]
    rw [hids]

theorem isSome_deleteObjects {bs : Finset SymBase} {b : SymBase} :
    (deleteObjects M bs b).isSome ↔ (M b).isSome ∧ b ∉ bs := by
  unfold deleteObjects
  by_cases h : b ∈ bs <;> simp [h]

/-- **What a step can do in a frame.** -/
theorem Local.changes (h : Local f M n k f' M' n' k') (hf : f.Ok M n) : Changes f M n k f' M' n' k' := by
  cases h with
  | @declare c cs M n k x b o hb hn hx =>
    refine changes_setBlock hf rfl ?_ ?_ ?_ ?_ ?_ (by omega)
    · intro b' hb'
      rcases Finset.mem_insert.mp hb' with rfl | hb'
      · exact .inr ⟨hb, by omega, by omega⟩
      · exact .inl hb'
    · intro y b' _ hy
      rw [AssocMap.lookup_update] at hy
      split at hy
      · cases hy
        exact .inr ⟨by omega, by omega⟩
      · exact .inl (names_cons.mpr (.inl ⟨y, hy⟩))
    · exact AssocMap.lookup_update_of_ne _ _ hx.symm
    · exact fun B _ hB => Finset.mem_insert_of_mem hB
    · intro b' _
      by_cases hbb : b' = b
      · subst hbb
        simp
      · rw [Function.update_of_ne hbb]
        have hcur : b' ∈ c.localAddresses → (M b').isSome := fun h => hf.inMem b' (holds_cons.mpr (.inl h))
        simp only [Finset.mem_insert, hbb, false_or]
        tauto
  | @addToEnv c cs M n k x b hb hx =>
    refine changes_setBlock hf rfl (fun b hb => .inl hb) ?_ ?_ (fun B _ hB => hB) ?_ (le_refl n)
    · intro y b' hlocal hy
      rw [AssocMap.lookup_update] at hy
      split at hy
      · cases hy
        exact absurd (hlocal.symm.trans hb) (by decide)
      · exact .inl (names_cons.mpr (.inl ⟨y, hy⟩))
    · exact AssocMap.lookup_update_of_ne _ _ hx.symm
    · intro b' _
      have hcur : b' ∈ c.localAddresses → (M b').isSome := fun h => hf.inMem b' (holds_cons.mpr (.inl h))
      tauto
  | @rewind c cs M n k x b outer hx henv hb hother houter =>
    refine changes_setBlock hf rfl (fun b' hb' => .inl (Finset.mem_of_mem_erase hb')) ?_ ?_ ?_ ?_ (le_refl n)
    · intro y b' hlocal hy
      refine .inl ?_
      cases outer with
      | none =>
        change (AssocMap.remove c.env x).lookup y = some b' at hy
        rw [AssocMap.lookup_remove] at hy
        split at hy
        · cases hy
        · exact names_cons.mpr (.inl ⟨y, hy⟩)
      | some b'' =>
        change (AssocMap.update c.env x b'').lookup y = some b' at hy
        rw [AssocMap.lookup_update] at hy
        split at hy
        · cases hy
          rcases houter b' rfl with hno | ⟨c', hc', hlook⟩
          · exact absurd (hlocal.symm.trans hno) (by decide)
          · exact names_cons.mpr (.inr ⟨c', List.mem_of_mem_head? hc', x, hlook⟩)
        · exact names_cons.mpr (.inl ⟨y, hy⟩)
    · cases outer with
      | none =>
        show (AssocMap.remove c.env x).lookup .funLabel = _
        rw [AssocMap.lookup_remove, if_neg hx.symm]
      | some b'' => exact AssocMap.lookup_update_of_ne _ _ hx.symm
    · intro B hlook hB
      refine Finset.mem_erase.mpr ⟨?_, hB⟩
      rintro rfl
      exact hother .funLabel hx.symm hlook
    · intro b' _
      have hcur : b' ∈ c.localAddresses → (M b').isSome := fun h => hf.inMem b' (holds_cons.mpr (.inl h))
      rw [isSome_deleteObjects, Finset.mem_singleton, Finset.mem_erase]
      by_cases hbb : b' = b
      · subst hbb
        tauto
      · tauto
  | access hM hn =>
    obtain ⟨c, cs⟩ := f
    refine changes_setBlock hf rfl (fun b hb => .inl hb) ?_ rfl (fun B _ hB => hB) ?_ hn
    · exact fun y b _ hy => .inl (names_cons.mpr (.inl ⟨y, hy⟩))
    · intro b hlocal
      have hcur : b ∈ c.localAddresses → (M b).isSome := fun h => hf.inMem b (holds_cons.mpr (.inl h))
      rw [hM b hlocal]
      tauto
  | @pushBlock c cs M n k =>
    have hholds : ∀ b, FunctionControl.Holds ⟨⟨k, c.env, ∅⟩, c :: cs⟩ b ↔ FunctionControl.Holds ⟨c, cs⟩ b := by
      intro b
      rw [holds_cons, holds_cons]
      simp
    have hnames : ∀ b, FunctionControl.Names ⟨⟨k, c.env, ∅⟩, c :: cs⟩ b → FunctionControl.Names ⟨c, cs⟩ b := by
      intro b hb
      rw [names_cons] at hb ⊢
      simpa using hb
    have hlab : ∀ B, FunctionControl.Labelled ⟨c, cs⟩ B → FunctionControl.Labelled ⟨⟨k, c.env, ∅⟩, c :: cs⟩ B := by
      rintro B ⟨hall, d, hd, hB⟩
      refine ⟨?_, d, hd, hB⟩
      intro e he
      rcases List.mem_cons.mp he with rfl | he
      · exact hall c List.mem_cons_self
      · exact hall e he
    refine { ok := ?_, next_le := le_refl n, nextBlock_le := Nat.le_succ k, holds := fun b hb => .inl ((hholds b).mp hb),
             names := fun b _ hb => .inl (hnames b hb), mem := ?_, origin := ?_, ids := .inl ⟨rfl, Nat.lt_succ_self k⟩,
             labelled := hlab }
    · refine { locals := fun b hb => hf.locals b ((hholds b).mp hb), next := fun b hb => hf.next b ((hholds b).mp hb),
               inMem := fun b hb => hf.inMem b ((hholds b).mp hb), disjoint := ?_,
               names := fun b hb => hf.names b (hnames b hb), labelled := ?_ }
      · exact List.pairwise_cons.mpr ⟨fun d _ => Finset.disjoint_empty_left _, hf.disjoint⟩
      · obtain ⟨B, hB⟩ := hf.labelled
        exact ⟨B, hlab B hB⟩
    · intro b _
      rw [hholds b]
      have := hf.inMem b
      tauto
    · intro d hd b hb
      rcases List.mem_cons.mp hd with rfl | hd
      · simp at hb
      · exact .inr ⟨d, hd, rfl, hb⟩
  | @popBlock c c' cs M n k =>
    have hdisj := List.pairwise_cons.mp hf.disjoint
    have hholds : ∀ b, FunctionControl.Holds ⟨c', cs⟩ b → FunctionControl.Holds ⟨c, c' :: cs⟩ b ∧ b ∉ c.localAddresses := by
      rintro b ⟨d, hd, hb⟩
      exact ⟨⟨d, List.mem_cons_of_mem _ hd, hb⟩, fun hbc => Finset.disjoint_left.mp (hdisj.1 d hd) hbc hb⟩
    have hnames : ∀ b, FunctionControl.Names ⟨c', cs⟩ b → FunctionControl.Names ⟨c, c' :: cs⟩ b := by
      rintro b ⟨d, hd, hb⟩
      exact ⟨d, List.mem_cons_of_mem _ hd, hb⟩
    have hlab : ∀ B, FunctionControl.Labelled ⟨c, c' :: cs⟩ B → FunctionControl.Labelled ⟨c', cs⟩ B := by
      rintro B ⟨hall, d, hd, hB⟩
      exact ⟨fun e he => hall e (List.mem_cons_of_mem _ he), d, hd, hB⟩
    have hinMem : ∀ b, FunctionControl.Holds ⟨c', cs⟩ b → (deleteObjects M c.localAddresses b).isSome := by
      intro b hb
      exact isSome_deleteObjects.mpr ⟨hf.inMem b (hholds b hb).1, (hholds b hb).2⟩
    refine { ok := ?_, next_le := le_refl n, nextBlock_le := le_refl k, holds := fun b hb => .inl (hholds b hb).1,
             names := fun b _ hb => .inl (hnames b hb), mem := ?_, origin := ?_, ids := .inr (List.suffix_cons _ _),
             labelled := hlab }
    · refine { locals := fun b hb => hf.locals b (hholds b hb).1, next := fun b hb => hf.next b (hholds b hb).1,
               inMem := hinMem, disjoint := hdisj.2, names := fun b hb => hf.names b (hnames b hb), labelled := ?_ }
      obtain ⟨B, hB⟩ := hf.labelled
      exact ⟨B, hlab B hB⟩
    · intro b _
      have hsplit : FunctionControl.Holds ⟨c, c' :: cs⟩ b ↔
          b ∈ c.localAddresses ∨ FunctionControl.Holds ⟨c', cs⟩ b := by
        simp [FunctionControl.Holds, FunctionControl.blocks]
      constructor
      · intro hb
        obtain ⟨hM, hbc⟩ := isSome_deleteObjects.mp hb
        by_cases hr : FunctionControl.Holds ⟨c', cs⟩ b
        · exact .inr hr
        · exact .inl ⟨hM, fun h => (hsplit.mp h).elim hbc hr⟩
      · rintro (⟨hM, hno⟩ | hr)
        · exact isSome_deleteObjects.mpr ⟨hM, fun h => hno (hsplit.mpr (.inl h))⟩
        · exact hinMem b hr
    · exact fun d hd b hb => .inr ⟨d, List.mem_cons_of_mem _ hd, rfl, hb⟩

theorem FunctionControl.Ok.mono (hf : f.Ok M n) (hM : ∀ b, f.Holds b → (M' b).isSome) (hn : n ≤ n') : f.Ok M' n' where
  locals := hf.locals
  next b hb := lt_of_lt_of_le (hf.next b hb) hn
  inMem := hM
  disjoint := hf.disjoint
  names b hb hlocal := lt_of_lt_of_le (hf.names b hb hlocal) hn
  labelled := hf.labelled

/-- The frame of a function that has just been called. -/
theorem ok_call {genv : List (Name × SymBase)} {b : SymBase} {o : Object}
    (hgenv : ∀ x b', genv.lookup x = some b' → isLocal b' = false) (hb : isLocal b = true) (hn : b.id = n) :
    FunctionControl.Ok ⟨⟨k, AssocMap.update genv .funLabel b, {b}⟩, []⟩ (Function.update M b (some o)) (n + 1) := by
  have hholds : ∀ b', FunctionControl.Holds ⟨⟨k, AssocMap.update genv .funLabel b, {b}⟩, []⟩ b' → b' = b := by
    intro b' hb'
    simpa [holds_cons] using hb'
  refine { locals := ?_, next := ?_, inMem := ?_, disjoint := List.pairwise_singleton _ _, names := ?_, labelled := ?_ }
  · intro b' hb'
    rw [hholds b' hb']
    exact hb
  · intro b' hb'
    rw [hholds b' hb']
    omega
  · intro b' hb'
    rw [hholds b' hb']
    simp
  · intro b' hb' hlocal
    rcases names_cons.mp hb' with ⟨x, hx⟩ | ⟨d, hd, -⟩
    · rw [AssocMap.lookup_update] at hx
      split at hx
      · cases hx
        omega
      · exact absurd (hlocal.symm.trans (hgenv x b' hx)) (by decide)
    · cases hd
  · refine ⟨b, ?_, _, rfl, Finset.mem_singleton_self b⟩
    intro d hd
    rw [List.mem_singleton.mp hd]
    exact AssocMap.lookup_update_self _ _ _

end Frames

/-! ## Threads -/

/-- No object is in two frames, and no frame has a name for an object of another. -/
def Strangers (f g : FunctionControl) : Prop :=
  ∀ b, isLocal b = true →
    ¬ (f.Holds b ∧ g.Holds b) ∧ ¬ (f.Names b ∧ g.Holds b) ∧ ¬ (g.Names b ∧ f.Holds b)

/-- The blocks of all frames, as numbers. -/
def blockIds (fs : List FunctionControl) : List Nat := fs.flatMap fun f => f.blocks.map Block.id

/-- The objects of the thread in memory are those of its blocks. -/
structure Config.Ok (s : Config) : Prop where
  frame : ∀ f ∈ s.thread.frames, f.Ok s.mem s.next
  cover : ∀ b, isLocal b = true → (s.mem b).isSome → ∃ f ∈ s.thread.frames, f.Holds b
  strangers : s.thread.frames.Pairwise Strangers
  ids : (blockIds s.thread.frames).Nodup
  ids_lt : ∀ i ∈ blockIds s.thread.frames, i < s.nextBlock

section Threads

variable {s s' : Config}

/-- What does not change below, does not change. -/
theorem Config.Ok.changes {f f' : FunctionControl} {fs : List FunctionControl} {M M' : Mem} {n n' k k' : Nat}
    (h : Config.Ok ⟨⟨f, fs⟩, M, n, k⟩) (hc : Changes f M n k f' M' n' k') : Config.Ok ⟨⟨f', fs⟩, M', n', k'⟩ := by
  have hstrange := List.pairwise_cons.mp h.strangers
  have hf := h.frame f List.mem_cons_self
  have hg : ∀ g ∈ fs, g.Ok M n := fun g hmem => h.frame g (List.mem_cons_of_mem _ hmem)
  refine { frame := ?_, cover := ?_, strangers := ?_, ids := ?_, ids_lt := ?_ }
  · intro g hmem
    rcases List.mem_cons.mp hmem with rfl | hmem
    · exact hc.ok
    · refine (hg g hmem).mono ?_ hc.next_le
      intro b hb
      have hlocal := (hg g hmem).locals b hb
      exact (hc.mem b hlocal).mpr (.inl ⟨(hg g hmem).inMem b hb, fun hfb => (hstrange.1 g hmem b hlocal).1 ⟨hfb, hb⟩⟩)
  · intro b hlocal hb
    rcases (hc.mem b hlocal).mp hb with ⟨hM, hno⟩ | hb
    · obtain ⟨g, hmem, hgb⟩ := h.cover b hlocal hM
      rcases List.mem_cons.mp hmem with rfl | hmem
      · exact absurd hgb hno
      · exact ⟨g, List.mem_cons_of_mem _ hmem, hgb⟩
    · exact ⟨f', List.mem_cons_self, hb⟩
  · refine List.pairwise_cons.mpr ⟨?_, hstrange.2⟩
    intro g hmem b hlocal
    have hold := hstrange.1 g hmem b hlocal
    refine ⟨?_, ?_, ?_⟩
    · rintro ⟨hb, hgb⟩
      rcases hc.holds b hb with hfb | hge
      · exact hold.1 ⟨hfb, hgb⟩
      · have := (hg g hmem).next b hgb
        omega
    · rintro ⟨hb, hgb⟩
      rcases hc.names b hlocal hb with hfb | hge
      · exact hold.2.1 ⟨hfb, hgb⟩
      · have := (hg g hmem).next b hgb
        omega
    · rintro ⟨hgb, hb⟩
      rcases hc.holds b hb with hfb | hge
      · exact hold.2.2 ⟨hgb, hfb⟩
      · have := (hg g hmem).names b hgb hlocal
        omega
  · have hids : (f.blocks.map Block.id ++ blockIds fs).Nodup := h.ids
    show (f'.blocks.map Block.id ++ blockIds fs).Nodup
    rcases hc.ids with ⟨hnew, -⟩ | hsuffix
    · rw [hnew, List.cons_append, List.nodup_cons]
      refine ⟨fun hk => ?_, hids⟩
      exact absurd (h.ids_lt k hk) (lt_irrefl k)
    · exact hids.sublist (hsuffix.sublist.append_right _)
  · intro i hi
    have hi' : i ∈ f'.blocks.map Block.id ++ blockIds fs := hi
    have hlt : i ∈ f.blocks.map Block.id ++ blockIds fs → i < k' := fun h' =>
      lt_of_lt_of_le (h.ids_lt i h') hc.nextBlock_le
    rcases List.mem_append.mp hi' with hi | hi
    · rcases hc.ids with ⟨hnew, hlt'⟩ | hsuffix
      · rw [hnew] at hi
        rcases List.mem_cons.mp hi with rfl | hi
        · exact hlt'
        · exact hlt (List.mem_append_left _ hi)
      · exact hlt (List.mem_append_left _ (hsuffix.subset hi))
    · exact hlt (List.mem_append_right _ hi)

/-- A call adds a frame with one new object. -/
theorem Config.Ok.call {f g : FunctionControl} {fs : List FunctionControl} {M : Mem} {n k : Nat} {b : SymBase} {o : Object}
    (h : Config.Ok ⟨⟨f, fs⟩, M, n, k⟩) (hg : g.Ok (Function.update M b (some o)) (n + 1)) (hn : b.id = n)
    (hholds : ∀ b', g.Holds b' ↔ b' = b) (hnames : ∀ b', isLocal b' = true → g.Names b' → b' = b)
    (hids : g.blocks.map Block.id = [k]) : Config.Ok ⟨⟨g, f :: fs⟩, Function.update M b (some o), n + 1, k + 1⟩ := by
  have hne : ∀ b', b'.id < n → b' ≠ b := by
    rintro b' hlt rfl
    omega
  refine { frame := ?_, cover := ?_, strangers := ?_, ids := ?_, ids_lt := ?_ }
  · intro e hmem
    rcases List.mem_cons.mp hmem with rfl | hmem
    · exact hg
    · refine (h.frame e hmem).mono ?_ (Nat.le_succ n)
      intro b' hb'
      show (Function.update M b (some o) b').isSome
      rw [Function.update_of_ne (hne b' ((h.frame e hmem).next b' hb'))]
      exact (h.frame e hmem).inMem b' hb'
  · intro b' hlocal hb'
    by_cases hbb : b' = b
    · exact ⟨g, List.mem_cons_self, (hholds b').mpr hbb⟩
    · change (Function.update M b (some o) b').isSome at hb'
      rw [Function.update_of_ne hbb] at hb'
      obtain ⟨e, hmem, he⟩ := h.cover b' hlocal hb'
      exact ⟨e, List.mem_cons_of_mem _ hmem, he⟩
  · refine List.pairwise_cons.mpr ⟨?_, h.strangers⟩
    intro e hmem b' hlocal
    have heb : ¬ e.Holds b := fun hb => hne b ((h.frame e hmem).next b hb) rfl
    refine ⟨?_, ?_, ?_⟩
    · rintro ⟨hgb, he⟩
      exact heb ((hholds b').mp hgb ▸ he)
    · rintro ⟨hgb, he⟩
      exact heb (hnames b' hlocal hgb ▸ he)
    · rintro ⟨he, hgb⟩
      have := (h.frame e hmem).names b' he hlocal
      exact hne b' this ((hholds b').mp hgb)
  · show (g.blocks.map Block.id ++ blockIds (f :: fs)).Nodup
    rw [hids, List.singleton_append, List.nodup_cons]
    exact ⟨fun hk => absurd (h.ids_lt k hk) (lt_irrefl k), h.ids⟩
  · intro i hi
    have hi' : i ∈ g.blocks.map Block.id ++ blockIds (f :: fs) := hi
    rw [hids] at hi'
    rcases List.mem_cons.mp hi' with rfl | hi
    · exact Nat.lt_succ_self _
    · exact Nat.lt_succ_of_lt (h.ids_lt i hi)

/-- A return takes away a frame and its objects. -/
theorem Config.Ok.leave {c : Block} {g : FunctionControl} {fs : List FunctionControl} {M : Mem} {n k : Nat}
    (h : Config.Ok ⟨⟨⟨c, []⟩, g :: fs⟩, M, n, k⟩) : Config.Ok ⟨⟨g, fs⟩, deleteObjects M c.localAddresses, n, k⟩ := by
  have hstrange := List.pairwise_cons.mp h.strangers
  have hholds : ∀ b, FunctionControl.Holds ⟨c, []⟩ b ↔ b ∈ c.localAddresses := by
    intro b
    rw [holds_cons]
    simp
  refine { frame := ?_, cover := ?_, strangers := hstrange.2, ids := ?_, ids_lt := ?_ }
  · intro e hmem
    have he := h.frame e (List.mem_cons_of_mem _ hmem)
    refine he.mono ?_ (le_refl n)
    intro b hb
    refine isSome_deleteObjects.mpr ⟨he.inMem b hb, fun hbc => ?_⟩
    exact (hstrange.1 e hmem b (he.locals b hb)).1 ⟨(hholds b).mpr hbc, hb⟩
  · intro b hlocal hb
    obtain ⟨hM, hbc⟩ := isSome_deleteObjects.mp hb
    obtain ⟨e, hmem, he⟩ := h.cover b hlocal hM
    rcases List.mem_cons.mp hmem with rfl | hmem
    · exact absurd ((hholds b).mp he) hbc
    · exact ⟨e, hmem, he⟩
  · exact (List.nodup_append.mp h.ids).2.1
  · intro i hi
    exact h.ids_lt i (List.mem_append_right _ hi)

/-- **Every step keeps it.** -/
theorem Config.Ok.step (h : s.Ok) (hs : Step s s') : s'.Ok := by
  cases hs with
  | inFrame hlocal => exact h.changes (hlocal.changes (h.frame _ List.mem_cons_self))
  | @call f fs M n k genv b o hgenv hb hn =>
    refine h.call (ok_call hgenv hb hn) hn ?_ ?_ rfl
    · intro b'
      simp [holds_cons]
    · intro b' hlocal hb'
      rcases names_cons.mp hb' with ⟨x, hx⟩ | ⟨d, hd, -⟩
      · rw [AssocMap.lookup_update] at hx
        split at hx
        · cases hx
          rfl
        · exact absurd (hlocal.symm.trans (hgenv x b' hx)) (by decide)
      · cases hd
  | leave => exact h.leave

theorem Start.ok (h : Start s) : s.Ok := by
  cases h with
  | @start M n k genv b o hM hgenv hb hn =>
    have hf : FunctionControl.Ok ⟨⟨k, AssocMap.update genv .funLabel b, {b}⟩, []⟩ (Function.update M b (some o)) (n + 1) :=
      ok_call hgenv hb hn
    refine { frame := ?_, cover := ?_, strangers := List.pairwise_singleton _ _, ids := List.nodup_singleton _,
             ids_lt := ?_ }
    · intro f hmem
      rw [List.mem_singleton.mp hmem]
      exact hf
    · intro b' hlocal hb'
      refine ⟨_, List.mem_singleton_self _, ?_⟩
      by_cases hbb : b' = b
      · simp [holds_cons, hbb]
      · change (Function.update M b (some o) b').isSome at hb'
        rw [Function.update_of_ne hbb, hM b' hlocal] at hb'
        cases hb'
    · intro i hi
      rw [List.mem_singleton.mp hi]
      exact Nat.lt_succ_self k

theorem Reachable.ok (h : Reachable s) : s.Ok := by
  obtain ⟨s₀, hstart, hrun⟩ := h
  induction hrun with
  | refl => exact hstart.ok
  | tail _ hstep ih => exact ih.step hstep

end Threads

/-! ## From `setjmp` to `longjmp` -/

/-- `_setjmp` is running, in a frame of its own, and fills the buffer. -/
def Calls (s₀ : Config) (jb : JmpBuf) : Prop :=
  s₀.thread.functionControl.blockStack = [] ∧ addJmpBuf s₀.thread = some jb

/-- What a run from the call of `_setjmp` keeps: `F₀` has called `_setjmp`, whose frame is `S`. -/
structure Since (s₀ : Config) (S F₀ : FunctionControl) (below : List FunctionControl) (B : SymBase) (s : Config) :
    Prop where
  ok : s.Ok
  next_le : s₀.next ≤ s.next
  nextBlock_le : s₀.nextBlock ≤ s.nextBlock
  /-- An object that was there is in the block it was in. -/
  origin : ∀ f ∈ s.thread.frames, ∀ c ∈ f.blocks, ∀ b ∈ c.localAddresses,
    s₀.next ≤ b.id ∨ ∃ f₀ ∈ s₀.thread.frames, ∃ c₀ ∈ f₀.blocks, c₀.id = c.id ∧ b ∈ c₀.localAddresses
  /-- As long as the function is running, its frame and those below are on the stack. -/
  stack : (s.mem B).isSome → ∃ above F, s.thread.frames = above ++ F :: below ∧ F.Labelled B ∧
    (∀ i ∈ F.blocks.map Block.id, i ∈ F₀.blocks.map Block.id ∨ s₀.nextBlock ≤ i) ∧
    ∀ i ∈ blockIds above, i ∈ S.blocks.map Block.id ∨ s₀.nextBlock ≤ i

section Runs

variable {s₀ s s' : Config} {S F₀ : FunctionControl} {below : List FunctionControl} {B : SymBase} {jb : JmpBuf}

/-- Blocks that are new have new numbers. -/
theorem Changes.ids_or {f f' : FunctionControl} {M M' : Mem} {n n' k k' : Nat} (h : Changes f M n k f' M' n' k')
    {i : Nat} (hi : i ∈ f'.blocks.map Block.id) : i ∈ f.blocks.map Block.id ∨ k ≤ i := by
  rcases h.ids with ⟨hnew, -⟩ | hsuffix
  · rw [hnew] at hi
    rcases List.mem_cons.mp hi with rfl | hi
    · exact .inr (le_refl _)
    · exact .inl hi
  · exact .inl (hsuffix.subset hi)

theorem Since.changes {f f' : FunctionControl} {fs : List FunctionControl} {M M' : Mem} {n n' k k' : Nat}
    (hB : isLocal B = true) (hBn : B.id < s₀.next) (h : Since s₀ S F₀ below B ⟨⟨f, fs⟩, M, n, k⟩)
    (hc : Changes f M n k f' M' n' k') : Since s₀ S F₀ below B ⟨⟨f', fs⟩, M', n', k'⟩ := by
  have hn : s₀.next ≤ n := h.next_le
  have hk : s₀.nextBlock ≤ k := h.nextBlock_le
  refine { ok := h.ok.changes hc, next_le := le_trans hn hc.next_le, nextBlock_le := le_trans hk hc.nextBlock_le,
           origin := ?_, stack := ?_ }
  · intro g hmem c hcmem b hb
    rcases List.mem_cons.mp hmem with rfl | hmem
    · rcases hc.origin c hcmem b hb with hge | ⟨d, hd, hid, hbd⟩
      · exact .inl (le_trans hn hge)
      · rw [← hid]
        exact h.origin f List.mem_cons_self d hd b hbd
    · exact h.origin g (List.mem_cons_of_mem _ hmem) c hcmem b hb
  · intro hBM
    have hold : (M B).isSome := by
      rcases (hc.mem B hB).mp hBM with ⟨hM, -⟩ | hhold
      · exact hM
      · rcases hc.holds B hhold with hhold | hge
        · exact (h.ok.frame f List.mem_cons_self).inMem B hhold
        · omega
    obtain ⟨above, F, hframes, hlab, hidsF, hidsAbove⟩ := h.stack hold
    cases above with
    | nil =>
      change f :: fs = F :: below at hframes
      injection hframes with hfF hfs
      subst hfF hfs
      refine ⟨[], f', rfl, hc.labelled B hlab, ?_, by simp [blockIds]⟩
      intro i hi
      rcases hc.ids_or hi with hi | hge
      · exact hidsF i hi
      · exact .inr (le_trans hk hge)
    | cons a as =>
      change f :: fs = a :: (as ++ F :: below) at hframes
      injection hframes with hfa hfs
      subst hfa hfs
      refine ⟨f' :: as, F, rfl, hlab, hidsF, ?_⟩
      intro i hi
      have hi' : i ∈ f'.blocks.map Block.id ++ blockIds as := hi
      rcases List.mem_append.mp hi' with hi | hi
      · rcases hc.ids_or hi with hi | hge
        · exact hidsAbove i (List.mem_append_left _ hi)
        · exact .inr (le_trans hk hge)
      · exact hidsAbove i (List.mem_append_right _ hi)

/-- **Every step keeps it.** -/
theorem Since.step (hB : isLocal B = true) (hBn : B.id < s₀.next) (h : Since s₀ S F₀ below B s) (hs : Step s s') :
    Since s₀ S F₀ below B s' := by
  have hok := h.ok.step hs
  cases hs with
  | inFrame hlocal => exact h.changes hB hBn (hlocal.changes (h.ok.frame _ List.mem_cons_self))
  | @call f fs M n k genv b o hgenv hb hn =>
    have hle : s₀.next ≤ n := h.next_le
    have hk : s₀.nextBlock ≤ k := h.nextBlock_le
    refine { ok := hok, next_le := by show s₀.next ≤ n + 1; omega, nextBlock_le := by show s₀.nextBlock ≤ k + 1; omega,
             origin := ?_, stack := ?_ }
    · intro g hmem c hc b' hb'
      rcases List.mem_cons.mp hmem with rfl | hmem
      · rw [List.mem_singleton.mp hc] at hb'
        rw [Finset.mem_singleton.mp hb']
        exact .inl (by omega)
      · exact h.origin g hmem c hc b' hb'
    · intro hBM
      have hne : B ≠ b := by
        rintro rfl
        omega
      change (Function.update M b (some o) B).isSome at hBM
      rw [Function.update_of_ne hne] at hBM
      obtain ⟨above, F, hframes, hlab, hidsF, hidsAbove⟩ := h.stack hBM
      refine ⟨⟨⟨k, AssocMap.update genv .funLabel b, {b}⟩, []⟩ :: above, F, ?_, hlab, hidsF, ?_⟩
      · show _ :: (f :: fs) = _ :: (above ++ F :: below)
        rw [← hframes]
        rfl
      · intro i hi
        rcases List.mem_cons.mp hi with rfl | hi
        · exact .inr hk
        · exact hidsAbove i hi
  | @leave c g fs M n k =>
    refine { ok := hok, next_le := h.next_le, nextBlock_le := h.nextBlock_le,
             origin := fun e hmem => h.origin e (List.mem_cons_of_mem _ hmem), stack := ?_ }
    intro hBM
    obtain ⟨hM, hBc⟩ := isSome_deleteObjects.mp hBM
    obtain ⟨above, F, hframes, hlab, hidsF, hidsAbove⟩ := h.stack hM
    cases above with
    | nil =>
      -- the function that has called `setjmp` returns, and its label goes
      change ⟨c, []⟩ :: (g :: fs) = F :: below at hframes
      injection hframes with hF hbelow
      subst hF
      obtain ⟨-, d, hd, hBd⟩ := hlab
      cases hd
      exact absurd hBd hBc
    | cons a as =>
      change ⟨c, []⟩ :: (g :: fs) = a :: (as ++ F :: below) at hframes
      injection hframes with ha hfs
      exact ⟨as, F, hfs, hlab, hidsF, fun i hi => hidsAbove i (List.mem_append_right _ hi)⟩

/-- The call of `_setjmp` itself. -/
theorem Calls.since (h₀ : s₀.Ok) (h : Calls s₀ jb) :
    ∃ S F₀ below, s₀.thread = ⟨S, F₀ :: below⟩ ∧ S.blockStack = [] ∧ jb.thread = s₀.thread ∧ F₀.Labelled jb.base ∧
      Since s₀ S F₀ below jb.base s₀ := by
  obtain ⟨⟨S, callStack⟩, M, n, k⟩ := s₀
  obtain ⟨hblocks, hjb⟩ := h
  cases callStack with
  | nil => cases hjb
  | cons F₀ below =>
    obtain ⟨B, hlook, hjb⟩ := Option.map_eq_some_iff.mp hjb
    subst hjb
    have hlab : F₀.Labelled B := by
      obtain ⟨B', hB'⟩ := (h₀.frame F₀ (List.mem_cons_of_mem _ List.mem_cons_self)).labelled
      have heq : some B' = some B := (hB'.1 F₀.blockControl List.mem_cons_self).symm.trans hlook
      injection heq with heq
      rwa [heq] at hB'
    refine ⟨S, F₀, below, rfl, hblocks, rfl, hlab, ?_⟩
    refine { ok := h₀, next_le := le_refl _, nextBlock_le := le_refl _, origin := ?_, stack := ?_ }
    · exact fun f hf c hc b hb => .inr ⟨f, hf, c, hc, rfl, hb⟩
    · intro _
      exact ⟨[S], F₀, rfl, hlab, fun i hi => .inl hi, fun i hi => .inl (by simpa [blockIds] using hi)⟩

theorem Since.run (hB : isLocal B = true) (hBn : B.id < s₀.next) (h : Since s₀ S F₀ below B s₀)
    (hrun : Relation.ReflTransGen Step s₀ s) : Since s₀ S F₀ below B s := by
  induction hrun with
  | refl => exact h
  | tail _ hstep ih => exact ih.step hB hBn hstep

/-! ## What `longjmp` deletes -/

theorem longjmp_here {f : FunctionControl} {fs : List FunctionControl} {M : Mem} (hB : (M jb.base).isSome)
    (hf : f.blockControl.env.lookup .funLabel = some jb.base) :
    longjmp jb f fs M = .ok (jb.thread, deleteObjects M
      (f.blockControl.localAddresses \ jb.thread.functionControl.blockControl.localAddresses)) := by
  rw [longjmp.eq_def, if_neg (Option.isSome_iff_ne_none.mp hB), if_pos hf]

/-- Another frame is left block by block. -/
theorem longjmp_frame {c : Block} {cs : List Block} {g : FunctionControl} {gs : List FunctionControl} {M : Mem}
    (hB : (M jb.base).isSome) (hf : ∀ d ∈ c :: cs, d.env.lookup .funLabel ≠ some jb.base)
    (hno : ¬ FunctionControl.Holds ⟨c, cs⟩ jb.base) :
    ∃ M', longjmp jb ⟨c, cs⟩ (g :: gs) M = longjmp jb g gs M' ∧
      ∀ b, (M' b).isSome ↔ (M b).isSome ∧ ¬ FunctionControl.Holds ⟨c, cs⟩ b := by
  induction cs generalizing c M with
  | nil =>
    refine ⟨deleteObjects M c.localAddresses, ?_, ?_⟩
    · rw [longjmp, if_neg (Option.isSome_iff_ne_none.mp hB), if_neg (hf c List.mem_cons_self)]
    · intro b
      rw [isSome_deleteObjects, holds_cons]
      simp
  | cons c' cs ih =>
    have hsplit : ∀ b, FunctionControl.Holds ⟨c, c' :: cs⟩ b ↔
        b ∈ c.localAddresses ∨ FunctionControl.Holds ⟨c', cs⟩ b := by
      intro b
      simp [FunctionControl.Holds, FunctionControl.blocks]
    have hB' : (deleteObjects M c.localAddresses jb.base).isSome :=
      isSome_deleteObjects.mpr ⟨hB, fun h => hno ((hsplit _).mpr (.inl h))⟩
    obtain ⟨M', hM', hmem⟩ := ih hB' (fun d hd => hf d (List.mem_cons_of_mem _ hd))
      (fun h => hno ((hsplit _).mpr (.inr h)))
    refine ⟨M', ?_, ?_⟩
    · rw [longjmp, if_neg (Option.isSome_iff_ne_none.mp hB), if_neg (hf c List.mem_cons_self)]
      exact hM'
    · intro b
      rw [hmem b, isSome_deleteObjects, hsplit]
      tauto

/-- **`longjmp` deletes the frames above, and the innermost block.** -/
theorem longjmp_eq {above : List FunctionControl} {F : FunctionControl} {M : Mem} {f : FunctionControl}
    {fs : List FunctionControl} (hframes : f :: fs = above ++ F :: below) (hB : (M jb.base).isSome)
    (habove : ∀ g ∈ above, (∀ d ∈ g.blocks, d.env.lookup .funLabel ≠ some jb.base) ∧ ¬ g.Holds jb.base)
    (hF : F.blockControl.env.lookup .funLabel = some jb.base) :
    ∃ M', longjmp jb f fs M = .ok (jb.thread, M') ∧
      ∀ b, (M' b).isSome ↔ (M b).isSome ∧ (∀ g ∈ above, ¬ g.Holds b) ∧
        b ∉ F.blockControl.localAddresses \ jb.thread.functionControl.blockControl.localAddresses := by
  induction above generalizing f fs M with
  | nil =>
    injection hframes with hf hfs
    subst hf
    refine ⟨_, longjmp_here hB hF, ?_⟩
    intro b
    rw [isSome_deleteObjects]
    simp
  | cons a as ih =>
    injection hframes with hf hfs
    subst hf
    obtain ⟨hlook, hno⟩ := habove f List.mem_cons_self
    obtain ⟨g, gs, hg⟩ : ∃ g gs, fs = g :: gs := by
      cases as with
      | nil => exact ⟨_, _, hfs⟩
      | cons a' as => exact ⟨_, _, hfs⟩
    subst hg
    obtain ⟨c, cs⟩ := f
    obtain ⟨M₁, hM₁, hmem₁⟩ : ∃ M₁, longjmp jb ⟨c, cs⟩ (g :: gs) M = longjmp jb g gs M₁ ∧
        ∀ b, (M₁ b).isSome ↔ (M b).isSome ∧ ¬ FunctionControl.Holds ⟨c, cs⟩ b := longjmp_frame hB hlook hno
    have hB₁ : (M₁ jb.base).isSome := (hmem₁ _).mpr ⟨hB, hno⟩
    obtain ⟨M', hM', hmem⟩ := ih hfs hB₁ fun e he => habove e (List.mem_cons_of_mem _ he)
    refine ⟨M', hM₁.trans hM', ?_⟩
    intro b
    rw [hmem b, hmem₁ b, List.forall_mem_cons]
    tauto

/-! ## The right lifetimes -/

/-- The blocks that are live where `setjmp` is called; that of `_setjmp` itself is not among them. -/
def liveAt (s₀ : Config) : List Nat := blockIds s₀.thread.callStack

/-- **What `longjmp` is for**: the objects in memory are those of the blocks that were live at `setjmp` and still are,
    and the environment names no others. -/
structure RightLifetimes (s₀ s : Config) (t : ThreadLocal) (M : Mem) : Prop where
  objects : ∀ b, isLocal b = true → ((M b).isSome ↔
    ∃ f ∈ s.thread.frames, ∃ c ∈ f.blocks, c.id ∈ liveAt s₀ ∧ b ∈ c.localAddresses)
  env : ∀ x b, t.functionControl.blockControl.env.lookup x = some b → isLocal b = true → (M b).isSome

/-- The frame of the function that has called `setjmp`. -/
def targetFrame (B : SymBase) (s : Config) : Option FunctionControl :=
  s.thread.frames.find? fun f => f.blockControl.env.lookup .funLabel == some B

/-- In the function that has called `setjmp`, the innermost block is new or empty, the other new blocks are empty,
    and no object that the function could name at `setjmp` has been deleted. -/
structure OnlyInnermost (s₀ s : Config) (jb : JmpBuf) : Prop where
  innermost : ∀ F, targetFrame jb.base s = some F → F.blockControl.id ∈ liveAt s₀ → F.blockControl.localAddresses = ∅
  around : ∀ F, targetFrame jb.base s = some F → ∀ c ∈ F.blockStack, c.id ∉ liveAt s₀ → c.localAddresses = ∅
  named : ∀ F₀, jb.thread.callStack.head? = some F₀ → ∀ x b, F₀.blockControl.env.lookup x = some b →
    isLocal b = true → (s.mem b).isSome

/-- An object is in one block. -/
theorem FunctionControl.Ok.unique {f : FunctionControl} {M : Mem} {n : Nat} (hf : f.Ok M n) {c c' : Block}
    (hc : c ∈ f.blocks) (hc' : c' ∈ f.blocks) {b : SymBase} (hb : b ∈ c.localAddresses) (hb' : b ∈ c'.localAddresses) :
    c = c' := by
  by_contra hne
  have hsymm : Std.Symm fun c c' : Block => Disjoint c.localAddresses c'.localAddresses := ⟨fun _ _ h => h.symm⟩
  have hdisj := hf.disjoint.forall hc hc' hne
  exact Finset.disjoint_left.mp hdisj hb hb'

/-- An object is in one frame. -/
theorem Config.Ok.not_two {f g : FunctionControl} {l m : List FunctionControl} (h : s.Ok)
    (hframes : s.thread.frames = l ++ m) (hf : f ∈ l) (hg : g ∈ m) {b : SymBase} (hb : f.Holds b) : ¬ g.Holds b := by
  have hmem : f ∈ s.thread.frames := by rw [hframes]; exact List.mem_append_left _ hf
  have hstrange := h.strangers
  rw [hframes] at hstrange
  intro hgb
  exact ((List.pairwise_append.mp hstrange).2.2 f hf g hg b ((h.frame f hmem).locals b hb)).1 ⟨hb, hgb⟩

section Lifetimes

variable {above : List FunctionControl} {F : FunctionControl}

/-- A block of the frames above is not one that was live at `setjmp`. -/
theorem not_liveAt (h₀ : s₀.Ok) (hthread : s₀.thread = ⟨S, F₀ :: below⟩) {i : Nat}
    (hi : i ∈ S.blocks.map Block.id ∨ s₀.nextBlock ≤ i) : i ∉ liveAt s₀ := by
  have hids := h₀.ids
  have hlt := h₀.ids_lt
  intro hlive
  unfold liveAt at hlive
  rw [hthread] at hids hlt hlive
  rcases hi with hi | hge
  · exact (List.nodup_append.mp hids).2.2 i hi i hlive rfl
  · have := hlt i (List.mem_append_right _ hlive)
    omega

/-- No object of the surviving frames is one of `_setjmp`. -/
theorem Since.not_setjmp (hsince : Since s₀ S F₀ below B s) (h₀ : s₀.Ok) (hthread : s₀.thread = ⟨S, F₀ :: below⟩)
    (hframes : s.thread.frames = above ++ F :: below)
    (hidsF : ∀ i ∈ F.blocks.map Block.id, i ∈ F₀.blocks.map Block.id ∨ s₀.nextBlock ≤ i) {g : FunctionControl}
    (hg : g ∈ F :: below) {b : SymBase} (hb : g.Holds b) : ¬ S.Holds b := by
  intro hSb
  have hS : S ∈ s₀.thread.frames := by rw [hthread]; exact List.mem_cons_self
  obtain ⟨c, hc, hbc⟩ := hb
  rcases hsince.origin g (by rw [hframes]; exact List.mem_append_right _ hg) c hc b hbc with
    hge | ⟨f₀, hf₀, c₀, hc₀, hid, hbc₀⟩
  · have := (h₀.frame S hS).next b hSb
    omega
  · have hcases : f₀ = S ∨ f₀ ∈ F₀ :: below := by
      rw [hthread] at hf₀
      exact List.mem_cons.mp hf₀
    rcases hcases with rfl | hmem
    · -- then the block is one of `_setjmp`, which the surviving frames have none of
      refine not_liveAt h₀ hthread (i := c.id) (.inl ?_) ?_
      · rw [← hid]
        exact List.mem_map_of_mem hc₀
      · unfold liveAt
        rw [hthread]
        rcases List.mem_cons.mp hg with rfl | hg
        · rcases hidsF c.id (List.mem_map_of_mem hc) with hi | hge
          · exact List.mem_append_left _ hi
          · have hlt := h₀.ids_lt c₀.id (List.mem_flatMap.mpr ⟨f₀, hS, List.mem_map_of_mem hc₀⟩)
            omega
        · exact List.mem_append_right _ (List.mem_flatMap.mpr ⟨g, hg, List.mem_map_of_mem hc⟩)
    · refine h₀.not_two (l := [S]) (m := F₀ :: below) ?_ (List.mem_singleton_self S) hmem hSb ⟨c₀, hc₀, hbc₀⟩
      rw [hthread]
      rfl

/-- **What is in memory after the second return**: the objects of the blocks around the innermost one, and of the
    frames below. -/
theorem Since.longjmpReturns (hsince : Since s₀ S F₀ below jb.base s) (h₀ : s₀.Ok)
    (hthread : s₀.thread = ⟨S, F₀ :: below⟩) (hS : S.blockStack = []) (hjb : jb.thread = s₀.thread)
    (hB : (s.mem jb.base).isSome) (hframes : s.thread.frames = above ++ F :: below) (hlab : F.Labelled jb.base)
    (hidsF : ∀ i ∈ F.blocks.map Block.id, i ∈ F₀.blocks.map Block.id ∨ s₀.nextBlock ≤ i) :
    ∃ M, longjmpReturns jb s = .ok (⟨F₀, below⟩, M) ∧ ∀ b, isLocal b = true → ((M b).isSome ↔
      (∃ c ∈ F.blockStack, b ∈ c.localAddresses) ∨ ∃ g ∈ below, g.Holds b) := by
  have hok := hsince.ok
  have hF : F ∈ s.thread.frames := by rw [hframes]; simp
  have habove : ∀ g ∈ above, ∀ b, F.Holds b ∨ (∃ e ∈ below, e.Holds b) → ¬ g.Holds b := by
    rintro g hg b hb hgb
    rcases hb with hb | ⟨e, he, hb⟩
    · exact hok.not_two hframes hg List.mem_cons_self hgb hb
    · exact hok.not_two hframes hg (List.mem_cons_of_mem _ he) hgb hb
  have hother : ∀ g ∈ above, (∀ d ∈ g.blocks, d.env.lookup .funLabel ≠ some jb.base) ∧ ¬ g.Holds jb.base := by
    intro g hg
    have hno := habove g hg jb.base (.inl hlab.holds)
    refine ⟨fun d hd heq => hno ?_, hno⟩
    obtain ⟨B', hB'⟩ := (hok.frame g (by rw [hframes]; exact List.mem_append_left _ hg)).labelled
    have heq' : some B' = some jb.base := (hB'.1 d hd).symm.trans heq
    injection heq' with heq'
    exact heq' ▸ hB'.holds
  obtain ⟨M₁, hM₁, hmem₁⟩ := longjmp_eq hframes hB hother (hlab.1 _ List.mem_cons_self)
  refine ⟨deleteObjects M₁ S.blockControl.localAddresses, ?_, ?_⟩
  · unfold Setjmp.longjmpReturns
    rw [hM₁, hjb, hthread]
    show returnFrom ⟨S, F₀ :: below⟩ M₁ = _
    unfold returnFrom
    simp only [hS]
  · intro b hlocal
    have hSb : b ∈ S.blockControl.localAddresses ↔ S.Holds b := by
      obtain ⟨c, cs⟩ := S
      cases hS
      simp [holds_cons]
    have hsplit : F.Holds b ↔ b ∈ F.blockControl.localAddresses ∨ ∃ c ∈ F.blockStack, b ∈ c.localAddresses :=
      holds_cons
    rw [isSome_deleteObjects, hmem₁ b, hjb, hthread, Finset.mem_sdiff, hSb]
    constructor
    · rintro ⟨⟨hM, hno, hinner⟩, hnoS⟩
      obtain ⟨f, hf, hfb⟩ := hok.cover b hlocal hM
      rw [hframes] at hf
      rcases List.mem_append.mp hf with hf | hf
      · exact absurd hfb (hno f hf)
      · rcases List.mem_cons.mp hf with rfl | hf
        · exact .inl ((hsplit.mp hfb).resolve_left fun h => hinner ⟨h, hnoS⟩)
        · exact .inr ⟨f, hf, hfb⟩
    · intro hb
      have hhold : ∃ g ∈ F :: below, g.Holds b := by
        rcases hb with hb | ⟨g, hg, hb⟩
        · exact ⟨F, List.mem_cons_self, hsplit.mpr (.inr hb)⟩
        · exact ⟨g, List.mem_cons_of_mem _ hg, hb⟩
      obtain ⟨g, hg, hgb⟩ := hhold
      have hgmem : g ∈ s.thread.frames := by rw [hframes]; exact List.mem_append_right _ hg
      refine ⟨⟨(hok.frame g hgmem).inMem b hgb, fun e he heb => ?_, fun hinner => ?_⟩,
        hsince.not_setjmp h₀ hthread hframes hidsF hg hgb⟩
      · exact hok.not_two hframes he hg heb hgb
      · rcases hb with ⟨c, hc, hbc⟩ | ⟨e, he, heb⟩
        · have hdisj := (List.pairwise_cons.mp (hok.frame F hF).disjoint).1 c hc
          exact Finset.disjoint_left.mp hdisj hinner.1 hbc
        · refine hok.not_two (l := above ++ [F]) (m := below) ?_ (by simp) he (hsplit.mpr (.inl hinner.1)) heb
          rw [hframes, List.append_assoc]
          rfl

theorem Since.targetFrame_eq (hsince : Since s₀ S F₀ below jb.base s) (hframes : s.thread.frames = above ++ F :: below)
    (hlab : F.Labelled jb.base) : targetFrame jb.base s = some F := by
  unfold targetFrame
  rw [hframes, List.find?_append]
  have hnone : above.find? (fun f => f.blockControl.env.lookup .funLabel == some jb.base) = none := by
    rw [List.find?_eq_none]
    intro g hg heq
    obtain ⟨B', hB'⟩ := (hsince.ok.frame g (by rw [hframes]; exact List.mem_append_left _ hg)).labelled
    have heq' : some B' = some jb.base := (hB'.1 _ List.mem_cons_self).symm.trans (by simpa using heq)
    injection heq' with heq'
    exact hsince.ok.not_two hframes hg List.mem_cons_self (heq' ▸ hB'.holds) hlab.holds
  rw [hnone, Option.none_or, List.find?_cons]
  have hlook := hlab.1 _ List.mem_cons_self
  simp [hlook]

/-- The objects of the frames of a thread that were live at `setjmp`. -/
theorem Since.live_iff (h₀ : s₀.Ok) (hthread : s₀.thread = ⟨S, F₀ :: below⟩)
    (hframes : s.thread.frames = above ++ F :: below)
    (hidsAbove : ∀ i ∈ blockIds above, i ∈ S.blocks.map Block.id ∨ s₀.nextBlock ≤ i) {b : SymBase} :
    (∃ f ∈ s.thread.frames, ∃ c ∈ f.blocks, c.id ∈ liveAt s₀ ∧ b ∈ c.localAddresses) ↔
      (∃ c ∈ F.blocks, c.id ∈ liveAt s₀ ∧ b ∈ c.localAddresses) ∨ ∃ g ∈ below, g.Holds b := by
  constructor
  · rintro ⟨f, hf, c, hc, hlive, hb⟩
    rw [hframes] at hf
    rcases List.mem_append.mp hf with hf | hf
    · exact absurd hlive (not_liveAt h₀ hthread
        (hidsAbove c.id (List.mem_flatMap.mpr ⟨f, hf, List.mem_map_of_mem hc⟩)))
    · rcases List.mem_cons.mp hf with rfl | hf
      · exact .inl ⟨c, hc, hlive, hb⟩
      · exact .inr ⟨f, hf, c, hc, hb⟩
  · rintro (⟨c, hc, hlive, hb⟩ | ⟨g, hg, c, hc, hb⟩)
    · exact ⟨F, by rw [hframes]; simp, c, hc, hlive, hb⟩
    · refine ⟨g, by rw [hframes]; simp [hg], c, hc, ?_, hb⟩
      unfold liveAt
      rw [hthread]
      exact List.mem_append_right _ (List.mem_flatMap.mpr ⟨g, hg, List.mem_map_of_mem hc⟩)

end Lifetimes

end Runs

/-- What `longjmp` finds, and what it leaves. -/
structure Outcome (s₀ s : Config) (jb : JmpBuf) (F F₀ : FunctionControl) (below : List FunctionControl) (M : Mem) :
    Prop where
  target : targetFrame jb.base s = some F
  ok : F.Ok s.mem s.next
  caller : jb.thread.callStack.head? = some F₀
  returns : longjmpReturns jb s = .ok (⟨F₀, below⟩, M)
  mem : ∀ b, isLocal b = true → ((M b).isSome ↔
    (∃ c ∈ F.blockStack, b ∈ c.localAddresses) ∨ ∃ g ∈ below, g.Holds b)
  live : ∀ b, (∃ f ∈ s.thread.frames, ∃ c ∈ f.blocks, c.id ∈ liveAt s₀ ∧ b ∈ c.localAddresses) ↔
    (∃ c ∈ F.blocks, c.id ∈ liveAt s₀ ∧ b ∈ c.localAddresses) ∨ ∃ g ∈ below, g.Holds b
  below : ∀ g ∈ below, ∀ b, g.Holds b → (s.mem b).isSome ∧ ¬ F.Holds b
  /-- What the caller can name, if it is there, is in a block that was live at `setjmp`. -/
  named : ∀ b, isLocal b = true → F₀.Names b → (s.mem b).isSome →
    ∃ f ∈ s.thread.frames, ∃ c ∈ f.blocks, c.id ∈ liveAt s₀ ∧ b ∈ c.localAddresses

section Outcomes

variable {s₀ s : Config} {jb : JmpBuf} {F F₀ : FunctionControl} {below : List FunctionControl} {M : Mem}

theorem exists_outcome (h₀ : s₀.Ok) (hcall : Calls s₀ jb) (hrun : Relation.ReflTransGen Step s₀ s)
    (hactive : (s.mem jb.base).isSome) : ∃ F F₀ below M, Outcome s₀ s jb F F₀ below M := by
  obtain ⟨S, F₀, below, hthread, hS, hjb, hlab₀, hsince₀⟩ := hcall.since h₀
  have hokF₀ := h₀.frame F₀ (by rw [hthread]; simp [ThreadLocal.frames])
  have hsince := hsince₀.run (hokF₀.locals _ hlab₀.holds) (hokF₀.next _ hlab₀.holds) hrun
  have hok := hsince.ok
  obtain ⟨above, F, hframes, hlab, hidsF, hidsAbove⟩ := hsince.stack hactive
  have hF : F ∈ s.thread.frames := by rw [hframes]; simp
  obtain ⟨M, hM, hmem⟩ := hsince.longjmpReturns h₀ hthread hS hjb hactive hframes hlab hidsF
  refine ⟨F, F₀, below, M, { target := hsince.targetFrame_eq hframes hlab, ok := hok.frame F hF,
                             caller := by rw [hjb, hthread]; rfl, returns := hM, mem := hmem,
                             live := fun b => Since.live_iff h₀ hthread hframes hidsAbove, below := ?_, named := ?_ }⟩
  · intro g hg b hb
    refine ⟨(hok.frame g (by rw [hframes]; simp [hg])).inMem b hb, fun hFb => ?_⟩
    refine hok.not_two (l := above ++ [F]) (m := below) ?_ (by simp) hg hFb hb
    rw [hframes, List.append_assoc]
    rfl
  · intro b hlocal hname hin
    obtain ⟨f, hf, c, hc, hb⟩ := hok.cover b hlocal hin
    refine ⟨f, hf, c, hc, ?_, hb⟩
    rcases hsince.origin f hf c hc b hb with hge | ⟨f₀, hf₀, c₀, hc₀, hid, hb₀⟩
    · have := hokF₀.names b hname hlocal
      omega
    · rw [← hid]
      have hstrange := h₀.strangers
      rw [hthread] at hstrange hf₀
      unfold liveAt
      rw [hthread]
      rcases List.mem_cons.mp hf₀ with rfl | hf₀
      · -- the function has no name for an object of `_setjmp`
        have hno := ((List.pairwise_cons.mp hstrange).1 F₀ List.mem_cons_self b hlocal).2.2
        exact absurd ⟨hname, ⟨c₀, hc₀, hb₀⟩⟩ hno
      · exact List.mem_flatMap.mpr ⟨f₀, hf₀, List.mem_map_of_mem hc₀⟩

/-- Where the lifetimes are right there was nothing to do but what `longjmp` does. -/
theorem Outcome.onlyInnermost (h : Outcome s₀ s jb F F₀ below M) (hright : RightLifetimes s₀ s ⟨F₀, below⟩ M) :
    OnlyInnermost s₀ s jb := by
  refine { innermost := ?_, around := ?_, named := ?_ }
  · intro F' hF' hsurvive
    cases h.target.symm.trans hF'
    refine Finset.eq_empty_of_forall_notMem fun b hb => ?_
    have hhold : F.Holds b := ⟨_, List.mem_cons_self, hb⟩
    have hlocal := h.ok.locals b hhold
    have hin := (hright.objects b hlocal).mpr ((h.live b).mpr (.inl ⟨_, List.mem_cons_self, hsurvive, hb⟩))
    rcases (h.mem b hlocal).mp hin with ⟨c, hc, hbc⟩ | ⟨g, hg, hgb⟩
    · exact Finset.disjoint_left.mp ((List.pairwise_cons.mp h.ok.disjoint).1 c hc) hb hbc
    · exact (h.below g hg b hgb).2 hhold
  · intro F' hF' c hc hnew
    cases h.target.symm.trans hF'
    refine Finset.eq_empty_of_forall_notMem fun b hb => ?_
    have hhold : F.Holds b := ⟨c, List.mem_cons_of_mem _ hc, hb⟩
    have hlocal := h.ok.locals b hhold
    have hin := (hright.objects b hlocal).mp ((h.mem b hlocal).mpr (.inl ⟨c, hc, hb⟩))
    rcases (h.live b).mp hin with ⟨d, hd, hdlive, hbd⟩ | ⟨g, hg, hgb⟩
    · rw [h.ok.unique (List.mem_cons_of_mem _ hc) hd hb hbd] at hnew
      exact hnew hdlive
    · exact (h.below g hg b hgb).2 hhold
  · intro F₀' hF₀' x b hx hlocal
    cases h.caller.symm.trans hF₀'
    rcases (h.mem b hlocal).mp (hright.env x b hx hlocal) with ⟨c, hc, hb⟩ | ⟨g, hg, hb⟩
    · exact h.ok.inMem b ⟨c, List.mem_cons_of_mem _ hc, hb⟩
    · exact (h.below g hg b hb).1

/-- Where there is nothing else to do the lifetimes are right. -/
theorem Outcome.rightLifetimes (h : Outcome s₀ s jb F F₀ below M) (hcond : OnlyInnermost s₀ s jb) :
    RightLifetimes s₀ s ⟨F₀, below⟩ M := by
  have hobjects : ∀ b, isLocal b = true → ((M b).isSome ↔
      ∃ f ∈ s.thread.frames, ∃ c ∈ f.blocks, c.id ∈ liveAt s₀ ∧ b ∈ c.localAddresses) := by
    intro b hlocal
    rw [h.mem b hlocal, h.live b]
    refine or_congr_left ?_
    constructor
    · rintro ⟨c, hc, hb⟩
      refine ⟨c, List.mem_cons_of_mem _ hc, ?_, hb⟩
      by_contra hnew
      rw [hcond.around F h.target c hc hnew] at hb
      exact absurd hb (Finset.notMem_empty b)
    · rintro ⟨c, hc, hclive, hb⟩
      rcases List.mem_cons.mp hc with rfl | hc
      · rw [hcond.innermost F h.target hclive] at hb
        exact absurd hb (Finset.notMem_empty b)
      · exact ⟨c, hc, hb⟩
  refine { objects := hobjects, env := ?_ }
  intro x b hx hlocal
  have hin := hcond.named F₀ h.caller x b hx hlocal
  exact (hobjects b hlocal).mpr (h.named b hlocal ⟨_, List.mem_cons_self, x, hx⟩ hin)

end Outcomes

/-- **`longjmp` ends exactly the right lifetimes when it has no block to leave but the innermost.** -/
theorem longjmp_lifetimes_iff {s₀ s : Config} {jb : JmpBuf} (hreach : Reachable s₀) (hcall : Calls s₀ jb)
    (hrun : Relation.ReflTransGen Step s₀ s) (hactive : (s.mem jb.base).isSome) :
    (∃ t M, longjmpReturns jb s = .ok (t, M) ∧ RightLifetimes s₀ s t M) ↔ OnlyInnermost s₀ s jb := by
  obtain ⟨F, F₀, below, M, h⟩ := exists_outcome hreach.ok hcall hrun hactive
  constructor
  · rintro ⟨t, M', hM', hright⟩
    cases h.returns.symm.trans hM'
    exact h.onlyInnermost hright
  · intro hcond
    exact ⟨_, M, h.returns, h.rightLifetimes hcond⟩

/-! ### A jump from the block of `setjmp` -/

/-- The object number `n`. -/
def localObject (n : Nat) : SymBase := obj n 1 (.auto 0)

def anObject : Object := ⟨.dynamicType (SimpleNonArrayType.toType (.basic .noType)), [none]⟩

/-- The first `n` objects. -/
def objects : Nat → Mem
  | 0 => fun _ => none
  | n + 1 => Function.update (objects n) (localObject n) (some anObject)

/-- A function that has just been called. -/
def called (id n : Nat) : FunctionControl := ⟨⟨id, AssocMap.update [] .funLabel (localObject n), {localObject n}⟩, []⟩

def x : Name := .var (.id (.Identifier "x"))

/-- `int main(void) { int x;`, in the body. -/
def body : Block := ⟨1, AssocMap.update (called 0 0).blockControl.env x (localObject 1), insert (localObject 1) ∅⟩

def mainFrame : FunctionControl := ⟨body, [(called 0 0).blockControl]⟩

/-- `setjmp(b);` -/
def atSetjmp : Config := ⟨⟨called 2 2, [mainFrame]⟩, objects 3, 3, 3⟩

/-- The objects of `_setjmp` are gone. -/
def afterSetjmp : Config := ⟨⟨mainFrame, []⟩, deleteObjects (objects 3) {localObject 2}, 3, 3⟩

/-- The call of `longjmp`, with the frames of the other functions. -/
def atLongjmp (id : Nat) (f : FunctionControl) : Config :=
  ⟨⟨called id 3, [f]⟩, Function.update afterSetjmp.mem (localObject 3) (some anObject), 4, id + 1⟩

/-- The frame of `main` in a block of its own, as in `if (n) longjmp(b, 1);`. -/
def mainIf : FunctionControl := ⟨⟨3, body.env, ∅⟩, [body, (called 0 0).blockControl]⟩

def buffer : JmpBuf := ⟨atSetjmp.thread, localObject 0⟩

theorem step_call (f : FunctionControl) (fs : List FunctionControl) (M : Mem) (n k : Nat) :
    Step ⟨⟨f, fs⟩, M, n, k⟩ ⟨⟨called k n, f :: fs⟩, Function.update M (localObject n) (some anObject), n + 1, k + 1⟩ :=
  .call (by simp) rfl rfl

theorem reachable_atSetjmp : Reachable atSetjmp := by
  refine ⟨⟨⟨called 0 0, []⟩, objects 1, 1, 1⟩, .start (fun _ _ => rfl) (by simp) rfl rfl, ?_⟩
  have hpush : Step ⟨⟨called 0 0, []⟩, objects 1, 1, 1⟩
      ⟨⟨⟨⟨1, (called 0 0).blockControl.env, ∅⟩, [(called 0 0).blockControl]⟩, []⟩, objects 1, 1, 2⟩ := .inFrame .pushBlock
  have hdeclare : Step
      ⟨⟨⟨⟨1, (called 0 0).blockControl.env, ∅⟩, [(called 0 0).blockControl]⟩, []⟩, objects 1, 1, 2⟩
      ⟨⟨mainFrame, []⟩, objects 2, 2, 2⟩ := .inFrame (.declare rfl rfl (by decide))
  exact .tail (.tail (.tail .refl hpush) hdeclare) (step_call mainFrame [] (objects 2) 2 2)

theorem calls_atSetjmp : Calls atSetjmp buffer := ⟨rfl, rfl⟩

theorem step_afterSetjmp : Step atSetjmp afterSetjmp := .leave

/-- `longjmp(b, 1);` in the body. -/
theorem run_body : Relation.ReflTransGen Step atSetjmp (atLongjmp 3 mainFrame) :=
  .tail (.tail .refl step_afterSetjmp) (step_call mainFrame [] afterSetjmp.mem 3 3)

/-- `if (n) longjmp(b, 1);` -/
theorem run_if : Relation.ReflTransGen Step atSetjmp (atLongjmp 4 mainIf) := by
  have hpush : Step afterSetjmp ⟨⟨mainIf, []⟩, afterSetjmp.mem, 3, 4⟩ := .inFrame .pushBlock
  exact .tail (.tail (.tail .refl step_afterSetjmp) hpush) (step_call mainIf [] afterSetjmp.mem 3 4)

theorem onlyInnermost_if : OnlyInnermost atSetjmp (atLongjmp 4 mainIf) buffer where
  innermost F hF hlive := by
    cases (show targetFrame buffer.base (atLongjmp 4 mainIf) = some mainIf by rfl).symm.trans hF
    rfl
  around F hF c hc hnew := by
    cases (show targetFrame buffer.base (atLongjmp 4 mainIf) = some mainIf by rfl).symm.trans hF
    refine absurd ?_ hnew
    rcases List.mem_cons.mp hc with rfl | hc
    · decide
    · cases List.mem_singleton.mp hc
      decide
  named F₀ hF₀ y b hy hlocal := by
    cases hF₀
    rcases List.mem_cons.mp (AssocMap.mem_of_lookup hy) with heq | hmem
    · cases heq
      decide
    · cases List.mem_singleton.mp hmem
      decide

/-- From a block of its own the jump is right. -/
theorem longjmp_if : ∃ t M, longjmpReturns buffer (atLongjmp 4 mainIf) = .ok (t, M) ∧
    RightLifetimes atSetjmp (atLongjmp 4 mainIf) t M :=
  (longjmp_lifetimes_iff reachable_atSetjmp calls_atSetjmp run_if (by decide)).mpr onlyInnermost_if

/-- `int main(void) { int x; setjmp(b); longjmp(b, 1); }`: the object `x` is deleted. -/
theorem longjmp_body :
    Reachable atSetjmp ∧ Calls atSetjmp buffer ∧ Relation.ReflTransGen Step atSetjmp (atLongjmp 3 mainFrame) ∧
    ((atLongjmp 3 mainFrame).mem buffer.base).isSome ∧
    ¬ ∃ t M, longjmpReturns buffer (atLongjmp 3 mainFrame) = .ok (t, M) ∧
      RightLifetimes atSetjmp (atLongjmp 3 mainFrame) t M := by
  refine ⟨reachable_atSetjmp, calls_atSetjmp, run_body, by decide, ?_⟩
  rintro ⟨t, M, hM, hright⟩
  obtain ⟨F, F₀, below, M', h⟩ := exists_outcome reachable_atSetjmp.ok calls_atSetjmp run_body (by decide)
  cases h.returns.symm.trans hM
  have htarget : targetFrame buffer.base (atLongjmp 3 mainFrame) = some mainFrame := rfl
  have hempty := (h.onlyInnermost hright).innermost mainFrame htarget (by decide)
  exact absurd hempty (by decide)

end CSemantics.Setjmp
