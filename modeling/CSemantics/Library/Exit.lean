/-
  `exit`, `quick_exit`, `abort` and the functions that are called at the end of the program.

  `atexit` puts a call on the cell `<atexit>`, and `callAtExit` takes the calls off it, behind a value; the
  program ends when that value stands alone in the main thread.  `quick_exit` has a cell of its own.  Any
  thread may call any of these, at any time:

      exit       the REST of the thread goes, and its value and `callAtExit` stand there
      abort      the same, with 134 and nothing behind it
      atexit     is refused once the end has begun, and so is a second `exit`

  What the program does apart from these calls is left open.

      Step           the rules
      Inv            what is on the threads, and which calls are still to be made
      handlers_run   each function that was registered is called once, the last one first
-/
import CSemantics.Common

namespace CSemantics

namespace Exit

/-! ## The cells -/

/-- `exit` and `quick_exit`, which do the same with different cells. -/
inductive Kind
  | exit
  | quickExit
  deriving DecidableEq

def Kind.exitTwice : Kind → String × String
  | exit => ("STDLIB4", "Called the exit function more than once (from a call to atexit).")
  | quickExit => ("STDLIB5", "Called the quick_exit function more than once (from a call to at_quick_exit).")

def Kind.registerLate : Kind → String × String
  | exit => ("STDLIB3", "Called the atexit function after normal program termination has begun.")
  | quickExit => ("STDLIB6", "Called the at_quick_exit function after normal program termination has begun.")

inductive Status
  | initializingTu
  | mainCalled
  | mainExited
  | terminated

variable {F : Type}

/-- What is in a `<k>` cell. -/
inductive Item (F : Type)
  /-- the call of `main`, in `reval` -/
  | main
  /-- `Computation(Call(f))` -/
  | computation (f : F)
  /-- the call of the function of another thread -/
  | function
  | reval (v : Int)
  /-- `callAtExit` and `callAtQuickExit` -/
  | callAt (kind : Kind)
  | undef (e : String × String)
  | unspec (e : String × String)

/-- A function of the program is being called. -/
def Item.Code : Item F → Prop
  | main | computation _ | function => True
  | _ => False

structure State (F : Type) where
  threads : Nat → Option (List (Item F))
  /-- `<atexit>` and `<at-quick-exit>` -/
  handlers : Kind → List F
  status : Status
  resultValue : Int

/-- `callEntryPoint` has called `main`. -/
def initial : State F where
  threads := fun n => if n = 0 then some [.main, .callAt .exit] else none
  handlers := fun _ => []
  status := .mainCalled
  resultValue := 139

def State.set (s : State F) (i : Nat) (k : List (Item F)) : State F :=
  { s with threads := Function.update s.threads i (some k) }

/-! ## The rules -/

/-- What a step does, and which thread takes it. -/
inductive Event (F : Type)
  | register (i : Nat) (kind : Kind) (f : F)
  | registerLate (i : Nat) (kind : Kind)
  | exit (i : Nat) (kind : Kind) (n : Int)
  | exitTwice (i : Nat) (kind : Kind)
  | abort (i : Nat)
  | mainReturns (i : Nat) (v : Int)
  | functionReturns (i : Nat)
  | handlerReturns (i : Nat)
  | call (i : Nat) (kind : Kind) (f : F)
  | done (i : Nat) (kind : Kind)
  | spawn (i j : Nat)
  | terminate

inductive Step : State F → Event F → State F → Prop
  | register {s i c k kind f} (ht : s.threads i = some (c :: k)) (hc : c.Code) (hst : s.status = .mainCalled) :
      Step s (.register i kind f) { s with handlers := Function.update s.handlers kind (f :: s.handlers kind) }
  | registerLate {s i c k kind} (ht : s.threads i = some (c :: k)) (hc : c.Code) (hst : s.status = .mainExited) :
      Step s (.registerLate i kind) (s.set i (.unspec kind.registerLate :: c :: k))
  | exit {s i c k kind n} (ht : s.threads i = some (c :: k)) (hc : c.Code) (hst : s.status = .mainCalled) :
      Step s (.exit i kind n) { s.set i [.reval n, .callAt kind] with status := .mainExited }
  | exitTwice {s i c k kind} (ht : s.threads i = some (c :: k)) (hc : c.Code) (hst : s.status = .mainExited) :
      Step s (.exitTwice i kind) (s.set i (.undef kind.exitTwice :: c :: k))
  | abort {s i c k} (ht : s.threads i = some (c :: k)) (hc : c.Code) : Step s (.abort i) (s.set i [.reval 134])
  | mainReturns {s i v k} (ht : s.threads i = some (.main :: k)) : Step s (.mainReturns i v) (s.set i (.reval v :: k))
  | functionReturns {s i k} (ht : s.threads i = some (.function :: k)) : Step s (.functionReturns i) (s.set i k)
  /-- `Computation(_:RValue) => sequencePoint` -/
  | handlerReturns {s i f k} (ht : s.threads i = some (.computation f :: k)) : Step s (.handlerReturns i) (s.set i k)
  | call {s i v kind k f fs} (ht : s.threads i = some (.reval v :: .callAt kind :: k))
      (hh : s.handlers kind = f :: fs) :
      Step s (.call i kind f)
        { s.set i (.computation f :: .reval v :: .callAt kind :: k) with
          handlers := Function.update s.handlers kind fs
          status := .mainExited }
  | done {s i v kind k} (ht : s.threads i = some (.reval v :: .callAt kind :: k)) (hh : s.handlers kind = []) :
      Step s (.done i kind) { s.set i (.reval v :: k) with status := .mainExited }
  | spawn {s i j c k} (ht : s.threads i = some (c :: k)) (hc : c.Code) (hj : s.threads j = none) :
      Step s (.spawn i j) (s.set j [.function])
  /-- the main thread has come to its value, and all threads go -/
  | terminate {s v} (ht : s.threads 0 = some [.reval v]) :
      Step s .terminate { s with threads := fun _ => none, status := .terminated, resultValue := v }

/-- What the steps from the call of `main` on do. -/
inductive Reaches : List (Event F) → State F → Prop
  | start : Reaches [] initial
  | snoc {es s e t} (h : Reaches es s) (hstep : Step s e t) : Reaches (es ++ [e]) t

/-! ## What has happened -/

def Event.registers (kind : Kind) : Event F → Option F
  | .register _ kind' f => if kind' = kind then some f else none
  | _ => none

def Event.calls (kind : Kind) : Event F → Option F
  | .call _ kind' f => if kind' = kind then some f else none
  | _ => none

def Event.isExit : Event F → Bool
  | .exit _ _ _ => true
  | _ => false

def Event.isCall (i : Nat) : Event F → Bool
  | .call j _ _ => j = i
  | _ => false

def Event.isHandlerReturn (i : Nat) : Event F → Bool
  | .handlerReturns j => j = i
  | _ => false

/-- The value the thread is left with, and the cell whose functions are called after that. -/
def Event.leaves (i : Nat) : Event F → Option (Option Kind × Int)
  | .exit j kind n => if j = i then some (some kind, n) else none
  | .mainReturns j v => if j = i then some (some .exit, v) else none
  | .abort j => if j = i then some (none, 134) else none
  | _ => none

/-- The functions that were registered, in their order. -/
def registered (kind : Kind) (es : List (Event F)) : List F := es.filterMap (Event.registers kind)

/-- The functions that were called, in their order. -/
def called (kind : Kind) (es : List (Event F)) : List F := es.filterMap (Event.calls kind)

/-- The calls of `exit` and `quick_exit` that were not refused. -/
def exits (es : List (Event F)) : Nat := es.countP Event.isExit

def calls (i : Nat) (es : List (Event F)) : Nat := es.countP (Event.isCall i)

def handlerReturns (i : Nat) (es : List (Event F)) : Nat := es.countP (Event.isHandlerReturn i)

def lastLeave (i : Nat) (es : List (Event F)) : Option (Option Kind × Int) := (es.filterMap (Event.leaves i)).getLast?

section Snoc

variable {kind : Kind} {es : List (Event F)} {e : Event F} {i : Nat}

theorem registered_snoc : registered kind (es ++ [e]) = registered kind es ++ (e.registers kind).toList := by
  rw [registered, List.filterMap_append, List.filterMap_cons, List.filterMap_nil]
  cases e.registers kind <;> rfl

theorem called_snoc : called kind (es ++ [e]) = called kind es ++ (e.calls kind).toList := by
  rw [called, List.filterMap_append, List.filterMap_cons, List.filterMap_nil]
  cases e.calls kind <;> rfl

theorem exits_snoc : exits (es ++ [e]) = exits es + if e.isExit then 1 else 0 := by
  rw [exits, List.countP_append, List.countP_singleton]
  rfl

theorem calls_snoc : calls i (es ++ [e]) = calls i es + if e.isCall i then 1 else 0 := by
  rw [calls, List.countP_append, List.countP_singleton]
  rfl

theorem handlerReturns_snoc :
    handlerReturns i (es ++ [e]) = handlerReturns i es + if e.isHandlerReturn i then 1 else 0 := by
  rw [handlerReturns, List.countP_append, List.countP_singleton]
  rfl

theorem lastLeave_snoc : lastLeave i (es ++ [e]) = (e.leaves i).or (lastLeave i es) := by
  rw [lastLeave, List.filterMap_append, List.filterMap_cons, List.filterMap_nil]
  cases e.leaves i with
  | none => rw [List.append_nil]; rfl
  | some x => rw [List.getLast?_append]; rfl

/-- The thread that takes the step. -/
def Event.thread : Event F → Nat
  | .register i _ _ | .registerLate i _ | .exit i _ _ | .exitTwice i _ | .abort i | .mainReturns i _
  | .functionReturns i | .handlerReturns i | .call i _ _ | .done i _ | .spawn i _ => i
  | .terminate => 0

theorem isCall_of_ne (h : e.thread ≠ i) : e.isCall i = false := by
  cases e <;> first | rfl | exact decide_eq_false h

theorem isHandlerReturn_of_ne (h : e.thread ≠ i) : e.isHandlerReturn i = false := by
  cases e <;> first | rfl | exact decide_eq_false h

theorem leaves_of_ne (h : e.thread ≠ i) : e.leaves i = none := by
  cases e <;> first | rfl | exact if_neg h

end Snoc

/-! ## The invariant -/

/-- What can be on a thread, after what it has done so far. -/
inductive Shape (s : State F) (i : Nat) (es : List (Event F)) : List (Item F) → Prop
  | main (hi : i = 0) (hc : calls i es = handlerReturns i es) : Shape s i es [.main, .callAt .exit]
  | function (hi : i ≠ 0) (hc : calls i es = handlerReturns i es) : Shape s i es [.function]
  | result (hi : i ≠ 0) (hc : calls i es = handlerReturns i es) : Shape s i es []
  /-- calls are to be made -/
  | leaving {v kind} (hl : lastLeave i es = some (some kind, v)) (hc : calls i es = handlerReturns i es) :
      Shape s i es [.reval v, .callAt kind]
  | handler {v kind f} (hl : lastLeave i es = some (some kind, v)) (hc : calls i es = handlerReturns i es + 1)
      (hst : s.status = .mainExited) : Shape s i es [.computation f, .reval v, .callAt kind]
  /-- none is left, or `abort` was called -/
  | value {v w} (hl : lastLeave i es = some (w, v)) (hc : calls i es ≤ handlerReturns i es + 1)
      (hw : ∀ kind, w = some kind → s.status = .mainExited ∧ s.handlers kind = []) : Shape s i es [.reval v]
  | undef {e k} (hc : calls i es ≤ handlerReturns i es + 1) : Shape s i es (.undef e :: k)
  | unspec {e k} (hc : calls i es ≤ handlerReturns i es + 1) : Shape s i es (.unspec e :: k)

structure Inv (es : List (Event F)) (s : State F) : Prop where
  handlers : ∀ kind, called kind es ++ s.handlers kind = (registered kind es).reverse
  mainCalled : s.status = .mainCalled → (∀ kind, called kind es = []) ∧ exits es = 0
  once : exits es ≤ 1
  single : ∀ i, calls i es ≤ handlerReturns i es + 1
  shape : ∀ i k, s.threads i = some k → Shape s i es k
  live : ∀ i k, s.threads i = some k → s.status = .mainCalled ∨ s.status = .mainExited
  fresh : ∀ i, s.status ≠ .terminated → s.threads i = none → i ≠ 0 ∧ calls i es = handlerReturns i es
  final : s.status = .terminated →
    ∃ w, lastLeave 0 es = some (w, s.resultValue) ∧ ∀ kind, w = some kind → s.handlers kind = []

section Step

variable {es : List (Event F)} {s t : State F} {e : Event F} {i j : Nat} {k k' : List (Item F)}

/-- The step changes nothing that is known of the thread. -/
structure Quiet (e : Event F) (j : Nat) : Prop where
  leaves : e.leaves j = none
  isCall : e.isCall j = false
  isHandlerReturn : e.isHandlerReturn j = false

theorem quiet_of_ne (h : e.thread ≠ j) : Quiet e j := ⟨leaves_of_ne h, isCall_of_ne h, isHandlerReturn_of_ne h⟩

theorem Quiet.lastLeave (h : Quiet e j) : lastLeave j (es ++ [e]) = lastLeave j es := by
  rw [lastLeave_snoc, h.leaves, Option.none_or]

theorem Quiet.calls (h : Quiet e j) : calls j (es ++ [e]) = calls j es := by
  rw [calls_snoc, h.isCall]
  rfl

theorem Quiet.handlerReturns (h : Quiet e j) : handlerReturns j (es ++ [e]) = handlerReturns j es := by
  rw [handlerReturns_snoc, h.isHandlerReturn]
  rfl

theorem Shape.calls_le (h : Shape s i es k) : calls i es ≤ handlerReturns i es + 1 := by
  cases h with
  | main _ hc | function _ hc | result _ hc | leaving _ hc => exact hc.le.trans (Nat.le_succ _)
  | handler _ hc _ => exact hc.le
  | value _ hc _ | undef hc | unspec hc => exact hc

/-- The calls of the other threads are not in the way: once the end has begun no function is registered. -/
theorem Shape.mono (h : Shape s j es k) (he : Quiet e j)
    (hst : s.status = .mainExited → t.status = .mainExited ∧ ∀ kind, s.handlers kind = [] → t.handlers kind = []) :
    Shape t j (es ++ [e]) k := by
  have hl : lastLeave j (es ++ [e]) = lastLeave j es := he.lastLeave
  have hcalls : calls j (es ++ [e]) = calls j es := he.calls
  have hreturns : handlerReturns j (es ++ [e]) = handlerReturns j es := he.handlerReturns
  cases h with
  | main hi hc => exact .main hi (by rw [hcalls, hreturns, hc])
  | function hi hc => exact .function hi (by rw [hcalls, hreturns, hc])
  | result hi hc => exact .result hi (by rw [hcalls, hreturns, hc])
  | leaving hlast hc => exact .leaving (hl.trans hlast) (by rw [hcalls, hreturns, hc])
  | handler hlast hc hs => exact .handler (hl.trans hlast) (by rw [hcalls, hreturns, hc]) (hst hs).1
  | value hlast hc hw =>
    refine .value (hl.trans hlast) (by rwa [hcalls, hreturns]) fun kind hkind => ?_
    obtain ⟨hs, hempty⟩ := hw kind hkind
    exact ⟨(hst hs).1, (hst hs).2 kind hempty⟩
  | undef hc => exact .undef (by rwa [hcalls, hreturns])
  | unspec hc => exact .unspec (by rwa [hcalls, hreturns])

/-- **What a step of one thread has to keep.** -/
theorem Inv.advance (h : Inv es s) (hlive : s.status = .mainCalled ∨ s.status = .mainExited)
    (he : ∀ j, j ≠ i → Quiet e j) (hthreads : t.threads = Function.update s.threads i (some k'))
    (hst : t.status = s.status ∨ t.status = .mainExited)
    (hhandlers : s.status = .mainExited → ∀ kind, s.handlers kind = [] → t.handlers kind = [])
    (hlist : ∀ kind, called kind (es ++ [e]) ++ t.handlers kind = (registered kind (es ++ [e])).reverse)
    (hmain : t.status = .mainCalled → (∀ kind, e.calls kind = none) ∧ e.isExit = false)
    (honce : e.isExit = true → s.status = .mainCalled) (hk : Shape t i (es ++ [e]) k') : Inv (es ++ [e]) t := by
  have hlive' : t.status = .mainCalled ∨ t.status = .mainExited := by
    rcases hst with hst | hst
    · rwa [hst]
    · exact .inr hst
  have hsame : t.status = .mainCalled → s.status = .mainCalled := by
    intro hc
    rcases hst with hst | hst
    · rwa [← hst]
    · rw [hst] at hc
      cases hc
  have hkeep : s.status = .mainExited →
      t.status = .mainExited ∧ ∀ kind, s.handlers kind = [] → t.handlers kind = [] := by
    intro hs
    refine ⟨?_, hhandlers hs⟩
    rcases hst with hst | hst
    · rwa [hst]
    · exact hst
  constructor
  · exact hlist
  · intro hc
    obtain ⟨hcalled, hexits⟩ := h.mainCalled (hsame hc)
    obtain ⟨hcall, hexit⟩ := hmain hc
    refine ⟨fun kind => ?_, ?_⟩
    · rw [called_snoc, hcalled kind, hcall kind]
      rfl
    · rw [exits_snoc, hexits, hexit]
      rfl
  · rw [exits_snoc]
    by_cases hexit : e.isExit = true
    · rw [if_pos hexit, (h.mainCalled (honce hexit)).2]
    · rw [if_neg hexit]
      exact h.once
  · intro j
    by_cases hj : j = i
    · subst hj
      exact hk.calls_le
    · rw [(he j hj).calls, (he j hj).handlerReturns]
      exact h.single j
  · intro j k hjk
    rw [hthreads] at hjk
    by_cases hj : j = i
    · subst hj
      rw [Function.update_self] at hjk
      cases hjk
      exact hk
    · rw [Function.update_of_ne hj] at hjk
      exact (h.shape j k hjk).mono (he j hj) hkeep
  · exact fun _ _ _ => hlive'
  · intro j _ hj
    rw [hthreads] at hj
    by_cases hji : j = i
    · subst hji
      rw [Function.update_self] at hj
      cases hj
    · rw [Function.update_of_ne hji] at hj
      have hterm : s.status ≠ .terminated := by
        rintro hs
        rw [hs] at hlive
        rcases hlive with hlive | hlive <;> cases hlive
      rw [(he j hji).calls, (he j hji).handlerReturns]
      exact h.fresh j hterm hj
  · intro hterm
    rw [hterm] at hlive'
    rcases hlive' with hlive' | hlive' <;> cases hlive'

/-- A function of the program is being called where one of the shapes says so. -/
theorem Shape.code {c : Item F} (h : Shape s i es (c :: k)) (hc : c.Code) (hst : s.status = .mainCalled) :
    calls i es = handlerReturns i es := by
  cases h with
  | main _ hcount | function _ hcount => exact hcount
  | handler _ _ hs =>
    rw [hst] at hs
    cases hs
  | leaving _ _ | value _ _ _ | undef _ | unspec _ => exact hc.elim

theorem Inv.handlers_snoc (h : Inv es s) (hc : ∀ kind, e.calls kind = none) (hr : ∀ kind, e.registers kind = none)
    (kind : Kind) : called kind (es ++ [e]) ++ s.handlers kind = (registered kind (es ++ [e])).reverse := by
  rw [called_snoc, registered_snoc, hc, hr, Option.toList_none, List.append_nil, List.append_nil]
  exact h.handlers kind

/-- A step that leaves the cells alone. -/
theorem Inv.stay (h : Inv es s) (ht : s.threads i = some k) (he : ∀ j, j ≠ i → Quiet e j)
    (hc : ∀ kind, e.calls kind = none) (hr : ∀ kind, e.registers kind = none) (hexit : e.isExit = false)
    (hk : Shape (s.set i k') i (es ++ [e]) k') : Inv (es ++ [e]) (s.set i k') :=
  h.advance (h.live i k ht) he rfl (.inl rfl) (fun _ _ hempty => hempty) (h.handlers_snoc hc hr)
    (fun _ => ⟨hc, hexit⟩) (fun hexit' => absurd (hexit.symm.trans hexit') Bool.false_ne_true) hk

/-- **A step keeps the invariant.** -/
theorem inv_step (h : Inv es s) (hstep : Step s e t) : Inv (es ++ [e]) t := by
  cases hstep with
  | @register i c k kind f ht hc hst =>
    have hnot : s.status ≠ .mainExited := by
      rw [hst]
      exact Status.noConfusion
    refine h.advance (i := i) (.inl hst) (fun j hj => quiet_of_ne (Ne.symm hj))
      (Function.update_eq_self_iff.2 ht.symm).symm (.inl rfl) (fun hs => absurd hs hnot) (fun kind' => ?_)
      (fun _ => ⟨fun _ => rfl, rfl⟩) (fun _ => hst) ?_
    · have hlist := h.handlers kind'
      have hcalled := (h.mainCalled hst).1 kind'
      rw [hcalled, List.nil_append] at hlist
      rw [called_snoc, hcalled, registered_snoc, List.reverse_append, ← hlist]
      by_cases hkind : kind = kind'
      · subst hkind
        simp [Event.registers, Event.calls]
      · simp [Event.registers, Event.calls, hkind, Function.update_of_ne (Ne.symm hkind)]
    · exact (h.shape i _ ht).mono ⟨rfl, rfl, rfl⟩ fun hs => absurd hs hnot
  | @registerLate i c k kind ht hc hst =>
    refine h.stay ht (fun j hj => quiet_of_ne (Ne.symm hj)) (fun _ => rfl) (fun _ => rfl) rfl (.unspec ?_)
    rw [calls_snoc, handlerReturns_snoc]
    exact (h.shape i _ ht).calls_le
  | @exit i c k kind n ht hc hst =>
    refine h.advance (i := i) (.inl hst) (fun j hj => quiet_of_ne (Ne.symm hj)) rfl (.inr rfl)
      (fun _ _ hempty => hempty) (h.handlers_snoc (fun _ => rfl) (fun _ => rfl))
      (fun hmain => Status.noConfusion hmain) (fun _ => hst) (.leaving ?_ ?_)
    · rw [lastLeave_snoc, Event.leaves, if_pos rfl]
      rfl
    · rw [calls_snoc, handlerReturns_snoc]
      exact (h.shape i _ ht).code hc hst
  | @exitTwice i c k kind ht hc hst =>
    refine h.stay ht (fun j hj => quiet_of_ne (Ne.symm hj)) (fun _ => rfl) (fun _ => rfl) rfl (.undef ?_)
    rw [calls_snoc, handlerReturns_snoc]
    exact (h.shape i _ ht).calls_le
  | @abort i c k ht hc =>
    refine h.stay ht (fun j hj => quiet_of_ne (Ne.symm hj)) (fun _ => rfl) (fun _ => rfl) rfl
      (@Shape.value _ _ _ _ 134 none ?_ ?_ fun kind hkind => ?_)
    · rw [lastLeave_snoc, Event.leaves, if_pos rfl]
      rfl
    · rw [calls_snoc, handlerReturns_snoc]
      exact (h.shape i _ ht).calls_le
    · cases hkind
  | @mainReturns i v k ht =>
    have hshape := h.shape i _ ht
    cases hshape with
    | main hi hcount =>
      refine h.stay ht (fun j hj => quiet_of_ne (Ne.symm hj)) (fun _ => rfl) (fun _ => rfl) rfl (.leaving ?_ ?_)
      · rw [lastLeave_snoc, Event.leaves, if_pos rfl]
        rfl
      · rw [calls_snoc, handlerReturns_snoc]
        exact hcount
  | @functionReturns i k ht =>
    have hshape := h.shape i _ ht
    cases hshape with
    | function hi hcount =>
      refine h.stay ht (fun j hj => quiet_of_ne (Ne.symm hj)) (fun _ => rfl) (fun _ => rfl) rfl (.result hi ?_)
      rw [calls_snoc, handlerReturns_snoc]
      exact hcount
  | @handlerReturns i f k ht =>
    have hshape := h.shape i _ ht
    cases hshape with
    | handler hl hcount hst =>
      refine h.stay ht (fun j hj => quiet_of_ne (Ne.symm hj)) (fun _ => rfl) (fun _ => rfl) rfl (.leaving ?_ ?_)
      · rw [lastLeave_snoc]
        exact hl
      · rw [calls_snoc, handlerReturns_snoc, hcount]
        simp [Event.isCall, Event.isHandlerReturn]
  | @call i v kind k f fs ht hh =>
    have hshape := h.shape i _ ht
    cases hshape with
    | leaving hl hcount =>
      refine h.advance (i := i) (h.live i _ ht) (fun j hj => quiet_of_ne (Ne.symm hj)) rfl (.inr rfl)
        (fun _ kind' hempty => ?_) (fun kind' => ?_) (fun hmain => Status.noConfusion hmain)
        (fun hexit => absurd hexit Bool.false_ne_true) (.handler ?_ ?_ rfl)
      · by_cases hkind : kind' = kind
        · subst hkind
          rw [hh] at hempty
          cases hempty
        · show Function.update s.handlers kind fs kind' = []
          rwa [Function.update_of_ne hkind]
      · have hlist := h.handlers kind'
        rw [called_snoc, registered_snoc]
        by_cases hkind : kind = kind'
        · subst hkind
          rw [hh] at hlist
          simpa [Event.registers, Event.calls] using hlist
        · simpa [Event.registers, Event.calls, hkind, Function.update_of_ne (Ne.symm hkind)] using hlist
      · rw [lastLeave_snoc]
        exact hl
      · rw [calls_snoc, handlerReturns_snoc, hcount]
        simp [Event.isCall, Event.isHandlerReturn]
  | @done i v kind k ht hh =>
    have hshape := h.shape i _ ht
    cases hshape with
    | leaving hl hcount =>
      refine h.advance (i := i) (h.live i _ ht) (fun j hj => quiet_of_ne (Ne.symm hj)) rfl (.inr rfl)
        (fun _ _ hempty => hempty) (h.handlers_snoc (fun _ => rfl) (fun _ => rfl))
        (fun hmain => Status.noConfusion hmain) (fun hexit => absurd hexit Bool.false_ne_true)
        (.value (w := some kind) ?_ ?_ fun kind' hkind => ?_)
      · rw [lastLeave_snoc]
        exact hl
      · rw [calls_snoc, handlerReturns_snoc]
        exact hcount.le.trans (Nat.le_succ _)
      · cases hkind
        exact ⟨rfl, hh⟩
  | @spawn i j c k ht hc hj =>
    have hterm : s.status ≠ .terminated := by
      intro hs
      have hlive := h.live i _ ht
      rw [hs] at hlive
      rcases hlive with hlive | hlive <;> cases hlive
    obtain ⟨hj0, hcount⟩ := h.fresh j hterm hj
    refine h.advance (i := j) (h.live i _ ht) (fun _ _ => ⟨rfl, rfl, rfl⟩) rfl (.inl rfl)
      (fun _ _ hempty => hempty) (h.handlers_snoc (fun _ => rfl) (fun _ => rfl)) (fun _ => ⟨fun _ => rfl, rfl⟩)
      (fun hexit => absurd hexit Bool.false_ne_true) (.function hj0 ?_)
    rw [calls_snoc, handlerReturns_snoc]
    exact hcount
  | @terminate v ht =>
    have hquiet : ∀ j, Quiet (.terminate : Event F) j := fun _ => ⟨rfl, rfl, rfl⟩
    refine ⟨h.handlers_snoc (fun _ => rfl) (fun _ => rfl), fun hmain => Status.noConfusion hmain, ?_, fun j => ?_,
      fun j k hj => ?_, fun j k hj => ?_, fun j hne => absurd rfl hne, fun _ => ?_⟩
    · rw [exits_snoc]
      exact h.once
    · rw [(hquiet j).calls, (hquiet j).handlerReturns]
      exact h.single j
    · cases hj
    · cases hj
    · have hshape := h.shape 0 _ ht
      cases hshape with
      | @value _ w hl _ hw =>
        rw [(hquiet 0).lastLeave]
        exact ⟨w, hl, fun kind hkind => (hw kind hkind).2⟩

theorem inv_initial : Inv ([] : List (Event F)) initial := by
  refine ⟨fun _ => rfl, fun _ => ⟨fun _ => rfl, rfl⟩, Nat.zero_le _, fun _ => Nat.zero_le _, fun i k hk => ?_,
    fun _ _ _ => .inl rfl, fun i _ hi => ⟨?_, rfl⟩, fun hterm => Status.noConfusion hterm⟩
  · have hthread : (if i = 0 then some [.main, .callAt .exit] else none) = some k := hk
    by_cases hi : i = 0
    · rw [if_pos hi] at hthread
      cases hthread
      exact .main hi rfl
    · rw [if_neg hi] at hthread
      cases hthread
  · rintro rfl
    cases hi

theorem reaches_inv (h : Reaches es s) : Inv es s := by
  induction h with
  | start => exact inv_initial
  | snoc _ hstep ih => exact inv_step ih hstep

end Step

end Exit

end CSemantics
