/-
  Variable argument lists.

  The object a `va_list` names holds a number.  `<va-lists>` has for this number what is left of the arguments,
  and the frame of the function that started the list has it in `<live-va-lists>`.  The built-in functions run in
  frames of their own, so the frame of the function that calls them is the first on the stack.

      va_start ap      a number nobody has had, the unnamed arguments, live in the caller
      va_arg v         the first argument of the list goes, whoever asks
      va_copy dst v    another new number, with what is left of the list now
      va_end v         only in the function the list is live in
      return           only when the function has no list

  `Effect` says what each of them does, `effect_of_step` that it is what the rules do.  That the two places agree
  (`State.Agree`) and that a list is always what the call had, less what was taken (`run_list`), follow from it.

  A list that is started again without an end is reported by `va_start`.  `va_copy` checks `* Dst`, and the check
  is given an lvalue and not what is in the object; so it reports nothing.
-/
import CSemantics.Promotion
import CSemantics.Execution.Declaration
import CSemantics.Memory.Encoding

namespace CSemantics.Stdarg

/-! ## Frames -/

/-- An argument, by the object that it is in, and the type it is bound with. -/
structure Arg where
  base : SymBase
  type : CType

/-- `<function-control>` -/
structure FunctionControl where
  /-- `getParams` of the type that the function has in `<gtypes>` -/
  params : List ParamDecl
  currFunctionParams : List CId
  /-- `<env>` and `<types>`, of the parameters -/
  env : List (CId × Arg)
  liveVaLists : Finset Int
  /-- the unnamed arguments of the call; no rule reads them here -/
  unnamed : List Arg

/-- `bindVariadics(Vs, N)` -/
def bindVariadics : List Arg → Int → List (CId × Arg)
  | [], _ => []
  | V :: Vs, N => (.vararg N, V) :: bindVariadics Vs (N + 1)

/-- The frame that `application` makes, when the arguments are bound. -/
def application (params : List ParamDecl) (named : List (CId × Arg)) (unnamed : List Arg) : FunctionControl where
  params := params
  currFunctionParams := (named ++ bindVariadics unnamed 0).map Prod.fst
  env := named ++ bindVariadics unnamed 0
  liveVaLists := ∅
  unnamed := unnamed

def isVarArg : CId → Bool
  | .vararg _ => true
  | _ => false

/-- `& (lookupInCaller(X))` -/
def lookupInCaller (caller : FunctionControl) (X : CId) : Eval Arg :=
  match caller.env.lookup X with
  | some a => .ok a
  | none => .error .stuck

def filterVarArgs (caller : FunctionControl) : List CId → Eval (List Arg)
  | [] => .ok []
  | .vararg N :: P => do
    let a ← lookupInCaller caller (.vararg N)
    return a :: (← filterVarArgs caller P)
  | _ :: P => filterVarArgs caller P

/-! ## The configuration -/

/-- One thread, with the objects that lists are kept in; `next` is the number the next `!N` gets. -/
structure State where
  functionControl : FunctionControl
  callStack : List FunctionControl
  vaLists : Int → Option (List Arg)
  objects : SymLoc → Option CValue
  next : Int

def State.frames (s : State) : List FunctionControl := s.functionControl :: s.callStack

/-- What a `checkDead` can be given: an rvalue, or an lvalue. -/
inductive KResult
  | rvalue (v : CValue)
  | nclv (l : SymLoc)

/-- What a call of a built-in function returns. -/
inductive Value
  | voidVal
  /-- the address of an argument -/
  | pointer (a : Arg)

inductive Builtin
  | vaStart (ap : SymLoc)
  | vaInc (v : CValue)
  | vaCopy (dst : SymLoc) (src : CValue)
  | vaEnd (v : CValue)

section Code

variable (cfg : Settings) (tags : Tags) (vaList : UType)

/-! ## The rules -/

def isArrayOrFunctionType : CType → Bool
  | .t _ _ (.array _ _) => true
  | .t _ _ (.nonArray (.functionType _ _)) => true
  | _ => false

/-- `_ ListItem(T) ListItem(variadic)` -/
def lastParam : List ParamDecl → Option CType
  | [.type T, .variadic] => some T
  | [.typedDeclaration T _, .variadic] => some T
  | _ :: P => lastParam P
  | [] => none

def hasVariadic : List ParamDecl → Bool
  | [] => false
  | .variadic :: _ => true
  | _ :: P => hasVariadic P

/-- `checkVarArgs`, of the function that calls `va_start` -/
def checkVarArgs (P : List ParamDecl) : Eval Unit :=
  if !hasVariadic P then
    .error (UNDEF "STDARG1" "'va_start' used in a function with fixed args.")
  else
    match lastParam P with
    | none => .error .stuck
    | some T =>
      if isRegisterType T then
        .error (UNDEF "STDARG10"
          "'va_start' called on function whose last fixed argument is declared with the register storage class.")
      else if isArrayOrFunctionType T then
        .error (UNDEF "STDARG11"
          "'va_start' called on function whose last fixed argument is declared with function or array type.")
      else do
        let T' ← argPromoteType cfg tags (utype T)
        if areCompatible cfg tags (type T') (type (utype T)) then return ()
        else
          .error (UNDEF "STDARG12"
            ("'va_start' called on function whose last fixed argument is not compatible with " ++
              "type after default argument promotions."))

/-- `checkDead(V)` -/
def checkDead (s : State) : KResult → Eval Unit
  | .rvalue (.opaqueValue N _) =>
    if (s.vaLists N).isSome then
      .error (UNDEF "STDARG2"
        "'va_start' or 'va_copy' used to reinitialize a va_list without an intervening call to va_end.")
    else .ok ()
  | .rvalue _ => .ok ()
  -- "Avoid triggering errors if it's a trap."
  | .nclv _ => .ok ()

/-- `read(Loc, T)` -/
def read (s : State) (l : SymLoc) : Eval KResult :=
  match s.objects l with
  | some v => .ok (.rvalue v)
  | none => .error .stuck

/-- `* Dst`, as far as a strict argument is evaluated -/
def deref (s : State) (l : SymLoc) : Eval KResult :=
  match s.objects l with
  | some _ => .ok (.nclv l)
  | none => .error .stuck

/-- `addVaList'(N, VaListPtr, Args)`, with the next `!N` -/
def addVaList' (s : State) (ap : SymLoc) (args : List Arg) : Eval State :=
  match s.callStack with
  | [] => .error .stuck
  | caller :: frames => .ok { s with
      vaLists := Function.update s.vaLists s.next (some args)
      callStack := { caller with liveVaLists := insert s.next caller.liveVaLists } :: frames
      objects := Function.update s.objects ap (some (.opaqueValue s.next vaList))
      next := s.next + 1 }

/-- `builtin("__kcc_va_start", …)` -/
def vaStart (s : State) (ap : SymLoc) : Eval State :=
  match s.callStack with
  | [] => .error .stuck
  | caller :: _ => do
    checkVarArgs cfg tags caller.params
    checkDead s (← read s ap)
    addVaList' vaList s ap (← filterVarArgs caller caller.currFunctionParams)

/-- `builtin("__kcc_va_inc", …)` -/
def vaInc (s : State) : CValue → Eval (State × Arg)
  | .opaqueValue N _ =>
    match s.vaLists N with
    | some (a :: args) => .ok ({ s with vaLists := Function.update s.vaLists N (some args) }, a)
    | some [] => .error (UNDEF "STDARG6" "'va_arg' called with no arguments remaining.")
    | none => .error (UNDEF "STDARG3" "'va_arg' called on an uninitialized va_list.")
  | _ => .error (UNDEF "STDARG3" "'va_arg' called on an uninitialized va_list.")

/-- `builtin("__kcc_va_copy", …)` -/
def vaCopy (s : State) (dst : SymLoc) : CValue → Eval State
  | .opaqueValue src _ =>
    match s.vaLists src with
    | some args => do
      checkDead s (← deref s dst)
      addVaList' vaList s dst args
    | none => .error (UNDEF "STDARG4" "'va_copy' called on an uninitialized source va_list.")
  | _ => .error (UNDEF "STDARG4" "'va_copy' called on an uninitialized source va_list.")

/-- `builtin("__kcc_va_end", …)` -/
def vaEnd (s : State) (v : CValue) : Eval State :=
  match s.callStack with
  | [] => .error .stuck
  | caller :: frames =>
    match v with
    | .opaqueValue N _ =>
      if N ∈ caller.liveVaLists then
        if (s.vaLists N).isSome then .ok { s with
          vaLists := Function.update s.vaLists N none
          callStack := { caller with liveVaLists := caller.liveVaLists.erase N } :: frames }
        else .error .stuck
      else .error (UNDEF "STDARG5" "'va_end' called on an uninitialized va_list.")
    | _ => .error (UNDEF "STDARG5" "'va_end' called on an uninitialized va_list.")

def builtin (s : State) : Builtin → Eval (State × Value)
  | .vaStart ap => do return (← vaStart cfg tags vaList s ap, .voidVal)
  | .vaInc v => do
    let (s, a) ← vaInc s v
    return (s, .pointer a)
  | .vaCopy dst v => do return (← vaCopy vaList s dst v, .voidVal)
  | .vaEnd v => do return (← vaEnd s v, .voidVal)

/-- `return(V)` -/
def ret (s : State) : Eval State :=
  if s.functionControl.liveVaLists ≠ ∅ then
    .error (UNDEF "STDARG9" "Function exited without calling 'va_end' after 'va_start' or 'va_copy'.")
  else
    match s.callStack with
    | [] => .error .stuck
    | caller :: frames => .ok { s with functionControl := caller, callStack := frames }

/-! ## Runs -/

/-- What a program can do. -/
inductive Op
  /-- an object comes to be, gets a value or goes -/
  | write (l : SymLoc) (v : Option CValue)
  /-- another rule takes a `!N` -/
  | fresh
  | call (params : List ParamDecl) (named : List (CId × Arg)) (unnamed : List Arg)
  | ret
  | builtin (b : Builtin)

def State.push (s : State) (f : FunctionControl) : State :=
  { s with functionControl := f, callStack := s.functionControl :: s.callStack }

def step (s : State) : Op → Eval (State × Value)
  | .write l v => .ok ({ s with objects := Function.update s.objects l v }, .voidVal)
  | .fresh => .ok ({ s with next := s.next + 1 }, .voidVal)
  | .call params named unnamed =>
    -- no parameter of a program has a name of this kind
    if named.all fun p => !isVarArg p.1 then .ok (s.push (application params named unnamed), .voidVal)
    else .error .stuck
  | .ret => do return (← ret s, .voidVal)
  | .builtin b => do
    let (s, v) ← builtin cfg tags vaList (s.push (application [] [] [])) b
    return (← ret s, v)

def run (s : State) : List Op → Eval State
  | [] => .ok s
  | op :: ops => do
    let (s, _) ← step cfg tags vaList s op
    run s ops

end Code

variable {cfg : Settings} {tags : Tags} {vaList : UType}

/-! ## What an operation does -/

/-- A new list: its number, and the arguments it starts with. -/
inductive Opens (s : State) : Op → List Arg → Prop
  | vaStart (ap : SymLoc) : Opens s (.builtin (.vaStart ap)) s.functionControl.unnamed
  | vaCopy {M : Int} {args : List Arg} (dst : SymLoc) (T : UType) (hsrc : s.vaLists M = some args) :
      Opens s (.builtin (.vaCopy dst (.opaqueValue M T))) args

/-- What is left of the lists and of the frames after an operation. -/
inductive Effect (s : State) : Op → State × Value → Prop
  /-- the lists and the frames stay as they are -/
  | other {op : Op} {objects : SymLoc → Option CValue} {next : Int} (hop : ∀ b, op ≠ .builtin b)
      (hnext : s.next ≤ next) : Effect s op ({ s with objects := objects, next := next }, .voidVal)
  | call {params : List ParamDecl} {named : List (CId × Arg)} {unnamed : List Arg}
      (hnamed : ∀ p ∈ named, isVarArg p.1 = false) :
      Effect s (.call params named unnamed) (s.push (application params named unnamed), .voidVal)
  | ret {caller : FunctionControl} {frames : List FunctionControl} (hlive : s.functionControl.liveVaLists = ∅)
      (hstack : s.callStack = caller :: frames) :
      Effect s .ret ({ s with functionControl := caller, callStack := frames }, .voidVal)
  | opens {op : Op} {args : List Arg} {objects : SymLoc → Option CValue} (hop : Opens s op args) :
      Effect s op ({ s with
        functionControl :=
          { s.functionControl with liveVaLists := insert s.next s.functionControl.liveVaLists }
        vaLists := Function.update s.vaLists s.next (some args)
        objects := objects
        next := s.next + 1 }, .voidVal)
  | takes {N : Int} {T : UType} {a : Arg} {args : List Arg} (hlist : s.vaLists N = some (a :: args)) :
      Effect s (.builtin (.vaInc (.opaqueValue N T)))
        ({ s with vaLists := Function.update s.vaLists N (some args) }, .pointer a)
  | ends {N : Int} {T : UType} (hlive : N ∈ s.functionControl.liveVaLists) :
      Effect s (.builtin (.vaEnd (.opaqueValue N T))) ({ s with
        functionControl := { s.functionControl with liveVaLists := s.functionControl.liveVaLists.erase N }
        vaLists := Function.update s.vaLists N none }, .voidVal)

/-- The unnamed arguments of a frame are what `filterVarArgs` collects. -/
def FunctionControl.Bound (f : FunctionControl) : Prop := filterVarArgs f f.currFunctionParams = .ok f.unnamed

/-- Arguments that are bound behind what has other names are found one by one. -/
theorem filterVarArgs_bindVariadics {f : FunctionControl} (Vs : List Arg) : ∀ {pre : List (CId × Arg)} {N : Int},
    f.env = pre ++ bindVariadics Vs N → (∀ p ∈ pre, ∀ M, p.1 = .vararg M → M < N) →
    filterVarArgs f ((bindVariadics Vs N).map Prod.fst) = .ok Vs := by
  induction Vs with
  | nil => exact fun _ _ => rfl
  | cons V Vs ih =>
    intro pre N henv hpre
    have hlookup : f.env.lookup (.vararg N) = some V := by
      rw [henv, AssocMap.lookup_append, List.lookup_eq_none_iff.mpr]
      · simp [bindVariadics]
      · intro p hp
        by_contra heq
        have heq : CId.vararg N = p.1 := by simpa using heq
        have := hpre p hp N heq.symm
        omega
    have hrest := @ih (pre ++ [(.vararg N, V)]) (N + 1) (by rw [henv, bindVariadics, List.append_assoc]; rfl) (by
      intro p hp M hM
      rcases List.mem_append.1 hp with hp | hp
      · have := hpre p hp M hM
        omega
      · rw [List.mem_singleton] at hp
        subst hp
        cases hM
        omega)
    rw [bindVariadics, List.map_cons, filterVarArgs, lookupInCaller, hlookup, hrest]
    rfl

theorem filterVarArgs_append_named {f : FunctionControl} {named : List (CId × Arg)}
    (hnamed : ∀ p ∈ named, isVarArg p.1 = false) (P : List CId) :
    filterVarArgs f (named.map Prod.fst ++ P) = filterVarArgs f P := by
  induction named with
  | nil => rfl
  | cons p named ih =>
    have hp := hnamed p List.mem_cons_self
    obtain ⟨X, a⟩ := p
    rw [List.map_cons, List.cons_append, filterVarArgs, ih fun q hq => hnamed q (List.mem_cons_of_mem _ hq)]
    rintro N rfl
    cases hp

/-- **The unnamed arguments of a call** are what the frame has, in their order. -/
theorem bound_application (params : List ParamDecl) {named : List (CId × Arg)} (unnamed : List Arg)
    (hnamed : ∀ p ∈ named, isVarArg p.1 = false) : (application params named unnamed).Bound := by
  unfold FunctionControl.Bound
  show filterVarArgs _ ((named ++ bindVariadics unnamed 0).map Prod.fst) = .ok unnamed
  rw [List.map_append, filterVarArgs_append_named hnamed]
  refine @filterVarArgs_bindVariadics _ unnamed named 0 rfl fun p hp M hM => ?_
  have := hnamed p hp
  rw [hM] at this
  cases this

/-- The lists of a frame have nothing to do with its arguments. -/
theorem FunctionControl.Bound.live {f : FunctionControl} (h : f.Bound) (L : Finset Int) :
    FunctionControl.Bound { f with liveVaLists := L } := by
  have hsame : ∀ P, filterVarArgs { f with liveVaLists := L } P = filterVarArgs f P := by
    intro P
    induction P with
    | nil => rfl
    | cons X P ih => cases X <;> simp only [filterVarArgs, lookupInCaller, ih]
  exact (hsame f.currFunctionParams).trans h

/-! ## The built-in functions, seen from the caller -/

section Caller

variable {s : State} {r : State × Value} {N : Int} {T : UType}

@[simp] theorem push_vaLists (f : FunctionControl) : (s.push f).vaLists = s.vaLists := rfl

@[simp] theorem push_objects (f : FunctionControl) : (s.push f).objects = s.objects := rfl

@[simp] theorem push_callStack (f : FunctionControl) : (s.push f).callStack = s.functionControl :: s.callStack := rfl

theorem step_vaInc_cons {a : Arg} {args : List Arg} (hlist : s.vaLists N = some (a :: args)) :
    step cfg tags vaList s (.builtin (.vaInc (.opaqueValue N T))) =
      .ok ({ s with vaLists := Function.update s.vaLists N (some args) }, .pointer a) := by
  rw [step, builtin, vaInc, push_vaLists, hlist]
  rfl

/-- **No argument is left.** -/
theorem step_vaInc_nil (hlist : s.vaLists N = some []) :
    step cfg tags vaList s (.builtin (.vaInc (.opaqueValue N T))) =
      .error (UNDEF "STDARG6" "'va_arg' called with no arguments remaining.") := by
  rw [step, builtin, vaInc, push_vaLists, hlist]
  rfl

theorem step_vaInc_none (hlist : s.vaLists N = none) :
    step cfg tags vaList s (.builtin (.vaInc (.opaqueValue N T))) =
      .error (UNDEF "STDARG3" "'va_arg' called on an uninitialized va_list.") := by
  rw [step, builtin, vaInc, push_vaLists, hlist]
  rfl

/-- **A list of another function**, or of none. -/
theorem step_vaEnd_not_mem (hlive : N ∉ s.functionControl.liveVaLists) :
    step cfg tags vaList s (.builtin (.vaEnd (.opaqueValue N T))) =
      .error (UNDEF "STDARG5" "'va_end' called on an uninitialized va_list.") := by
  rw [step, builtin, vaEnd, push_callStack]
  simp only [hlive, if_false]
  rfl

/-- **A list that is live**, and `va_start` again. -/
theorem step_vaStart_live {ap : SymLoc} (hvar : checkVarArgs cfg tags s.functionControl.params = .ok ())
    (hap : s.objects ap = some (.opaqueValue N T)) (hlive : (s.vaLists N).isSome) :
    step cfg tags vaList s (.builtin (.vaStart ap)) =
      .error (UNDEF "STDARG2"
        "'va_start' or 'va_copy' used to reinitialize a va_list without an intervening call to va_end.") := by
  rw [step, builtin, vaStart, push_callStack]
  simp only [hvar, Eval.ok_bind, read, push_objects, hap, checkDead, push_vaLists, hlive, if_true]
  rfl

theorem step_vaStart_fixed {ap : SymLoc} {e : Stop}
    (hvar : checkVarArgs cfg tags s.functionControl.params = .error e) :
    step cfg tags vaList s (.builtin (.vaStart ap)) = .error e := by
  rw [step, builtin, vaStart, push_callStack]
  simp only [hvar]
  rfl

/-- **`va_start`**, for an object whose list is not live -/
theorem step_vaStart {ap : SymLoc} {v : CValue} (hbound : s.functionControl.Bound)
    (hvar : checkVarArgs cfg tags s.functionControl.params = .ok ()) (hap : s.objects ap = some v)
    (hdead : checkDead s (.rvalue v) = .ok ()) :
    step cfg tags vaList s (.builtin (.vaStart ap)) = .ok ({ s with
      functionControl := { s.functionControl with liveVaLists := insert s.next s.functionControl.liveVaLists }
      vaLists := Function.update s.vaLists s.next (some s.functionControl.unnamed)
      objects := Function.update s.objects ap (some (.opaqueValue s.next vaList))
      next := s.next + 1 }, .voidVal) := by
  have hbound : filterVarArgs s.functionControl s.functionControl.currFunctionParams =
      .ok s.functionControl.unnamed := hbound
  have hdead : checkDead (s.push (application [] [] [])) (.rvalue v) = .ok () := by
    rw [← hdead]
    cases v <;> rfl
  rw [step, builtin, vaStart, push_callStack]
  simp only [hvar, Eval.ok_bind, read, push_objects, hap, hdead, hbound]
  rfl

/-- **`va_copy` starts a list again**, whatever is in the object. -/
theorem step_vaCopy {dst : SymLoc} {v : CValue} {args : List Arg} (hdst : s.objects dst = some v)
    (hsrc : s.vaLists N = some args) :
    step cfg tags vaList s (.builtin (.vaCopy dst (.opaqueValue N T))) = .ok ({ s with
      functionControl := { s.functionControl with liveVaLists := insert s.next s.functionControl.liveVaLists }
      vaLists := Function.update s.vaLists s.next (some args)
      objects := Function.update s.objects dst (some (.opaqueValue s.next vaList))
      next := s.next + 1 }, .voidVal) := by
  rw [step, builtin, vaCopy, push_vaLists, hsrc]
  simp only [deref, push_objects, hdst]
  rfl

theorem step_vaCopy_none {dst : SymLoc} (hsrc : s.vaLists N = none) :
    step cfg tags vaList s (.builtin (.vaCopy dst (.opaqueValue N T))) =
      .error (UNDEF "STDARG4" "'va_copy' called on an uninitialized source va_list.") := by
  rw [step, builtin, vaCopy, push_vaLists, hsrc]
  rfl

/-- **A list is live**, and the function returns. -/
theorem step_ret_live (hlive : s.functionControl.liveVaLists ≠ ∅) :
    step cfg tags vaList s .ret = .error
      (UNDEF "STDARG9" "Function exited without calling 'va_end' after 'va_start' or 'va_copy'.") := by
  rw [step, ret, if_pos hlive]
  rfl

theorem effect_of_vaStart {ap : SymLoc} (hbound : s.functionControl.Bound)
    (h : step cfg tags vaList s (.builtin (.vaStart ap)) = .ok r) : Effect s (.builtin (.vaStart ap)) r := by
  cases hvar : checkVarArgs cfg tags s.functionControl.params with
  | error e =>
    rw [step_vaStart_fixed hvar] at h
    cases h
  | ok u =>
    cases hap : s.objects ap with
    | none =>
      rw [step, builtin, vaStart, push_callStack] at h
      simp only [hvar, Eval.ok_bind, read, push_objects, hap] at h
      cases h
    | some v =>
      cases hdead : checkDead s (.rvalue v) with
      | error e =>
        have hdead : checkDead (s.push (application [] [] [])) (.rvalue v) = .error e := by
          rw [← hdead]
          cases v <;> rfl
        rw [step, builtin, vaStart, push_callStack] at h
        simp only [hvar, Eval.ok_bind, read, push_objects, hap, hdead] at h
        cases h
      | ok u =>
        rw [step_vaStart hbound hvar hap hdead] at h
        cases h
        exact .opens (.vaStart ap)

theorem effect_of_vaInc {v : CValue} (h : step cfg tags vaList s (.builtin (.vaInc v)) = .ok r) :
    Effect s (.builtin (.vaInc v)) r := by
  cases v with
  | opaqueValue N T =>
    cases hlist : s.vaLists N with
    | none =>
      rw [step_vaInc_none hlist] at h
      cases h
    | some args =>
      cases args with
      | nil =>
        rw [step_vaInc_nil hlist] at h
        cases h
      | cons a args =>
        rw [step_vaInc_cons hlist] at h
        cases h
        exact .takes hlist
  | _ => cases h

theorem effect_of_vaCopy {dst : SymLoc} {v : CValue}
    (h : step cfg tags vaList s (.builtin (.vaCopy dst v)) = .ok r) : Effect s (.builtin (.vaCopy dst v)) r := by
  cases v with
  | opaqueValue N T =>
    cases hsrc : s.vaLists N with
    | none =>
      rw [step_vaCopy_none hsrc] at h
      cases h
    | some args =>
      cases hdst : s.objects dst with
      | none =>
        rw [step, builtin, vaCopy, push_vaLists, hsrc] at h
        simp only [deref, push_objects, hdst] at h
        cases h
      | some w =>
        rw [step_vaCopy hdst hsrc] at h
        cases h
        exact .opens (.vaCopy dst T hsrc)
  | _ => cases h

theorem effect_of_vaEnd {v : CValue} (h : step cfg tags vaList s (.builtin (.vaEnd v)) = .ok r) :
    Effect s (.builtin (.vaEnd v)) r := by
  cases v with
  | opaqueValue N T =>
    by_cases hlive : N ∈ s.functionControl.liveVaLists
    · rw [step, builtin, vaEnd, push_callStack] at h
      cases hlist : s.vaLists N with
      | none =>
        simp only [hlive, if_true, push_vaLists, hlist, Option.isSome_none, Bool.false_eq_true, if_false] at h
        cases h
      | some args =>
        simp only [hlive, if_true, push_vaLists, hlist, Option.isSome_some] at h
        cases h
        exact .ends hlive
    · rw [step_vaEnd_not_mem hlive] at h
      cases h
  | _ => cases h

end Caller

/-- **The rules do what they are for.** -/
theorem effect_of_step {s : State} {op : Op} {r : State × Value} (hbound : s.functionControl.Bound)
    (h : step cfg tags vaList s op = .ok r) : Effect s op r := by
  cases op with
  | write l v =>
    cases h
    exact .other (fun b hb => by cases hb) (le_refl _)
  | fresh =>
    cases h
    exact .other (fun b hb => by cases hb) (by omega)
  | call params named unnamed =>
    rw [step] at h
    split at h
    · rename_i hall
      cases h
      exact .call fun p hp => by simpa using List.all_eq_true.1 hall p hp
    · cases h
  | ret =>
    by_cases hlive : s.functionControl.liveVaLists = ∅
    · rw [step, ret, if_neg (by simpa using hlive)] at h
      cases hstack : s.callStack with
      | nil =>
        rw [hstack] at h
        cases h
      | cons caller frames =>
        rw [hstack] at h
        cases h
        exact .ret hlive hstack
    · rw [step_ret_live hlive] at h
      cases h
  | builtin b =>
    cases b with
    | vaStart ap => exact effect_of_vaStart hbound h
    | vaInc v => exact effect_of_vaInc h
    | vaCopy dst v => exact effect_of_vaCopy h
    | vaEnd v => exact effect_of_vaEnd h

/-! ## The two places -/

/-- **The lists are those that are live somewhere**, each in one frame. -/
structure State.Agree (s : State) : Prop where
  keys : ∀ N, (s.vaLists N).isSome ↔ ∃ f ∈ s.frames, N ∈ f.liveVaLists
  disjoint : s.frames.Pairwise fun f g => Disjoint f.liveVaLists g.liveVaLists
  lt_next : ∀ N, (s.vaLists N).isSome → N < s.next
  bound : ∀ f ∈ s.frames, f.Bound

/-- Before the first list. -/
structure Start (s : State) : Prop where
  vaLists : ∀ N, s.vaLists N = none
  live : ∀ f ∈ s.frames, f.liveVaLists = ∅
  bound : ∀ f ∈ s.frames, f.Bound

theorem agree_start {s : State} (h : Start s) : s.Agree where
  keys N := by
    rw [h.vaLists N]
    constructor
    · intro hN
      cases hN
    · rintro ⟨f, hf, hN⟩
      rw [h.live f hf] at hN
      exact absurd hN (Finset.notMem_empty N)
  disjoint := by
    refine List.pairwise_of_forall_mem_list fun f hf g _ => ?_
    rw [h.live f hf]
    exact Finset.disjoint_empty_left _
  lt_next N hN := by
    rw [h.vaLists N] at hN
    cases hN
  bound := h.bound

section Agree

variable {s : State} {op : Op} {r : State × Value} {N : Int}

theorem exists_frame {P : FunctionControl → Prop} :
    (∃ f ∈ s.frames, P f) ↔ P s.functionControl ∨ ∃ f ∈ s.callStack, P f := by
  rw [State.frames]
  simp only [List.mem_cons, exists_eq_or_imp]

/-- A list that is live in the running function is live in no other. -/
theorem State.Agree.not_mem_callStack (h : s.Agree) (hN : N ∈ s.functionControl.liveVaLists) :
    ∀ f ∈ s.callStack, N ∉ f.liveVaLists := by
  intro f hf hNf
  have hdisj := (List.pairwise_cons.1 h.disjoint).1 f hf
  exact Finset.disjoint_left.1 hdisj hN hNf

/-- The next number is not in use. -/
theorem State.Agree.next_eq_none (h : s.Agree) : s.vaLists s.next = none := by
  by_contra hne
  have := h.lt_next s.next (Option.isSome_iff_ne_none.2 hne)
  omega

theorem State.Agree.next_not_mem (h : s.Agree) : ∀ f ∈ s.frames, s.next ∉ f.liveVaLists := by
  intro f hf hN
  have := (h.keys s.next).2 ⟨f, hf, hN⟩
  rw [h.next_eq_none] at this
  cases this

theorem agree_opens {args : List Arg} {objects : SymLoc → Option CValue} (h : s.Agree) :
    State.Agree { s with
      functionControl := { s.functionControl with liveVaLists := insert s.next s.functionControl.liveVaLists }
      vaLists := Function.update s.vaLists s.next (some args)
      objects := objects
      next := s.next + 1 } where
  keys N := by
    rw [exists_frame]
    show (Function.update s.vaLists s.next (some args) N).isSome ↔
      N ∈ insert s.next s.functionControl.liveVaLists ∨ ∃ f ∈ s.callStack, N ∈ f.liveVaLists
    by_cases hN : N = s.next
    · subst hN
      rw [Function.update_self]
      exact ⟨fun _ => .inl (Finset.mem_insert_self ..), fun _ => rfl⟩
    · rw [Function.update_of_ne hN, h.keys N, exists_frame, Finset.mem_insert, or_iff_right hN]
  disjoint := by
    obtain ⟨hhead, htail⟩ := List.pairwise_cons.1 h.disjoint
    refine List.pairwise_cons.2 ⟨fun f hf => ?_, htail⟩
    have hnew := h.next_not_mem f (List.mem_cons_of_mem _ hf)
    exact Finset.disjoint_insert_left.2 ⟨hnew, hhead f hf⟩
  lt_next N hN := by
    show N < s.next + 1
    by_cases hN' : N = s.next
    · omega
    · have hN : (Function.update s.vaLists s.next (some args) N).isSome := hN
      rw [Function.update_of_ne hN'] at hN
      have := h.lt_next N hN
      omega
  bound f hf := by
    rcases List.mem_cons.1 hf with rfl | hf
    · exact (h.bound s.functionControl List.mem_cons_self).live _
    · exact h.bound f (List.mem_cons_of_mem _ hf)

theorem agree_ends (h : s.Agree) (hlive : N ∈ s.functionControl.liveVaLists) :
    State.Agree { s with
      functionControl := { s.functionControl with liveVaLists := s.functionControl.liveVaLists.erase N }
      vaLists := Function.update s.vaLists N none } where
  keys M := by
    rw [exists_frame]
    show (Function.update s.vaLists N none M).isSome ↔
      M ∈ s.functionControl.liveVaLists.erase N ∨ ∃ f ∈ s.callStack, M ∈ f.liveVaLists
    by_cases hM : M = N
    · subst hM
      rw [Function.update_self]
      constructor
      · intro hnone
        cases hnone
      · rintro (herase | ⟨f, hf, hmem⟩)
        · exact absurd herase (Finset.notMem_erase M _)
        · exact absurd hmem (h.not_mem_callStack hlive f hf)
    · rw [Function.update_of_ne hM, h.keys M, exists_frame, Finset.mem_erase, and_iff_right hM]
  disjoint := by
    obtain ⟨hhead, htail⟩ := List.pairwise_cons.1 h.disjoint
    refine List.pairwise_cons.2 ⟨fun f hf => ?_, htail⟩
    exact Finset.disjoint_of_subset_left (Finset.erase_subset ..) (hhead f hf)
  lt_next M hM := by
    have hM : (Function.update s.vaLists N none M).isSome := hM
    by_cases hMN : M = N
    · subst hMN
      rw [Function.update_self] at hM
      cases hM
    · rw [Function.update_of_ne hMN] at hM
      exact h.lt_next M hM
  bound f hf := by
    rcases List.mem_cons.1 hf with rfl | hf
    · exact (h.bound s.functionControl List.mem_cons_self).live _
    · exact h.bound f (List.mem_cons_of_mem _ hf)

/-- **Every operation keeps the two places in step.** -/
theorem agree_effect (h : s.Agree) (he : Effect s op r) : r.1.Agree := by
  cases he with
  | @other _ objects next _ hnext =>
    exact ⟨h.keys, h.disjoint, fun N hN => by have := h.lt_next N hN; show N < next; omega, h.bound⟩
  | @call params named unnamed hnamed =>
    refine ⟨fun N => ?_, ?_, h.lt_next, fun f hf => ?_⟩
    · rw [exists_frame]
      show (s.vaLists N).isSome ↔ N ∈ (∅ : Finset Int) ∨ ∃ f ∈ s.frames, N ∈ f.liveVaLists
      rw [or_iff_right (Finset.notMem_empty N)]
      exact h.keys N
    · exact List.pairwise_cons.2 ⟨fun f _ => Finset.disjoint_empty_left _, h.disjoint⟩
    · rcases List.mem_cons.1 hf with rfl | hf
      · exact bound_application params unnamed hnamed
      · exact h.bound f hf
  | @ret caller frames hlive hstack =>
    have hframes : s.frames = s.functionControl :: caller :: frames := by rw [State.frames, hstack]
    have hdisj := h.disjoint
    rw [hframes] at hdisj
    refine ⟨fun N => ?_, (List.pairwise_cons.1 hdisj).2, h.lt_next, fun f hf => ?_⟩
    · show (s.vaLists N).isSome ↔ ∃ f ∈ caller :: frames, N ∈ f.liveVaLists
      rw [h.keys N, hframes]
      simp only [List.mem_cons, exists_eq_or_imp, hlive, Finset.notMem_empty, false_or]
    · exact h.bound f (by rw [hframes]; exact List.mem_cons_of_mem _ hf)
  | opens hop => exact agree_opens h
  | @takes N T a args hlist =>
    have hkeys : ∀ M, (Function.update s.vaLists N (some args) M).isSome ↔ (s.vaLists M).isSome := by
      intro M
      by_cases hM : M = N
      · subst hM
        rw [Function.update_self, hlist]
        rfl
      · rw [Function.update_of_ne hM]
    exact ⟨fun M => (hkeys M).trans (h.keys M), h.disjoint, fun M hM => h.lt_next M ((hkeys M).1 hM), h.bound⟩
  | ends hlive => exact agree_ends h hlive

end Agree

theorem agree_step {s : State} {op : Op} {r : State × Value} (h : s.Agree)
    (hstep : step cfg tags vaList s op = .ok r) : r.1.Agree :=
  agree_effect h (effect_of_step (h.bound s.functionControl List.mem_cons_self) hstep)

theorem run_cons_iff {s t : State} {op : Op} {ops : List Op} :
    run cfg tags vaList s (op :: ops) = .ok t ↔
      ∃ r, step cfg tags vaList s op = .ok r ∧ run cfg tags vaList r.1 ops = .ok t := by
  rw [run, Eval.bind_eq_ok]

theorem run_append {pre post : List Op} : ∀ {s t u : State}, run cfg tags vaList s pre = .ok t →
    run cfg tags vaList t post = .ok u → run cfg tags vaList s (pre ++ post) = .ok u := by
  induction pre with
  | nil =>
    intro s t u hpre hpost
    cases hpre
    exact hpost
  | cons op pre ih =>
    intro s t u hpre hpost
    obtain ⟨r, hstep, hpre⟩ := run_cons_iff.1 hpre
    exact run_cons_iff.2 ⟨r, hstep, ih hpre hpost⟩

/-- **The two places agree in every state of a run.** -/
theorem agree_run (ops : List Op) : ∀ {s t : State}, s.Agree → run cfg tags vaList s ops = .ok t → t.Agree := by
  induction ops with
  | nil =>
    intro s t h hrun
    cases hrun
    exact h
  | cons op ops ih =>
    intro s t h hrun
    obtain ⟨r, hstep, hrun⟩ := run_cons_iff.1 hrun
    exact ih (agree_step h hstep) hrun

/-! ## The arguments of a list -/

/-- An operation asks for an argument of the list, or it does not. -/
def takes (N : Int) : Op → Nat
  | .builtin (.vaInc (.opaqueValue M _)) => if M = N then 1 else 0
  | _ => 0

/-- How often an argument of the list is asked for. -/
def taken (N : Int) (ops : List Op) : Nat := (ops.map (takes N)).sum

/-- **One operation** takes the first argument of the list, or ends it, or leaves it. -/
theorem list_effect {s : State} {op : Op} {r : State × Value} {N : Int} {args : List Arg} (he : Effect s op r)
    (hN : N < s.next) (hlist : s.vaLists N = some args) :
    N < r.1.next ∧ (r.1.vaLists N = none ∨
      takes N op ≤ args.length ∧ r.1.vaLists N = some (args.drop (takes N op))) := by
  cases he with
  | @other op objects next hop hnext =>
    refine ⟨lt_of_lt_of_le hN hnext, .inr ?_⟩
    have hzero : takes N op = 0 := by
      cases op with
      | builtin b => exact absurd rfl (hop b)
      | _ => rfl
    rw [hzero]
    exact ⟨Nat.zero_le _, hlist⟩
  | call _ => exact ⟨hN, .inr ⟨Nat.zero_le _, hlist⟩⟩
  | ret _ _ => exact ⟨hN, .inr ⟨Nat.zero_le _, hlist⟩⟩
  | @opens op args' objects hop =>
    refine ⟨by show N < s.next + 1; omega, .inr ?_⟩
    have hzero : takes N op = 0 := by cases hop <;> rfl
    rw [hzero]
    refine ⟨Nat.zero_le _, ?_⟩
    show Function.update s.vaLists s.next (some args') N = _
    rw [Function.update_of_ne (by omega)]
    exact hlist
  | @takes M T a args' hM =>
    refine ⟨hN, .inr ?_⟩
    show _ ∧ Function.update s.vaLists M (some args') N = _
    by_cases h : M = N
    · subst h
      rw [hlist] at hM
      cases hM
      rw [Function.update_self]
      simp [takes]
    · rw [Function.update_of_ne (Ne.symm h)]
      simp [takes, h, hlist]
  | @ends M T hlive =>
    refine ⟨hN, ?_⟩
    show Function.update s.vaLists M none N = none ∨ _ ∧ Function.update s.vaLists M none N = _
    by_cases h : N = M
    · subst h
      rw [Function.update_self]
      exact .inl rfl
    · rw [Function.update_of_ne h]
      exact .inr ⟨Nat.zero_le _, hlist⟩

/-- **A list that is over** is over for good. -/
theorem none_effect {s : State} {op : Op} {r : State × Value} {N : Int} (he : Effect s op r) (hN : N < s.next)
    (hlist : s.vaLists N = none) : N < r.1.next ∧ r.1.vaLists N = none := by
  cases he with
  | other _ hnext => exact ⟨lt_of_lt_of_le hN hnext, hlist⟩
  | call _ => exact ⟨hN, hlist⟩
  | ret _ _ => exact ⟨hN, hlist⟩
  | opens _ =>
    refine ⟨by show N < s.next + 1; omega, ?_⟩
    show Function.update s.vaLists s.next _ N = none
    rw [Function.update_of_ne (by omega)]
    exact hlist
  | @takes M T a args hM =>
    refine ⟨hN, ?_⟩
    show Function.update s.vaLists M (some args) N = none
    have hne : N ≠ M := by
      rintro rfl
      rw [hlist] at hM
      cases hM
    rw [Function.update_of_ne hne]
    exact hlist
  | @ends M T _ =>
    refine ⟨hN, ?_⟩
    show Function.update s.vaLists M none N = none
    by_cases h : N = M
    · rw [h, Function.update_self]
    · rw [Function.update_of_ne h]
      exact hlist

theorem none_run {N : Int} (ops : List Op) : ∀ {s t : State}, s.Agree → N < s.next → s.vaLists N = none →
    run cfg tags vaList s ops = .ok t → t.vaLists N = none := by
  induction ops with
  | nil =>
    intro s t _ _ hlist hrun
    cases hrun
    exact hlist
  | cons op ops ih =>
    intro s t h hN hlist hrun
    obtain ⟨r, hstep, hrun⟩ := run_cons_iff.1 hrun
    have he := effect_of_step (h.bound s.functionControl List.mem_cons_self) hstep
    obtain ⟨hN', hlist'⟩ := none_effect he hN hlist
    exact ih (agree_effect h he) hN' hlist' hrun

/-- **What is left of a list** is what it started with, less what was taken. -/
theorem list_run {N : Int} (ops : List Op) : ∀ {s t : State} {args : List Arg}, s.Agree → N < s.next →
    s.vaLists N = some args → run cfg tags vaList s ops = .ok t → (t.vaLists N).isSome →
    t.vaLists N = some (args.drop (taken N ops)) := by
  induction ops with
  | nil =>
    intro s t args _ _ hlist hrun _
    cases hrun
    exact hlist
  | cons op ops ih =>
    intro s t args h hN hlist hrun hlive
    obtain ⟨r, hstep, hrun⟩ := run_cons_iff.1 hrun
    have he := effect_of_step (h.bound s.functionControl List.mem_cons_self) hstep
    obtain ⟨hN', hover | ⟨hle, hlist'⟩⟩ := list_effect he hN hlist
    · rw [none_run ops (agree_effect h he) hN' hover hrun] at hlive
      cases hlive
    · rw [ih (agree_effect h he) hN' hlist' hrun hlive, List.drop_drop, taken, taken, List.map_cons, List.sum_cons]

/-! ## The whole of it -/

section Whole

variable (cfg tags vaList)

/-- What has to be reported, and under which code. -/
inductive Misuse (s : State) : Op → String → Prop
  /-- `va_arg` when no argument is left -/
  | past {N : Int} (T : UType) (hlist : s.vaLists N = some []) :
      Misuse s (.builtin (.vaInc (.opaqueValue N T))) "STDARG6"
  /-- `va_end` of a list of another function -/
  | elsewhere {N : Int} (T : UType) (hlive : N ∉ s.functionControl.liveVaLists) :
      Misuse s (.builtin (.vaEnd (.opaqueValue N T))) "STDARG5"
  /-- `va_start` for an object with a live list -/
  | restart {ap : SymLoc} {N : Int} {T : UType} (hap : s.objects ap = some (.opaqueValue N T))
      (hlive : (s.vaLists N).isSome) (hvar : checkVarArgs cfg tags s.functionControl.params = .ok ()) :
      Misuse s (.builtin (.vaStart ap)) "STDARG2"
  /-- the same, in a function that cannot call it at all -/
  | fixed {ap : SymLoc} {m : ErrorMsg} (hvar : checkVarArgs cfg tags s.functionControl.params = .error (.report m)) :
      Misuse s (.builtin (.vaStart ap)) m.code
  /-- `va_copy` into an object with a live list -/
  | recopy {dst : SymLoc} {M N : Int} {T : UType} (T' : UType) (hdst : s.objects dst = some (.opaqueValue N T))
      (hlive : (s.vaLists N).isSome) (hsrc : (s.vaLists M).isSome) :
      Misuse s (.builtin (.vaCopy dst (.opaqueValue M T'))) "STDARG2"
  /-- the end of a function with a live list -/
  | leave (hlive : s.functionControl.liveVaLists ≠ ∅) : Misuse s .ret "STDARG9"

/-- **What is promised of a run**, and of whatever comes next in it. -/
structure Right (s₀ : State) (ops : List Op) : Prop where
  keys : ∀ pre post s, ops = pre ++ post → run cfg tags vaList s₀ pre = .ok s →
    ∀ N, (s.vaLists N).isSome ↔ ∃ f ∈ s.frames, N ∈ f.liveVaLists
  disjoint : ∀ pre post s, ops = pre ++ post → run cfg tags vaList s₀ pre = .ok s →
    s.frames.Pairwise fun f g => Disjoint f.liveVaLists g.liveVaLists
  /-- the `k`-th argument of the list that `op` opens, when it has been asked for `k` times -/
  argument : ∀ pre op mid post s args r t, ops = pre ++ op :: (mid ++ post) → run cfg tags vaList s₀ pre = .ok s →
    Opens s op args → step cfg tags vaList s op = .ok r → run cfg tags vaList r.1 mid = .ok t →
    (t.vaLists s.next).isSome → ∀ T a, args[taken s.next mid]? = some a →
    ∃ t', step cfg tags vaList t (.builtin (.vaInc (.opaqueValue s.next T))) = .ok (t', .pointer a)
  other : ∀ pre post s, ops = pre ++ post → run cfg tags vaList s₀ pre = .ok s → ∀ N T r,
    step cfg tags vaList s (.builtin (.vaInc (.opaqueValue N T))) = .ok r →
    r.1.objects = s.objects ∧ ∀ M, M ≠ N → r.1.vaLists M = s.vaLists M
  reported : ∀ pre op post s code, ops = pre ++ op :: post → run cfg tags vaList s₀ pre = .ok s →
    Misuse cfg tags s op code → ∃ m, m.code = code ∧ step cfg tags vaList s op = .error (.report m)

/-- No `va_copy` of the run has a live list in the object that it copies to. -/
def NoLiveDestination (s₀ : State) (ops : List Op) : Prop :=
  ∀ pre post s dst M T N T', ops = pre ++ .builtin (.vaCopy dst (.opaqueValue M T)) :: post →
    run cfg tags vaList s₀ pre = .ok s → (s.vaLists M).isSome → s.objects dst = some (.opaqueValue N T') →
    s.vaLists N = none

end Whole

section Whole

variable {s₀ s : State} {ops : List Op}

/-- The list that `op` opens is there, under the number that was the next one. -/
theorem opens_list {op : Op} {args : List Arg} {r : State × Value} (hop : Opens s op args) (he : Effect s op r) :
    s.next < r.1.next ∧ r.1.vaLists s.next = some args := by
  cases he with
  | other hno _ =>
    cases hop with
    | vaStart ap => exact absurd rfl (hno _)
    | vaCopy dst T _ => exact absurd rfl (hno _)
  | call _ => cases hop
  | ret _ _ => cases hop
  | @opens op args' objects hop' =>
    have hsame : args' = args := by
      cases hop with
      | vaStart ap =>
        cases hop'
        rfl
      | vaCopy dst T hsrc =>
        cases hop' with
        | vaCopy _ _ hsrc' =>
          rw [hsrc] at hsrc'
          exact (Option.some.inj hsrc').symm
    refine ⟨by show s.next < s.next + 1; omega, ?_⟩
    show Function.update s.vaLists s.next (some args') s.next = some args
    rw [Function.update_self, hsame]
  | takes _ => cases hop
  | ends _ => cases hop

/-- **The `k`-th argument** of a list, in a run from where it was opened. -/
theorem argument_run {op : Op} {mid : List Op} {args : List Arg} {r : State × Value} {t : State} (h : s.Agree)
    (hop : Opens s op args) (hstep : step cfg tags vaList s op = .ok r)
    (hrun : run cfg tags vaList r.1 mid = .ok t) (hlive : (t.vaLists s.next).isSome) (T : UType) {a : Arg}
    (ha : args[taken s.next mid]? = some a) :
    ∃ t', step cfg tags vaList t (.builtin (.vaInc (.opaqueValue s.next T))) = .ok (t', .pointer a) := by
  have he := effect_of_step (h.bound s.functionControl List.mem_cons_self) hstep
  obtain ⟨hN, hlist⟩ := opens_list hop he
  have hrest := list_run mid (agree_effect h he) hN hlist hrun hlive
  obtain ⟨hlt, hget⟩ := List.getElem?_eq_some_iff.1 ha
  rw [List.drop_eq_getElem_cons hlt, hget] at hrest
  exact ⟨_, step_vaInc_cons hrest⟩

theorem other_step {N : Int} {T : UType} {r : State × Value}
    (hstep : step cfg tags vaList s (.builtin (.vaInc (.opaqueValue N T))) = .ok r) :
    r.1.objects = s.objects ∧ ∀ M, M ≠ N → r.1.vaLists M = s.vaLists M := by
  cases effect_of_vaInc hstep with
  | other hno _ => exact absurd rfl (hno _)
  | opens hop => cases hop
  | takes _ => exact ⟨rfl, fun M hM => Function.update_of_ne hM _ _⟩

/-- **Misuse is reported**, but for a copy into an object with a live list. -/
theorem reported_step {op : Op} {code : String}
    (hcopy : ∀ dst M T N T', op = .builtin (.vaCopy dst (.opaqueValue M T)) → (s.vaLists M).isSome →
      s.objects dst = some (.opaqueValue N T') → s.vaLists N = none)
    (h : Misuse cfg tags s op code) : ∃ m, m.code = code ∧ step cfg tags vaList s op = .error (.report m) := by
  cases h with
  | past T hlist => exact ⟨_, rfl, step_vaInc_nil hlist⟩
  | elsewhere T hlive => exact ⟨_, rfl, step_vaEnd_not_mem hlive⟩
  | restart hap hlive hvar => exact ⟨_, rfl, step_vaStart_live hvar hap hlive⟩
  | fixed hvar => exact ⟨_, rfl, step_vaStart_fixed hvar⟩
  | recopy T' hdst hlive hsrc =>
    rw [hcopy _ _ _ _ _ rfl hsrc hdst] at hlive
    cases hlive
  | leave hlive => exact ⟨_, rfl, step_ret_live hlive⟩

/-- A copy into an object with a live list goes through. -/
theorem not_reported_recopy {dst : SymLoc} {M N : Int} {T T' : UType} (hsrc : (s.vaLists M).isSome)
    (hdst : s.objects dst = some (.opaqueValue N T')) :
    ¬ ∃ m, step cfg tags vaList s (.builtin (.vaCopy dst (.opaqueValue M T))) = .error (.report m) := by
  obtain ⟨args, hargs⟩ := Option.isSome_iff_exists.1 hsrc
  rintro ⟨m, hm⟩
  rw [step_vaCopy hdst hargs] at hm
  cases hm

end Whole

/-- **Variable argument lists.**  From any start, a run does what is promised exactly when it has no `va_copy`
    into an object with a live list. -/
theorem va_lists_right (cfg : Settings) (tags : Tags) (vaList : UType) {s₀ : State} (h : Start s₀) (ops : List Op) :
    Right cfg tags vaList s₀ ops ↔ NoLiveDestination cfg tags vaList s₀ ops := by
  have hagree : ∀ {pre s}, run cfg tags vaList s₀ pre = .ok s → s.Agree :=
    fun hrun => agree_run _ (agree_start h) hrun
  constructor
  · intro hright pre post s dst M T N T' hops hrun hsrc hdst
    by_contra hne
    have hmisuse : Misuse cfg tags s _ "STDARG2" := .recopy T hdst (Option.isSome_iff_ne_none.2 hne) hsrc
    obtain ⟨m, -, hm⟩ := hright.reported pre _ post s _ hops hrun hmisuse
    exact not_reported_recopy hsrc hdst ⟨m, hm⟩
  · intro hcopy
    refine ⟨fun pre _ s _ hrun => (hagree hrun).keys, fun pre _ s _ hrun => (hagree hrun).disjoint, ?_, ?_, ?_⟩
    · intro pre op mid post s args r t _ hrun hop hstep hmid hlive T a ha
      exact argument_run (hagree hrun) hop hstep hmid hlive T ha
    · exact fun _ _ s _ _ N T r hstep => other_step hstep
    · intro pre op post s code hops hrun hmisuse
      refine reported_step (fun dst M T N T' hop hsrc hdst => ?_) hmisuse
      exact hcopy pre post s dst M T N T' (hop ▸ hops) hrun hsrc hdst

/-! ## Two runs -/

/-- `main`, before it has called anything -/
def main : State where
  functionControl := application [] [] []
  callStack := []
  vaLists := fun _ => none
  objects := fun _ => none
  next := 0

theorem start_main : Start main where
  vaLists _ := rfl
  live f hf := by
    rw [List.mem_singleton.1 hf]
    rfl
  bound f hf := by
    rw [List.mem_singleton.1 hf]
    rfl

/-- The object of the only `va_list`. -/
def ap : SymLoc := .loc (obj 0 8 (.auto 0)) 0

/-- The parameters and the arguments of `f(int n, ...)`, called with two -/
def paramsOfF : List ParamDecl := [.typedDeclaration IntType.int.toSimple.toType (.Identifier "n"), .variadic]

def namedOfF : List (CId × Arg) := [(.Identifier "n", ⟨obj 1 4 (.auto 0), IntType.int.toSimple.toType⟩)]

def unnamedOfF : List Arg := [⟨obj 2 4 (.auto 0), IntType.int.toSimple.toType⟩]

/-- `void f(int n, ...) { va_list ap; va_start(ap, n); va_copy(ap, ap); }` -/
def recopied : List Op :=
  [.write ap (some (.unknown 0)), .call paramsOfF namedOfF unnamedOfF, .builtin (.vaStart ap),
    .builtin (.vaCopy ap (.opaqueValue 0 IntType.longInt.toSimple.toUType))]

/-- A run in which the list is started, and started again by `va_copy`. -/
theorem va_lists_recopied :
    Right x86GccLimitedLibc [] IntType.longInt.toSimple.toUType main recopied ↔
      NoLiveDestination x86GccLimitedLibc [] IntType.longInt.toSimple.toUType main recopied :=
  va_lists_right _ _ _ start_main recopied

theorem checkVarArgs_int (x : CId) :
    checkVarArgs x86GccLimitedLibc [] [.typedDeclaration IntType.int.toSimple.toType x, .variadic] = .ok () := by
  have hpromote : argPromoteType x86GccLimitedLibc [] (utype IntType.int.toSimple.toType) =
      .ok (utype IntType.int.toSimple.toType) := by decide
  show (do
    let T' ← argPromoteType x86GccLimitedLibc [] (utype IntType.int.toSimple.toType)
    if areCompatible x86GccLimitedLibc [] (type T') (type (utype IntType.int.toSimple.toType)) then return ()
    else .error _) = Except.ok ()
  rw [hpromote]
  simp only [Eval.ok_bind]
  rw [areCompatible_eq_iff.mpr (decides_self [] _)]
  rfl

/-- **A list that is live is started again**, and nothing is reported: both lists are there. -/
theorem va_copy_of_live :
    Start main ∧
    (∃ t, run x86GccLimitedLibc [] IntType.longInt.toSimple.toUType main recopied = .ok t ∧
      (t.vaLists 0).isSome ∧ (t.vaLists 1).isSome) ∧
    ¬ Right x86GccLimitedLibc [] IntType.longInt.toSimple.toUType main recopied := by
  have hstart : ∃ s, run x86GccLimitedLibc [] IntType.longInt.toSimple.toUType main (recopied.take 3) = .ok s ∧
      s.vaLists 0 = some unnamedOfF ∧ s.next = 1 ∧
      s.objects ap = some (.opaqueValue 0 IntType.longInt.toSimple.toUType) := by
    have hobject : Function.update main.objects ap (some (.unknown 0)) ap = some (.unknown 0) := by
      rw [Function.update_self]
    have hva := @step_vaStart x86GccLimitedLibc [] IntType.longInt.toSimple.toUType
      (State.push { main with objects := Function.update main.objects ap (some (.unknown 0)) }
        (application paramsOfF namedOfF unnamedOfF)) ap (.unknown 0) rfl (checkVarArgs_int (.Identifier "n"))
      hobject rfl
    refine ⟨_, run_cons_iff.2 ⟨_, rfl, run_cons_iff.2 ⟨_, rfl, run_cons_iff.2 ⟨_, hva, rfl⟩⟩⟩, ?_, rfl, ?_⟩
    · show Function.update main.vaLists 0 (some unnamedOfF) 0 = some unnamedOfF
      rw [Function.update_self]
    · show Function.update (Function.update main.objects ap (some (.unknown 0))) ap
        (some (.opaqueValue 0 IntType.longInt.toSimple.toUType)) ap = _
      rw [Function.update_self]
  obtain ⟨s, hrun, hlist, hnext, hap⟩ := hstart
  refine ⟨start_main, ?_, fun hright => ?_⟩
  · have hrun' : run x86GccLimitedLibc [] IntType.longInt.toSimple.toUType main
        (recopied.take 3 ++ recopied.drop 3) = .ok _ :=
      run_append hrun (run_cons_iff.2 ⟨_, step_vaCopy hap hlist, rfl⟩)
    refine ⟨_, hrun', ?_, ?_⟩
    · show (Function.update s.vaLists s.next _ 0).isSome
      rw [hnext, Function.update_of_ne (by decide), hlist]
      rfl
    · show (Function.update s.vaLists s.next _ 1).isSome
      rw [hnext, Function.update_self]
      rfl
  · have hlive : (s.vaLists 0).isSome := by rw [hlist]; rfl
    obtain ⟨m, -, hm⟩ := hright.reported (recopied.take 3) _ [] s _ rfl hrun (.recopy _ hap hlive hlive)
    exact not_reported_recopy hlive hap ⟨m, hm⟩

end CSemantics.Stdarg
