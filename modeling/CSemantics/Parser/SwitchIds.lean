/-
  The ids that the printer gives out.

  A printer either fails, where the tree has a node that no branch matches, or it prints a term with new ids
  only and leaves the stack of switches as it was.  `Printed` says so of a list of terms, `Meets` of a
  printer; each way to build a printer keeps it, and so the tree is printed well if all of it is printed:

      print_meets                    what a tree prints, by induction on it
      translationUnit_labelled_iff   the labels of a translation unit
-/
import CSemantics.Parser.KPrinter

namespace CSemantics.Parser

/-! ## What ids a term has -/

/-- The integer among the children, at a place. -/
def intAt (ts : List Kast) (i : Nat) : Option Int :=
  match ts[i]? with
  | some (.int n) => some n
  | _ => none

/-- Where a node has its own id. -/
def idPlace (label : String) : Option Nat :=
  if label ∈ ["Switch", "Block3", "For5", "CompoundLiteral"] then some 0
  else if label = "Case" then some 1
  else none

def ownId (label : String) (ts : List Kast) : Option Int := (idPlace label).bind (intAt ts)

mutual

/-- The ids of the nodes of a term. -/
def Kast.ids : Kast → List Int
  | .kapply label ts => (ownId label ts).toList ++ idsOf ts
  | _ => []

def idsOf : List Kast → List Int
  | [] => []
  | t :: ts => t.ids ++ idsOf ts

end

/-- The switch around the children of a node. -/
def scopeOf (label : String) (ts : List Kast) (cur : Int) : Int :=
  if label = "Switch" then (intAt ts 0).getD cur else cur

/-- A case and a default have the id of the switch around them, and what is to have an id has one. -/
structure Labelled (label : String) (ts : List Kast) (cur : Int) : Prop where
  switch : label = "Case" ∨ label = "Default" → intAt ts 0 = some cur
  id : ∀ i, idPlace label = some i → (intAt ts i).isSome

mutual

/-- All nodes of a term are labelled, where `cur` is the switch around it. -/
def Kast.Scoped (cur : Int) : Kast → Prop
  | .kapply label ts => Labelled label ts cur ∧ ScopedAll (scopeOf label ts cur) ts
  | _ => True

def ScopedAll (cur : Int) : List Kast → Prop
  | [] => True
  | t :: ts => t.Scoped cur ∧ ScopedAll cur ts

end

/-- The labels of the nodes that are about ids. -/
def isPlain (label : String) : Bool := label ∉ ["Switch", "Block3", "For5", "CompoundLiteral", "Case", "Default"]

/-- What is printed between two states. -/
structure Printed (s : PrinterState) (ts : List Kast) (s' : PrinterState) : Prop where
  stack : s'.switchStack = s.switchStack
  current : s'.currentSwitchId = s.currentSwitchId
  counter : s.counter ≤ s'.counter
  inScope : ScopedAll s.currentSwitchId ts
  fresh : ∀ i ∈ idsOf ts, (s.counter : Int) < i ∧ i ≤ s'.counter
  nodup : (idsOf ts).Nodup
  literals : ∀ t ∈ s'.stringLiterals, t ∈ s.stringLiterals ∨ t.ids = [] ∧ ∀ cur, t.Scoped cur

section Terms

variable {s s₁ s' : PrinterState} {t : Kast} {ts us : List Kast} {label : String} {cur : Int}

theorem idsOf_append : idsOf (ts ++ us) = idsOf ts ++ idsOf us := by
  induction ts with
  | nil => rfl
  | cons t ts ih => rw [List.cons_append, idsOf, idsOf, ih, List.append_assoc]

theorem scopedAll_append : ScopedAll cur (ts ++ us) ↔ ScopedAll cur ts ∧ ScopedAll cur us := by
  induction ts with
  | nil => simp [ScopedAll]
  | cons t ts ih => rw [List.cons_append, ScopedAll, ScopedAll, ih, and_assoc]

@[simp] theorem idsOf_singleton : idsOf [t] = t.ids := by rw [idsOf, idsOf, List.append_nil]

@[simp] theorem scopedAll_singleton : ScopedAll cur [t] ↔ t.Scoped cur := by simp [ScopedAll]

theorem Printed.nil : Printed s [] s where
  stack := rfl
  current := rfl
  counter := Nat.le_refl _
  inScope := trivial
  fresh := by simp [idsOf]
  nodup := by simp [idsOf]
  literals := fun _ h => .inl h

/-- **One print after another**: the second takes its ids from where the first stopped. -/
theorem Printed.append (h : Printed s ts s₁) (h' : Printed s₁ us s') : Printed s (ts ++ us) s' where
  stack := h'.stack.trans h.stack
  current := h'.current.trans h.current
  counter := Nat.le_trans h.counter h'.counter
  inScope := by
    rw [scopedAll_append, ← h.current]
    exact ⟨h.current ▸ h.inScope, h'.inScope⟩
  fresh := by
    intro i hi
    have h₁ := h.counter
    have h₂ := h'.counter
    rw [idsOf_append] at hi
    rcases List.mem_append.mp hi with hi | hi
    · have := h.fresh i hi
      omega
    · have := h'.fresh i hi
      omega
  nodup := by
    rw [idsOf_append, List.nodup_append]
    refine ⟨h.nodup, h'.nodup, ?_⟩
    rintro i hi j hj rfl
    have h₁ := h.fresh i hi
    have h₂ := h'.fresh i hj
    omega
  literals := by
    intro t ht
    rcases h'.literals t ht with h₁ | h₁
    · exact h.literals t h₁
    · exact .inr h₁

theorem idPlace_of_isPlain (h : isPlain label = true) : idPlace label = none ∧ label ≠ "Case" ∧ label ≠ "Default" ∧
    label ≠ "Switch" := by
  simp only [isPlain, List.mem_cons, List.not_mem_nil, or_false, not_or, decide_eq_true_eq] at h
  obtain ⟨h₁, h₂, h₃, h₄, h₅, h₆⟩ := h
  simp [idPlace, h₁, h₂, h₃, h₄, h₅, h₆]

theorem ids_of_isPlain (h : isPlain label = true) : (Kast.kapply label ts).ids = idsOf ts := by
  rw [Kast.ids, ownId, (idPlace_of_isPlain h).1]
  rfl

theorem scoped_of_isPlain (h : isPlain label = true) : (Kast.kapply label ts).Scoped cur ↔ ScopedAll cur ts := by
  obtain ⟨hid, hcase, hdefault, hswitch⟩ := idPlace_of_isPlain h
  rw [Kast.Scoped, scopeOf, if_neg hswitch]
  refine and_iff_right ⟨?_, ?_⟩
  · rintro (rfl | rfl)
    · exact absurd rfl hcase
    · exact absurd rfl hdefault
  · intro i hi
    rw [hid] at hi
    cases hi

/-- A node that is not about ids has those of its children. -/
theorem Printed.kapply (hlabel : isPlain label = true) (h : Printed s ts s') : Printed s [.kapply label ts] s' where
  stack := h.stack
  current := h.current
  counter := h.counter
  inScope := scopedAll_singleton.mpr ((scoped_of_isPlain hlabel).mpr h.inScope)
  fresh := by
    rw [idsOf_singleton, ids_of_isPlain hlabel]
    exact h.fresh
  nodup := by
    rw [idsOf_singleton, ids_of_isPlain hlabel]
    exact h.nodup
  literals := h.literals

/-- A node that takes an id before its children are printed. -/
theorem Printed.withId (pre : List Kast) {n : Nat} (hn : n = s.counter + 1)
    (h : Printed { s with counter := n } ts s') (hown : ownId label (pre ++ ts) = some (n : Int))
    (hids : idsOf pre = []) (hscoped : (Kast.kapply label (pre ++ ts)).Scoped s.currentSwitchId) :
    Printed s [.kapply label (pre ++ ts)] s' where
  stack := h.stack
  current := h.current
  counter := by
    have := h.counter
    dsimp only at this
    omega
  inScope := scopedAll_singleton.mpr hscoped
  fresh := by
    have hcounter := h.counter
    dsimp only at hcounter
    rw [idsOf_singleton, Kast.ids, hown, idsOf_append, hids]
    rintro i hi
    rcases List.mem_cons.mp hi with rfl | hi
    · omega
    · have := h.fresh i hi
      dsimp only at this
      omega
  nodup := by
    rw [idsOf_singleton, Kast.ids, hown, idsOf_append, hids]
    refine List.nodup_cons.mpr ⟨?_, h.nodup⟩
    intro hi
    have := h.fresh _ hi
    dsimp only at this
    omega
  literals := h.literals

end Terms

/-! ## What a printer does -/

theorem bind_of_some {α β : Type} {p : Printer α} {f : α → Printer β} {s s' : PrinterState} {a : α}
    (h : p s = some (a, s')) : (p >>= f) s = f a s' := by
  show (p s).bind (fun x => f x.1 x.2) = f a s'
  rw [h]
  rfl

theorem bind_of_none {α β : Type} {p : Printer α} {f : α → Printer β} {s : PrinterState} (h : p s = none) :
    (p >>= f) s = none := by
  show (p s).bind (fun x => f x.1 x.2) = none
  rw [h]
  rfl

/-- A printer prints one well-labelled term from every state, if `b`, and fails otherwise. -/
def Meets (b : Bool) (p : Printer Kast) : Prop :=
  ∀ s, (b = true ∧ ∃ t s', p s = some (t, s') ∧ Printed s [t] s') ∨ b = false ∧ p s = none

/-- The same, of several printers. -/
def MeetsAll (b : Bool) (p : Printer (List Kast)) : Prop :=
  ∀ s, (b = true ∧ ∃ ts s', p s = some (ts, s') ∧ Printed s ts s') ∨ b = false ∧ p s = none

def all (bs : List Bool) : Bool := bs.all id

@[simp] theorem all_nil : all [] = true := rfl

@[simp] theorem all_cons (b : Bool) (bs : List Bool) : all (b :: bs) = (b && all bs) := rfl

section Printers

variable {b c d e : Bool} {bs : List Bool} {p q r : Printer Kast} {ps : List (Printer Kast)}

/-- A printer of a term without ids, which leaves the state alone. -/
def Silent (p : Printer Kast) : Prop := ∀ s, ∃ t, p s = some (t, s) ∧ t.ids = [] ∧ ∀ cur, t.Scoped cur

theorem Silent.meets (h : Silent p) : Meets true p := by
  intro s
  obtain ⟨t, hrun, hids, hscoped⟩ := h s
  refine .inl ⟨rfl, t, s, hrun, ?_⟩
  constructor
  · rfl
  · rfl
  · exact Nat.le_refl _
  · exact scopedAll_singleton.mpr (hscoped _)
  · simp [hids]
  · simp [hids]
  · exact fun _ h => .inl h

/-- The children of a node: some are leaves, and the flags are about the others. -/
inductive Parts : List Bool → List (Printer Kast) → Prop
  | nil : Parts [] []
  | leaf {p : Printer Kast} {bs : List Bool} {ps : List (Printer Kast)} (hp : Silent p) (h : Parts bs ps) :
      Parts bs (p :: ps)
  | cons {b : Bool} {p : Printer Kast} {bs : List Bool} {ps : List (Printer Kast)} (hp : Meets b p)
      (h : Parts bs ps) : Parts (b :: bs) (p :: ps)

/-- A list of printers, run one after the other. -/
theorem sequence_meets (h : Parts bs ps) : MeetsAll (all bs) (sequence ps) := by
  induction h with
  | nil => exact fun s => .inl ⟨rfl, [], s, rfl, .nil⟩
  | @leaf p bs ps hp _ ih =>
    intro s
    rcases hp.meets s with ⟨-, t, s₁, hrun, hprinted⟩ | ⟨hb, -⟩
    · rcases ih s₁ with ⟨hbs, ts, s', hruns, hprinteds⟩ | ⟨hbs, hfails⟩
      · refine .inl ⟨hbs, t :: ts, s', ?_, hprinted.append hprinteds⟩
        rw [sequence, bind_of_some hrun, bind_of_some hruns]
        rfl
      · exact .inr ⟨hbs, by rw [sequence, bind_of_some hrun, bind_of_none hfails]⟩
    · cases hb
  | @cons b p bs ps hp _ ih =>
    intro s
    rcases hp s with ⟨rfl, t, s₁, hrun, hprinted⟩ | ⟨rfl, hfail⟩
    · rcases ih s₁ with ⟨hbs, ts, s', hruns, hprinteds⟩ | ⟨hbs, hfails⟩
      · refine .inl ⟨by simp [hbs], t :: ts, s', ?_, hprinted.append hprinteds⟩
        rw [sequence, bind_of_some hrun, bind_of_some hruns]
        rfl
      · refine .inr ⟨by simp [hbs], ?_⟩
        rw [sequence, bind_of_some hrun, bind_of_none hfails]
    · refine .inr ⟨by simp, ?_⟩
      rw [sequence, bind_of_none hfail]

theorem kapply_meets {label : String} (hlabel : isPlain label = true) (h : Parts bs ps) :
    Meets (all bs) (kapply label ps) := by
  intro s
  rcases sequence_meets h s with ⟨hb, ts, s', hrun, hprinted⟩ | ⟨hb, hfail⟩
  · exact .inl ⟨hb, .kapply label ts, s', by rw [kapply, bind_of_some hrun]; rfl, hprinted.kapply hlabel⟩
  · exact .inr ⟨hb, by rw [kapply, bind_of_none hfail]⟩

theorem string_silent (s : String) : Silent (ktoken (.string s)) := fun _ => ⟨_, rfl, rfl, fun _ => trivial⟩
theorem int_silent (i : Int) : Silent (ktoken (.int i)) := fun _ => ⟨_, rfl, rfl, fun _ => trivial⟩
theorem bool_silent (b : Bool) : Silent (ktoken (.bool b)) := fun _ => ⟨_, rfl, rfl, fun _ => trivial⟩
theorem raw_silent (s : String) : Silent (ktoken (.raw s)) := fun _ => ⟨_, rfl, rfl, fun _ => trivial⟩

theorem sequence_silent (h : ∀ p ∈ ps, Silent p) (s : PrinterState) :
    ∃ ts, sequence ps s = some (ts, s) ∧ idsOf ts = [] ∧ ∀ cur, ScopedAll cur ts := by
  induction ps with
  | nil => exact ⟨[], rfl, rfl, fun _ => trivial⟩
  | cons p ps ih =>
    obtain ⟨t, hrun, hids, hscoped⟩ := h p List.mem_cons_self s
    obtain ⟨ts, hruns, hidss, hscopeds⟩ := ih fun q hq => h q (List.mem_cons_of_mem _ hq)
    refine ⟨t :: ts, ?_, ?_, fun cur => ⟨hscoped cur, hscopeds cur⟩⟩
    · rw [sequence, bind_of_some hrun, bind_of_some hruns]
      rfl
    · rw [idsOf, hids, hidss]
      rfl

theorem kapply_silent {label : String} (hlabel : isPlain label = true) (h : ∀ p ∈ ps, Silent p) :
    Silent (kapply label ps) := by
  intro s
  obtain ⟨ts, hrun, hids, hscoped⟩ := sequence_silent h s
  refine ⟨.kapply label ts, by rw [kapply, bind_of_some hrun]; rfl, ?_, ?_⟩
  · rw [ids_of_isPlain hlabel, hids]
  · exact fun cur => (scoped_of_isPlain hlabel).mpr (hscoped cur)

theorem listItems_silent (h : ∀ p ∈ ps, Silent p) : Silent (listItems ps) := by
  induction ps with
  | nil => exact kapply_silent rfl (by simp)
  | cons p ps ih =>
    have hp : Silent (kapply "ListItem" [p]) := kapply_silent rfl (by simpa using h p List.mem_cons_self)
    have hps := ih fun q hq => h q (List.mem_cons_of_mem _ hq)
    exact kapply_silent rfl (by simp [hp, hps])

theorem listOf_silent (h : ∀ p ∈ ps, Silent p) : Silent (listOf ps) :=
  kapply_silent rfl (by simpa using listItems_silent h)

theorem map_silent {α : Type} {f : α → Printer Kast} (hf : ∀ x, Silent (f x)) (xs : List α) :
    Silent (listOf (xs.map f)) := by
  refine listOf_silent ?_
  intro p hp
  obtain ⟨x, -, rfl⟩ := List.mem_map.mp hp
  exact hf x

theorem Meets.single (h : Meets (all [b]) p) : Meets b p := by
  rw [all_cons, all_nil, Bool.and_true] at h
  exact h

/-- A node with one part. -/
theorem wrap_meets {label : String} (hlabel : isPlain label = true) (h : Meets b p) : Meets b (kapply label [p]) :=
  (kapply_meets hlabel (.cons h .nil)).single

theorem listItems_meets (h : List.Forall₂ Meets bs ps) : Meets (all bs) (listItems ps) := by
  induction h with
  | nil => exact kapply_meets rfl .nil
  | cons hp _ ih =>
    have hitem : Meets _ (kapply "ListItem" [_]) := wrap_meets rfl hp
    have hitems : Meets _ (kapply "_List_" [_, _]) := kapply_meets rfl (.cons hitem (.cons ih .nil))
    rw [all_cons, all_cons, all_nil, Bool.and_true] at hitems
    exact hitems

theorem listOf_meets (h : List.Forall₂ Meets bs ps) : Meets (all bs) (listOf ps) :=
  wrap_meets rfl (listItems_meets h)

theorem specifier_meets (h : List.Forall₂ Meets bs ps) : Meets (all bs) (specifier ps) :=
  wrap_meets rfl (listOf_meets h)

theorem meets_failure : Meets false (failure : Printer Kast) := fun _ => .inr ⟨rfl, rfl⟩

variable (env : Setting)

theorem cabsLoc_silent (a : CabsLoc) : Silent (cabsLoc env a) :=
  kapply_silent rfl (by simp [string_silent, int_silent, bool_silent])

theorem identifier_silent (x : String) : Silent (identifier x) := by
  unfold identifier
  split_ifs
  · exact kapply_silent rfl (by simp)
  · exact kapply_silent rfl (by simp [string_silent])

theorem cvSpec_silent (cv : CvSpec) : Silent (cvSpec env cv) := by
  cases cv with
  | CV_CONST | CV_VOLATILE | CV_RESTRICT | CV_ATOMIC => exact kapply_silent rfl (by simp)
  | CV_RESTRICT_RESERVED kwd loc => exact kapply_silent rfl (by simp [string_silent, cabsLoc_silent])

/-- A node with a location. -/
theorem loc_meets {label : String} (hlabel : isPlain label = true) (h : Meets b p) (l : CabsLoc) :
    Meets b (kapply label [p, cabsLoc env l]) :=
  (kapply_meets hlabel (.cons h (.leaf (cabsLoc_silent env l) .nil))).single

theorem definitionLoc_meets (h : Meets b p) (l : CabsLoc) : Meets b (definitionLoc env p l) := by
  unfold definitionLoc
  split_ifs
  · exact loc_meets env rfl h l
  · exact h

/-- A string literal is kept, to be printed again. -/
theorem saveStringLiteral_meets (h : Silent p) : Meets true (p >>= saveStringLiteral) := by
  intro s
  obtain ⟨t, hrun, hids, hscoped⟩ := h s
  refine .inl ⟨rfl, t, { s with stringLiterals := t :: s.stringLiterals }, bind_of_some hrun, ?_⟩
  constructor
  · rfl
  · rfl
  · exact Nat.le_refl _
  · exact scopedAll_singleton.mpr (hscoped _)
  · simp [hids]
  · simp [hids]
  · intro t' ht'
    rcases List.mem_cons.mp ht' with rfl | ht'
    · exact .inr ⟨hids, hscoped⟩
    · exact .inl ht'

/-- A numeral is printed if its patterns match it. -/
def printableConstant : Constant → Bool
  | .CONST_INT i => (env.numeral (.CONST_INT i)).isSome
  | .CONST_FLOAT r => (env.numeral (.CONST_FLOAT r)).isSome
  | _ => true

theorem numeral_meets (x : Option String) : Meets x.isSome fun s => x.map fun t => (.raw t, s) := by
  cases x with
  | none => exact fun _ => .inr ⟨rfl, rfl⟩
  | some t => exact (raw_silent t).meets

theorem constant_meets (x : Constant) : Meets (printableConstant env x) (constant env x) := by
  cases x with
  | CONST_INT i => exact numeral_meets _
  | CONST_FLOAT r => exact numeral_meets _
  | CONST_CHAR c => exact (kapply_silent rfl (by simp [int_silent])).meets
  | CONST_WCHAR c => exact (kapply_silent rfl (by simp [int_silent])).meets
  | CONST_STRING s => exact saveStringLiteral_meets (kapply_silent rfl (by simp [string_silent]))
  | CONST_WSTRING ws =>
    exact saveStringLiteral_meets (kapply_silent rfl (by simpa using map_silent (fun _ => int_silent _) ws))

/-! ### Nodes with an id -/

theorem sequence_ktoken (t : Kast) (s : PrinterState) :
    sequence (ktoken t :: ps) s = (sequence ps s).map fun x => (t :: x.1, x.2) := by
  have htoken : ktoken t s = some (t, s) := rfl
  rw [sequence, bind_of_some htoken]
  cases h : sequence ps s with
  | none => exact bind_of_none h
  | some x => exact bind_of_some h

theorem kapply_run (label : String) (ps : List (Printer Kast)) (s : PrinterState) :
    kapply label ps s = (sequence ps s).map fun x => (.kapply label x.1, x.2) := by
  cases h : sequence ps s with
  | none => exact bind_of_none h
  | some x => exact bind_of_some h

/-- A node that prints something of its own, `pre`, before its children. -/
theorem node_meets (label : String) (start : PrinterState → PrinterState) (pre : PrinterState → List Kast)
    (hrun : ∀ s, p s = (sequence ps (start s)).map fun x => (.kapply label (pre s ++ x.1), x.2))
    (hprinted : ∀ s ts s', Printed (start s) ts s' → Printed s [.kapply label (pre s ++ ts)] s')
    (h : Parts bs ps) : Meets (all bs) p := by
  intro s
  rw [hrun s]
  rcases sequence_meets h (start s) with ⟨hb, ts, s', hseq, hts⟩ | ⟨hb, hfail⟩
  · exact .inl ⟨hb, _, s', by rw [hseq]; rfl, hprinted s ts s' hts⟩
  · exact .inr ⟨hb, by rw [hfail]; rfl⟩

/-- Blocks, for loops and compound literals take an id before their children are printed. -/
theorem id_meets {label : String} (hlabel : label = "Block3" ∨ label = "For5" ∨ label = "CompoundLiteral")
    (h : Parts bs ps) :
    Meets (all bs) (newCounter >>= fun n => kapply label (ktoken (.int n) :: ps)) := by
  refine node_meets label (fun s => { s with counter := s.counter + 1 })
    (fun s => [.int ((s.counter + 1 : Nat) : Int)]) ?_ ?_ h
  · intro s
    have hcounter : newCounter s = some (s.counter + 1, { s with counter := s.counter + 1 }) := rfl
    rw [bind_of_some hcounter, kapply_run, sequence_ktoken, Option.map_map]
    rfl
  · intro s ts s' hts
    refine hts.withId _ rfl ?_ rfl ?_
    · rcases hlabel with rfl | rfl | rfl <;> rfl
    · refine ⟨⟨?_, ?_⟩, ?_⟩
      · rcases hlabel with rfl | rfl | rfl <;> simp
      · rintro i hi
        have hi0 : i = 0 := by rcases hlabel with rfl | rfl | rfl <;> simpa [idPlace, eq_comm] using hi
        rw [hi0]
        rfl
      · have hscope : scopeOf label ([.int ((s.counter + 1 : Nat) : Int)] ++ ts) s.currentSwitchId =
            s.currentSwitchId := by
          rcases hlabel with rfl | rfl | rfl <;> rfl
        rw [hscope]
        exact ⟨trivial, hts.inScope⟩

theorem case_meets (hp : Meets b p) (hq : Meets c q) : Meets (all [b, c]) (case p q) := by
  refine node_meets "Case" (fun s => { s with counter := s.counter + 1 })
    (fun s => [.int s.currentSwitchId, .int ((s.counter + 1 : Nat) : Int)]) ?_ ?_ (.cons hp (.cons hq .nil))
  · intro s
    have hcur : currentSwitch s = some (s.currentSwitchId, s) := rfl
    have hcounter : newCounter s = some (s.counter + 1, { s with counter := s.counter + 1 }) := rfl
    rw [case, bind_of_some hcur, bind_of_some hcounter, kapply_run, sequence_ktoken, sequence_ktoken, Option.map_map,
      Option.map_map]
    rfl
  · intro s ts s' hts
    refine hts.withId _ rfl rfl rfl ⟨⟨fun _ => rfl, ?_⟩, trivial, trivial, hts.inScope⟩
    intro i hi
    have hi1 : i = 1 := by simpa [idPlace, eq_comm] using hi
    rw [hi1]
    rfl

theorem default_meets (hp : Meets b p) : Meets (all [b]) (default p) := by
  refine node_meets "Default" id (fun s => [.int s.currentSwitchId]) ?_ ?_ (.cons hp .nil)
  · intro s
    have hcur : currentSwitch s = some (s.currentSwitchId, s) := rfl
    rw [default, bind_of_some hcur, kapply_run, sequence_ktoken, Option.map_map]
    rfl
  · intro s ts s' hts
    refine { hts with inScope := ?_, fresh := ?_, nodup := ?_ }
    · refine scopedAll_singleton.mpr ⟨⟨fun _ => rfl, ?_⟩, trivial, hts.inScope⟩
      intro i hi
      simp [idPlace] at hi
    · rw [idsOf_singleton]
      exact hts.fresh
    · rw [idsOf_singleton]
      exact hts.nodup

theorem block_meets (blabels : List String) (h : List.Forall₂ Meets bs ps) : Meets (all bs) (block blabels ps) := by
  have hlabels := map_silent (fun l => string_silent l) blabels
  exact (id_meets (.inl rfl) (.leaf hlabels (.cons (listOf_meets h) .nil))).single

theorem newBlockStatement_meets (h : Meets b p) : Meets b (newBlockStatement p) :=
  (wrap_meets rfl (block_meets [] (.cons h .nil))).single

/-- What a switch prints, between the stack that its id is on and the one that it is not on any more. -/
theorem Printed.switch {s s' : PrinterState} {ts : List Kast} {n : Nat} (hn : n = s.counter + 1)
    (h : Printed ⟨n, n, s.currentSwitchId :: s.switchStack, s.stringLiterals⟩ ts s') :
    Printed s [.kapply "Switch" (.int n :: ts)]
      { s' with switchStack := s.switchStack, currentSwitchId := s.currentSwitchId } := by
  have hcounter := h.counter
  have hids : (Kast.kapply "Switch" (.int n :: ts)).ids = (n : Int) :: idsOf ts := rfl
  constructor
  · rfl
  · rfl
  · dsimp only at hcounter ⊢
    omega
  · refine scopedAll_singleton.mpr ⟨⟨by simp, ?_⟩, trivial, h.inScope⟩
    intro i hi
    have hi0 : i = 0 := by simpa [idPlace, eq_comm] using hi
    rw [hi0]
    rfl
  · rw [idsOf_singleton, hids]
    intro i hi
    rcases List.mem_cons.mp hi with rfl | hi
    · dsimp only at hcounter ⊢
      omega
    · have := h.fresh i hi
      dsimp only at this ⊢
      omega
  · rw [idsOf_singleton, hids]
    refine List.nodup_cons.mpr ⟨?_, h.nodup⟩
    intro hi
    have := h.fresh _ hi
    dsimp only at this
    omega
  · exact h.literals

/-- **A switch** puts its id on the stack, prints, and takes it off again. -/
theorem switch_meets (hp : Meets b p) (hq : Meets c q) : Meets (all [b, c]) (switch p q) := by
  intro s
  have hpush : pushSwitch s = some (s.counter + 1,
      ⟨s.counter + 1, s.counter + 1, s.currentSwitchId :: s.switchStack, s.stringLiterals⟩) := rfl
  rw [switch, bind_of_some hpush]
  rcases sequence_meets (.cons hp (.cons (newBlockStatement_meets hq) .nil))
      ⟨s.counter + 1, s.counter + 1, s.currentSwitchId :: s.switchStack, s.stringLiterals⟩ with
    ⟨hb, ts, s', hseq, hts⟩ | ⟨hb, hfail⟩
  · refine .inl ⟨hb, _, _, ?_, Printed.switch rfl hts⟩
    have hrun := kapply_run "Switch" [ktoken (.int ((s.counter + 1 : Nat) : Int)), p, newBlockStatement q]
      ⟨s.counter + 1, s.counter + 1, s.currentSwitchId :: s.switchStack, s.stringLiterals⟩
    rw [sequence_ktoken, hseq] at hrun
    have hpop : popSwitch s' =
        some ((), { s' with switchStack := s.switchStack, currentSwitchId := s.currentSwitchId }) := by
      rw [popSwitch, hts.stack]
    rw [bind_of_some hrun, bind_of_some hpop]
    rfl
  · refine .inr ⟨hb, ?_⟩
    have hrun := kapply_run "Switch" [ktoken (.int ((s.counter + 1 : Nat) : Int)), p, newBlockStatement q]
      ⟨s.counter + 1, s.counter + 1, s.currentSwitchId :: s.switchStack, s.stringLiterals⟩
    rw [sequence_ktoken, hfail] at hrun
    rw [bind_of_none hrun]

theorem forStatement_meets (hp : Meets b p) (hq : Meets c q) (hr : Meets d r) {t : Printer Kast} (ht : Meets e t) :
    Meets (all [b, c, d, e]) (forStatement p q r t) :=
  id_meets (.inr (.inl rfl)) (.cons hp (.cons hq (.cons hr (.cons (newBlockStatement_meets ht) .nil))))

/-- An id that is taken, but not printed. -/
theorem newCounter_meets {f : Nat → Printer Kast} (h : ∀ n, Meets b (f n)) : Meets b (newCounter >>= f) := by
  intro s
  have hcounter : newCounter s = some (s.counter + 1, { s with counter := s.counter + 1 }) := rfl
  rw [bind_of_some hcounter]
  rcases h (s.counter + 1) { s with counter := s.counter + 1 } with ⟨hb, t, s', hrun, ht⟩ | hfail
  · refine .inl ⟨hb, t, s', hrun, { ht with counter := ?_, fresh := ?_ }⟩
    · have := ht.counter
      dsimp only at this
      omega
    · intro i hi
      have := ht.fresh i hi
      dsimp only at this
      omega
  · exact .inr hfail

/-! ### Initializers -/

/-- The parts of an initializer do what the flags say. -/
inductive InitAgree : InitShape Bool → InitShape (Printer Kast) → Prop
  | noInit : InitAgree .noInit .noInit
  | singleInit {b : Bool} {p : Printer Kast} (h : Meets b p) : InitAgree (.singleInit b) (.singleInit p)
  | compoundInit {bs : List Bool} {ps : List (Printer Kast)} (h : List.Forall₂ Meets bs ps) :
      InitAgree (.compoundInit bs) (.compoundInit ps)

def InitShape.all : InitShape Bool → Bool
  | .noInit => true
  | .singleInit b => b
  | .compoundInit bs => Parser.all bs

/-- A cast without an initializer does not print its type. -/
def printableCast (spec declType : Bool) : InitShape Bool → Bool
  | .noInit => true
  | .singleInit b => Parser.all [spec, declType, b]
  | .compoundInit bs => Parser.all [spec, declType, Parser.all bs]

variable {i : InitShape Bool} {j : InitShape (Printer Kast)}

theorem initExpression_meets (h : InitAgree i j) : Meets i.all (initExpression j) := by
  cases h with
  | noInit => exact kapply_meets rfl .nil
  | singleInit h => exact wrap_meets rfl h
  | compoundInit h => exact wrap_meets rfl (listOf_meets h)

theorem cast_meets (hp : Meets b p) (hq : Meets c q) (h : InitAgree i j) :
    Meets (printableCast b c i) (cast p q j) := by
  cases h with
  | noInit => exact newCounter_meets fun _ => kapply_meets rfl (.leaf (raw_silent _) .nil)
  | singleInit h =>
    exact newCounter_meets fun _ => kapply_meets rfl (.cons hp (.cons hq (.cons h (.leaf (bool_silent _) .nil))))
  | compoundInit h =>
    exact id_meets (.inr (.inr rfl)) (.cons hp (.cons hq (.cons (wrap_meets rfl (listOf_meets h)) .nil)))

end Printers

/-! ## What a tree prints -/

/-- A reference to a type, or its definition. -/
def printableTagged (c : List Bool) : Option (List Bool) → Bool
  | .none => Parser.all c
  | .some b => Parser.all [Parser.all b, Parser.all c]

theorem taggedType_meets {ref defn : String} (href : isPlain ref = true) (hdefn : isPlain defn = true) (a : String)
    {cs : List Bool} {ps : List (Printer Kast)} {ob : Option (List Bool)} {op : Option (List (Printer Kast))}
    (hc : List.Forall₂ Meets cs ps) (hb : Option.Rel (List.Forall₂ Meets) ob op) :
    Meets (printableTagged cs ob) (taggedType ref defn a ps op) := by
  cases hb with
  | none => exact (kapply_meets href (.leaf (identifier_silent a) (.cons (listOf_meets hc) .nil))).single
  | some h =>
    exact kapply_meets hdefn (.leaf (identifier_silent a) (.cons (listOf_meets h) (.cons (listOf_meets hc) .nil)))

/-- The printers of a shape do what its flags say. -/
def Agree : (k : Kind) → Shape Bool k → Shape (Printer Kast) k → Prop
  | .list k => List.Forall₂ (Agree k)
  | .option k => Option.Rel (Agree k)
  | .initExpression => InitAgree
  | .typeSpecifier | .specElem | .alignmentSpec | .declType | .name | .singleName | .initName | .field | .fieldGroup
  | .enumItem | .definition | .block | .statement | .forClause | .expression | .genericAssociation | .initWhat
  | .initFragment => Meets

variable (env : Setting)

/-- A field, with its width or without one. -/
def printableField (n : Bool) : Option Bool → Bool
  | .none => n
  | .some e => all [n, e]

theorem field_meets {b : Bool} {p : Printer Kast} {ob : Option Bool} {op : Option (Printer Kast)} (hn : Meets b p)
    (h : Option.Rel Meets ob op) : Meets (printableField b ob) (field p op) := by
  cases h with
  | none => exact wrap_meets rfl hn
  | some h => exact kapply_meets rfl (.cons hn (.cons h .nil))

/-- Nothing that is printed of the tree fails: no address of a label, no formula, no transformer and no annotation,
    and numerals that are well formed. -/
def printable : {k : Kind} → Cabs k → Shape Bool k
  | _, .Tbasic _ => true
  | _, .Tnamed _ => true
  | _, .Tstruct _ b c => printableTagged (printable c) (printable b)
  | _, .Tunion _ b c => printableTagged (printable c) (printable b)
  | _, .Tenum _ b c => printableTagged (printable c) (printable b)
  | _, .TtypeofE e => (printable e : Bool)
  | _, .TtypeofT s d => all [all (printable s), printable d]
  | _, .Tatomic s d => all [all (printable s), printable d]
  | _, .SpecTypedef => true
  | _, .SpecCV _ => true
  | _, .SpecAttr _ b => all (printable b)
  | _, .SpecStorage _ => true
  | _, .SpecInline => true
  | _, .SpecNoReturn => true
  | _, .SpecAlignment a => (printable a : Bool)
  | _, .SpecType bt => (printable bt : Bool)
  | _, .SpecMissingType => true
  | _, .SpecPattern _ => true
  | _, .EXPR_ALIGNAS e => (printable e : Bool)
  | _, .TYPE_ALIGNAS s d => all [all (printable s), printable d]
  | _, .JUSTBASE => true
  | _, .PARENTYPE _ b _ => (printable b : Bool)
  | _, .ARRAY a b c d => all [printable a, printable c, all (printable b ++ printable d)]
  | _, .PTR a b => all [all (printable a), printable b]
  | _, .PROTO a b _ => all [printable a, all (printable b)]
  | _, .NOPROTO a b _ => all [printable a, all (printable b)]
  | _, .Name _ b c _ => all [printable b, all (printable c)]
  | _, .SingleName a b => all [all (printable a), printable b]
  | _, .InitName a b _ => all [printable a, (printable b).all]
  | _, .Field n exp => printableField (printable n) (printable exp)
  | _, .FieldGroup spec fields => all [all (printable spec), all (printable fields)]
  | _, .EnumItem _ exp _ => isNothing exp || (printable exp : Bool)
  | _, .FUNDEF a b _ _ => all [printable a, printable b]
  | _, .DECDEF a b _ => all [all (printable a), all (printable b)]
  | _, .TYPEDEF a b _ => all [all (printable a), all (printable b)]
  | _, .ONLYTYPEDEF a _ => all (printable a)
  | _, .GLOBASM _ _ => true
  | _, .PRAGMA a _ => (printable a : Bool)
  | _, .LINKAGE _ _ c => all (printable c)
  | _, .STATIC_ASSERT a b _ => all [printable a, printableConstant env b]
  | _, .TRANSFORMER _ _ _ => false
  | _, .EXPRTRANSFORMER _ _ _ => false
  | _, .LTL_ANNOTATION _ _ _ => false
  | _, .Block _ _ bstmts => all (printable bstmts)
  | _, .NOP _ => true
  | _, .COMPUTATION exp _ => (printable exp : Bool)
  | _, .BLOCK blk _ => (printable blk : Bool)
  | _, .IF exp s1 s2 _ => all [printable exp, printable s1, printable s2]
  | _, .WHILE exp stat _ => all [printable exp, printable stat]
  | _, .DOWHILE exp stat _ _ => all [printable exp, printable stat]
  | _, .FOR fc1 exp2 exp3 stat _ => all [printable fc1, printable exp2, printable exp3, printable stat]
  | _, .BREAK _ => true
  | _, .CONTINUE _ => true
  | _, .RETURN exp _ => (printable exp : Bool)
  | _, .SWITCH exp stat _ => all [printable exp, printable stat]
  | _, .CASE exp stat _ => all [printable exp, printable stat]
  | _, .CASERANGE exp1 exp2 stat _ => all [printable exp1, printable exp2, printable stat]
  | _, .DEFAULT stat _ => (printable stat : Bool)
  | _, .LABEL _ stat _ => (printable stat : Bool)
  | _, .GOTO _ _ => true
  | _, .COMPGOTO exp _ => (printable exp : Bool)
  | _, .DEFINITION d => (printable d : Bool)
  | _, .ASM _ _ _ => true
  | _, .TRY_EXCEPT _ _ _ _ => true
  | _, .TRY_FINALLY _ _ _ => true
  | _, .FC_EXP exp1 => (printable exp1 : Bool)
  | _, .FC_DECL dec1 => (printable dec1 : Bool)
  | _, .OFFSETOF spec declType exp _ => all [all (printable spec), printable declType, printable exp]
  | _, .TYPES_COMPAT spec1 declType1 spec2 declType2 _ =>
    all [all (printable spec1), printable declType1, all (printable spec2), printable declType2]
  | _, .GENERIC exp assocs => all [printable exp, all (printable assocs)]
  | _, .LOCEXP exp _ => (printable exp : Bool)
  | _, .UNARY _ exp => (printable exp : Bool)
  | _, .BINARY _ exp1 exp2 => all [printable exp1, printable exp2]
  | _, .NOTHING => true
  | _, .UNSPECIFIED => true
  | _, .PAREN exp1 => (printable exp1 : Bool)
  | _, .QUESTION exp1 exp2 exp3 => all [printable exp1, printable exp2, printable exp3]
  | _, .CAST spec declType initExp => printableCast (all (printable spec)) (printable declType) (printable initExp)
  | _, .CALL exp1 expList => all [printable exp1, all (printable expList)]
  | _, .COMMA expList => all (printable expList)
  | _, .CONSTANT const => printableConstant env const
  | _, .VARIABLE _ => true
  | _, .EXPR_SIZEOF exp => (printable exp : Bool)
  | _, .TYPE_SIZEOF spec declType => all [all (printable spec), printable declType]
  | _, .EXPR_ALIGNOF exp => (printable exp : Bool)
  | _, .TYPE_ALIGNOF spec declType => all [all (printable spec), printable declType]
  | _, .INDEX exp idx => all [printable exp, printable idx]
  | _, .MEMBEROF exp _ => (printable exp : Bool)
  | _, .MEMBEROFPTR exp _ => (printable exp : Bool)
  | _, .GNU_BODY blk => (printable blk : Bool)
  | _, .BITMEMBEROF exp _ => (printable exp : Bool)
  | _, .EXPR_PATTERN _ => true
  | _, .PACK exp => (printable exp : Bool)
  | _, .LABELADDR _ => false
  | _, .LTL _ _ => false
  | _, .GENERIC_PAIR spec declType exp => all [all (printable spec), printable declType, printable exp]
  | _, .GENERIC_DEFAULT exp => (printable exp : Bool)
  | _, .NO_INIT => .noInit
  | _, .SINGLE_INIT exp => .singleInit (printable exp)
  | _, .COMPOUND_INIT a => .compoundInit (printable a)
  | _, .NEXT_INIT => true
  | _, .INFIELD_INIT _ what => (printable what : Bool)
  | _, .ATINDEX_INIT exp what => all [printable exp, printable what]
  | _, .ATINDEXRANGE_INIT exp1 exp2 => all [printable exp1, printable exp2]
  | _, .InitFragment a b _ => all [printable a, (printable b).all]
  | _, .nil => []
  | _, .cons x xs => printable x :: printable xs
  | _, .none => .none
  | _, .some x => .some (printable x)

/-- **What a tree prints**: by induction on it, each node from what its parts do. -/
theorem print_meets {k : Kind} (x : Cabs k) : Agree k (printable env x) (print env x) := by
  induction x with
  -- nodes without parts
  | Tbasic t => cases t <;> exact kapply_meets rfl .nil
  | SpecStorage sto => cases sto <;> exact kapply_meets rfl .nil
  | SpecTypedef | SpecInline | SpecNoReturn | SpecMissingType | JUSTBASE | NOTHING | UNSPECIFIED | NEXT_INIT | ASM
  | TRY_EXCEPT | TRY_FINALLY => exact kapply_meets rfl .nil
  | NOP loc | BREAK loc | CONTINUE loc => exact loc_meets env rfl (kapply_meets rfl .nil) loc
  | Tnamed s | SpecPattern s => exact kapply_meets rfl (.leaf (identifier_silent s) .nil)
  | EXPR_PATTERN s => exact kapply_meets rfl (.leaf (string_silent s) .nil)
  | GLOBASM a l => exact definitionLoc_meets env (kapply_meets rfl (.leaf (string_silent a) .nil)) l
  | GOTO name loc => exact loc_meets env rfl (kapply_meets rfl (.leaf (identifier_silent name) .nil)) loc
  | VARIABLE name => exact (identifier_silent name).meets
  | SpecCV cv => exact (cvSpec_silent env cv).meets
  | CONSTANT const => exact wrap_meets rfl (constant_meets env const)
  | LABELADDR | LTL | TRANSFORMER | EXPRTRANSFORMER | LTL_ANNOTATION => exact meets_failure
  -- nodes that are printed as their part
  | SpecAlignment a ih | SpecType a ih | DEFINITION a ih | FC_DECL a ih | PAREN a ih => exact ih
  | LOCEXP exp loc ih => exact loc_meets env rfl ih loc
  -- nodes with one part
  | TtypeofE e ih | EXPR_ALIGNAS e ih | PARENTYPE _ e _ _ ih _ | FC_EXP e ih | EXPR_SIZEOF e ih | EXPR_ALIGNOF e ih
  | GNU_BODY e ih | PACK e ih | GENERIC_DEFAULT e ih => exact wrap_meets rfl ih
  | UNARY op exp ih => cases op <;> exact wrap_meets rfl ih
  | COMMA es ih => exact wrap_meets rfl (listOf_meets ih)
  | SpecAttr a b ih => exact (kapply_meets rfl (.leaf (string_silent a) (.cons (listOf_meets ih) .nil))).single
  | MEMBEROF e fld ih | MEMBEROFPTR e fld ih | BITMEMBEROF e fld ih =>
    exact (kapply_meets rfl (.cons ih (.leaf (identifier_silent fld) .nil))).single
  | INFIELD_INIT id what ih => exact (kapply_meets rfl (.leaf (identifier_silent id) (.cons ih .nil))).single
  | COMPUTATION e loc ih | BLOCK e loc ih | RETURN e loc ih | COMPGOTO e loc ih =>
    exact loc_meets env rfl (wrap_meets rfl ih) loc
  | DEFAULT stat loc ih => exact loc_meets env rfl (default_meets ih).single loc
  | LABEL str stat loc ih =>
    exact loc_meets env rfl (kapply_meets rfl (.leaf (identifier_silent str) (.cons ih .nil))).single loc
  | ONLYTYPEDEF a l ih => exact definitionLoc_meets env (wrap_meets rfl (specifier_meets ih)) l
  | PRAGMA a l ih => exact definitionLoc_meets env (wrap_meets rfl ih) l
  | LINKAGE a l c ih =>
    exact definitionLoc_meets env
      (kapply_meets rfl (.leaf (string_silent a) (.cons (listOf_meets ih) .nil))).single l
  | Block blabels battrs bstmts _ ih => exact block_meets blabels ih
  -- nodes with several parts
  | TtypeofT s d ih₁ ih₂ | Tatomic s d ih₁ ih₂ | TYPE_ALIGNAS s d ih₁ ih₂ | PTR s d ih₁ ih₂ | SingleName s d ih₁ ih₂
  | TYPE_SIZEOF s d ih₁ ih₂ | TYPE_ALIGNOF s d ih₁ ih₂ =>
    exact kapply_meets rfl (.cons (specifier_meets ih₁) (.cons ih₂ .nil))
  | BINARY op e₁ e₂ ih₁ ih₂ => cases op <;> exact kapply_meets rfl (.cons ih₁ (.cons ih₂ .nil))
  | INDEX e₁ e₂ ih₁ ih₂ | ATINDEX_INIT e₁ e₂ ih₁ ih₂ | ATINDEXRANGE_INIT e₁ e₂ ih₁ ih₂ =>
    exact kapply_meets rfl (.cons ih₁ (.cons ih₂ .nil))
  | QUESTION e₁ e₂ e₃ ih₁ ih₂ ih₃ => exact kapply_meets rfl (.cons ih₁ (.cons ih₂ (.cons ih₃ .nil)))
  | CALL e es ih₁ ih₂ | GENERIC e es ih₁ ih₂ => exact kapply_meets rfl (.cons ih₁ (.cons (listOf_meets ih₂) .nil))
  | GENERIC_PAIR s d e ih₁ ih₂ ih₃ =>
    exact kapply_meets rfl (.cons (specifier_meets ih₁) (.cons ih₂ (.cons ih₃ .nil)))
  | OFFSETOF s d e loc ih₁ ih₂ ih₃ =>
    exact loc_meets env rfl (kapply_meets rfl (.cons (specifier_meets ih₁) (.cons ih₂ (.cons ih₃ .nil)))) loc
  | TYPES_COMPAT s₁ d₁ s₂ d₂ loc ih₁ ih₂ ih₃ ih₄ =>
    exact loc_meets env rfl (kapply_meets rfl (.cons (specifier_meets ih₁) (.cons ih₂ (.cons (specifier_meets ih₃)
      (.cons ih₄ .nil))))) loc
  | ARRAY a b c d ih₁ ih₂ ih₃ ih₄ =>
    exact kapply_meets rfl (.cons ih₁ (.cons ih₃ (.cons (specifier_meets (List.rel_append ih₂ ih₄)) .nil)))
  | PROTO a b c ih₁ ih₂ | NOPROTO a b c ih₁ ih₂ =>
    exact kapply_meets rfl (.cons ih₁ (.cons (listOf_meets ih₂) (.leaf (bool_silent c) .nil)))
  | Name a b c d ih₁ ih₂ =>
    exact kapply_meets rfl (.leaf (identifier_silent a) (.cons ih₁ (.cons (listOf_meets ih₂) .nil)))
  | FieldGroup spec fields ih₁ ih₂ =>
    exact kapply_meets rfl (.cons (specifier_meets ih₁) (.cons (listOf_meets ih₂) .nil))
  | Tstruct a b c ih₁ ih₂ | Tunion a b c ih₁ ih₂ | Tenum a b c ih₁ ih₂ => exact taggedType_meets rfl rfl a ih₂ ih₁
  | STATIC_ASSERT a b l ih =>
    exact definitionLoc_meets env (kapply_meets rfl (.cons ih (.cons (constant_meets env b) .nil))) l
  | FUNDEF a b c d ih₁ ih₂ =>
    have hdef : Meets _ (kapply "FunctionDefinition" [_, _]) := kapply_meets rfl (.cons ih₁ (.cons ih₂ .nil))
    exact (kapply_meets rfl (.cons hdef (.leaf (cabsLoc_silent env c) (.leaf (cabsLoc_silent env d) .nil)))).single
  | DECDEF a b l ih₁ ih₂ | TYPEDEF a b l ih₁ ih₂ =>
    exact definitionLoc_meets env
      (wrap_meets rfl (kapply_meets rfl (.cons (specifier_meets ih₁) (.cons (listOf_meets ih₂) .nil)))) l
  | IF exp s₁ s₂ loc ih₁ ih₂ ih₃ =>
    exact loc_meets env rfl (kapply_meets rfl (.cons ih₁ (.cons (newBlockStatement_meets ih₂)
      (.cons (newBlockStatement_meets ih₃) .nil)))) loc
  | WHILE exp stat loc ih₁ ih₂ =>
    exact loc_meets env rfl (kapply_meets rfl (.cons ih₁ (.cons (newBlockStatement_meets ih₂) .nil))) loc
  | DOWHILE exp stat loc wloc ih₁ ih₂ =>
    exact loc_meets env rfl (kapply_meets rfl (.cons ih₁ (.cons (newBlockStatement_meets ih₂)
      (.leaf (cabsLoc_silent env wloc) .nil)))) loc
  | FOR fc₁ e₂ e₃ stat loc ih₁ ih₂ ih₃ ih₄ => exact loc_meets env rfl (forStatement_meets ih₁ ih₂ ih₃ ih₄) loc
  | SWITCH exp stat loc ih₁ ih₂ => exact loc_meets env rfl (switch_meets ih₁ ih₂) loc
  | CASE exp stat loc ih₁ ih₂ => exact loc_meets env rfl (case_meets ih₁ ih₂) loc
  | CASERANGE e₁ e₂ stat loc ih₁ ih₂ ih₃ =>
    exact loc_meets env rfl (kapply_meets rfl (.cons ih₁ (.cons ih₂ (.cons ih₃ .nil)))) loc
  | CAST s d i ih₁ ih₂ ih₃ => exact cast_meets (specifier_meets ih₁) ih₂ ih₃
  | InitName a b loc ih₁ ih₂ | InitFragment a b loc ih₁ ih₂ =>
    exact kapply_meets rfl (.cons ih₁ (.cons (loc_meets env rfl (initExpression_meets ih₂) loc) .nil))
  -- a part that is there or not
  | Field n exp ih₁ ih₂ => exact field_meets ih₁ ih₂
  | EnumItem str exp loc ih =>
    show Meets (isNothing exp || printable env exp)
      (if isNothing exp then kapply "EnumItem" [identifier str]
        else kapply "EnumItemInit" [identifier str, print env exp])
    cases isNothing exp with
    | true => exact kapply_meets rfl (.leaf (identifier_silent str) .nil)
    | false => exact (kapply_meets rfl (.leaf (identifier_silent str) (.cons ih .nil))).single
  -- initializers, lists and options
  | NO_INIT => exact .noInit
  | SINGLE_INIT exp ih => exact .singleInit ih
  | COMPOUND_INIT a ih => exact .compoundInit ih
  | nil => exact .nil
  | cons x xs ih₁ ih₂ => exact .cons ih₁ ih₂
  | none => exact .none
  | some x ih => exact .some ih

/-! ## A translation unit -/

/-- Printing a statement or an expression leaves the stack of switches as it was. -/
def KeepsSwitches (p : Printer Kast) : Prop :=
  ∀ s t s', p s = some (t, s') → s'.switchStack = s.switchStack ∧ s'.currentSwitchId = s.currentSwitchId

theorem Meets.keepsSwitches {b : Bool} {p : Printer Kast} (h : Meets b p) : KeepsSwitches p := by
  intro s t s' hrun
  rcases h s with ⟨-, t₁, s₁, hrun₁, hprinted⟩ | ⟨-, hfail⟩
  · rw [hrun] at hrun₁
    injection hrun₁ with hrun₁
    injection hrun₁ with _ hs
    subst hs
    exact ⟨hprinted.stack, hprinted.current⟩
  · rw [hrun] at hfail
    cases hfail

/-- A translation unit is printed with all its nodes labelled: a case and a default with the switch around them, and
    no two ids alike. -/
def PrintsLabelled (filename : String) (defs : Cabs (.list .definition)) : Prop :=
  ∃ t s, translationUnit env filename defs initState = some (t, s) ∧ t.Scoped 0 ∧ t.ids.Nodup ∧ (∀ i ∈ t.ids, i ≠ 0)

/-- The literals that were kept are printed in front, without ids. -/
theorem translationUnit_run (filename : String) {defs : Cabs (.list .definition)} {ast : Kast} {s : PrinterState}
    (hrun : listOf (print env defs) initState = some (ast, s))
    (hplain : ∀ t ∈ s.stringLiterals, t.ids = [] ∧ ∀ cur, t.Scoped cur) :
    ∃ t, translationUnit env filename defs initState = some (t, s) ∧ t.ids = ast.ids ∧
      ∀ cur, t.Scoped cur ↔ ast.Scoped cur := by
  have hstrings : Silent (listOf (s.stringLiterals.map fun t => kapply "Constant" [ktoken t])) := by
    refine listOf_silent ?_
    intro p hp
    obtain ⟨t, ht, rfl⟩ := List.mem_map.mp hp
    obtain ⟨hids, hscoped⟩ := hplain t ht
    have htoken : Silent (ktoken t) := fun s => ⟨t, rfl, hids, hscoped⟩
    exact kapply_silent rfl (by simpa using htoken)
  obtain ⟨L, hL, hLids, hLscoped⟩ := hstrings s
  have hseq : sequence [ktoken (.string filename),
      listOf (s.stringLiterals.map fun t => kapply "Constant" [ktoken t]), ktoken ast] s =
        some ([.string filename, L, ast], s) := by
    rw [sequence_ktoken, sequence, bind_of_some hL]
    rfl
  have hunit := kapply_run "TranslationUnit" [ktoken (.string filename),
    listOf (s.stringLiterals.map fun t => kapply "Constant" [ktoken t]), ktoken ast] s
  rw [hseq] at hunit
  refine ⟨.kapply "TranslationUnit" [.string filename, L, ast], ?_, ?_, ?_⟩
  · rw [translationUnit, bind_of_some hrun]
    exact hunit
  · rw [ids_of_isPlain rfl, idsOf, idsOf, idsOf_singleton, hLids]
    rfl
  · intro cur
    rw [scoped_of_isPlain rfl, ScopedAll, ScopedAll, scopedAll_singleton]
    simp [hLscoped cur, Kast.Scoped]

theorem PrintsLabelled.printable {filename : String} {defs : Cabs (.list .definition)}
    (h : PrintsLabelled env filename defs) : all (printable env defs) = true := by
  obtain ⟨t, s, hrun, -, -, -⟩ := h
  have hdefs : Meets (all (Parser.printable env defs)) (listOf (print env defs)) :=
    listOf_meets (print_meets env defs)
  rcases hdefs initState with ⟨hb, -⟩ | ⟨-, hfail⟩
  · exact hb
  · rw [translationUnit, bind_of_none hfail] at hrun
    cases hrun

theorem printsLabelled_of_printable (filename : String) {defs : Cabs (.list .definition)}
    (hall : all (printable env defs) = true) : PrintsLabelled env filename defs := by
  have hdefs : Meets (all (printable env defs)) (listOf (print env defs)) := listOf_meets (print_meets env defs)
  rcases hdefs initState with ⟨-, ast, s, hrun, hprinted⟩ | ⟨hb, -⟩
  · have hplain : ∀ t ∈ s.stringLiterals, t.ids = [] ∧ ∀ cur, t.Scoped cur := by
      intro t ht
      rcases hprinted.literals t ht with h | h
      · exact absurd h List.not_mem_nil
      · exact h
    obtain ⟨t, hunit, hids, hscoped⟩ := translationUnit_run env filename hrun hplain
    refine ⟨t, s, hunit, ?_, ?_, ?_⟩
    · exact (hscoped 0).mpr (scopedAll_singleton.mp hprinted.inScope)
    · rw [hids, ← idsOf_singleton]
      exact hprinted.nodup
    · intro i hi hi0
      rw [hids, ← idsOf_singleton] at hi
      have hlt := (hprinted.fresh i hi).1
      rw [hi0] at hlt
      exact absurd hlt (by decide)
  · rw [hall] at hb
    cases hb

/-- **The ids of a translation unit.**  Statements and expressions keep the stack of switches; and what is printed is
    labelled, with different ids, exactly when all of it is printable. -/
theorem translationUnit_labelled_iff (filename : String) (defs : Cabs (.list .definition)) :
    ((∀ x : Cabs .statement, KeepsSwitches (print env x)) ∧ (∀ x : Cabs .expression, KeepsSwitches (print env x)) ∧
      PrintsLabelled env filename defs) ↔ all (printable env defs) = true := by
  constructor
  · rintro ⟨-, -, h⟩
    exact h.printable
  · intro hall
    have hstat : ∀ x : Cabs .statement, KeepsSwitches (print env x) := fun x =>
      Meets.keepsSwitches (b := printable env x) (print_meets env x)
    have hexp : ∀ x : Cabs .expression, KeepsSwitches (print env x) := fun x =>
      Meets.keepsSwitches (b := printable env x) (print_meets env x)
    exact ⟨hstat, hexp, printsLabelled_of_printable env filename hall⟩

/-! ## A label as a value -/

/-- Numerals are printed as they are. -/
def rootSetting : Setting where
  getcwd := "/"
  numeral
    | .CONST_INT i => some i
    | .CONST_FLOAT r => some r
    | _ => none

def someLoc : CabsLoc := ⟨1, "a.c", 0, false⟩

/-- `void f() { switch (1) { case 1: goto *&&l; } l: ; }` -/
def gotoLabelAddress : Cabs .definition :=
  let one : Cabs .expression := .LOCEXP (.CONSTANT (.CONST_INT "1")) someLoc
  let void : Cabs (.list .specElem) := .cons (.SpecType (.Tbasic .Tvoid)) .nil
  let body : Cabs .block := .Block [] .nil
    (.cons (.CASE one (.COMPGOTO (.LABELADDR "l") someLoc) someLoc) .nil)
  .FUNDEF (.SingleName void (.Name "f" (.NOPROTO .JUSTBASE .nil false) .nil someLoc))
    (.Block [] .nil
      (.cons (.SWITCH one (.BLOCK body someLoc) someLoc) (.cons (.LABEL "l" (.NOP someLoc) someLoc) .nil)))
    someLoc someLoc

/-- The printer has no branch for the address of a label: nothing is printed. -/
theorem gotoLabelAddress_not_labelled :
    translationUnit rootSetting "a.c" (.cons gotoLabelAddress .nil) initState = none ∧
      ¬ PrintsLabelled rootSetting "a.c" (.cons gotoLabelAddress .nil) := by
  constructor
  · have hdefs := listOf_meets (print_meets rootSetting (.cons gotoLabelAddress .nil))
    rcases hdefs initState with ⟨hb, -⟩ | ⟨-, hfail⟩
    · cases hb
    · exact bind_of_none hfail
  · intro h
    cases h.printable

end CSemantics.Parser
