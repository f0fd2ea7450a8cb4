/-
  The dispatch of a switch.

  `handleSwitch` walks through ALL labels of the function, those of other switches and the ordinary ones
  too, and takes them from the map in any order.  A case of its own converts the constant and compares; the
  default puts a `goto` BEHIND the rest of the walk, so that a case found later still wins.

      Switching.Step          the rules
      Switching.Inv           what a walk has found out so far
      Switching.inevitably_of_inv   every walk ends where the labels say, whatever the order
      handleSwitch_iff        when an unspecified value is reported for the sake of its own cases only

  Two rules are about a value that is not known, and they do not ask whose case it is.  The rule that
  skips the labels of other switches applies as well; so a switch without a single case may report the value
  because of a case of ANOTHER switch.
-/
import CSemantics.Conversion
import CSemantics.Execution.Stmt
import CSemantics.Lib.Inevitable

namespace CSemantics

open ConjSearch

/-! ## The labels -/

/-- A constant of a `case`: its value and type. -/
abbrev CaseConst := Int × UType

/-- The constant of a `case`, once it has been evaluated. -/
def caseConst : Expr CaseConst → Option CaseConst
  | .emptyValue => none
  | .int v => some (v, IntType.int.toSimple.toUType)
  | .other c => some c

/-- `stripConstants(T)` -/
def stripConstants : UType → UType
  | .ut (.mods f fs) T => .ut (.mods (f.erase .IntegerConstant) fs) T

/-- The value of a controlling expression; an `IntPtr` with its greatest value. -/
inductive SwitchValue
  | int (v : Int)
  | intPtr (max : Int)
  | unknown (n : Int)

def unspecifiedSwitch : Stop := UNSPEC "ESS1" "Switching on an unspecified controlling expression."

namespace Switching

/-! ## The rules -/

/-- The third argument of `#handleSwitch-aux`: what to do next, a label, or `.K`. -/
inductive Cur
  | nextCaseLabel
  | key (l : LabelId CaseConst)
  | empty

/-- The terms of the `<k>` cell while a switch is dispatched; a message stops everything. -/
inductive Item
  | aux (V : SwitchValue) (cur : Cur) (M : List (LabelId CaseConst))
  | tryCase (c : CaseConst) (v : Int) (l : LabelId CaseConst)
  | Goto (l : LabelId CaseConst)
  | stop (e : Stop)

/-- The labels of a switch, and those that are not of it. -/
def isSwitchLabel : LabelId CaseConst → Bool
  | .caseLabel _ _ => true
  | .defaultLabel _ => true
  | _ => false

variable (cfg : Settings) (tags : Tags) (SN : Int) (T : UType)

/-- The rules of `#handleSwitch-aux` and `tryCase`, for the switch `SN` on a value of type `T`. -/
inductive Step : List Item → List Item → Prop
  | done {V K} : Step (.aux V .nextCaseLabel [] :: K) K
  | pick {V l M K} (hl : l ∈ M) : Step (.aux V .nextCaseLabel M :: K) (.aux V (.key l) (M.erase l) :: K)
  | case {v e c M K} (hc : caseConst e = some c) :
      Step (.aux (.int v) (.key (.caseLabel SN e)) M :: K)
        (.tryCase c v (.caseLabel SN e) :: .aux (.int v) .nextCaseLabel M :: K)
  | intPtr {m sn e M K} :
      Step (.aux (.intPtr m) (.key (.caseLabel sn e)) M :: K) (.aux (.unknown m) (.key (.caseLabel sn e)) M :: K)
  | unspec {n sn e M K} :
      Step (.aux (.unknown n) (.key (.caseLabel sn e)) M :: K)
        (.stop unspecifiedSwitch :: .aux (.unknown n) (.key (.caseLabel sn e)) M :: K)
  | default {V M K} :
      Step (.aux V (.key (.defaultLabel SN)) M :: K) (.aux V .empty M :: .Goto (.defaultLabel SN) :: K)
  | other {V l M K} (hl : isSwitchLabel l) (hne : l.ofSwitch SN = false) :
      Step (.aux V (.key l) M :: K) (.aux V .empty M :: K)
  | label {V l M K} (hl : isSwitchLabel l = false) :
      Step (.aux V (.key l) M :: K) (.aux V .nextCaseLabel M :: K)
  | empty {V M K} : Step (.aux V .empty M :: K) (.aux V .nextCaseLabel M :: K)
  | cast {c v l K r} (hne : EqType cfg tags T c.2 false)
      (hr : CastRule cfg tags (stripConstants T) c.1 (stripConstants c.2) false r) :
      Step (.tryCase c v l :: K) (match r with | .ok c' => .tryCase c' v l :: K | .error e => .stop e :: K)
  | differs {c v l K} (heq : EqType cfg tags T c.2 true) (hne : c.1 ≠ v) : Step (.tryCase c v l :: K) K
  | found {c v l K} (heq : EqType cfg tags T c.2 true) (hv : c.1 = v) : Step (.tryCase c v l :: K) (.Goto l :: K)

/-- `handleSwitch(SN, tv(V, T))` with the labels `M`. -/
def start (V : SwitchValue) (M : List (LabelId CaseConst)) : List Item := [.aux V .nextCaseLabel M]

/-- A state that goes to the label `l`. -/
def GoesTo (l : LabelId CaseConst) (s : List Item) : Prop := ∃ K, s = .Goto l :: K

/-! ## Comparing with one case -/

/-- The constant of a case, converted to the type of the controlling expression, is `n`. -/
def ConvertsTo (i : IntType) (e : Expr CaseConst) (n : Int) : Prop :=
  ∃ c w s, caseConst e = some c ∧ IntShape cfg tags (stripConstants c.2) w s ∧ Represents w s c.1 ∧
    convertedValue (numBits cfg i) i.isSigned (stripConstants T) c.1 (stripConstants c.2) false =
      .ok (n, castTypes (stripConstants T) (stripConstants c.2))

/-- The type of a promoted value. -/
structure Promoted (i : IntType) (T : UType) : Prop where
  eq : ∃ m, T = .ut m (.nonArray i.toSimple)
  notBool : i ≠ .bool

section Compare

variable {cfg : Settings} {tags : Tags} {SN : Int} {T : UType} {i : IntType} {e : Expr CaseConst} {c : CaseConst}
  {n v : Int}

theorem convertsTo_unique {n' : Int} (h : ConvertsTo cfg tags T i e n) (h' : ConvertsTo cfg tags T i e n') :
    n = n' := by
  obtain ⟨c, w, s, hc, -, -, hn⟩ := h
  obtain ⟨c', w', s', hc', -, -, hn'⟩ := h'
  cases hc.symm.trans hc'
  cases hn.symm.trans hn'
  rfl

/-- The modifiers of an integer type do not matter for compatibility with it. -/
theorem compatQueries_stripConstants (hT : Promoted i T) (T' : UType) :
    compatQueries cfg tags ⟨[], type (stripConstants T), type (stripConstants T')⟩ =
      compatQueries cfg tags ⟨[], type T, type T'⟩ := by
  obtain ⟨⟨m, rfl⟩, -⟩ := hT
  obtain ⟨m', st⟩ := T'
  cases m with
  | mods f fs =>
    cases m' with
    | mods f' fs' =>
      cases st with
      | array k T' => rfl
      | nonArray n =>
        cases n with
        | basic b => rfl
        | enumType s => rfl
        | structType s => rfl
        | unionType s => rfl
        | pointerType T' => rfl
        | functionType r ps => rfl

/-- The promoted type is the type of what has been converted to it. -/
theorem eqType_castTypes (hT : Promoted i T) (T' : UType) :
    EqType cfg tags T (castTypes (stripConstants T) T') true := by
  obtain ⟨⟨⟨f, fs⟩, rfl⟩, -⟩ := hT
  obtain ⟨m', st⟩ := T'
  refine decides_true_iff.mpr ⟨[], ?_, by simp⟩
  cases i <;> rfl

/-- **What the cast of a case makes of its constant.** -/
theorem castRule_convertsTo (hT : Promoted i T) (hc : caseConst e = some c) (h : ConvertsTo cfg tags T i e n)
    {r : Eval CaseConst} : CastRule cfg tags (stripConstants T) c.1 (stripConstants c.2) false r ↔
      r = .ok (n, castTypes (stripConstants T) (stripConstants c.2)) := by
  obtain ⟨⟨⟨f, fs⟩, rfl⟩, hbool⟩ := hT
  obtain ⟨c', w, s, hc', hshape, hrep, hn⟩ := h
  cases hc.symm.trans hc'
  rw [← hn]
  have hT' : IntShape cfg tags (stripConstants (.ut (.mods f fs) (.nonArray i.toSimple))) (numBits cfg i) i.isSigned :=
    intShape_integer _ i
  have hnot : (stripConstants (.ut (.mods f fs) (.nonArray i.toSimple))).isBool = false := by
    cases i <;> first | rfl | exact absurd rfl hbool
  unfold convertedValue
  by_cases hV : Represents (numBits cfg i) i.isSigned c.1
  · rw [if_pos hV]
    exact castRule_represents hT' hshape.integer hnot hV
  · rw [if_neg hV]
    cases hs : i.isSigned with
    | false =>
      rw [hs] at hT' hV
      exact castRule_unsigned hT' hshape rfl hnot hrep hV
    | true =>
      rw [hs] at hT' hV
      exact castRule_signed hT' hshape rfl hnot hrep hV

/-- A constant that has the promoted type already is compared as it is. -/
theorem convertsTo_of_eqType (hT : Promoted i T) (hc : caseConst e = some c) (h : ConvertsTo cfg tags T i e n)
    (heq : EqType cfg tags T c.2 true) : n = c.1 := by
  have heq' : EqType cfg tags (stripConstants T) (stripConstants c.2) true := by
    obtain ⟨qs, hqs, hall⟩ := decides_true_iff.mp heq
    exact decides_true_iff.mpr ⟨qs, (compatQueries_stripConstants hT c.2).trans hqs, hall⟩
  have hptr : (stripConstants T).isPointer = false := by
    obtain ⟨⟨⟨f, fs⟩, rfl⟩, -⟩ := hT
    rfl
  have := (castRule_convertsTo hT hc h).mp (.sameType heq' hptr)
  cases this
  rfl

end Compare

/-! ## A walk on a known value -/

section Walk

variable {cfg : Settings} {tags : Tags} {SN : Int} {T : UType} {i : IntType} {M : List (LabelId CaseConst)} {v : Int}

/-- What is known of a label the walk has left behind: it is no case for `v`, and the default is waiting. -/
def Passed (cfg : Settings) (tags : Tags) (SN : Int) (T : UType) (i : IntType) (v : Int) (l : LabelId CaseConst)
    (K : List Item) : Prop :=
  (∀ e, l = .caseLabel SN e → ¬ConvertsTo cfg tags T i e v) ∧ (l = .defaultLabel SN → K ≠ [])

/-- The walk has left behind all labels but those of `M'` and `l`; `K` waits behind it. -/
structure Walked (cfg : Settings) (tags : Tags) (SN : Int) (T : UType) (i : IntType) (M : List (LabelId CaseConst))
    (v : Int) (M' : List (LabelId CaseConst)) (l : Option (LabelId CaseConst)) (K : List Item) : Prop where
  rest : ∀ l' ∈ M', l' ∈ M
  here : ∀ l' ∈ l, l' ∈ M
  passed : ∀ l' ∈ M, l' ∈ M' ∨ l = some l' ∨ Passed cfg tags SN T i v l' K
  behind : K ≠ [] → .defaultLabel SN ∈ M ∧ GoesTo (.defaultLabel SN) K

/-- The states of a walk, with a bound on the steps that are left. -/
inductive Inv (cfg : Settings) (tags : Tags) (SN : Int) (T : UType) (i : IntType) (M : List (LabelId CaseConst))
    (v : Int) : Nat → List Item → Prop
  | next {M' K} (h : Walked cfg tags SN T i M v M' none K) :
      Inv cfg tags SN T i M v (5 * M'.length + 1) (.aux (.int v) .nextCaseLabel M' :: K)
  | empty {M' K} (h : Walked cfg tags SN T i M v M' none K) :
      Inv cfg tags SN T i M v (5 * M'.length + 2) (.aux (.int v) .empty M' :: K)
  | key {M' l K} (h : Walked cfg tags SN T i M v M' (some l) K) :
      Inv cfg tags SN T i M v (5 * M'.length + 5) (.aux (.int v) (.key l) M' :: K)
  | tryCase {M' e c K} (h : Walked cfg tags SN T i M v M' (some (.caseLabel SN e)) K) (hc : caseConst e = some c)
      (hne : EqType cfg tags T c.2 false) :
      Inv cfg tags SN T i M v (5 * M'.length + 4) (.tryCase c v (.caseLabel SN e) :: .aux (.int v) .nextCaseLabel M' :: K)
  | converted {M' e c K} (h : Walked cfg tags SN T i M v M' (some (.caseLabel SN e)) K)
      (hc : ConvertsTo cfg tags T i e c.1) (heq : EqType cfg tags T c.2 true) :
      Inv cfg tags SN T i M v (5 * M'.length + 3) (.tryCase c v (.caseLabel SN e) :: .aux (.int v) .nextCaseLabel M' :: K)

/-- **Where a dispatch on `v` ends**: at a case for `v`, or else at the default, or else behind the switch. -/
def Dispatched (cfg : Settings) (tags : Tags) (SN : Int) (T : UType) (i : IntType) (M : List (LabelId CaseConst))
    (v : Int) (s : List Item) : Prop :=
  (∃ e, .caseLabel SN e ∈ M ∧ ConvertsTo cfg tags T i e v ∧ GoesTo (.caseLabel SN e) s) ∨
  ((∀ e, .caseLabel SN e ∈ M → ¬ConvertsTo cfg tags T i e v) ∧
    ((.defaultLabel SN ∈ M ∧ GoesTo (.defaultLabel SN) s) ∨ (.defaultLabel SN ∉ M ∧ s = [])))

/-- A label goes from the labels that are left to the one that is looked at. -/
theorem Walked.pick {M' K l} (h : Walked cfg tags SN T i M v M' none K) (hl : l ∈ M') :
    Walked cfg tags SN T i M v (M'.erase l) (some l) K where
  rest := fun l' hl' => h.rest l' (List.mem_of_mem_erase hl')
  here := by
    intro l' hl'
    cases hl'
    exact h.rest l hl
  passed := by
    intro l' hl'
    rcases h.passed l' hl' with hin | hnone | hpassed
    · by_cases heq : l' = l
      · exact .inr (.inl (congrArg some heq.symm))
      · exact .inl ((List.mem_erase_of_ne heq).mpr hin)
    · cases hnone
    · exact .inr (.inr hpassed)
  behind := h.behind

/-- The label that is looked at is left behind. -/
theorem Walked.leave {M' K K' l} (h : Walked cfg tags SN T i M v M' (some l) K)
    (hl : Passed cfg tags SN T i v l K') (hK : K ≠ [] → K' ≠ [])
    (hbehind : K' ≠ [] → .defaultLabel SN ∈ M ∧ GoesTo (.defaultLabel SN) K') :
    Walked cfg tags SN T i M v M' none K' where
  rest := h.rest
  here := fun _ hnone => nomatch hnone
  passed := by
    intro l' hl'
    rcases h.passed l' hl' with hin | hsome | hpassed
    · exact .inl hin
    · cases hsome
      exact .inr (.inr hl)
    · exact .inr (.inr ⟨hpassed.1, fun hd => hK (hpassed.2 hd)⟩)
  behind := hbehind

/-- **The end of a walk** that has found no case. -/
theorem Walked.dispatched {K} (h : Walked cfg tags SN T i M v [] none K) : Dispatched cfg tags SN T i M v K := by
  have hpassed : ∀ l ∈ M, Passed cfg tags SN T i v l K := by
    intro l hl
    rcases h.passed l hl with hin | hnone | hp
    · cases hin
    · cases hnone
    · exact hp
  refine .inr ⟨fun e he => (hpassed _ he).1 e rfl, ?_⟩
  by_cases hK : K = []
  · refine .inr ⟨fun hd => (hpassed _ hd).2 rfl hK, hK⟩
  · exact .inl (h.behind hK)

variable (hT : Promoted i T) (hconv : ∀ e, .caseLabel SN e ∈ M → ∃ n, ConvertsTo cfg tags T i e n)

include hT hconv

/-- **A step of a walk**, whatever label it takes. -/
theorem inv_step {n : Nat} {s : List Item} (hs : Inv cfg tags SN T i M v n s) :
    Dispatched cfg tags SN T i M v s ∨ (∃ t, Step cfg tags SN T s t) ∧
      ∀ t, Step cfg tags SN T s t → Dispatched cfg tags SN T i M v t ∨ ∃ m < n, Inv cfg tags SN T i M v m t := by
  cases hs with
  | @next M' K h =>
    right
    refine ⟨?_, fun t ht => ?_⟩
    · cases M' with
      | nil => exact ⟨_, .done⟩
      | cons l M' => exact ⟨_, .pick List.mem_cons_self⟩
    · cases ht with
      | done => exact .inl h.dispatched
      | pick hl =>
        refine .inr ⟨_, ?_, .key (h.pick hl)⟩
        have := List.length_erase_of_mem hl
        have := List.length_pos_of_mem hl
        omega
  | @empty M' K h =>
    right
    refine ⟨⟨_, .empty⟩, fun t ht => ?_⟩
    cases ht
    exact .inr ⟨_, by omega, .next h⟩
  | @key M' l K h =>
    right
    have hmem : l ∈ M := h.here l rfl
    cases l with
    | identifier x =>
      refine ⟨⟨_, .label rfl⟩, fun t ht => ?_⟩
      have hpassed : Passed cfg tags SN T i v (.identifier x) K := ⟨fun e he => (nomatch he), fun hd => nomatch hd⟩
      cases ht with
      | label _ => exact .inr ⟨_, by omega, .next (h.leave hpassed id h.behind)⟩
      | other hl _ => cases hl
    | funLabel =>
      refine ⟨⟨_, .label rfl⟩, fun t ht => ?_⟩
      have hpassed : Passed cfg tags SN T i v .funLabel K := ⟨fun e he => (nomatch he), fun hd => nomatch hd⟩
      cases ht with
      | label _ => exact .inr ⟨_, by omega, .next (h.leave hpassed id h.behind)⟩
      | other hl _ => cases hl
    | caseLabel sn e =>
      by_cases hsn : SN = sn
      · subst hsn
        obtain ⟨n, c, w, s, hc, hrest⟩ := hconv e hmem
        have hn : ConvertsTo cfg tags T i e n := ⟨c, w, s, hc, hrest⟩
        refine ⟨⟨_, .case hc⟩, fun t ht => ?_⟩
        cases ht with
        | case hc' =>
          cases hc.symm.trans hc'
          obtain ⟨b, hb⟩ := compatQueries_decides cfg tags ⟨[], type T, type c.2⟩
          cases b with
          | true =>
            have hcn := convertsTo_of_eqType hT hc hn hb
            rw [hcn] at hn
            exact .inr ⟨_, by omega, .converted h hn hb⟩
          | false => exact .inr ⟨_, by omega, .tryCase h hc hb⟩
        | other hl hne => simp [LabelId.ofSwitch] at hne
        | label hl => cases hl
      · have hpassed : Passed cfg tags SN T i v (.caseLabel sn e) K :=
          ⟨fun e he => absurd (by injection he with h1; exact h1.symm) hsn, fun hd => nomatch hd⟩
        refine ⟨⟨_, .other rfl (by simp [LabelId.ofSwitch, hsn])⟩, fun t ht => ?_⟩
        cases ht with
        | case _ => exact absurd rfl hsn
        | other _ _ => exact .inr ⟨_, by omega, .empty (h.leave hpassed id h.behind)⟩
        | label hl => cases hl
    | defaultLabel sn =>
      by_cases hsn : SN = sn
      · subst hsn
        refine ⟨⟨_, .default⟩, fun t ht => ?_⟩
        cases ht with
        | default =>
          have hpassed : Passed cfg tags SN T i v (.defaultLabel SN) (.Goto (.defaultLabel SN) :: K) :=
            ⟨fun e he => (nomatch he), fun _ => by simp⟩
          exact .inr ⟨_, by omega, .empty (h.leave hpassed (fun _ => by simp) fun _ => ⟨hmem, K, rfl⟩)⟩
        | other hl hne => simp [LabelId.ofSwitch] at hne
        | label hl => cases hl
      · have hpassed : Passed cfg tags SN T i v (.defaultLabel sn) K :=
          ⟨fun e he => (nomatch he), fun hd => absurd (by injection hd with h1; exact h1.symm) hsn⟩
        refine ⟨⟨_, .other rfl (by simp [LabelId.ofSwitch, hsn])⟩, fun t ht => ?_⟩
        cases ht with
        | default => exact absurd rfl hsn
        | other _ _ => exact .inr ⟨_, by omega, .empty (h.leave hpassed id h.behind)⟩
        | label hl => cases hl
  | @tryCase M' e c K h hc hne =>
    right
    obtain ⟨n, hn⟩ := hconv e (h.here _ rfl)
    have hcast := fun r => castRule_convertsTo (r := r) hT hc hn
    refine ⟨⟨_, .cast hne ((hcast _).mpr rfl)⟩, fun t ht => ?_⟩
    cases ht with
    | cast _ hr =>
      cases (hcast _).mp hr
      exact .inr ⟨_, by omega, .converted h hn (eqType_castTypes hT _)⟩
    | differs heq _ => cases heq.unique hne
    | found heq _ => cases heq.unique hne
  | @converted M' e c K h hc heq =>
    right
    have hmem := h.here _ rfl
    by_cases hcv : c.1 = v
    · refine ⟨⟨_, .found heq hcv⟩, fun t ht => ?_⟩
      cases ht with
      | cast hne _ => cases heq.unique hne
      | differs _ hne => exact absurd hcv hne
      | found _ _ => exact .inl (.inl ⟨e, hmem, hcv ▸ hc, _, rfl⟩)
    · refine ⟨⟨_, .differs heq hcv⟩, fun t ht => ?_⟩
      cases ht with
      | cast hne _ => cases heq.unique hne
      | found _ hv => exact absurd hv hcv
      | differs _ _ =>
        have hpassed : Passed cfg tags SN T i v (.caseLabel SN e) K := by
          refine ⟨fun e' he' => ?_, fun hd => nomatch hd⟩
          cases he'
          exact fun hv => hcv (convertsTo_unique hc hv)
        exact .inr ⟨_, by omega, .next (h.leave hpassed id h.behind)⟩

/-- **A walk ends where the labels say**, in whatever order it takes them. -/
theorem inevitably_dispatched : Inevitably (Step cfg tags SN T) (Dispatched cfg tags SN T i M v) (start (.int v) M) := by
  refine Inevitably.of_index (fun n s => Dispatched cfg tags SN T i M v s ∨ Inv cfg tags SN T i M v n s) ?_
    (n := 5 * M.length + 1) (.inr (.next ⟨fun l hl => hl, fun _ hnone => (nomatch hnone), fun l hl => .inl hl, fun h => absurd rfl h⟩))
  rintro n s (hs | hs)
  · exact .inl hs
  · rcases inv_step hT hconv hs with hd | ⟨hex, hall⟩
    · exact .inl hd
    · refine .inr ⟨hex, fun t ht => ?_⟩
      rcases hall t ht with hd | ⟨m, hm, hI⟩
      · have hpos : 0 < n := by cases hs <;> omega
        exact ⟨0, hpos, .inl hd⟩
      · exact ⟨m, hm, .inr hI⟩

end Walk

/-! ## A value that is not known -/

section Unspecified

variable {cfg : Settings} {tags : Tags} {SN : Int} {T : UType} {M : List (LabelId CaseConst)}

/-- A message about the value is in the cell. -/
def Reports (s : List Item) : Prop := .stop unspecifiedSwitch ∈ s

/-- A term that will not lead to such a message: its value is known, or it has no case to look at. -/
def Item.quiet : Item → Prop
  | .aux (.int _) _ _ => True
  | .aux _ cur M => (∀ sn e, .caseLabel sn e ∉ M) ∧ ∀ sn e, cur ≠ .key (.caseLabel sn e)
  | .stop e => e ≠ unspecifiedSwitch
  | .tryCase _ _ _ => True
  | .Goto _ => True

theorem Item.quiet.withCur {V : SwitchValue} {cur cur' : Cur} (h : (Item.aux V cur M).quiet)
    (hcur : ∀ sn e, cur' ≠ .key (.caseLabel sn e)) : (Item.aux V cur' M).quiet := by
  cases V with
  | int v => trivial
  | intPtr m => exact ⟨h.1, hcur⟩
  | unknown n => exact ⟨h.1, hcur⟩

theorem quiet_step {s t : List Item} (hs : ∀ x ∈ s, x.quiet) (h : Step cfg tags SN T s t) : ∀ x ∈ t, x.quiet := by
  cases h with
  | done => exact fun x hx => hs x (List.mem_cons_of_mem _ hx)
  | @pick V l M K hl =>
    obtain ⟨hhead, htail⟩ := List.forall_mem_cons.mp hs
    refine List.forall_mem_cons.mpr ⟨?_, htail⟩
    cases V with
    | int v => trivial
    | intPtr m =>
      refine ⟨fun sn e he => hhead.1 sn e (List.mem_of_mem_erase he), fun sn e he => ?_⟩
      cases he
      exact hhead.1 sn e hl
    | unknown n =>
      refine ⟨fun sn e he => hhead.1 sn e (List.mem_of_mem_erase he), fun sn e he => ?_⟩
      cases he
      exact hhead.1 sn e hl
  | case hc =>
    obtain ⟨-, htail⟩ := List.forall_mem_cons.mp hs
    exact List.forall_mem_cons.mpr ⟨trivial, List.forall_mem_cons.mpr ⟨trivial, htail⟩⟩
  | intPtr =>
    obtain ⟨hhead, -⟩ := List.forall_mem_cons.mp hs
    exact absurd rfl (hhead.2 _ _)
  | unspec =>
    obtain ⟨hhead, -⟩ := List.forall_mem_cons.mp hs
    exact absurd rfl (hhead.2 _ _)
  | default =>
    obtain ⟨hhead, htail⟩ := List.forall_mem_cons.mp hs
    refine List.forall_mem_cons.mpr ⟨hhead.withCur fun _ _ hcur => (nomatch hcur), ?_⟩
    exact List.forall_mem_cons.mpr ⟨trivial, htail⟩
  | other _ _ =>
    obtain ⟨hhead, htail⟩ := List.forall_mem_cons.mp hs
    exact List.forall_mem_cons.mpr ⟨hhead.withCur fun _ _ hcur => (nomatch hcur), htail⟩
  | label _ =>
    obtain ⟨hhead, htail⟩ := List.forall_mem_cons.mp hs
    exact List.forall_mem_cons.mpr ⟨hhead.withCur fun _ _ hcur => (nomatch hcur), htail⟩
  | empty =>
    obtain ⟨hhead, htail⟩ := List.forall_mem_cons.mp hs
    exact List.forall_mem_cons.mpr ⟨hhead.withCur fun _ _ hcur => (nomatch hcur), htail⟩
  | @cast c v l K r _ hr =>
    obtain ⟨-, htail⟩ := List.forall_mem_cons.mp hs
    cases r with
    | ok c' => exact List.forall_mem_cons.mpr ⟨trivial, htail⟩
    | error e =>
      refine List.forall_mem_cons.mpr ⟨?_, htail⟩
      -- the messages of a conversion are others
      cases hr <;> exact fun he => by cases he
  | differs _ _ => exact fun x hx => hs x (List.mem_cons_of_mem _ hx)
  | found _ _ =>
    obtain ⟨-, htail⟩ := List.forall_mem_cons.mp hs
    exact List.forall_mem_cons.mpr ⟨trivial, htail⟩

/-- **From quiet terms no run leads to a message.** -/
theorem not_reports_of_quiet {s t : List Item} (hs : ∀ x ∈ s, x.quiet)
    (h : Relation.ReflTransGen (Step cfg tags SN T) s t) : ¬Reports t := by
  have hall : ∀ x ∈ t, x.quiet := by
    induction h with
    | refl => exact hs
    | tail _ hstep ih => exact quiet_step ih hstep
  exact fun hr => hall _ hr rfl

/-- **A case of whatever switch** leads to the message for a value that is not known. -/
theorem exists_reports {V : SwitchValue} (hV : ∀ v, V ≠ .int v) {sn : Int} {e : Expr CaseConst}
    (he : .caseLabel sn e ∈ M) : ∃ t, Relation.ReflTransGen (Step cfg tags SN T) (start V M) t ∧ Reports t := by
  have hpick : Step cfg tags SN T (start V M) _ := .pick he
  cases V with
  | int v => exact absurd rfl (hV v)
  | unknown n => exact ⟨_, .tail (.single hpick) .unspec, List.mem_cons_self⟩
  | intPtr m => exact ⟨_, .tail (.tail (.single hpick) .intPtr) .unspec, List.mem_cons_self⟩

end Unspecified

/-! ## The dispatch -/

section Dispatch

variable {cfg : Settings} {tags : Tags} {SN : Int} {T : UType} {i : IntType} {M : List (LabelId CaseConst)}

/-- What a dispatch ends with is one of the steps that a switch may take. -/
theorem step_of_dispatched {c : Cells} {G : GotoMap CaseConst} {v : Int} {s : List Item} {e : Expr CaseConst}
    {t K : KSeq CaseConst} {ls : LoopStack CaseConst} {st : Store}
    (h : Dispatched cfg tags SN T i (G.map Prod.fst) v s) :
    (∃ l, GoesTo l s ∧
      CSemantics.Step c G ⟨.Switch SN e t :: K, ls, st⟩ ⟨.sequencePoint :: .simple (.Goto l) :: K, ls, st⟩) ∨
    (s = [] ∧ CSemantics.Step c G ⟨.Switch SN e t :: K, ls, st⟩ ⟨.sequencePoint :: K, ls, st⟩) := by
  rcases h with ⟨x, hx, -, hgo⟩ | ⟨-, ⟨hd, hgo⟩ | ⟨-, hnil⟩⟩
  · exact .inl ⟨_, hgo, .switchTo (by simp [LabelId.ofSwitch]) hx⟩
  · exact .inl ⟨_, hgo, .switchTo (by simp [LabelId.ofSwitch]) hd⟩
  · exact .inr ⟨hnil, .switchPast⟩

/-- **The dispatch of a switch.**  A value that is known goes to the case it is the converted constant of, else
    to the default, else past the switch, in whatever order the labels are taken; and the message about a value that is
    not known is given only if the switch has a case. -/
structure DispatchesRight (cfg : Settings) (tags : Tags) (SN : Int) (T : UType) (i : IntType)
    (M : List (LabelId CaseConst)) (V : SwitchValue) : Prop where
  toCase : ∀ v e, V = .int v → .caseLabel SN e ∈ M → ConvertsTo cfg tags T i e v →
    Inevitably (Step cfg tags SN T) (GoesTo (.caseLabel SN e)) (start V M)
  toDefault : ∀ v, V = .int v → (∀ e, .caseLabel SN e ∈ M → ¬ConvertsTo cfg tags T i e v) → .defaultLabel SN ∈ M →
    Inevitably (Step cfg tags SN T) (GoesTo (.defaultLabel SN)) (start V M)
  past : ∀ v, V = .int v → (∀ e, .caseLabel SN e ∈ M → ¬ConvertsTo cfg tags T i e v) → .defaultLabel SN ∉ M →
    Inevitably (Step cfg tags SN T) (· = []) (start V M)
  reported : ∀ t, Relation.ReflTransGen (Step cfg tags SN T) (start V M) t → Reports t →
    ∃ e, .caseLabel SN e ∈ M

/-- **Dispatch of a switch.**  The cases of the switch are constants with different values in the promoted type.
    Then the dispatch is right exactly when the value is known, the switch has a case, or no switch of the
    function has one. -/
theorem handleSwitch_iff (cfg : Settings) (tags : Tags) (SN : Int) (T : UType) (i : IntType)
    (M : List (LabelId CaseConst)) (V : SwitchValue) (hT : Promoted i T)
    (hconv : ∀ e, .caseLabel SN e ∈ M → ∃ n, ConvertsTo cfg tags T i e n)
    (hdistinct : ∀ e e' n, .caseLabel SN e ∈ M → .caseLabel SN e' ∈ M → ConvertsTo cfg tags T i e n →
      ConvertsTo cfg tags T i e' n → e = e') :
    DispatchesRight cfg tags SN T i M V ↔
      (∃ v, V = .int v) ∨ (∃ e, .caseLabel SN e ∈ M) ∨ ∀ sn e, .caseLabel sn e ∉ M := by
  constructor
  · intro h
    by_cases hV : ∃ v, V = .int v
    · exact .inl hV
    · refine .inr (or_iff_not_imp_right.mpr fun hcase => ?_)
      push Not at hV hcase
      obtain ⟨sn, e, he⟩ := hcase
      have hrun : ∃ t, Relation.ReflTransGen (Step cfg tags SN T) (start V M) t ∧ Reports t := exists_reports hV he
      obtain ⟨t, ht, hr⟩ := hrun
      exact h.reported t ht hr
  · intro h
    have hdispatched : ∀ v, V = .int v → Inevitably (Step cfg tags SN T) (Dispatched cfg tags SN T i M v) (start V M) := by
      rintro v rfl
      exact inevitably_dispatched hT hconv
    refine ⟨fun v e hV he hv => ?_, fun v hV hno hd => ?_, fun v hV hno hd => ?_, fun t ht hr => ?_⟩
    · refine (hdispatched v hV).mono fun s hs => ?_
      rcases hs with ⟨e', he', hv', hgo⟩ | ⟨hno, -⟩
      · rw [hdistinct e e' v he he' hv hv']
        exact hgo
      · exact absurd hv (hno e he)
    · refine (hdispatched v hV).mono fun s hs => ?_
      rcases hs with ⟨e', he', hv', -⟩ | ⟨-, ⟨-, hgo⟩ | ⟨hnd, -⟩⟩
      · exact absurd hv' (hno e' he')
      · exact hgo
      · exact absurd hd hnd
    · refine (hdispatched v hV).mono fun s hs => ?_
      rcases hs with ⟨e', he', hv', -⟩ | ⟨-, ⟨hd', -⟩ | ⟨-, hnil⟩⟩
      · exact absurd hv' (hno e' he')
      · exact absurd hd' hd
      · exact hnil
    · rcases h with ⟨v, rfl⟩ | hcase | hno
      · exact absurd hr (not_reports_of_quiet (by simp [start, Item.quiet]) ht)
      · exact hcase
      · refine absurd hr (not_reports_of_quiet ?_ ht)
        refine List.forall_mem_cons.mpr ⟨?_, by simp⟩
        cases V with
        | int v => trivial
        | intPtr m => exact ⟨hno, fun _ _ hcur => nomatch hcur⟩
        | unknown n => exact ⟨hno, fun _ _ hcur => nomatch hcur⟩

/-- In a function with the cases 1 and the default of one switch and the case 2 of another, the value 1 is dispatched
    right by the first. -/
theorem handleSwitch_one :
    let M : List (LabelId CaseConst) := [.caseLabel 0 (.int 1), .defaultLabel 0, .caseLabel 1 (.int 2)]
    DispatchesRight x86GccLimitedLibc [] 0 IntType.int.toSimple.toUType .int M (.int 1) := by
  intro M
  have hone : ∀ e, .caseLabel 0 e ∈ M → e = .int 1 := by
    intro e he
    simpa [M] using he
  have hconv : ConvertsTo x86GccLimitedLibc [] IntType.int.toSimple.toUType .int (.int 1) 1 :=
    ⟨(1, IntType.int.toSimple.toUType), _, _, rfl, intShape_integer _ .int, by decide, rfl⟩
  refine (handleSwitch_iff x86GccLimitedLibc [] 0 IntType.int.toSimple.toUType .int M (.int 1) ⟨⟨_, rfl⟩, by decide⟩
    (fun e he => ⟨1, hone e he ▸ hconv⟩) (fun e e' n he he' _ _ => ?_)).mpr (.inl ⟨1, rfl⟩)
  rw [hone e he, hone e' he']

/-- **A switch without a case reports a case of another.**  The function has the default of switch 0 and a case
    of switch 1; switch 0 gets a value that is not known. -/
theorem handleSwitch_foreign_case :
    let M : List (LabelId CaseConst) := [.defaultLabel 0, .caseLabel 1 (.int 2)]
    let T := IntType.int.toSimple.toUType
    (∃ t, Relation.ReflTransGen (Step x86GccLimitedLibc [] 0 T) (start (.unknown 0) M) t ∧ Reports t) ∧
      (∀ e, .caseLabel 0 e ∉ M) ∧ ¬DispatchesRight x86GccLimitedLibc [] 0 T .int M (.unknown 0) := by
  intro M T
  have hreports : ∃ t, Relation.ReflTransGen (Step x86GccLimitedLibc [] 0 T) (start (.unknown 0) M) t ∧ Reports t :=
    exists_reports (fun v hv => nomatch hv) (show .caseLabel 1 (.int 2) ∈ M by decide)
  have hno : ∀ e, .caseLabel 0 e ∉ M := by
    intro e he
    simp [M] at he
  refine ⟨hreports, hno, fun h => ?_⟩
  obtain ⟨t, ht, hr⟩ := hreports
  obtain ⟨e, he⟩ := h.reported t ht hr
  exact hno e he

end Dispatch

end Switching

end CSemantics
