/-
  Composite types.

  `compositeType(T, T')` combines the declarations of one entity: what either type knows (a bound, a
  prototype, the members of a struct) the composite should know.  The rules are a second case
  analysis over pairs of types, next to that of `#areCompat`, and "we can assume the types are
  compatible".

  **The two analyses do not cover the same pairs.**  `int` and `signed int` are compatible and have
  no composite; nor have two unions or enumerations of different units, two complete structs of
  different units, or an incomplete array and one of variable length.  And the rules for an array of
  known length beside one of variable length take the qualifiers of the ELEMENTS of the second for
  those of the array, so their composite can be compatible with neither.

      isComposable               the pairs the rules do cover, read off the two types
      exists_composite           these have a composite, compatible with both types, that keeps what
                                 either knows
      isComposable_of_composite  no other compatible pair has
-/
import CSemantics.Typing.Compatibility

namespace CSemantics

open ConjSearch

/-! ## The rules -/

/-- `SimpleVariableArrayType` -/
def ArrayKind.isVariable : ArrayKind → Bool
  | .unspecified => true
  | .variableLength _ => true
  | _ => false

/-- What the composite of two array types knows about its length; `none` where there is no rule. -/
def compositeArrayKind : ArrayKind → ArrayKind → Option ArrayKind
  | .fixed n, .fixed n' => if n = n' then some (.fixed n) else none
  | .fixed n, .incomplete => some (.fixed n)
  | .incomplete, .fixed n => some (.fixed n)
  | .fixed n, .unspecified => some (.fixed n)
  | .fixed n, .variableLength _ => some (.fixed n)
  | .unspecified, .fixed n => some (.fixed n)
  | .variableLength _, .fixed n => some (.fixed n)
  | .variableLength e, .variableLength _ => some (.variableLength e)
  | .unspecified, .variableLength e => some (.variableLength e)
  | .variableLength e, .unspecified => some (.variableLength e)
  | .unspecified, .unspecified => some .unspecified
  | .flexible, .flexible => some .flexible
  | _, _ => none

/-- The qualifiers of the composite of two array types.  The rules for a known length beside a
    variable one ask the whole variable type, and so get those of its elements. -/
def compositeArrayQuals (q : Quals) (k : ArrayKind) (e : CType) (q' : Quals) (k' : ArrayKind)
    (e' : CType) : Quals :=
  match k, k' with
  | .fixed _, k' => if k'.isVariable then q.plus (getQualifiers e') else q.plus q'
  | k, .fixed _ => if k.isVariable then (getQualifiers e).plus q' else q.plus q'
  | _, _ => q.plus q'

section Code

variable (tags : Tags)

/-- The composite of two types that are neither both pointers nor both functions: the same type, an
    enumeration and its alias, or two structs one of which is incomplete. -/
def compositeSimple (n n' : SimpleNonArrayType) : Eval SimpleNonArrayType :=
  if n = n' then .ok n
  else
    match n, n' with
    | .enumType s, .basic (.integer i) =>
      if isEnumAlias tags s i then .ok (.basic (.integer i)) else .error .stuck
    | .basic (.integer i), .enumType s =>
      if isEnumAlias tags s i then .ok (.basic (.integer i)) else .error .stuck
    | .structType s, .structType s' =>
      if getTagInfo tags s' matches .incomplete then .ok (.structType s)
      else if getTagInfo tags s matches .incomplete then .ok (.structType s')
      else .error .stuck
    | _, _ => .error .stuck

/-- A parameter of the composite: it has a name when either has one, the first one's before the
    second's. -/
def compositeParam (p p' : ParamDecl) (C : CType) : ParamDecl :=
  match p, p' with
  | .typedDeclaration _ x, _ => .typedDeclaration C x
  | _, .typedDeclaration _ x => .typedDeclaration C x
  | _, _ => .type C

theorem ParamDecl.size_pos (p : ParamDecl) : 0 < p.size := by
  have hT : ∀ T : CType, 0 < T.size := by
    rintro ⟨q, m, st⟩
    rw [CType.size]; omega
  cases p with
  | type T => rw [ParamDecl.size]; exact hT T
  | typedDeclaration T x => rw [ParamDecl.size]; exact hT T
  | variadic => rw [ParamDecl.size]; omega

mutual

/-- `compositeType` -/
def compositeType (T T' : CType) : Eval CType :=
  if T = T' then .ok T
  else
    match T, T' with
    | .t q m (.array k e), .t q' m' (.array k' e') =>
      match compositeArrayKind k k' with
      | none => .error .stuck
      | some k₂ => do
        let c ← compositeType e e'
        return .t (compositeArrayQuals q k e q' k' e') (m.union m') (.array k₂ c)
    | .t q m (.nonArray (.pointerType e)), .t q' m' (.nonArray (.pointerType e')) => do
      let c ← compositeType e e'
      return .t (q.plus q') (m.union m') (.nonArray (.pointerType c))
    | .t q m (.nonArray (.functionType r ps)), .t q' m' (.nonArray (.functionType r' ps')) => do
      let c ← compositeType (type r) (type r')
      compositeFunctionType (utype c) (q.plus q') (m.union m') ps ps' []
    | .t q m (.nonArray n), .t q' m' (.nonArray n') => do
      let c ← compositeSimple tags n n'
      return .t (q.plus q') (m.union m') (.nonArray c)
    | _, _ => .error .stuck
  termination_by T.size
  decreasing_by
    all_goals simp only [CType.size, SimpleType.size, SimpleNonArrayType.size, size_type]; omega

/-- `compositeFunctionType`: parameters are combined from the left; a list that runs out is replaced
    by what is left of the other. -/
def compositeFunctionType (R : UType) (q : Quals) (m : Mods) :
    List ParamDecl → List ParamDecl → List ParamDecl → Eval CType
  | [], [], P => .ok (.t q m (.nonArray (.functionType R P)))
  | [], p' :: L', _ => .ok (.t q m (.nonArray (.functionType R (p' :: L'))))
  | p :: L, [], _ => .ok (.t q m (.nonArray (.functionType R (p :: L))))
  | p :: L, p' :: L', P =>
    match h : p.declared, p'.declared with
    | some T, some T' => do
      let c ← compositeType T T'
      compositeFunctionType R q m L L' (P ++ [compositeParam p p' c])
    -- the ellipsis is matched only at the end of both lists
    | none, none =>
      if L = [] ∧ L' = [] then .ok (.t q m (.nonArray (.functionType R (P ++ [.variadic]))))
      else .error .stuck
    | _, _ => .error .stuck
  termination_by L => ParamDecl.sizeList L + 1
  decreasing_by
    all_goals
      have hpos := p.size_pos
      simp only [ParamDecl.sizeList, declared_size h]; omega

end

end Code

/-! ## The pairs the rules cover -/

/-- The pairs of array kinds that have a rule. -/
def haveCompositeKind : ArrayKind → ArrayKind → Bool
  | .fixed n, .fixed n' => n == n'
  | .fixed _, .flexible => false
  | .flexible, .fixed _ => false
  | .fixed _, _ => true
  | _, .fixed _ => true
  | .flexible, .flexible => true
  | k, k' => k.isVariable && k'.isVariable

/-- Beside an array of known length, the elements of an array of variable length have no qualifier
    that the array does not have. -/
def elementQualsAgree (q : Quals) (k : ArrayKind) (e : CType) (k' : ArrayKind) (e' : CType) : Bool :=
  match k, k' with
  | .fixed _, k' => !k'.isVariable || q.plus (getQualifiers e') == q
  | k, .fixed _ => !k.isVariable || q.plus (getQualifiers e) == q
  | _, _ => true

section Composable

variable (tags : Tags)

/-- The same type, an enumeration and an integer type, or structs of which one is incomplete. -/
def isSimpleComposable (n n' : SimpleNonArrayType) : Bool :=
  n = n' ||
    match n, n' with
    | .enumType _, .basic (.integer _) => true
    | .basic (.integer _), .enumType _ => true
    | .structType s, .structType s' =>
      (getTagInfo tags s matches .incomplete) || (getTagInfo tags s' matches .incomplete)
    | _, _ => false

mutual

/-- **The pairs of types the rules of `compositeType` cover.**  `exact` says that qualifiers count,
    as they do everywhere but in the parameters and the result of a function. -/
def isComposable (exact : Bool) (T T' : CType) : Bool :=
  T = T' ||
    match T, T' with
    | .t q _ (.array k e), .t _ _ (.array k' e') =>
      haveCompositeKind k k' && (!exact || elementQualsAgree q k e k' e') && isComposable exact e e'
    | .t _ _ (.nonArray (.pointerType e)), .t _ _ (.nonArray (.pointerType e')) =>
      isComposable true e e'
    | .t _ _ (.nonArray (.functionType r ps)), .t _ _ (.nonArray (.functionType r' ps')) =>
      isComposable false (type r) (type r') && (ps.isEmpty || ps'.isEmpty || areComposable ps ps')
    | .t _ _ (.nonArray n), .t _ _ (.nonArray n') => isSimpleComposable tags n n'
    | _, _ => false
  termination_by T.size
  decreasing_by
    all_goals simp only [CType.size, SimpleType.size, SimpleNonArrayType.size, size_type]; omega

/-- Parameters pair by pair, an ellipsis only at the end. -/
def areComposable : List ParamDecl → List ParamDecl → Bool
  | [], [] => true
  | p :: L, p' :: L' =>
    match _h : p.declared, p'.declared with
    | some T, some T' => isComposable false T T' && areComposable L L'
    | none, none => L.isEmpty && L'.isEmpty
    | _, _ => false
  | _, _ => false
  termination_by L => ParamDecl.sizeList L + 1
  decreasing_by
    all_goals
      have hpos := p.size_pos
      have hsize := declared_size _h
      simp only [ParamDecl.sizeList]; omega

end

end Composable

/-! ## What a composite has to keep -/

mutual

/-- `C` knows every array bound and every prototype that `T` knows. -/
def Keeps (T C : CType) : Prop :=
  match T, C with
  | .t _ _ (.array k e), .t _ _ (.array k' e') => (∀ n, k = .fixed n → k' = .fixed n) ∧ Keeps e e'
  | .t _ _ (.array _ _), .t _ _ (.nonArray _) => False
  | .t _ _ (.nonArray (.pointerType e)), .t _ _ (.nonArray (.pointerType e')) => Keeps e e'
  | .t _ _ (.nonArray (.pointerType _)), _ => False
  | .t _ _ (.nonArray (.functionType r ps)), .t _ _ (.nonArray (.functionType r' ps')) =>
    Keeps (type r) (type r') ∧ (ps ≠ [] → KeepsParams ps ps')
  | .t _ _ (.nonArray (.functionType _ _)), _ => False
  | _, _ => True
  termination_by T.size
  decreasing_by
    all_goals simp only [CType.size, SimpleType.size, SimpleNonArrayType.size, size_type]; omega

def KeepsParams : List ParamDecl → List ParamDecl → Prop
  | [], [] => True
  | p :: L, p' :: L' =>
    match _h : p.declared, p'.declared with
    | some T, some T' => Keeps T T' ∧ KeepsParams L L'
    | none, none => KeepsParams L L'
    | _, _ => False
  | _, _ => False
  termination_by L => ParamDecl.sizeList L + 1
  decreasing_by
    · have hsize := declared_size _h
      simp only [ParamDecl.sizeList]; omega
    all_goals
      have hpos := p.size_pos
      simp only [ParamDecl.sizeList]; omega

end

/-! ## What compatibility says -/

section Compat

variable {cfg : Settings} {tags : Tags} {q q' : Quals} {m m' : Mods}

theorem compat_array_iff {k k' : ArrayKind} {e e' : CType} :
    AreCompatible cfg tags (.t q m (.array k e)) (.t q' m' (.array k' e')) true ↔
      q = q' ∧ areArrayKindsCompat k k' = true ∧ AreCompatible cfg tags e e' true := by
  unfold AreCompatible
  rw [decides_true_iff]
  simp only [compatQueries]
  by_cases hq : q = q' <;> by_cases hk : areArrayKindsCompat k k' = true <;> simp [hq, hk]

theorem compat_pointer_iff {e e' : CType} :
    AreCompatible cfg tags (.t q m (.nonArray (.pointerType e)))
        (.t q' m' (.nonArray (.pointerType e'))) true ↔
      q = q' ∧ AreCompatible cfg tags e e' true := by
  unfold AreCompatible
  rw [decides_true_iff]
  simp only [compatQueries, nonArrayQueries]
  by_cases hq : q = q' <;> simp [hq]

variable (cfg tags) in
/-- Two parameters agree: both are the ellipsis, or their unqualified types are compatible. -/
def ParamCompat (p p' : ParamDecl) : Prop :=
  (p.declared = none ∧ p'.declared = none) ∨
    ∃ T T', p.declared = some T ∧ p'.declared = some T' ∧
      AreCompatible cfg tags (stripQualifiers T) (stripQualifiers T') true

theorem paramQueries_iff {L L' : List ParamDecl} :
    (∃ qs, paramQueries [] L L' = some qs ∧ ∀ a ∈ qs, Decides (compatQueries cfg tags) a true) ↔
      List.Forall₂ (ParamCompat cfg tags) L L' := by
  induction L generalizing L' with
  | nil => cases L' <;> simp [paramQueries]
  | cons p L ih =>
    cases L' with
    | nil => simp [paramQueries]
    | cons p' L' =>
      rw [List.forall₂_cons, ← ih, paramQueries]
      cases hp : p.declared <;> cases hp' : p'.declared <;> cases paramQueries [] L L' <;>
        simp [ParamCompat, hp, hp', AreCompatible]

theorem compat_function_iff {r r' : UType} {ps ps' : List ParamDecl} (hlen : ps.length = ps'.length) :
    AreCompatible cfg tags (.t q m (.nonArray (.functionType r ps)))
        (.t q' m' (.nonArray (.functionType r' ps'))) true ↔
      q = q' ∧ AreCompatible cfg tags (type r) (type r') true ∧
        List.Forall₂ (ParamCompat cfg tags) ps ps' := by
  rw [← paramQueries_iff]
  unfold AreCompatible
  rw [decides_true_iff]
  simp only [compatQueries, nonArrayQueries, functionQueries, if_pos hlen]
  by_cases hq : q = q' <;> cases paramQueries [] ps ps' <;> simp [hq]

variable (cfg tags) in
/-- The parameters of a prototype that can meet a declaration without one. -/
def PromotedCompat (ps : List ParamDecl) : Prop :=
  ParamDecl.variadic ∉ ps ∧ ∃ qs, promotedQueries cfg tags ps = some qs ∧
    ∀ a ∈ qs, Decides (compatQueries cfg tags) a true

theorem compat_noPrototype_iff {r r' : UType} {p : ParamDecl} {ps : List ParamDecl} :
    AreCompatible cfg tags (.t q m (.nonArray (.functionType r [])))
        (.t q' m' (.nonArray (.functionType r' (p :: ps)))) true ↔
      q = q' ∧ AreCompatible cfg tags (type r) (type r') true ∧ PromotedCompat cfg tags (p :: ps) := by
  unfold AreCompatible PromotedCompat
  rw [decides_true_iff]
  simp only [compatQueries, nonArrayQueries, functionQueries]
  by_cases hq : q = q'
  · by_cases hv : ParamDecl.variadic ∈ p :: ps
    · simp [hq, hv]
    · cases hp : promotedQueries cfg tags (p :: ps) <;> simp [hq, hv, or_imp, forall_and, and_comm]
  · simp [hq]

/-- Compatibility the other way round. -/
theorem compat_comm {T T' : CType} :
    AreCompatible cfg tags T T' true ↔ AreCompatible cfg tags T' T true :=
  decides_swap ⟨[], T, T'⟩ true

variable (cfg tags) in
/-- The members of two structs are compatible under the assumption `c`. -/
def MembersCompat (c : List (TagId × TagId)) (ds ds' : List (CType × CId)) : Prop :=
  ∃ qs, structQueries c ds ds' = some qs ∧ ∀ a ∈ qs, Decides (compatQueries cfg tags) a true

theorem membersCompat_self (c : List (TagId × TagId)) (ds : List (CType × CId)) :
    MembersCompat cfg tags c ds ds := by
  have hfields : ∃ qs, fieldQueries c ds ds = some qs ∧
      ∀ a ∈ qs, Decides (compatQueries cfg tags) a true := by
    induction ds with
    | nil => exact ⟨[], rfl, by simp⟩
    | cons d ds ih =>
      obtain ⟨qs, hqs, hall⟩ := ih
      refine ⟨⟨c, d.1, d.1⟩ :: qs, by simp [fieldQueries, areCompatIds, hqs], ?_⟩
      intro a ha
      rcases List.mem_cons.mp ha with rfl | hmem
      · exact decides_self c d.1
      · exact hall a hmem
  unfold MembersCompat structQueries
  split
  · exact ⟨[], rfl, by simp⟩
  · exact hfields

theorem compat_struct_iff {s s' : TagId} :
    AreCompatible cfg tags (.t q m (.nonArray (.structType s)))
        (.t q' m' (.nonArray (.structType s'))) true ↔
      q = q' ∧ (s = s' ∨ (areTagsCompat s.name s'.name = true ∧
        MembersCompat cfg tags [(s, s')] (getFields tags m s).decls (getFields tags m' s').decls)) := by
  unfold AreCompatible MembersCompat
  rw [decides_true_iff]
  simp only [compatQueries, nonArrayQueries, taggedQueries]
  by_cases hq : q = q' <;> by_cases hs : s = s' <;>
    by_cases ht : areTagsCompat s.name s'.name = true <;> simp [hq, hs, ht]

end Compat

/-! ## The rules one at a time -/

section Rules

variable {tags : Tags} {q q' : Quals} {m m' : Mods}

theorem compositeType_self (T : CType) : compositeType tags T T = .ok T := by
  unfold compositeType
  rw [if_pos rfl]

theorem compositeType_array_iff {k k' : ArrayKind} {e e' C : CType}
    (hne : CType.t q m (.array k e) ≠ .t q' m' (.array k' e')) :
    compositeType tags (.t q m (.array k e)) (.t q' m' (.array k' e')) = .ok C ↔
      ∃ k₂ c, compositeArrayKind k k' = some k₂ ∧ compositeType tags e e' = .ok c ∧
        C = .t (compositeArrayQuals q k e q' k' e') (m.union m') (.array k₂ c) := by
  rw [compositeType, if_neg hne]
  cases hk : compositeArrayKind k k' with
  | none => simp
  | some k₂ => simp [Eval.bind_eq_ok, pure, Except.pure, @eq_comm _ C]

theorem compositeType_pointer_iff {e e' C : CType}
    (hne : CType.t q m (.nonArray (.pointerType e)) ≠ .t q' m' (.nonArray (.pointerType e'))) :
    compositeType tags (.t q m (.nonArray (.pointerType e))) (.t q' m' (.nonArray (.pointerType e'))) =
        .ok C ↔
      ∃ c, compositeType tags e e' = .ok c ∧
        C = .t (q.plus q') (m.union m') (.nonArray (.pointerType c)) := by
  rw [compositeType, if_neg hne]
  simp [Eval.bind_eq_ok, pure, Except.pure, @eq_comm _ C]

theorem compositeType_function_iff {r r' : UType} {ps ps' : List ParamDecl} {C : CType}
    (hne : CType.t q m (.nonArray (.functionType r ps)) ≠ .t q' m' (.nonArray (.functionType r' ps'))) :
    compositeType tags (.t q m (.nonArray (.functionType r ps)))
        (.t q' m' (.nonArray (.functionType r' ps'))) = .ok C ↔
      ∃ c, compositeType tags (type r) (type r') = .ok c ∧
        compositeFunctionType tags (utype c) (q.plus q') (m.union m') ps ps' [] = .ok C := by
  rw [compositeType, if_neg hne]
  simp [Eval.bind_eq_ok]

/-- Types that are neither pointers nor functions. -/
def SimpleNonArrayType.isFlat : SimpleNonArrayType → Bool
  | .pointerType _ => false
  | .functionType _ _ => false
  | _ => true

theorem compositeType_flat_iff {n n' : SimpleNonArrayType} {C : CType}
    (hne : CType.t q m (.nonArray n) ≠ .t q' m' (.nonArray n')) (hn : n.isFlat = true) :
    compositeType tags (.t q m (.nonArray n)) (.t q' m' (.nonArray n')) = .ok C ↔
      ∃ c, compositeSimple tags n n' = .ok c ∧ C = .t (q.plus q') (m.union m') (.nonArray c) := by
  rw [compositeType, if_neg hne]
  · simp [Eval.bind_eq_ok, pure, Except.pure, @eq_comm _ C]
  · rintro e e' rfl
    cases hn
  · rintro r ps r' ps' rfl
    cases hn

variable (tags) in
/-- What `compositeFunctionType` makes of two lists of the same length. -/
inductive CompositeParams : List ParamDecl → List ParamDecl → List ParamDecl → Prop
  | nil : CompositeParams [] [] []
  | ellipsis {p p' : ParamDecl} (hp : p.declared = none) (hp' : p'.declared = none) :
    CompositeParams [p] [p'] [.variadic]
  | cons {p p' : ParamDecl} {T T' c : CType} {L L' M : List ParamDecl} (hp : p.declared = some T)
    (hp' : p'.declared = some T') (hc : compositeType tags T T' = .ok c)
    (h : CompositeParams L L' M) : CompositeParams (p :: L) (p' :: L') (compositeParam p p' c :: M)

theorem CompositeParams.length_eq {L L' M : List ParamDecl} (h : CompositeParams tags L L' M) :
    M.length = L.length ∧ M.length = L'.length := by
  induction h with
  | nil => exact ⟨rfl, rfl⟩
  | ellipsis _ _ => exact ⟨rfl, rfl⟩
  | cons _ _ _ _ ih => exact ⟨congrArg Nat.succ ih.1, congrArg Nat.succ ih.2⟩

theorem compositeParams_cons_iff {p p' : ParamDecl} {T T' : CType} {L L' M : List ParamDecl}
    (hp : p.declared = some T) (hp' : p'.declared = some T') :
    CompositeParams tags (p :: L) (p' :: L') M ↔
      ∃ c N, compositeType tags T T' = .ok c ∧ CompositeParams tags L L' N ∧
        M = compositeParam p p' c :: N := by
  constructor
  · intro h
    cases h with
    | ellipsis hnone _ => rw [hp] at hnone; cases hnone
    | cons h1 h2 hc h =>
      rw [hp] at h1
      rw [hp'] at h2
      cases h1
      cases h2
      exact ⟨_, _, hc, h, rfl⟩
  · rintro ⟨c, N, hc, h, rfl⟩
    exact .cons hp hp' hc h

theorem compositeFunctionType_iff {R : UType} {L L' P : List ParamDecl} {C : CType}
    (hlen : L.length = L'.length) :
    compositeFunctionType tags R q m L L' P = .ok C ↔
      ∃ M, CompositeParams tags L L' M ∧ C = .t q m (.nonArray (.functionType R (P ++ M))) := by
  induction L generalizing L' P with
  | nil =>
    obtain rfl : L' = [] := List.length_eq_zero_iff.mp hlen.symm
    rw [compositeFunctionType]
    constructor
    · intro h
      cases h
      exact ⟨[], .nil, by rw [List.append_nil]⟩
    · rintro ⟨M, hM, rfl⟩
      cases hM
      rw [List.append_nil]
  | cons p L ih =>
    cases L' with
    | nil => cases hlen
    | cons p' L' =>
      have hlen' : L.length = L'.length := Nat.succ.inj hlen
      rw [compositeFunctionType]
      split
      · rename_i T T' hp hp'
        simp only [Eval.bind_eq_ok, ih hlen', compositeParams_cons_iff hp hp']
        constructor
        · rintro ⟨c, hc, M, hM, rfl⟩
          exact ⟨_, ⟨c, M, hc, hM, rfl⟩, by simp⟩
        · rintro ⟨_, ⟨c, M, hc, hM, rfl⟩, rfl⟩
          exact ⟨c, hc, M, hM, by simp⟩
      · rename_i hp hp'
        split
        · rename_i hnil
          obtain ⟨rfl, rfl⟩ := hnil
          constructor
          · intro h
            cases h
            exact ⟨_, .ellipsis hp hp', rfl⟩
          · rintro ⟨M, hM, rfl⟩
            cases hM with
            | ellipsis => rfl
            | cons h1 => rw [hp] at h1; cases h1
        · rename_i hnil
          constructor
          · intro h; cases h
          · rintro ⟨M, hM, rfl⟩
            cases hM with
            | ellipsis => exact absurd ⟨rfl, rfl⟩ hnil
            | cons h1 => rw [hp] at h1; cases h1
      · rename_i hsome hnone
        constructor
        · intro h; cases h
        · rintro ⟨M, hM, rfl⟩
          cases hM with
          | ellipsis h1 h2 => exact absurd h2 (hnone h1)
          | cons h1 h2 => exact absurd h2 (hsome _ _ h1)

end Rules

/-! ## Bounds and prototypes -/

section Keeps

variable {tags : Tags}

theorem declared_compositeParam {p p' : ParamDecl} {T T' : CType} (hp : p.declared = some T)
    (hp' : p'.declared = some T') (c : CType) : (compositeParam p p' c).declared = some c := by
  cases p with
  | variadic => cases hp
  | type P => cases p' <;> rfl
  | typedDeclaration P x => rfl

theorem keepsParams_cons {p p' : ParamDecl} {T T' : CType} {L L' : List ParamDecl}
    (hp : p.declared = some T) (hp' : p'.declared = some T') :
    KeepsParams (p :: L) (p' :: L') ↔ Keeps T T' ∧ KeepsParams L L' := by
  rw [KeepsParams]
  split
  · rename_i T₁ T₂ h₁ h₂
    rw [hp] at h₁
    rw [hp'] at h₂
    cases h₁
    cases h₂
    rfl
  · rename_i h₁ _
    rw [hp] at h₁
    cases h₁
  · rename_i h _
    exact absurd hp' (h T T' hp)

/-- A list of parameters knows what it knows, when each of its types does. -/
theorem keepsParams_self {L : List ParamDecl}
    (h : ∀ T, T.size ≤ ParamDecl.sizeList L → Keeps T T) : KeepsParams L L := by
  induction L with
  | nil => rw [KeepsParams]; trivial
  | cons p L ih =>
    have hrest : KeepsParams L L := ih fun T hT => h T (by rw [ParamDecl.sizeList]; omega)
    cases hp : p.declared with
    | some T =>
      refine (keepsParams_cons hp hp).mpr ⟨h T ?_, hrest⟩
      rw [declared_size hp, ParamDecl.sizeList]; omega
    | none =>
      rw [KeepsParams]
      split
      · rename_i h₁ _
        rw [hp] at h₁
        cases h₁
      · exact hrest
      · rename_i _ hnone
        exact absurd hp (hnone hp)

theorem keeps_self (T : CType) : Keeps T T := by
  induction hn : T.size using Nat.strongRecOn generalizing T with
  | _ n ih =>
    subst hn
    obtain ⟨q, m, st⟩ := T
    cases st with
    | array k e =>
      rw [Keeps]
      exact ⟨fun _ h => h, ih _ (by simp only [CType.size, SimpleType.size]; omega) e rfl⟩
    | nonArray n =>
      cases n with
      | pointerType e =>
        rw [Keeps]
        exact ih _ (by simp only [CType.size, SimpleType.size, SimpleNonArrayType.size]; omega) e rfl
      | functionType r ps =>
        rw [Keeps]
        refine ⟨ih _ ?_ (type r) rfl, fun _ => keepsParams_self fun T hT => ih _ ?_ T rfl⟩
        · simp only [CType.size, SimpleType.size, SimpleNonArrayType.size, size_type]; omega
        · simp only [CType.size, SimpleType.size, SimpleNonArrayType.size]; omega
      | _ => simp [Keeps]

theorem keeps_flat {q : Quals} {m : Mods} {n : SimpleNonArrayType} {C : CType} (hn : n.isFlat = true) :
    Keeps (.t q m (.nonArray n)) C := by
  cases n with
  | pointerType e => cases hn
  | functionType r ps => cases hn
  | _ => simp [Keeps]

/-- Qualifiers say nothing about bounds and prototypes. -/
theorem keeps_stripQualifiers {T C : CType} (h : Keeps T C) : Keeps T (stripQualifiers C) := by
  induction hn : T.size using Nat.strongRecOn generalizing T C with
  | _ n ih =>
    subst hn
    obtain ⟨q, m, st⟩ := T
    obtain ⟨q', m', st'⟩ := C
    cases st' with
    | nonArray n' =>
      rw [stripQualifiers, utype, unqualSimple, type, qualSimple]
      cases st with
      | array k e => simp [Keeps] at h
      | nonArray n => cases n <;> cases n' <;> simp_all [Keeps]
    | array k' e' =>
      rw [stripQualifiers, utype, unqualSimple, type, qualSimple]
      cases st with
      | array k e =>
        rw [Keeps] at h ⊢
        exact ⟨h.1, ih e.size (by simp only [CType.size, SimpleType.size]; omega) h.2 rfl⟩
      | nonArray n => cases n <;> simp [Keeps] at h ⊢

theorem compositeArrayKind_fixed {k k' k₂ : ArrayKind} (h : compositeArrayKind k k' = some k₂) (n : Int) :
    (k = .fixed n → k₂ = .fixed n) ∧ (k' = .fixed n → k₂ = .fixed n) := by
  unfold compositeArrayKind at h
  split at h
  · split at h
    · rename_i heq
      cases h
      exact ⟨id, fun h => by rw [heq, h]⟩
    · cases h
  all_goals cases h
  all_goals simp

end Keeps

/-! ## Composites of compatible types -/

section Meets

variable {cfg : Settings} {tags : Tags}

/-- A type as it is compared where qualifiers count, and where they do not. -/
def view (exact : Bool) (T : CType) : CType := if exact then T else stripQualifiers T

def viewQuals (exact : Bool) (q : Quals) : Quals := if exact then q else noQuals

@[simp] theorem view_array (b : Bool) (q : Quals) (m : Mods) (k : ArrayKind) (e : CType) :
    view b (.t q m (.array k e)) = .t (viewQuals b q) m (.array k (view b e)) := by
  cases b <;> simp [view, viewQuals, stripQualifiers, utype, type, unqualSimple, qualSimple]

@[simp] theorem view_nonArray (b : Bool) (q : Quals) (m : Mods) (n : SimpleNonArrayType) :
    view b (.t q m (.nonArray n)) = .t (viewQuals b q) m (.nonArray n) := by
  cases b <;> simp [view, viewQuals, stripQualifiers, utype, type, unqualSimple, qualSimple]

@[simp] theorem view_false (T : CType) : view false T = stripQualifiers T := rfl

theorem viewQuals_plus {b : Bool} {q q' : Quals} (h : viewQuals b q = viewQuals b q') :
    viewQuals b (q.plus q') = viewQuals b q := by
  cases b with
  | false => rfl
  | true =>
    have hq : q = q' := h
    subst hq
    rw [Quals.plus_self]

@[simp] theorem stripQualifiers_type (r : UType) : stripQualifiers (type r) = type r := by
  rw [stripQualifiers, utype_type]

/-- The slot an array sits in gets the qualifiers it had exactly when those of the elements agree,
    or when qualifiers do not count. -/
theorem viewQuals_compositeArrayQuals {b : Bool} {q q' : Quals} {k k' : ArrayKind} {e e' : CType}
    (h : viewQuals b q = viewQuals b q') :
    viewQuals b (compositeArrayQuals q k e q' k' e') = viewQuals b q ↔
      (!b || elementQualsAgree q k e k' e') = true := by
  cases b with
  | false => simp [viewQuals]
  | true =>
    have hq : q = q' := h
    subst hq
    cases k <;> cases k' <;>
      simp [viewQuals, compositeArrayQuals, elementQualsAgree, ArrayKind.isVariable, Quals.plus_comm]

theorem haveCompositeKind_iff {k k' : ArrayKind} :
    haveCompositeKind k k' = true ↔ ∃ k₂, compositeArrayKind k k' = some k₂ := by
  cases k <;> cases k' <;> simp [haveCompositeKind, compositeArrayKind, ArrayKind.isVariable]

theorem areArrayKindsCompat_composite {k k' k₂ : ArrayKind} (h : compositeArrayKind k k' = some k₂) :
    areArrayKindsCompat k₂ k = true ∧ areArrayKindsCompat k₂ k' = true := by
  unfold compositeArrayKind at h
  split at h
  · split at h
    · rename_i heq
      cases h
      exact ⟨areArrayKindsCompat_self _, by rw [heq]; exact areArrayKindsCompat_self _⟩
    · cases h
  all_goals cases h
  all_goals exact ⟨by simp [areArrayKindsCompat], by simp [areArrayKindsCompat]⟩

/-- Compatible types have the same shape. -/
theorem compat_nonArray_cases {q q' : Quals} {m m' : Mods} {n n' : SimpleNonArrayType}
    (h : AreCompatible cfg tags (.t q m (.nonArray n)) (.t q' m' (.nonArray n')) true) :
    q = q' ∧ ((∃ e e', n = .pointerType e ∧ n' = .pointerType e') ∨
      (∃ r ps r' ps', n = .functionType r ps ∧ n' = .functionType r' ps') ∨
      (n.isFlat = true ∧ n'.isFlat = true)) := by
  obtain ⟨qs, hqs, -⟩ := decides_true_iff.mp h
  simp only [compatQueries] at hqs
  split at hqs
  · rename_i hq
    refine ⟨hq, ?_⟩
    unfold nonArrayQueries at hqs
    split at hqs
    · exact .inr (.inr ⟨rfl, rfl⟩)
    · exact .inr (.inr ⟨rfl, rfl⟩)
    · exact .inr (.inr ⟨rfl, rfl⟩)
    · exact .inr (.inr ⟨rfl, rfl⟩)
    · exact .inr (.inr ⟨rfl, rfl⟩)
    · exact .inr (.inr ⟨rfl, rfl⟩)
    · exact .inl ⟨_, _, rfl, rfl⟩
    · exact .inr (.inl ⟨_, _, _, _, rfl, rfl⟩)
    · cases hqs
  · cases hqs

theorem not_compat_array_nonArray {q q' : Quals} {m m' : Mods} {k : ArrayKind} {e : CType}
    {n : SimpleNonArrayType} :
    ¬AreCompatible cfg tags (.t q m (.array k e)) (.t q' m' (.nonArray n)) true := by
  intro h
  obtain ⟨qs, hqs, -⟩ := decides_true_iff.mp h
  simp [compatQueries] at hqs

theorem compat_enum_integer_iff {q q' : Quals} {m m' : Mods} {s : TagId} {i : IntType} :
    AreCompatible cfg tags (.t q m (.nonArray (.enumType s)))
        (.t q' m' (.nonArray (.basic (.integer i)))) true ↔ q = q' ∧ isEnumAlias tags s i = true := by
  unfold AreCompatible
  rw [decides_true_iff]
  simp only [compatQueries, nonArrayQueries, onlyIf]
  by_cases hq : q = q' <;> by_cases ha : isEnumAlias tags s i = true <;> simp [hq, ha]

/-- The modifiers do not count when the types are the same and flat. -/
theorem compat_flat {n : SimpleNonArrayType} (hn : n.isFlat = true) (q : Quals) (m m' : Mods) :
    AreCompatible cfg tags (.t q m (.nonArray n)) (.t q m' (.nonArray n)) true := by
  refine decides_true_iff.mpr ⟨[], ?_, by simp⟩
  cases n with
  | basic b => simp [compatQueries, nonArrayQueries, onlyIf, areBasicCompat_self]
  | enumType s => simp [compatQueries, nonArrayQueries, onlyIf, areTagsCompat_self]
  | structType s => simp [compatQueries, nonArrayQueries, taggedQueries]
  | unionType s => simp [compatQueries, nonArrayQueries, taggedQueries]
  | pointerType e => cases hn
  | functionType r ps => cases hn

/-- A struct with the members that the modifiers of two compatible structs give it is compatible
    with the second. -/
theorem membersCompat_union {c : List (TagId × TagId)} {m m' : Mods} {s s' : TagId}
    (h : MembersCompat cfg tags c (getFields tags m s).decls (getFields tags m' s').decls) :
    MembersCompat cfg tags c (getFields tags (m.union m') s).decls (getFields tags m' s').decls := by
  obtain ⟨f, fs⟩ := m
  obtain ⟨f', fs'⟩ := m'
  cases fs with
  | some F => exact h
  | none =>
    cases fs' with
    | some F' => exact membersCompat_self c F'.decls
    | none => exact h

/-- The same, when the second struct gives the tag. -/
theorem membersCompat_union_right {c : List (TagId × TagId)} {m m' : Mods} {s s' : TagId}
    (h : MembersCompat cfg tags c (getFields tags m s).decls (getFields tags m' s').decls) :
    MembersCompat cfg tags c (getFields tags m s).decls (getFields tags (m.union m') s').decls := by
  obtain ⟨f, fs⟩ := m
  obtain ⟨f', fs'⟩ := m'
  cases fs with
  | some F => exact membersCompat_self c F.decls
  | none => exact h

theorem isSimpleComposable_of_composite {n n' c : SimpleNonArrayType}
    (h : compositeSimple tags n n' = .ok c) : isSimpleComposable tags n n' = true := by
  unfold compositeSimple at h
  unfold isSimpleComposable
  by_cases heq : n = n'
  · simp [heq]
  · rw [if_neg heq] at h
    split at h
    · simp
    · simp
    · rename_i s s'
      by_cases hs' : (getTagInfo tags s' matches .incomplete) = true
      · simp [hs']
      · by_cases hs : (getTagInfo tags s matches .incomplete) = true
        · simp [hs]
        · rw [if_neg hs', if_neg hs] at h
          cases h
    · cases h

/-- **Flat types**: the rules for them give a type compatible with both. -/
theorem exists_compositeSimple {q : Quals} {m m' : Mods} {n n' : SimpleNonArrayType}
    (hn : n.isFlat = true)
    (h : AreCompatible cfg tags (.t q m (.nonArray n)) (.t q m' (.nonArray n')) true)
    (hcov : isSimpleComposable tags n n' = true) :
    ∃ c, compositeSimple tags n n' = .ok c ∧ c.isFlat = true ∧
      AreCompatible cfg tags (.t q (m.union m') (.nonArray c)) (.t q m (.nonArray n)) true ∧
      AreCompatible cfg tags (.t q (m.union m') (.nonArray c)) (.t q m' (.nonArray n')) true := by
  unfold isSimpleComposable at hcov
  unfold compositeSimple
  by_cases heq : n = n'
  · subst heq
    exact ⟨n, if_pos rfl, hn, compat_flat hn q _ _, compat_flat hn q _ _⟩
  · simp only [heq, decide_false, Bool.false_or] at hcov
    rw [if_neg heq]
    split at hcov
    · -- an enumeration and its alias
      rename_i s i
      have ha := (compat_enum_integer_iff.mp h).2
      refine ⟨.basic (.integer i), by rw [if_pos ha], rfl, ?_, compat_flat rfl q _ _⟩
      exact compat_comm.mp (compat_enum_integer_iff.mpr ⟨rfl, ha⟩)
    · rename_i i s
      have ha := (compat_enum_integer_iff.mp (compat_comm.mp h)).2
      refine ⟨.basic (.integer i), by rw [if_pos ha], rfl, compat_flat rfl q _ _, ?_⟩
      exact compat_comm.mp (compat_enum_integer_iff.mpr ⟨rfl, ha⟩)
    · -- two structs: the composite has the tag of the complete one
      rename_i s s'
      have hs : s ≠ s' := fun hs => heq (by rw [hs])
      obtain ⟨htag, hmem⟩ := (compat_struct_iff.mp h).2.resolve_left hs
      by_cases hs' : (getTagInfo tags s' matches .incomplete) = true
      · refine ⟨.structType s, by rw [if_pos hs'], rfl, compat_flat rfl q _ _, ?_⟩
        exact compat_struct_iff.mpr ⟨rfl, .inr ⟨htag, membersCompat_union hmem⟩⟩
      · have hinc : (getTagInfo tags s matches .incomplete) = true := by simpa [hs'] using hcov
        refine ⟨.structType s', by rw [if_neg hs', if_pos hinc], rfl, ?_, compat_flat rfl q _ _⟩
        exact compat_comm.mp (compat_struct_iff.mpr ⟨rfl, .inr ⟨htag, membersCompat_union_right hmem⟩⟩)
    · cases hcov

theorem areComposable_cons {p p' : ParamDecl} {T T' : CType} {L L' : List ParamDecl}
    (hp : p.declared = some T) (hp' : p'.declared = some T') :
    areComposable tags (p :: L) (p' :: L') = (isComposable tags false T T' && areComposable tags L L') := by
  rw [areComposable]
  split
  · rename_i T₁ T₂ h₁ h₂
    rw [hp] at h₁
    rw [hp'] at h₂
    cases h₁
    cases h₂
    rfl
  · rename_i h₁ _
    rw [hp] at h₁
    cases h₁
  · rename_i h _
    exact absurd hp' (h T T' hp)

theorem areComposable_ellipsis {p p' : ParamDecl} {L L' : List ParamDecl} (hp : p.declared = none)
    (hp' : p'.declared = none) :
    areComposable tags (p :: L) (p' :: L') = (L.isEmpty && L'.isEmpty) := by
  rw [areComposable]
  split
  · rename_i h₁ _
    rw [hp] at h₁
    cases h₁
  · rfl
  · rename_i _ h
    exact absurd hp' (h hp)

/-- What makes `C` a composite of `T` and `T'`, as the rules promise it. -/
structure IsComposite (cfg : Settings) (tags : Tags) (exact : Bool) (T T' C : CType) : Prop where
  compat_left : AreCompatible cfg tags (view exact C) (view exact T) true
  compat_right : AreCompatible cfg tags (view exact C) (view exact T') true
  keeps_left : Keeps T C
  keeps_right : Keeps T' C

theorem isComposite_self (b : Bool) (T : CType) : IsComposite cfg tags b T T T :=
  ⟨decides_self [] _, decides_self [] _, keeps_self T, keeps_self T⟩

variable (cfg tags) in
/-- Whatever is smaller than `n` and covered has a composite. -/
def CompositeIH (n : Nat) : Prop :=
  ∀ (b : Bool) (T T' : CType), T.size < n →
    AreCompatible cfg tags (view b T) (view b T') true → isComposable tags b T T' = true →
    ∃ C, compositeType tags T T' = .ok C ∧ IsComposite cfg tags b T T' C

/-- Parameters: what is covered pair by pair is combined pair by pair. -/
theorem exists_compositeParams {n : Nat} (ih : CompositeIH cfg tags n) {L L' : List ParamDecl}
    (hsize : ParamDecl.sizeList L < n) (h : List.Forall₂ (ParamCompat cfg tags) L L')
    (hcov : areComposable tags L L' = true) :
    ∃ M, CompositeParams tags L L' M ∧ List.Forall₂ (ParamCompat cfg tags) M L ∧
      List.Forall₂ (ParamCompat cfg tags) M L' ∧ KeepsParams L M ∧ KeepsParams L' M := by
  induction h with
  | nil => exact ⟨[], .nil, .nil, .nil, by simp [KeepsParams], by simp [KeepsParams]⟩
  | @cons p p' L L' hpp hL ihL =>
    rw [ParamDecl.sizeList] at hsize
    rcases hpp with ⟨hp, hp'⟩ | ⟨T, T', hp, hp', hTT⟩
    · -- the ellipsis, which has to be the last
      rw [areComposable_ellipsis hp hp'] at hcov
      simp only [Bool.and_eq_true, List.isEmpty_iff] at hcov
      obtain ⟨rfl, rfl⟩ := hcov
      have hv : ∀ {x : ParamDecl}, x.declared = none → x = .variadic := by
        rintro (T | ⟨T, x⟩ | _) hx
        · cases hx
        · cases hx
        · rfl
      obtain rfl := hv hp
      obtain rfl := hv hp'
      refine ⟨[.variadic], .ellipsis rfl rfl, ?_, ?_, ?_, ?_⟩
      · exact .cons (.inl ⟨rfl, rfl⟩) .nil
      · exact .cons (.inl ⟨rfl, rfl⟩) .nil
      · simp [KeepsParams, ParamDecl.declared]
      · simp [KeepsParams, ParamDecl.declared]
    · rw [areComposable_cons hp hp', Bool.and_eq_true] at hcov
      obtain ⟨M, hM, h1, h2, k1, k2⟩ := ihL (by omega) hcov.2
      have hTsize : T.size < n := by rw [declared_size hp]; omega
      obtain ⟨c, hc, hcomp⟩ := ih false T T' hTsize hTT hcov.1
      have hdecl := declared_compositeParam hp hp' c
      refine ⟨compositeParam p p' c :: M, .cons hp hp' hc hM, ?_, ?_, ?_, ?_⟩
      · exact .cons (.inr ⟨c, T, hdecl, hp, hcomp.compat_left⟩) h1
      · exact .cons (.inr ⟨c, T', hdecl, hp', hcomp.compat_right⟩) h2
      · exact (keepsParams_cons hp hdecl).mpr ⟨hcomp.keeps_left, k1⟩
      · exact (keepsParams_cons hp' hdecl).mpr ⟨hcomp.keeps_right, k2⟩

theorem forall₂_paramCompat_self (L : List ParamDecl) : List.Forall₂ (ParamCompat cfg tags) L L := by
  refine List.forall₂_same.mpr fun p _ => ?_
  cases hp : p.declared with
  | none => exact .inl ⟨hp, hp⟩
  | some T => exact .inr ⟨T, T, hp, hp, decides_self [] _⟩

/-- The three ways two function types can be compatible. -/
theorem compat_function_cases {q q' : Quals} {m m' : Mods} {r r' : UType} {ps ps' : List ParamDecl}
    (h : AreCompatible cfg tags (.t q m (.nonArray (.functionType r ps)))
      (.t q' m' (.nonArray (.functionType r' ps'))) true) :
    q = q' ∧ AreCompatible cfg tags (type r) (type r') true ∧
      ((ps.length = ps'.length ∧ List.Forall₂ (ParamCompat cfg tags) ps ps') ∨
        (ps = [] ∧ ps' ≠ [] ∧ PromotedCompat cfg tags ps') ∨
        (ps' = [] ∧ ps ≠ [] ∧ PromotedCompat cfg tags ps)) := by
  by_cases hlen : ps.length = ps'.length
  · obtain ⟨hq, hr, hps⟩ := (compat_function_iff hlen).mp h
    exact ⟨hq, hr, .inl ⟨hlen, hps⟩⟩
  · cases ps with
    | nil =>
      cases ps' with
      | nil => exact absurd rfl hlen
      | cons p' L' =>
        obtain ⟨hq, hr, hps⟩ := compat_noPrototype_iff.mp h
        exact ⟨hq, hr, .inr (.inl ⟨rfl, List.cons_ne_nil _ _, hps⟩)⟩
    | cons p L =>
      cases ps' with
      | nil =>
        obtain ⟨hq, hr, hps⟩ := compat_noPrototype_iff.mp (compat_comm.mp h)
        exact ⟨hq.symm, compat_comm.mp hr, .inr (.inr ⟨rfl, List.cons_ne_nil _ _, hps⟩)⟩
      | cons p' L' =>
        obtain ⟨qs, hqs, -⟩ := decides_true_iff.mp h
        simp [compatQueries, nonArrayQueries, functionQueries] at hqs
        exact absurd (congrArg Nat.succ hqs.2.1) hlen

/-- A list of parameters and no list at all: the list is taken. -/
theorem compositeFunctionType_noPrototype {R : UType} {q : Quals} {m : Mods} {ps ps' : List ParamDecl}
    (h : ps = [] ∧ ps' ≠ [] ∨ ps' = [] ∧ ps ≠ []) :
    compositeFunctionType tags R q m ps ps' [] = .ok (.t q m (.nonArray (.functionType R (ps ++ ps')))) := by
  rcases h with ⟨rfl, hne⟩ | ⟨rfl, hne⟩
  · cases ps' with
    | nil => exact absurd rfl hne
    | cons p' L' => rw [compositeFunctionType, List.nil_append]
  · cases ps with
    | nil => exact absurd rfl hne
    | cons p L => rw [compositeFunctionType, List.append_nil]

/-- **Function types**: the result and the parameters are combined without regard to qualifiers. -/
theorem exists_compositeFunction {n : Nat} (ih : CompositeIH cfg tags n) {b : Bool} {q q' : Quals}
    {m m' : Mods} {r r' : UType} {ps ps' : List ParamDecl} (hsize : r.size + ParamDecl.sizeList ps < n)
    (hne : CType.t q m (.nonArray (.functionType r ps)) ≠ .t q' m' (.nonArray (.functionType r' ps')))
    (h : AreCompatible cfg tags (view b (.t q m (.nonArray (.functionType r ps))))
      (view b (.t q' m' (.nonArray (.functionType r' ps')))) true)
    (hret : isComposable tags false (type r) (type r') = true)
    (hps : ps = [] ∨ ps' = [] ∨ areComposable tags ps ps' = true) :
    ∃ C, compositeType tags (.t q m (.nonArray (.functionType r ps)))
        (.t q' m' (.nonArray (.functionType r' ps'))) = .ok C ∧
      IsComposite cfg tags b (.t q m (.nonArray (.functionType r ps)))
        (.t q' m' (.nonArray (.functionType r' ps'))) C := by
  rw [view_nonArray, view_nonArray] at h
  obtain ⟨hq, hr, hcases⟩ := compat_function_cases h
  obtain ⟨c, hc, hcomp⟩ := ih false (type r) (type r') (by rw [size_type]; omega)
    (by rw [view_false, view_false, stripQualifiers_type, stripQualifiers_type]; exact hr) hret
  have hplus := viewQuals_plus hq
  -- the result of the composite is compared as the results of the two types are
  have hleft : AreCompatible cfg tags (type (utype c)) (type r) true := by
    have := hcomp.compat_left
    rwa [view_false, view_false, stripQualifiers_type] at this
  have hright : AreCompatible cfg tags (type (utype c)) (type r') true := by
    have := hcomp.compat_right
    rwa [view_false, view_false, stripQualifiers_type] at this
  have hkl : Keeps (type r) (type (utype c)) := keeps_stripQualifiers hcomp.keeps_left
  have hkr : Keeps (type r') (type (utype c)) := keeps_stripQualifiers hcomp.keeps_right
  rcases hcases with ⟨hlen, hpc⟩ | ⟨hnil, hne', hprom⟩ | ⟨hnil, hne', hprom⟩
  · -- two lists of the same length
    have hcov : areComposable tags ps ps' = true := by
      rcases hps with rfl | rfl | hps
      · obtain rfl : ps' = [] := List.length_eq_zero_iff.mp hlen.symm
        rw [areComposable]
      · obtain rfl : ps = [] := List.length_eq_zero_iff.mp hlen
        rw [areComposable]
      · exact hps
    obtain ⟨M, hM, h1, h2, k1, k2⟩ := exists_compositeParams ih (by omega) hpc hcov
    refine ⟨_, (compositeType_function_iff hne).mpr
      ⟨c, hc, (compositeFunctionType_iff hlen).mpr ⟨M, hM, rfl⟩⟩, ?_, ?_, ?_, ?_⟩
    · rw [view_nonArray, view_nonArray, hplus, List.nil_append]
      exact (compat_function_iff h1.length_eq).mpr ⟨rfl, hleft, h1⟩
    · rw [view_nonArray, view_nonArray, hplus, List.nil_append]
      exact (compat_function_iff h2.length_eq).mpr ⟨hq, hright, h2⟩
    · rw [Keeps, List.nil_append]
      exact ⟨hkl, fun _ => k1⟩
    · rw [Keeps, List.nil_append]
      exact ⟨hkr, fun _ => k2⟩
  · -- the second type has the prototype
    subst hnil
    refine ⟨_, (compositeType_function_iff hne).mpr
      ⟨c, hc, compositeFunctionType_noPrototype (.inl ⟨rfl, hne'⟩)⟩, ?_, ?_, ?_, ?_⟩
    · rw [view_nonArray, view_nonArray, hplus, List.nil_append]
      obtain ⟨p', L', rfl⟩ := List.exists_cons_of_ne_nil hne'
      exact compat_comm.mp (compat_noPrototype_iff.mpr ⟨rfl, compat_comm.mp hleft, hprom⟩)
    · rw [view_nonArray, view_nonArray, hplus, List.nil_append]
      exact (compat_function_iff rfl).mpr ⟨hq, hright, forall₂_paramCompat_self ps'⟩
    · rw [Keeps]
      exact ⟨hkl, fun h => absurd rfl h⟩
    · rw [Keeps, List.nil_append]
      exact ⟨hkr, fun _ => keepsParams_self fun T _ => keeps_self T⟩
  · -- the first has it
    subst hnil
    refine ⟨_, (compositeType_function_iff hne).mpr
      ⟨c, hc, compositeFunctionType_noPrototype (.inr ⟨rfl, hne'⟩)⟩, ?_, ?_, ?_, ?_⟩
    · rw [view_nonArray, view_nonArray, hplus, List.append_nil]
      exact (compat_function_iff rfl).mpr ⟨rfl, hleft, forall₂_paramCompat_self ps⟩
    · rw [view_nonArray, view_nonArray, hplus, List.append_nil]
      obtain ⟨p, L, rfl⟩ := List.exists_cons_of_ne_nil hne'
      exact compat_comm.mp (compat_noPrototype_iff.mpr ⟨hq.symm, compat_comm.mp hright, hprom⟩)
    · rw [Keeps, List.append_nil]
      exact ⟨hkl, fun _ => keepsParams_self fun T _ => keeps_self T⟩
    · rw [Keeps]
      exact ⟨hkr, fun h => absurd rfl h⟩

/-- **What is covered has a composite** that is compatible with both types and keeps what either
    knows. -/
theorem exists_composite (n : Nat) : CompositeIH cfg tags n := by
  induction n using Nat.strongRecOn with
  | _ n ih =>
    intro b T T' hsize h hcov
    by_cases heq : T = T'
    · subst heq
      exact ⟨T, compositeType_self T, isComposite_self b T⟩
    · obtain ⟨q, m, st⟩ := T
      obtain ⟨q', m', st'⟩ := T'
      -- smaller types, by induction
      have hih : CompositeIH cfg tags ((CType.t q m st).size) := ih _ hsize
      cases st with
      | array k e =>
        cases st' with
        | nonArray n' =>
          rw [view_array, view_nonArray] at h
          exact absurd h not_compat_array_nonArray
        | array k' e' =>
          rw [isComposable] at hcov
          simp only [heq, decide_false, Bool.false_or, Bool.and_eq_true] at hcov
          obtain ⟨⟨hk, hqs⟩, hcov⟩ := hcov
          rw [view_array, view_array] at h
          obtain ⟨hq, -, he⟩ := compat_array_iff.mp h
          obtain ⟨k₂, hk₂⟩ := haveCompositeKind_iff.mp hk
          obtain ⟨c, hc, hcomp⟩ := hih b e e' (by simp only [CType.size, SimpleType.size]; omega) he hcov
          have hslot := (viewQuals_compositeArrayQuals hq).mpr hqs
          obtain ⟨hk1, hk2⟩ := areArrayKindsCompat_composite hk₂
          refine ⟨_, (compositeType_array_iff heq).mpr ⟨k₂, c, hk₂, hc, rfl⟩, ?_, ?_, ?_, ?_⟩
          · rw [view_array, view_array, hslot]
            exact compat_array_iff.mpr ⟨rfl, hk1, hcomp.compat_left⟩
          · rw [view_array, view_array, hslot]
            exact compat_array_iff.mpr ⟨hq, hk2, hcomp.compat_right⟩
          · rw [Keeps]
            exact ⟨fun n => (compositeArrayKind_fixed hk₂ n).1, hcomp.keeps_left⟩
          · rw [Keeps]
            exact ⟨fun n => (compositeArrayKind_fixed hk₂ n).2, hcomp.keeps_right⟩
      | nonArray x =>
        cases st' with
        | array k' e' =>
          rw [view_array, view_nonArray] at h
          exact absurd (compat_comm.mp h) not_compat_array_nonArray
        | nonArray x' =>
          have h' := h
          rw [view_nonArray, view_nonArray] at h'
          obtain ⟨hq, ⟨e, e', rfl, rfl⟩ | ⟨r, ps, r', ps', rfl, rfl⟩ | ⟨hx, hx'⟩⟩ :=
            compat_nonArray_cases h'
          · rw [isComposable] at hcov
            simp only [heq, decide_false, Bool.false_or] at hcov
            have he := (compat_pointer_iff.mp h').2
            have hplus := viewQuals_plus hq
            obtain ⟨c, hc, hcomp⟩ := hih true e e'
              (by simp only [CType.size, SimpleType.size, SimpleNonArrayType.size]; omega) he hcov
            refine ⟨_, (compositeType_pointer_iff heq).mpr ⟨c, hc, rfl⟩, ?_, ?_, ?_, ?_⟩
            · rw [view_nonArray, view_nonArray, hplus]
              exact compat_pointer_iff.mpr ⟨rfl, hcomp.compat_left⟩
            · rw [view_nonArray, view_nonArray, hplus]
              exact compat_pointer_iff.mpr ⟨hq, hcomp.compat_right⟩
            · rw [Keeps]
              exact hcomp.keeps_left
            · rw [Keeps]
              exact hcomp.keeps_right
          · rw [isComposable] at hcov
            simp only [heq, decide_false, Bool.false_or, Bool.and_eq_true, Bool.or_eq_true,
              List.isEmpty_iff, or_assoc] at hcov
            refine exists_compositeFunction hih ?_ heq h hcov.1 hcov.2
            simp only [CType.size, SimpleType.size, SimpleNonArrayType.size]; omega
          · have hcov' : isSimpleComposable tags x x' = true := by
              rw [isComposable] at hcov
              · simpa only [heq, decide_false, Bool.false_or] using hcov
              · rintro e e' rfl; cases hx
              · rintro r ps r' ps' rfl; cases hx
            rw [← hq] at h'
            obtain ⟨c, hc, hflat, h1, h2⟩ := exists_compositeSimple hx h' hcov'
            have hplus := viewQuals_plus hq
            refine ⟨_, (compositeType_flat_iff heq hx).mpr ⟨c, hc, rfl⟩, ?_, ?_, ?_, ?_⟩
            · rw [view_nonArray, view_nonArray, hplus]
              exact h1
            · rw [view_nonArray, view_nonArray, hplus, ← hq]
              exact h2
            · exact keeps_flat hx
            · exact keeps_flat hx'

/-- Parameters that are combined into compatible ones are covered. -/
theorem areComposable_of_composite {L L' M : List ParamDecl} (hM : CompositeParams tags L L' M)
    (h : List.Forall₂ (ParamCompat cfg tags) L L') (h1 : List.Forall₂ (ParamCompat cfg tags) M L)
    (h2 : List.Forall₂ (ParamCompat cfg tags) M L')
    (ih : ∀ T T' C, T.size ≤ ParamDecl.sizeList L → compositeType tags T T' = .ok C →
      AreCompatible cfg tags (view false T) (view false T') true →
      AreCompatible cfg tags (view false C) (view false T) true →
      AreCompatible cfg tags (view false C) (view false T') true → isComposable tags false T T' = true) :
    areComposable tags L L' = true := by
  induction hM with
  | nil => rw [areComposable]
  | ellipsis hp hp' => rw [areComposable_ellipsis hp hp']; rfl
  | @cons p p' T T' c L L' M hp hp' hc _ ihM =>
    have hdecl := declared_compositeParam hp hp' c
    -- what the lists say about the first pair
    have hhead : ∀ {x y : ParamDecl} {X Y : CType}, x.declared = some X → y.declared = some Y →
        ParamCompat cfg tags x y → AreCompatible cfg tags (view false X) (view false Y) true := by
      rintro x y X Y hx hy (⟨hnone, -⟩ | ⟨X', Y', hx', hy', hcomp⟩)
      · rw [hx] at hnone; cases hnone
      · rw [hx] at hx'
        rw [hy] at hy'
        cases hx'
        cases hy'
        exact hcomp
    obtain ⟨hpp, hL⟩ := List.forall₂_cons.mp h
    obtain ⟨hcp, hM1⟩ := List.forall₂_cons.mp h1
    obtain ⟨hcp', hM2⟩ := List.forall₂_cons.mp h2
    rw [areComposable_cons hp hp', Bool.and_eq_true]
    constructor
    · refine ih T T' c ?_ hc (hhead hp hp' hpp) (hhead hdecl hp hcp) (hhead hdecl hp' hcp')
      rw [declared_size hp, ParamDecl.sizeList]; omega
    · refine ihM hL hM1 hM2 fun X X' C hX => ih X X' C ?_
      rw [ParamDecl.sizeList]; omega

/-- **What has a composite that is compatible with both types is covered.** -/
theorem isComposable_of_composite (b : Bool) (T T' C : CType) (hC : compositeType tags T T' = .ok C)
    (h : AreCompatible cfg tags (view b T) (view b T') true)
    (h1 : AreCompatible cfg tags (view b C) (view b T) true)
    (h2 : AreCompatible cfg tags (view b C) (view b T') true) : isComposable tags b T T' = true := by
  induction hn : T.size using Nat.strongRecOn generalizing b T T' C with
  | _ n ih =>
    subst hn
    by_cases heq : T = T'
    · unfold isComposable
      simp [heq]
    · obtain ⟨q, m, st⟩ := T
      obtain ⟨q', m', st'⟩ := T'
      cases st with
      | array k e =>
        cases st' with
        | nonArray n' =>
          rw [view_array, view_nonArray] at h
          exact absurd h not_compat_array_nonArray
        | array k' e' =>
          obtain ⟨k₂, c, hk₂, hc, rfl⟩ := (compositeType_array_iff heq).mp hC
          rw [view_array, view_array] at h h1 h2
          obtain ⟨hq, -, he⟩ := compat_array_iff.mp h
          obtain ⟨hslot, -, he1⟩ := compat_array_iff.mp h1
          obtain ⟨-, -, he2⟩ := compat_array_iff.mp h2
          rw [isComposable]
          simp only [heq, decide_false, Bool.false_or, Bool.and_eq_true]
          refine ⟨⟨haveCompositeKind_iff.mpr ⟨k₂, hk₂⟩, (viewQuals_compositeArrayQuals hq).mp hslot⟩, ?_⟩
          exact ih e.size (by simp only [CType.size, SimpleType.size]; omega) b e e' c hc he he1 he2 rfl
      | nonArray x =>
        cases st' with
        | array k' e' =>
          rw [view_array, view_nonArray] at h
          exact absurd (compat_comm.mp h) not_compat_array_nonArray
        | nonArray x' =>
          rw [view_nonArray, view_nonArray] at h
          obtain ⟨hq, ⟨e, e', rfl, rfl⟩ | ⟨r, ps, r', ps', rfl, rfl⟩ | ⟨hx, hx'⟩⟩ :=
            compat_nonArray_cases h
          · obtain ⟨c, hc, rfl⟩ := (compositeType_pointer_iff heq).mp hC
            rw [view_nonArray, view_nonArray] at h1 h2
            rw [isComposable]
            simp only [heq, decide_false, Bool.false_or]
            refine ih e.size ?_ true e e' c hc (compat_pointer_iff.mp h).2 (compat_pointer_iff.mp h1).2
              (compat_pointer_iff.mp h2).2 rfl
            simp only [CType.size, SimpleType.size, SimpleNonArrayType.size]; omega
          · obtain ⟨c, hc, hfun⟩ := (compositeType_function_iff heq).mp hC
            obtain ⟨-, hr, hcases⟩ := compat_function_cases h
            -- the composite is a function type with the combined result
            obtain ⟨M, rfl⟩ : ∃ M, C = .t (q.plus q') (m.union m') (.nonArray (.functionType (utype c) M)) := by
              rcases hcases with ⟨hlen, -⟩ | ⟨hnil, hne', -⟩ | ⟨hnil, hne', -⟩
              · obtain ⟨M, -, rfl⟩ := (compositeFunctionType_iff hlen).mp hfun
                exact ⟨_, rfl⟩
              · rw [compositeFunctionType_noPrototype (.inl ⟨hnil, hne'⟩)] at hfun
                cases hfun
                exact ⟨_, rfl⟩
              · rw [compositeFunctionType_noPrototype (.inr ⟨hnil, hne'⟩)] at hfun
                cases hfun
                exact ⟨_, rfl⟩
            rw [view_nonArray, view_nonArray] at h1 h2
            obtain ⟨-, hr1, -⟩ := compat_function_cases h1
            obtain ⟨-, hr2, -⟩ := compat_function_cases h2
            rw [isComposable]
            simp only [heq, decide_false, Bool.false_or, Bool.and_eq_true, Bool.or_eq_true,
              List.isEmpty_iff]
            constructor
            · refine ih (type r).size ?_ false (type r) (type r') c hc ?_ ?_ ?_ rfl
              · simp only [CType.size, SimpleType.size, SimpleNonArrayType.size, size_type]; omega
              · rw [view_false, view_false, stripQualifiers_type, stripQualifiers_type]; exact hr
              · rw [view_false, view_false, stripQualifiers_type]; exact hr1
              · rw [view_false, view_false, stripQualifiers_type]; exact hr2
            · rcases hcases with ⟨hlen, hpc⟩ | ⟨rfl, -, -⟩ | ⟨rfl, -, -⟩
              · obtain ⟨N, hN, hMN⟩ := (compositeFunctionType_iff hlen).mp hfun
                cases hMN
                rw [List.nil_append] at h1 h2
                obtain ⟨hl1, hl2⟩ := hN.length_eq
                have hp1 := ((compat_function_iff hl1).mp h1).2.2
                have hp2 := ((compat_function_iff hl2).mp h2).2.2
                refine .inr (areComposable_of_composite hN hpc hp1 hp2 ?_)
                intro X X' D hX hD hXX hDX hDX'
                refine ih X.size ?_ false X X' D hD hXX hDX hDX' rfl
                simp only [CType.size, SimpleType.size, SimpleNonArrayType.size]; omega
              · exact .inl (.inl rfl)
              · exact .inl (.inr rfl)
          · obtain ⟨c, hc, -⟩ := (compositeType_flat_iff heq hx).mp hC
            rw [isComposable]
            · simp only [heq, decide_false, Bool.false_or]
              exact isSimpleComposable_of_composite hc
            · rintro e e' rfl; cases hx
            · rintro r ps r' ps' rfl; cases hx

end Meets

/-- **When compatible types have a composite.**  Of two compatible types the rules make a type that
    is compatible with both and keeps every bound and every prototype either of them has, exactly
    when the pair is one they cover. -/
theorem compositeType_meets (cfg : Settings) (tags : Tags) (T T' : CType)
    (h : AreCompatible cfg tags T T' true) :
    (∃ C, compositeType tags T T' = .ok C ∧ AreCompatible cfg tags C T true ∧
      AreCompatible cfg tags C T' true ∧ Keeps T C ∧ Keeps T' C) ↔
    isComposable tags true T T' = true := by
  constructor
  · rintro ⟨C, hC, h1, h2, -, -⟩
    exact isComposable_of_composite true T T' C hC h h1 h2
  · intro hcov
    obtain ⟨C, hC, hcomp⟩ := exists_composite (T.size + 1) true T T' (Nat.lt_succ_self _) h hcov
    exact ⟨C, hC, hcomp.compat_left, hcomp.compat_right, hcomp.keeps_left, hcomp.keeps_right⟩

/-- `int (*)[3]` and `int (*)[]` are covered: their composite is `int (*)[3]`. -/
theorem compositeType_meets_known_bound :
    let p (k : ArrayKind) : CType :=
      .t noQuals noMods (.nonArray (.pointerType (.t noQuals noMods (.array k IntType.int.toSimple.toType))))
    AreCompatible x86GccLimitedLibc [] (p (.fixed 3)) (p .incomplete) true ∧
    ∃ C, compositeType [] (p (.fixed 3)) (p .incomplete) = .ok C ∧
      AreCompatible x86GccLimitedLibc [] C (p (.fixed 3)) true ∧
      AreCompatible x86GccLimitedLibc [] C (p .incomplete) true ∧
      Keeps (p (.fixed 3)) C ∧ Keeps (p .incomplete) C := by
  intro p
  have h : AreCompatible x86GccLimitedLibc [] (p (.fixed 3)) (p .incomplete) true :=
    ⟨4, by decide +kernel⟩
  exact ⟨h, (compositeType_meets _ _ _ _ h).mpr (by decide +kernel)⟩

/-- `int` and `signed int` are compatible, and no rule combines them. -/
theorem compositeType_not_total :
    ¬∀ (cfg : Settings) (tags : Tags) (T T' : CType), AreCompatible cfg tags T T' true →
      ∃ C, compositeType tags T T' = .ok C ∧ AreCompatible cfg tags C T true ∧
        AreCompatible cfg tags C T' true ∧ Keeps T C ∧ Keeps T' C := by
  intro h
  obtain ⟨C, hC, -⟩ := h x86GccLimitedLibc [] IntType.int.toSimple.toType
    IntType.signedInt.toSimple.toType ⟨1, by decide +kernel⟩
  have hstuck : compositeType [] IntType.int.toSimple.toType IntType.signedInt.toSimple.toType =
      .error .stuck := by decide +kernel
  rw [hstuck] at hC
  cases hC

end CSemantics
