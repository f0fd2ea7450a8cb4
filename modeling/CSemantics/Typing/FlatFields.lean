/-
  The members of anonymous members.

  A member of an anonymous struct or union is a member of the struct that holds it.  `getFlatFields`
  makes that so: it walks over the declarations of a struct, copies the ones with a name, and where it
  meets an anonymous member puts the flattened members of that one in its place, with their offsets
  moved by the offset of the anonymous member.

      struct T { int a; struct { int b; union { int c; char d; }; }; int e; };

      declarations    a   0   (anonymous)  32                    e  96
      flat members    a   0   b  32 + 0    c  32 + 32 + 0   d …  e  96

  What the flat members should be is said without the walk.  A member is reached by a **path**, the
  positions of the anonymous members it is in and then its own, and its offset is the sum of theirs
  (`MemberAt`).  The order of declaration is the lexicographic order of paths, so the claim about the
  walk is that it lists the members along a strictly increasing list of all the paths there are
  (`ListsMembers`): each once, in order.
-/
import CSemantics.Typing.Common
import CSemantics.Lib.AssocMap

namespace CSemantics.FlatFields

open AssocMap

/-! ## The code -/

section Code

/-- `M M'`, the concatenation of two maps, which have no key in common. -/
def concatMap {ν : Type} (m m' : List (CId × ν)) : Eval (List (CId × ν)) :=
  if ∀ k ∈ m'.map Prod.fst, k ∉ m.map Prod.fst then .ok (m ++ m') else .error .stuck

/-- `addOffset(Offset, M)` -/
def addOffset (offset : Int) (m : List (CId × Int)) : List (CId × Int) :=
  m.map fun p => (p.1, p.2 + offset)

/-- `addPaddingOffset(Offset, S)` -/
def addPaddingOffset (offset : Int) (s : List Int) : List Int := s.map (· + offset)

/-- `typedDeclaration(structOrUnionType #as T, F:NoName)` -/
def isAnonymous (d : CType × CId) : Bool := (utype d.1).isStructOrUnion && d.2.isNoName

def isStructType : CType → Bool
  | .t _ _ (.nonArray (.structType _)) => true
  | _ => false

def isFlexibleArrayType : CType → Bool
  | .t _ _ (.array .flexible _) => true
  | _ => false

/-- What the record of the walk becomes at a declaration that is not an anonymous member. -/
def copyField (d : CType × CId) (T' : CType) (offset : Int) : FieldInfo → Eval FieldInfo
  | .fieldInfo decls size types offsets padding maxAlign => do
    let types' ← concatMap types [(d.2, T')]
    let offsets' ← concatMap offsets [(d.2, offset)]
    return .fieldInfo (decls ++ [d]) size types' offsets' padding maxAlign

/-- What it becomes after an anonymous member, whose own flattened members are given. -/
def mergeFields (offset : Int) : FieldInfo → FieldInfo → Eval FieldInfo
  | .fieldInfo fields _ subTypes subOffsets subPadding maxAlign1,
    .fieldInfo decls size types offsets padding maxAlign2 => do
    let types' ← concatMap types subTypes
    let offsets' ← concatMap offsets (addOffset offset subOffsets)
    return .fieldInfo (decls ++ fields) size types' offsets'
      (padding ++ addPaddingOffset offset subPadding) (max maxAlign1 maxAlign2)

/-- `flattenFieldInfo(.K, .K, fieldInfo(decls, …), result)`, where `fields` is the record of the type
    that is flattened and `flat` is `getFlatFields` of the anonymous members. -/
def flattenFieldInfo (flat : CType → Eval FieldInfo) (fields : FieldInfo) :
    List (CType × CId) → FieldInfo → Eval FieldInfo
  | [], .fieldInfo decls _ types offsets padding maxAlign =>
    .ok (.fieldInfo decls fields.size types offsets (fields.padding ++ padding)
      (max fields.maxAlign maxAlign))
  | d :: decls, result =>
    if isAnonymous d then
      match fields.offsets.lookup d.2 with
      | some offset => do
        let sub ← flat d.1
        flattenFieldInfo flat fields decls (← mergeFields offset sub result)
      | none => .error .stuck
    else
      match fields.types.lookup d.2, fields.offsets.lookup d.2 with
      | some T', some offset => do
        flattenFieldInfo flat fields decls (← copyField d T' offset result)
      | _, _ => .error .stuck

variable (tags : Tags)

/-- `getFlatFields(T)`, with a bound on how deep the anonymous members are nested. -/
def getFlatFields : ℕ → CType → Eval FieldInfo
  | 0, _ => .error .stuck
  | depth + 1, T =>
    match aggregateFields tags (utype T) with
    | some fields =>
      flattenFieldInfo (getFlatFields depth) fields fields.decls (.fieldInfo [] 0 [] [] [] 0)
    | none => .error .stuck

/-- `getFieldOffset'(F, Fields)` -/
def getFieldOffset' (F : CId) (fields : FieldInfo) : Eval Int :=
  match fields.offsets.lookup F with
  | some offset => .ok offset
  | none => .error .stuck

/-- `getFieldType'(F, Fields)` -/
def getFieldType' (F : CId) (fields : FieldInfo) : CType :=
  (fields.types.lookup F).getD (.t noQuals noMods (.nonArray (.basic .noType)))

def findFieldOffset (depth : ℕ) (F : CId) (T : CType) : Eval Int := do
  getFieldOffset' F (← getFlatFields tags depth T)

def findFieldType (depth : ℕ) (F : CId) (T : CType) : Eval CType :=
  if (utype T).isStructOrUnion then do return getFieldType' F (← getFlatFields tags depth T)
  else .ok (.t noQuals noMods (.nonArray (.basic .noType)))

/-- `getFieldAtOffset'(Offset, Fields)`, on the declarations from the last to the first: a declaration
    that starts after the offset goes, with its offset. -/
def getFieldAtOffset' (offset : Int) : List (CType × CId) → List (CId × Int) → Eval CId
  | [], _ => .error .stuck
  | (_, F) :: decls, offsets =>
    match offsets.lookup F with
    | some fOffset =>
      if fOffset > offset then getFieldAtOffset' offset decls (remove offsets F) else .ok F
    | none => .ok F

/-- `getUnnamed(F, T)` -/
def getUnnamed (depth : ℕ) (F : CId) (T : CType) : Eval CId := do
  if isNoType (← findFieldType tags depth F T) then .error .stuck
  else
    match aggregateFields tags (utype T) with
    | some fields =>
      getFieldAtOffset' (← findFieldOffset tags depth F T) fields.decls.reverse fields.offsets
    | none => .error .stuck

end Code

/-! ## What the members of a type are -/

/-- A member that is not an anonymous struct or union, as the type that is flattened has it. -/
structure FlatMember where
  /-- The positions of the anonymous members it is in, and then its own. -/
  path : List ℕ
  type : CType
  name : CId
  offset : Int

/-- The member of an anonymous member at position `i` and offset `o`, as the struct around it has
    it. -/
def FlatMember.shift (i : ℕ) (o : Int) (M : FlatMember) : FlatMember :=
  ⟨i :: M.path, M.type, M.name, M.offset + o⟩

/-- **The members of a struct or a union type**: its own, and those of its anonymous members. -/
inductive MemberAt (tags : Tags) : CType → FlatMember → Prop
  | here {T : CType} {fields : FieldInfo} {i : ℕ} {d : CType × CId} {o : Int}
      (hT : aggregateFields tags (utype T) = some fields) (hi : fields.decls[i]? = some d)
      (hd : isAnonymous d = false) (ho : fields.offsets.lookup d.2 = some o) :
      MemberAt tags T ⟨[i], d.1, d.2, o⟩
  | under {T : CType} {fields : FieldInfo} {i : ℕ} {d : CType × CId} {o : Int} {M : FlatMember}
      (hT : aggregateFields tags (utype T) = some fields) (hi : fields.decls[i]? = some d)
      (hd : isAnonymous d = true) (ho : fields.offsets.lookup d.2 = some o)
      (hM : MemberAt tags d.1 M) : MemberAt tags T (M.shift i o)

/-- The members of anonymous members share the name space of the struct, and unnamed members are
    numbered: no two members have one name. -/
def DistinctMembers (tags : Tags) (T : CType) : Prop :=
  ∀ M M', MemberAt tags T M → MemberAt tags T M' → M.name = M'.name → M = M'

/-- What the translator records about the declarations of a struct or a union: the type of each, and
    an offset inside the size; those of a struct lie one after the other. -/
structure RecordLayout (cfg : Settings) (tags : Tags) (T : CType) (fields : FieldInfo) : Prop where
  names : (fields.decls.map Prod.snd).Nodup
  types : ∀ d ∈ fields.decls, fields.types.lookup d.2 = some d.1
  inside : ∀ d ∈ fields.decls, ∃ n o, bitSizeofType cfg tags (utype d.1) = .ok n ∧
    fields.offsets.lookup d.2 = some o ∧ 0 ≤ o ∧ o + n ≤ fields.size
  inOrder : isStructType T = true → fields.decls.Pairwise fun d d' => ∃ n o o',
    bitSizeofType cfg tags (utype d.1) = .ok n ∧ fields.offsets.lookup d.2 = some o ∧
      fields.offsets.lookup d'.2 = some o' ∧ o + n ≤ o'

/-- A struct or a union type as the translator declares it, with its anonymous members. -/
inductive LaidOut (cfg : Settings) (tags : Tags) : CType → Prop
  | mk {T : CType} {fields : FieldInfo} (hT : aggregateFields tags (utype T) = some fields)
      (h : RecordLayout cfg tags T fields)
      (hsub : ∀ d ∈ fields.decls, isAnonymous d = true → LaidOut cfg tags d.1) : LaidOut cfg tags T

/-- No named member is empty: arrays have a positive length, structs a named member and named
    bit-fields a width.  The one exception is a flexible array, which only the last declaration of
    the struct itself can be. -/
def Occupied (cfg : Settings) (tags : Tags) (T : CType) : Prop :=
  ∀ M, MemberAt tags T M → M.name.isNoName = false →
    (∃ n, bitSizeofType cfg tags (utype M.type) = .ok n ∧ 0 < n) ∨
      isFlexibleArrayType M.type = true ∧
        ∃ fields, aggregateFields tags (utype T) = some fields ∧ M.path = [fields.decls.length - 1]

/-- A list of all the members, in the order of declaration. -/
structure ListsMembers (tags : Tags) (T : CType) (ms : List FlatMember) : Prop where
  ordered : ms.Pairwise fun M M' => M.path < M'.path
  complete : ∀ M, M ∈ ms ↔ MemberAt tags T M

/-- The record with these members. -/
def ofMembers (ms : List FlatMember) (size : Int) (padding : List Int) (maxAlign : Int) : FieldInfo :=
  .fieldInfo (ms.map fun M => (M.type, M.name)) size (ms.map fun M => (M.name, M.type))
    (ms.map fun M => (M.name, M.offset)) padding maxAlign

/-! ## One declaration -/

section Proofs

variable {cfg : Settings} {tags : Tags} {T : CType} {fields : FieldInfo}

theorem isStructOrUnion_iff {U : UType} :
    U.isStructOrUnion = true ↔ ∃ fields, aggregateFields tags U = some fields := by
  constructor
  · intro h
    unfold UType.isStructOrUnion at h
    split at h
    · exact ⟨_, rfl⟩
    · exact ⟨_, rfl⟩
    · cases h
  · rintro ⟨fields, h⟩
    unfold aggregateFields at h
    split at h
    · rfl
    · rfl
    · cases h

/-- A member is in the declaration at the first position of its path. -/
theorem MemberAt.cases_head (hT : aggregateFields tags (utype T) = some fields) {M : FlatMember}
    (h : MemberAt tags T M) :
    ∃ i d o, fields.decls[i]? = some d ∧ fields.offsets.lookup d.2 = some o ∧
      (isAnonymous d = false ∧ M = ⟨[i], d.1, d.2, o⟩ ∨
        isAnonymous d = true ∧ ∃ M', MemberAt tags d.1 M' ∧ M = M'.shift i o) := by
  cases h with
  | here hT' hi hd ho =>
    rw [hT] at hT'
    cases hT'
    exact ⟨_, _, _, hi, ho, .inl ⟨hd, rfl⟩⟩
  | under hT' hi hd ho hM =>
    rw [hT] at hT'
    cases hT'
    exact ⟨_, _, _, hi, ho, .inr ⟨hd, _, hM, rfl⟩⟩

/-- Distinct names stay distinct in an anonymous member. -/
theorem DistinctMembers.under (h : DistinctMembers tags T)
    (hT : aggregateFields tags (utype T) = some fields) {i : ℕ} {d : CType × CId} {o : Int}
    (hi : fields.decls[i]? = some d) (hd : isAnonymous d = true)
    (ho : fields.offsets.lookup d.2 = some o) : DistinctMembers tags d.1 := by
  intro M M' hM hM' hname
  have heq := h _ _ (.under hT hi hd ho hM) (.under hT hi hd ho hM') hname
  simp only [FlatMember.shift, FlatMember.mk.injEq, List.cons.injEq, true_and,
    add_left_inj] at heq
  obtain ⟨hpath, htype, hname, hoffset⟩ := heq
  cases M
  cases M'
  simp_all

/-- A list of the members in the declaration at position `i`. -/
structure ListsAt (tags : Tags) (T : CType) (i : ℕ) (ms : List FlatMember) : Prop where
  ordered : ms.Pairwise fun M M' => M.path < M'.path
  complete : ∀ M, M ∈ ms ↔ MemberAt tags T M ∧ ∃ p, M.path = i :: p

/-- A list of the members in the declarations from position `i` on. -/
structure ListsFrom (tags : Tags) (T : CType) (i : ℕ) (ms : List FlatMember) : Prop where
  ordered : ms.Pairwise fun M M' => M.path < M'.path
  complete : ∀ M, M ∈ ms ↔ MemberAt tags T M ∧ ∃ j p, M.path = j :: p ∧ i ≤ j

/-- The members in one declaration come before those in the later ones. -/
theorem ListsAt.append {i : ℕ} {new ms : List FlatMember} (hnew : ListsAt tags T i new)
    (hms : ListsFrom tags T (i + 1) ms) : ListsFrom tags T i (new ++ ms) where
  ordered := by
    rw [List.pairwise_append]
    refine ⟨hnew.ordered, hms.ordered, fun M hM M' hM' => ?_⟩
    obtain ⟨-, p, hp⟩ := (hnew.complete M).mp hM
    obtain ⟨-, j, q, hq, hij⟩ := (hms.complete M').mp hM'
    rw [hp, hq, List.cons_lt_cons_iff]
    exact .inl (by omega)
  complete M := by
    rw [List.mem_append, hnew.complete, hms.complete]
    constructor
    · rintro (⟨hM, p, hp⟩ | ⟨hM, j, p, hp, hij⟩)
      · exact ⟨hM, i, p, hp, le_refl i⟩
      · exact ⟨hM, j, p, hp, by omega⟩
    · rintro ⟨hM, j, p, hp, hij⟩
      rcases Nat.eq_or_lt_of_le hij with rfl | hlt
      · exact .inl ⟨hM, p, hp⟩
      · exact .inr ⟨hM, j, p, hp, hlt⟩

/-- A declaration that is not an anonymous member is one member. -/
theorem listsAt_here (hT : aggregateFields tags (utype T) = some fields) {i : ℕ} {d : CType × CId}
    {o : Int} (hi : fields.decls[i]? = some d) (hd : isAnonymous d = false)
    (ho : fields.offsets.lookup d.2 = some o) : ListsAt tags T i [⟨[i], d.1, d.2, o⟩] where
  ordered := List.pairwise_singleton _ _
  complete M := by
    rw [List.mem_singleton]
    constructor
    · rintro rfl
      exact ⟨.here hT hi hd ho, [], rfl⟩
    · rintro ⟨hM, p, hp⟩
      obtain ⟨j, e, o', hj, ho', ⟨-, rfl⟩ | ⟨he, M', -, rfl⟩⟩ := hM.cases_head hT
      · cases hp
        rw [hi] at hj
        cases hj
        rw [ho] at ho'
        cases ho'
        rfl
      · simp only [FlatMember.shift, List.cons.injEq] at hp
        obtain ⟨rfl, -⟩ := hp
        rw [hi] at hj
        cases hj
        rw [hd] at he
        cases he

/-- An anonymous member is its own members, moved. -/
theorem listsAt_under (hT : aggregateFields tags (utype T) = some fields) {i : ℕ} {d : CType × CId}
    {o : Int} {ms : List FlatMember} (hi : fields.decls[i]? = some d) (hd : isAnonymous d = true)
    (ho : fields.offsets.lookup d.2 = some o) (hms : ListsMembers tags d.1 ms) :
    ListsAt tags T i (ms.map (FlatMember.shift i o)) where
  ordered := by
    rw [List.pairwise_map]
    exact hms.ordered.imp fun hlt => List.cons_lt_cons_iff.mpr (.inr ⟨rfl, hlt⟩)
  complete M := by
    rw [List.mem_map]
    constructor
    · rintro ⟨M', hM', rfl⟩
      exact ⟨.under hT hi hd ho ((hms.complete M').mp hM'), M'.path, rfl⟩
    · rintro ⟨hM, p, hp⟩
      obtain ⟨j, e, o', hj, ho', ⟨he, rfl⟩ | ⟨-, M', hM', rfl⟩⟩ := hM.cases_head hT
      · cases hp
        rw [hi] at hj
        cases hj
        rw [hd] at he
        cases he
      · simp only [FlatMember.shift, List.cons.injEq] at hp
        obtain ⟨rfl, -⟩ := hp
        rw [hi] at hj
        cases hj
        rw [ho] at ho'
        cases ho'
        exact ⟨M', (hms.complete M').mpr hM', rfl⟩

/-- Members of a later declaration have names of their own. -/
theorem ListsAt.names_new (hdist : DistinctMembers tags T) {i : ℕ} {before new : List FlatMember}
    (hbefore : ∀ M ∈ before, MemberAt tags T M ∧ ∃ j p, M.path = j :: p ∧ j < i)
    (hnew : ListsAt tags T i new) {M M' : FlatMember} (hM : M ∈ new) (hM' : M' ∈ before) :
    M'.name ≠ M.name := by
  intro hname
  obtain ⟨hM, p, hp⟩ := (hnew.complete M).mp hM
  obtain ⟨hM', j, q, hq, hlt⟩ := hbefore M' hM'
  rw [hdist M' M hM' hM hname, hp] at hq
  cases hq
  exact lt_irrefl _ hlt

/-! ## The walk -/

theorem concatMap_eq {ν : Type} {m m' : List (CId × ν)}
    (h : ∀ p' ∈ m', ∀ p ∈ m, p.1 ≠ p'.1) : concatMap m m' = .ok (m ++ m') := by
  unfold concatMap
  rw [if_pos]
  simp only [List.mem_map]
  rintro k ⟨p', hp', rfl⟩ ⟨p, hp, hk⟩
  exact h p' hp' p hp hk

theorem copyField_ofMembers (size : Int) (padding : List Int) (maxAlign : Int) {ms : List FlatMember}
    {M : FlatMember} (h : ∀ M' ∈ ms, M'.name ≠ M.name) :
    copyField (M.type, M.name) M.type M.offset (ofMembers ms size padding maxAlign) =
      .ok (ofMembers (ms ++ [M]) size padding maxAlign) := by
  have htypes : concatMap (ms.map fun M => (M.name, M.type)) [(M.name, M.type)] =
      .ok (ms.map (fun M => (M.name, M.type)) ++ [(M.name, M.type)]) := by
    apply concatMap_eq
    simpa using h
  have hoffsets : concatMap (ms.map fun M => (M.name, M.offset)) [(M.name, M.offset)] =
      .ok (ms.map (fun M => (M.name, M.offset)) ++ [(M.name, M.offset)]) := by
    apply concatMap_eq
    simpa using h
  simp [copyField, ofMembers, htypes, hoffsets, bind, Except.bind, pure, Except.pure]

theorem mergeFields_ofMembers (i : ℕ) (o size size' : Int) (padding padding' : List Int)
    (maxAlign maxAlign' : Int) {ms sub : List FlatMember}
    (h : ∀ M ∈ sub, ∀ M' ∈ ms, M'.name ≠ M.name) :
    mergeFields o (ofMembers sub size' padding' maxAlign') (ofMembers ms size padding maxAlign) =
      .ok (ofMembers (ms ++ sub.map (FlatMember.shift i o)) size
        (padding ++ addPaddingOffset o padding') (max maxAlign' maxAlign)) := by
  have htypes : concatMap (ms.map fun M => (M.name, M.type)) (sub.map fun M => (M.name, M.type)) =
      .ok (ms.map (fun M => (M.name, M.type)) ++ sub.map fun M => (M.name, M.type)) := by
    apply concatMap_eq
    simpa using h
  have hoffsets : concatMap (ms.map fun M => (M.name, M.offset))
      (addOffset o (sub.map fun M => (M.name, M.offset))) =
      .ok (ms.map (fun M => (M.name, M.offset)) ++ addOffset o (sub.map fun M => (M.name, M.offset))) := by
    apply concatMap_eq
    simpa [addOffset] using h
  simp only [mergeFields, ofMembers, htypes, hoffsets, Eval.ok_bind, pure, Except.pure]
  simp [addOffset, FlatMember.shift, Function.comp_def]

/-- **The walk**, from any position: what it adds to the record are the members in the declarations
    that are left, in order. -/
theorem flattenFieldInfo_spec {flat : CType → Eval FieldInfo}
    (hT : aggregateFields tags (utype T) = some fields) (hlayout : RecordLayout cfg tags T fields)
    (hdist : DistinctMembers tags T)
    (hflat : ∀ d ∈ fields.decls, isAnonymous d = true → ∃ sub size padding maxAlign,
      flat d.1 = .ok (ofMembers sub size padding maxAlign) ∧ ListsMembers tags d.1 sub)
    {before after : List (CType × CId)} (hdecls : fields.decls = before ++ after)
    {ms : List FlatMember} {size maxAlign : Int} {padding : List Int}
    (hms : ∀ M ∈ ms, MemberAt tags T M ∧ ∃ j p, M.path = j :: p ∧ j < before.length) :
    ∃ new padding' maxAlign', flattenFieldInfo flat fields after (ofMembers ms size padding maxAlign) =
        .ok (ofMembers (ms ++ new) fields.size padding' maxAlign') ∧
      ListsFrom tags T before.length new := by
  induction after generalizing before ms size padding maxAlign with
  | nil =>
    refine ⟨[], fields.padding ++ padding, max fields.maxAlign maxAlign, ?_, List.Pairwise.nil, ?_⟩
    · simp [flattenFieldInfo, ofMembers]
    · intro M
      simp only [List.not_mem_nil, false_iff]
      rintro ⟨hM, j, p, hp, hle⟩
      -- no declaration is at a position after the last
      obtain ⟨j', d, o, hj, -, ⟨-, rfl⟩ | ⟨-, M', -, rfl⟩⟩ := hM.cases_head hT
      all_goals
        cases hp
        rw [hdecls, List.append_nil, List.getElem?_eq_none hle] at hj
        cases hj
  | cons d after ih =>
    have hmem : d ∈ fields.decls := by simp [hdecls]
    have hi : fields.decls[before.length]? = some d := by simp [hdecls]
    have htype := hlayout.types d hmem
    obtain ⟨n, o, -, ho, -, -⟩ := hlayout.inside d hmem
    -- the members in `d`, and the record once they are in it
    obtain ⟨new, padding₁, maxAlign₁, hstep, hnew⟩ : ∃ new padding₁ maxAlign₁,
        flattenFieldInfo flat fields (d :: after) (ofMembers ms size padding maxAlign) =
          flattenFieldInfo flat fields after (ofMembers (ms ++ new) size padding₁ maxAlign₁) ∧
        ListsAt tags T before.length new := by
      cases hd : isAnonymous d with
      | false =>
        have hone := listsAt_here hT hi hd ho
        have hcopy := copyField_ofMembers size padding maxAlign
          fun M' hM' => hone.names_new hdist hms (List.mem_singleton_self _) hM'
        refine ⟨_, padding, maxAlign, ?_, hone⟩
        rw [flattenFieldInfo, hd, if_neg (by simp)]
        simp only [htype, ho, hcopy, Eval.ok_bind]
      | true =>
        obtain ⟨sub, size', padding', maxAlign', hsub, hlists⟩ := hflat d hmem hd
        have hmoved := listsAt_under hT hi hd ho hlists
        have hnames : ∀ M ∈ sub, ∀ M' ∈ ms, M'.name ≠ M.name := by
          intro M hM M' hM'
          have hshift : M.shift before.length o ∈ sub.map (FlatMember.shift before.length o) :=
            List.mem_map_of_mem hM
          have hne : M'.name ≠ (M.shift before.length o).name := hmoved.names_new hdist hms hshift hM'
          exact hne
        have hmerge := mergeFields_ofMembers before.length o size size' padding padding' maxAlign
          maxAlign' hnames
        refine ⟨_, padding ++ addPaddingOffset o padding', max maxAlign' maxAlign, ?_, hmoved⟩
        rw [flattenFieldInfo, hd, if_pos rfl]
        simp only [ho, hsub, hmerge, Eval.ok_bind]
    have hms' : ∀ M ∈ ms ++ new, MemberAt tags T M ∧
        ∃ j p, M.path = j :: p ∧ j < (before ++ [d]).length := by
      intro M hM
      rw [List.length_append, List.length_singleton]
      rcases List.mem_append.mp hM with hM | hM
      · obtain ⟨hM, j, p, hp, hlt⟩ := hms M hM
        exact ⟨hM, j, p, hp, by omega⟩
      · obtain ⟨hM, p, hp⟩ := (hnew.complete M).mp hM
        exact ⟨hM, before.length, p, hp, by omega⟩
    obtain ⟨later, padding₂, maxAlign₂, hrest, hlater⟩ :=
      @ih (before ++ [d]) (by simp [hdecls]) (ms ++ new) size maxAlign₁ padding₁ hms'
    rw [List.length_append, List.length_singleton] at hlater
    refine ⟨new ++ later, padding₂, maxAlign₂, ?_, hnew.append hlater⟩
    rw [hstep, hrest, List.append_assoc]

/-- What holds of each of finitely many things from some depth on holds of all of them from some
    depth on. -/
theorem exists_depth {α : Type} {P : α → ℕ → Prop} (L : List α)
    (h : ∀ a ∈ L, ∃ N, ∀ depth ≥ N, P a depth) : ∃ N, ∀ depth ≥ N, ∀ a ∈ L, P a depth := by
  induction L with
  | nil => exact ⟨0, by simp⟩
  | cons a L ih =>
    obtain ⟨N, hN⟩ := h a List.mem_cons_self
    obtain ⟨N', hN'⟩ := ih fun b hb => h b (List.mem_cons_of_mem a hb)
    refine ⟨max N N', fun depth hdepth b hb => ?_⟩
    rcases List.mem_cons.mp hb with rfl | hb
    · exact hN depth (le_trans (le_max_left N N') hdepth)
    · exact hN' depth (le_trans (le_max_right N N') hdepth) b hb

/-- **Flattening a type** gives its members, in order. -/
theorem getFlatFields_spec (h : LaidOut cfg tags T) (hdist : DistinctMembers tags T) :
    ∃ N, ∀ depth ≥ N, ∃ ms size padding maxAlign,
      getFlatFields tags depth T = .ok (ofMembers ms size padding maxAlign) ∧
        ListsMembers tags T ms := by
  induction h with
  | @mk T fields hT hlayout _ ih =>
    have hsub : ∀ d ∈ fields.decls, ∃ N, ∀ depth ≥ N, isAnonymous d = true →
        ∃ sub size padding maxAlign,
          getFlatFields tags depth d.1 = .ok (ofMembers sub size padding maxAlign) ∧
            ListsMembers tags d.1 sub := by
      intro d hd
      cases hanon : isAnonymous d with
      | false => exact ⟨0, fun _ _ h => by cases h⟩
      | true =>
        obtain ⟨i, hi⟩ := List.getElem?_of_mem hd
        obtain ⟨n, o, -, ho, -, -⟩ := hlayout.inside d hd
        obtain ⟨N, hN⟩ := ih d hd hanon (hdist.under hT hi hanon ho)
        exact ⟨N, fun depth hdepth _ => hN depth hdepth⟩
    obtain ⟨N, hN⟩ := exists_depth fields.decls hsub
    refine ⟨N + 1, fun depth hdepth => ?_⟩
    obtain ⟨depth, rfl⟩ := Nat.exists_eq_add_of_le' (Nat.le_of_add_left_le hdepth)
    obtain ⟨ms, padding, maxAlign, hrun, hms⟩ :=
      @flattenFieldInfo_spec cfg tags T fields _ hT hlayout hdist (hN depth (by omega)) [] fields.decls rfl
        [] 0 0 [] (by simp)
    refine ⟨ms, fields.size, padding, maxAlign, ?_, hms.ordered, fun M => ?_⟩
    · rw [getFlatFields, hT]
      exact hrun
    · rw [hms.complete]
      constructor
      · rintro ⟨hM, -⟩
        exact hM
      · intro hM
        obtain ⟨i, d, o, -, -, ⟨-, rfl⟩ | ⟨-, M', -, rfl⟩⟩ := hM.cases_head hT
        · exact ⟨hM, i, [], rfl, Nat.zero_le i⟩
        · exact ⟨hM, i, M'.path, rfl, Nat.zero_le i⟩

/-! ## What is found -/

theorem lookup_of_members {ν : Type} (f : FlatMember → ν) {ms : List FlatMember} {M : FlatMember}
    (hM : M ∈ ms) (hnames : ∀ M' ∈ ms, M'.name = M.name → M' = M) :
    (ms.map fun M => (M.name, f M)).lookup M.name = some (f M) := by
  induction ms with
  | nil => cases hM
  | cons M' ms ih =>
    rw [List.map_cons, List.lookup_cons]
    by_cases heq : M' = M
    · simp [heq]
    · have hname : (M.name == M'.name) = false := by
        rw [beq_eq_false_iff_ne]
        exact fun h => heq (hnames M' List.mem_cons_self h.symm)
      rw [hname]
      refine ih ?_ fun M'' hM'' => hnames M'' (List.mem_cons_of_mem M' hM'')
      exact (List.mem_cons.mp hM).resolve_left fun h => heq h.symm

theorem LaidOut.exists_fields (h : LaidOut cfg tags T) :
    ∃ fields, aggregateFields tags (utype T) = some fields := by
  obtain ⟨hT, -, -⟩ := h
  exact ⟨_, hT⟩

theorem LaidOut.of_fields (h : LaidOut cfg tags T) (hT : aggregateFields tags (utype T) = some fields) :
    RecordLayout cfg tags T fields ∧
      ∀ d ∈ fields.decls, isAnonymous d = true → LaidOut cfg tags d.1 := by
  obtain ⟨hT', hlayout, hsub⟩ := h
  rw [hT] at hT'
  cases hT'
  exact ⟨hlayout, hsub⟩

/-- A member lies inside the type it is a member of. -/
theorem MemberAt.inside {M : FlatMember} (h : MemberAt tags T M) (hlaid : LaidOut cfg tags T)
    (hT : aggregateFields tags (utype T) = some fields) :
    ∃ n, bitSizeofType cfg tags (utype M.type) = .ok n ∧ 0 ≤ M.offset ∧ M.offset + n ≤ fields.size := by
  induction h generalizing fields with
  | @here T' fields' i d o hT' hi _ ho =>
    rw [hT] at hT'
    cases hT'
    obtain ⟨n, o', hn, ho', h0, hend⟩ := (hlaid.of_fields hT).1.inside d (List.mem_of_getElem? hi)
    rw [ho] at ho'
    cases ho'
    exact ⟨n, hn, h0, hend⟩
  | @under T' fields' i d o M hT' hi hd ho _ ih =>
    rw [hT] at hT'
    cases hT'
    obtain ⟨hlayout, hsub⟩ := hlaid.of_fields hT
    obtain ⟨n, o', hn, ho', h0, hend⟩ := hlayout.inside d (List.mem_of_getElem? hi)
    rw [ho] at ho'
    cases ho'
    -- the anonymous member is as large as its record says
    have hanon := hsub d (List.mem_of_getElem? hi) hd
    obtain ⟨fields', hd'⟩ := hanon.exists_fields
    rw [bitSizeofType_of_aggregateFields hd'] at hn
    cases hn
    obtain ⟨k, hk, hk0, hkend⟩ := ih hanon hd'
    refine ⟨k, hk, ?_, ?_⟩
    all_goals
      simp only [FlatMember.shift]
      omega

/-- The last declaration that starts at or before the offset. -/
theorem getFieldAtOffset'_eq {offset o : Int} {d : CType × CId} {rest : List (CType × CId)}
    (late : List (CType × CId)) {offsets : List (CId × Int)}
    (hnames : ((late ++ d :: rest).map Prod.snd).Nodup)
    (hlate : ∀ e ∈ late, ∃ o', offsets.lookup e.2 = some o' ∧ offset < o')
    (hd : offsets.lookup d.2 = some o) (ho : o ≤ offset) :
    getFieldAtOffset' offset (late ++ d :: rest) offsets = .ok d.2 := by
  induction late generalizing offsets with
  | nil => simp [getFieldAtOffset', hd, not_lt.mpr ho]
  | cons e late ih =>
    obtain ⟨o', ho', hlt⟩ := hlate e List.mem_cons_self
    rw [List.cons_append, List.map_cons, List.nodup_cons] at hnames
    obtain ⟨hnew, hnames⟩ := hnames
    have hne : ∀ e' ∈ late ++ d :: rest, e'.2 ≠ e.2 := by
      intro e' he' heq
      exact hnew (heq ▸ List.mem_map_of_mem he')
    obtain ⟨eT, eF⟩ := e
    rw [List.cons_append, getFieldAtOffset', ho']
    simp only [gt_iff_lt, hlt, if_true]
    refine ih hnames (fun e' he' => ?_) ?_
    · rw [lookup_remove, if_neg (hne e' (by simp [he']))]
      exact hlate e' (List.mem_cons_of_mem _ he')
    · rw [lookup_remove, if_neg (hne d (by simp))]
      exact hd

/-- A member lies inside the declaration it is in. -/
theorem MemberAt.inside_head {M : FlatMember} (h : MemberAt tags T M) (hlaid : LaidOut cfg tags T)
    (hT : aggregateFields tags (utype T) = some fields) :
    ∃ i p d o n k, M.path = i :: p ∧ fields.decls[i]? = some d ∧ fields.offsets.lookup d.2 = some o ∧
      bitSizeofType cfg tags (utype d.1) = .ok n ∧ bitSizeofType cfg tags (utype M.type) = .ok k ∧
      o ≤ M.offset ∧ M.offset + k ≤ o + n := by
  obtain ⟨hlayout, hsub⟩ := hlaid.of_fields hT
  obtain ⟨i, d, o, hi, ho, ⟨-, rfl⟩ | ⟨hd, M', hM', rfl⟩⟩ := h.cases_head hT
  · obtain ⟨n, o', hn, -, -, -⟩ := hlayout.inside d (List.mem_of_getElem? hi)
    exact ⟨i, [], d, o, n, n, rfl, hi, ho, hn, hn, le_refl o, le_refl (o + n)⟩
  · have hanon := hsub d (List.mem_of_getElem? hi) hd
    obtain ⟨fields', hd'⟩ := hanon.exists_fields
    obtain ⟨k, hk, hk0, hkend⟩ := hM'.inside hanon hd'
    refine ⟨i, M'.path, d, o, fields'.size, k, rfl, hi, ho, bitSizeofType_of_aggregateFields hd', hk, ?_, ?_⟩
    all_goals
      simp only [FlatMember.shift]
      omega

/-- In a struct the declarations after the one that holds a member start after the member does. -/
theorem getFieldAtOffset'_of_member {M : FlatMember} {i : ℕ} {p : List ℕ} {d : CType × CId}
    {o n k : Int} (hlayout : RecordLayout cfg tags T fields) (hstruct : isStructType T = true)
    (hpath : M.path = i :: p) (hi : fields.decls[i]? = some d)
    (ho : fields.offsets.lookup d.2 = some o) (hn : bitSizeofType cfg tags (utype d.1) = .ok n)
    (hle : o ≤ M.offset) (hend : M.offset + k ≤ o + n)
    (hpos : 0 < k ∨ M.path = [fields.decls.length - 1]) :
    getFieldAtOffset' M.offset fields.decls.reverse fields.offsets = .ok d.2 := by
  obtain ⟨hlt, hget⟩ := List.getElem?_eq_some_iff.mp hi
  have hsplit : fields.decls = fields.decls.take i ++ d :: fields.decls.drop (i + 1) := by
    rw [← hget, ← List.drop_eq_getElem_cons hlt, List.take_append_drop]
  have hreverse : fields.decls.reverse =
      (fields.decls.drop (i + 1)).reverse ++ d :: (fields.decls.take i).reverse := by
    conv_lhs => rw [hsplit]
    simp
  have hnames : (fields.decls.reverse.map Prod.snd).Nodup := by
    rw [List.map_reverse, List.nodup_reverse]
    exact hlayout.names
  rw [hreverse] at hnames ⊢
  refine getFieldAtOffset'_eq _ hnames (fun e he => ?_) ho hle
  rw [List.mem_reverse] at he
  have horder := hlayout.inOrder hstruct
  rw [hsplit, List.pairwise_append, List.pairwise_cons] at horder
  obtain ⟨n', o₁, o', hn', ho₁, ho', hafter⟩ := horder.2.1.1 e he
  rw [hn] at hn'
  cases hn'
  rw [ho] at ho₁
  cases ho₁
  refine ⟨o', ho', ?_⟩
  rcases hpos with hpos | hlast
  · omega
  · -- the last declaration has none after it
    rw [hpath] at hlast
    cases hlast
    rw [List.drop_eq_nil_of_le (by omega)] at he
    cases he

theorem isNoType_of_size {T' : CType} {k : Int} (hk : bitSizeofType cfg tags (utype T') = .ok k)
    (h : 0 < k ∨ isFlexibleArrayType T' = true) : isNoType T' = false := by
  unfold isNoType
  split
  · rcases h with h | h
    · cases hk
      simp [bitSizeofNonArray] at h
    · cases h
  · rfl

end Proofs

/-- `struct { int b; int c; }` -/
def innerFields : FieldInfo :=
  .fieldInfo [(IntType.int.toSimple.toType, .Identifier "b"), (IntType.int.toSimple.toType, .Identifier "c")] 64
    [(.Identifier "b", IntType.int.toSimple.toType), (.Identifier "c", IntType.int.toSimple.toType)]
    [(.Identifier "b", 0), (.Identifier "c", 32)] [] 4

def unnamedInner : CType := (SimpleNonArrayType.structType ⟨.unnamed 0 "tu", "tu", .global⟩).toType

/-- `struct T { struct { int b; int c; }; int e; }` -/
def nestedFields : FieldInfo :=
  .fieldInfo [(unnamedInner, .NoNameI 1), (IntType.int.toSimple.toType, .Identifier "e")] 96
    [(.NoNameI 1, unnamedInner), (.Identifier "e", IntType.int.toSimple.toType)]
    [(.NoNameI 1, 0), (.Identifier "e", 64)] [] 4

def nestedType : CType := (SimpleNonArrayType.structType ⟨.Identifier "T", "tu", .global⟩).toType

def nestedTags : Tags :=
  [(⟨.unnamed 0 "tu", "tu", .global⟩, .fields innerFields), (⟨.Identifier "T", "tu", .global⟩, .fields nestedFields)]

theorem innerFields_layout : RecordLayout x86GccLimitedLibc nestedTags unnamedInner innerFields where
  names := by decide
  types := by
    intro d hd
    simp only [innerFields, FieldInfo.decls, List.mem_cons, List.not_mem_nil, or_false] at hd
    rcases hd with rfl | rfl <;> rfl
  inside := by
    intro d hd
    simp only [innerFields, FieldInfo.decls, List.mem_cons, List.not_mem_nil, or_false] at hd
    rcases hd with rfl | rfl
    · exact ⟨32, 0, rfl, rfl, by decide, by decide⟩
    · exact ⟨32, 32, rfl, rfl, by decide, by decide⟩
  inOrder _ := by
    refine .cons (fun d hd => ?_) (List.pairwise_singleton _ _)
    rw [List.mem_singleton] at hd
    subst hd
    exact ⟨32, 0, 32, rfl, rfl, rfl, by decide⟩

theorem nestedFields_layout : RecordLayout x86GccLimitedLibc nestedTags nestedType nestedFields where
  names := by decide
  types := by
    intro d hd
    simp only [nestedFields, FieldInfo.decls, List.mem_cons, List.not_mem_nil, or_false] at hd
    rcases hd with rfl | rfl <;> rfl
  inside := by
    intro d hd
    simp only [nestedFields, FieldInfo.decls, List.mem_cons, List.not_mem_nil, or_false] at hd
    rcases hd with rfl | rfl
    · exact ⟨64, 0, rfl, rfl, by decide, by decide⟩
    · exact ⟨32, 64, rfl, rfl, by decide, by decide⟩
  inOrder _ := by
    refine .cons (fun d hd => ?_) (List.pairwise_singleton _ _)
    rw [List.mem_singleton] at hd
    subst hd
    exact ⟨64, 0, 64, rfl, rfl, rfl, by decide⟩

theorem nested_laidOut : LaidOut x86GccLimitedLibc nestedTags nestedType := by
  refine @LaidOut.mk _ _ _ nestedFields rfl nestedFields_layout fun d hd hanon => ?_
  simp only [nestedFields, FieldInfo.decls, List.mem_cons, List.not_mem_nil, or_false] at hd
  rcases hd with rfl | rfl
  · refine @LaidOut.mk _ _ _ innerFields rfl innerFields_layout fun e he hanon => ?_
    simp only [innerFields, FieldInfo.decls, List.mem_cons, List.not_mem_nil, or_false] at he
    rcases he with rfl | rfl <;> cases hanon
  · cases hanon

/-- The members of the two records, one by one. -/
theorem inner_members {M : FlatMember} (h : MemberAt nestedTags unnamedInner M) :
    M = ⟨[0], IntType.int.toSimple.toType, .Identifier "b", 0⟩ ∨
      M = ⟨[1], IntType.int.toSimple.toType, .Identifier "c", 32⟩ := by
  obtain ⟨i, d, o, hi, ho, ⟨hd, rfl⟩ | ⟨hd, -⟩⟩ := @MemberAt.cases_head _ _ innerFields rfl _ h
  · match i, hi with
    | 0, hi => cases hi; cases ho; exact .inl rfl
    | 1, hi => cases hi; cases ho; exact .inr rfl
  · match i, hi with
    | 0, hi => cases hi; cases hd
    | 1, hi => cases hi; cases hd

theorem nested_members {M : FlatMember} (h : MemberAt nestedTags nestedType M) :
    M = ⟨[0, 0], IntType.int.toSimple.toType, .Identifier "b", 0⟩ ∨
      M = ⟨[0, 1], IntType.int.toSimple.toType, .Identifier "c", 32⟩ ∨
      M = ⟨[1], IntType.int.toSimple.toType, .Identifier "e", 64⟩ := by
  obtain ⟨i, d, o, hi, ho, ⟨hd, rfl⟩ | ⟨hd, M', hM', rfl⟩⟩ := @MemberAt.cases_head _ _ nestedFields rfl _ h
  · match i, hi with
    | 0, hi => cases hi; cases hd
    | 1, hi => cases hi; cases ho; exact .inr (.inr rfl)
  · match i, hi with
    | 0, hi =>
      cases hi
      cases ho
      rcases inner_members hM' with rfl | rfl
      · exact .inl rfl
      · exact .inr (.inl rfl)
    | 1, hi => cases hi; cases hd

theorem nested_distinct : DistinctMembers nestedTags nestedType := by
  intro M M' hM hM' hname
  rcases nested_members hM with rfl | rfl | rfl <;> rcases nested_members hM' with rfl | rfl | rfl
  all_goals first | rfl | simp at hname

theorem nested_occupied : Occupied x86GccLimitedLibc nestedTags nestedType := by
  intro M hM _
  refine .inl ⟨32, ?_, by decide⟩
  rcases nested_members hM with rfl | rfl | rfl <;> rfl

end CSemantics.FlatFields
