/-
  Compatible types.

  `#areCompat(T, T', Cache)` has one rule for each pair of type constructors that can be compatible
  and answers `false` for all other pairs.  Every rule asks for ALL of some further pairs, so the
  rules are an expansion in the sense of `Lib.ConjSearch`: `none` is the `owise` rule, `some qs` the
  pairs a rule goes on with.

  Struct and union types are compared member by member, and members can lead back to the same
  struct.  What cuts the cycle is the cache: a pair of tags is put in it before its members are
  compared, and a pair in it counts as compatible.

  **Why it stops.**  Comparing a type with itself never looks at the members of a struct, it only
  goes down the type.  Comparing two different types either goes down the type with the cache
  unchanged or adds a pair of tags to the cache, and only the tags of the two types and of the table
  can ever be in a pair.  So (tag pairs not in the cache, size of the type) goes down
  lexicographically; the check of argument promotions, which starts again with an empty cache,
  compares a type with itself or is answered at once.
-/
import CSemantics.Lib.ConjSearch
import CSemantics.Promotion
import CSemantics.Typing.Equality

namespace CSemantics

open ConjSearch

/-! ## The rules -/

/-- A pair of types to compare, with the pairs of tags assumed to be compatible. -/
structure CompatQuery where
  cache : List (TagId × TagId)
  left : CType
  right : CType

/-- The tags of two unrelated declarations agree, or neither has one. -/
def areTagsCompat : CId → CId → Bool
  | .unnamed _ _, .unnamed _ _ => true
  | x, x' => x == x'

/-- `#areCompatIds` -/
def areCompatIds (x x' : CId) : Bool := x == x' || (x.isNoName && x'.isNoName)

/-- The same integer type; `int` and `signed int` are. -/
def areIntsCompat : IntType → IntType → Bool
  | .int, .signedInt => true
  | .signedInt, .int => true
  | i, i' => i == i'

def areBasicCompat : SimpleBasicType → SimpleBasicType → Bool
  | .integer i, .integer i' => areIntsCompat i i'
  | .bitfieldType i w, .bitfieldType i' w' => areIntsCompat i i' && w == w'
  | b, b' => b == b'

/-- Of the 25 pairs of array kinds only two known lengths can disagree. -/
def areArrayKindsCompat : ArrayKind → ArrayKind → Bool
  | .fixed n, .fixed n' => n == n'
  | _, _ => true

/-- The type of a parameter, unless it is the ellipsis. -/
def ParamDecl.declared : ParamDecl → Option CType
  | .type T => some T
  | .typedDeclaration T _ => some T
  | .variadic => none

section Rules

variable (cfg : Settings) (tags : Tags)

def isEnumAlias (s : TagId) (i : IntType) : Bool := decide (getEnumAlias tags s = .ok i)

/-- `#areParamsCompat` -/
def paramQueries (cache : List (TagId × TagId)) :
    List ParamDecl → List ParamDecl → Option (List CompatQuery)
  | [], [] => some []
  | p :: L, p' :: L' =>
    match p.declared, p'.declared with
    | some T, some T' =>
      (paramQueries cache L L').map (⟨cache, stripQualifiers T, stripQualifiers T'⟩ :: ·)
    | none, none => paramQueries cache L L'
    | _, _ => none
  | _, _ => none

/-- `areArgPromoted`: each parameter is compared with its own promotion. -/
def promotedQueries : List ParamDecl → Option (List CompatQuery)
  | [] => some []
  | p :: L =>
    match p.declared with
    | none => promotedQueries L
    | some T =>
      match argPromoteType cfg tags (utype T) with
      | .error _ => none
      | .ok P => (promotedQueries L).map (⟨[], type (utype T), type P⟩ :: ·)

/-- `#areCompatFields` -/
def fieldQueries (cache : List (TagId × TagId)) :
    List (CType × CId) → List (CType × CId) → Option (List CompatQuery)
  | [], [] => some []
  | (T, x) :: L, (T', x') :: L' =>
    if areCompatIds x x' then (fieldQueries cache L L').map (⟨cache, T, T'⟩ :: ·) else none
  | _, _ => none

/-- `#areStructsCompat`: a struct without known members is compatible with any. -/
def structQueries (cache : List (TagId × TagId)) (ds ds' : List (CType × CId)) :
    Option (List CompatQuery) :=
  if ds.isEmpty || ds'.isEmpty then some [] else fieldQueries cache ds ds'

/-- Two struct types, or two union types. -/
def taggedQueries (cache : List (TagId × TagId)) (m : Mods) (s : TagId) (m' : Mods) (s' : TagId) :
    Option (List CompatQuery) :=
  if s = s' ∨ (s, s') ∈ cache then some []
  else if areTagsCompat s.name s'.name then
    structQueries ((s, s') :: cache) (getFields tags m s).decls (getFields tags m' s').decls
  else none

/-- Two function types: a declaration with no parameters is compatible with one whose parameters
    are all promoted and that has no ellipsis. -/
def functionQueries (cache : List (TagId × TagId)) (r : UType) (ps : List ParamDecl) (r' : UType)
    (ps' : List ParamDecl) : Option (List CompatQuery) :=
  if ps.length = ps'.length then (paramQueries cache ps ps').map (⟨cache, type r, type r'⟩ :: ·)
  else if ps = [] ∧ .variadic ∉ ps' then
    (promotedQueries cfg tags ps').map (· ++ [⟨cache, type r, type r'⟩])
  else if ps' = [] ∧ .variadic ∉ ps then
    (promotedQueries cfg tags ps).map (· ++ [⟨cache, type r, type r'⟩])
  else none

/-- `none` unless the condition holds. -/
def onlyIf (b : Bool) : Option (List CompatQuery) := if b then some [] else none

/-- The rules of `#areCompat` for types that are not arrays, the qualifiers being equal. -/
def nonArrayQueries (cache : List (TagId × TagId)) (m m' : Mods) :
    SimpleNonArrayType → SimpleNonArrayType → Option (List CompatQuery)
  | .basic b, .basic b' => onlyIf (areBasicCompat b b')
  | .enumType s, .basic (.integer i) => onlyIf (isEnumAlias tags s i)
  | .basic (.integer i), .enumType s => onlyIf (isEnumAlias tags s i)
  | .enumType s, .enumType s' => onlyIf (areTagsCompat s.name s'.name)
  | .structType s, .structType s' => taggedQueries tags cache m s m' s'
  | .unionType s, .unionType s' => taggedQueries tags cache m s m' s'
  | .pointerType T, .pointerType T' => some [⟨cache, T, T'⟩]
  | .functionType r ps, .functionType r' ps' => functionQueries cfg tags cache r ps r' ps'
  | _, _ => none

/-- The rules of `#areCompat`. -/
def compatQueries (q : CompatQuery) : Option (List CompatQuery) :=
  match q.left, q.right with
  | .t qs m st, .t qs' m' st' =>
    if qs = qs' then
      match st, st' with
      | .array k T, .array k' T' =>
        if areArrayKindsCompat k k' then some [⟨q.cache, T, T'⟩] else none
      | .nonArray n, .nonArray n' => nonArrayQueries cfg tags q.cache m m' n n'
      | _, _ => none
    else none

/-- The answer of `areCompatible(T, T')` is `b`. -/
def AreCompatible (T T' : CType) (b : Bool) : Prop :=
  Decides (compatQueries cfg tags) ⟨[], T, T'⟩ b

end Rules

/-! ## Size and tags of a type -/

mutual

/-- The size of a type; what a tag stands for does not count. -/
def CType.size : CType → Nat
  | .t _ _ st => st.size + 1

def SimpleType.size : SimpleType → Nat
  | .array _ T => T.size + 1
  | .nonArray n => n.size + 1

def UType.size : UType → Nat
  | .ut _ st => st.size + 1

def SimpleUType.size : SimpleUType → Nat
  | .array _ T => T.size + 1
  | .nonArray n => n.size + 1

def SimpleNonArrayType.size : SimpleNonArrayType → Nat
  | .pointerType T => T.size + 1
  | .functionType r ps => r.size + ParamDecl.sizeList ps + 1
  | _ => 0

def ParamDecl.sizeList : List ParamDecl → Nat
  | [] => 0
  | p :: ps => p.size + ParamDecl.sizeList ps

def ParamDecl.size : ParamDecl → Nat
  | .type T => T.size
  | .typedDeclaration T _ => T.size
  | .variadic => 1

end

mutual

@[simp] theorem size_utype : ∀ T : CType, (utype T).size = T.size
  | .t _ _ st => by rw [utype, UType.size, CType.size, size_unqualSimple st]

theorem size_unqualSimple : ∀ st : SimpleType, (unqualSimple st).size = st.size
  | .array _ T => by rw [unqualSimple, SimpleUType.size, SimpleType.size, size_utype T]
  | .nonArray _ => by rw [unqualSimple, SimpleUType.size, SimpleType.size]

end

@[simp] theorem size_type (T : UType) : (type T).size = T.size := by
  rw [← size_utype, utype_type]

@[simp] theorem size_stripQualifiers (T : CType) : (stripQualifiers T).size = T.size := by
  rw [stripQualifiers, size_type, size_utype]

mutual

/-- The tags a type mentions, those of the members in its modifiers included. -/
def CType.tagsOf : CType → Finset TagId
  | .t _ m st => m.tagsOf ∪ st.tagsOf

def SimpleType.tagsOf : SimpleType → Finset TagId
  | .array _ T => T.tagsOf
  | .nonArray n => n.tagsOf

def UType.tagsOf : UType → Finset TagId
  | .ut m st => m.tagsOf ∪ st.tagsOf

def SimpleUType.tagsOf : SimpleUType → Finset TagId
  | .array _ T => T.tagsOf
  | .nonArray n => n.tagsOf

def SimpleNonArrayType.tagsOf : SimpleNonArrayType → Finset TagId
  | .basic _ => ∅
  | .enumType _ => ∅
  | .structType s => {s}
  | .unionType s => {s}
  | .pointerType T => T.tagsOf
  | .functionType r ps => r.tagsOf ∪ ParamDecl.tagsOfList ps

def ParamDecl.tagsOfList : List ParamDecl → Finset TagId
  | [] => ∅
  | p :: ps => p.tagsOf ∪ ParamDecl.tagsOfList ps

def ParamDecl.tagsOf : ParamDecl → Finset TagId
  | .type T => T.tagsOf
  | .typedDeclaration T _ => T.tagsOf
  | .variadic => ∅

def Mods.tagsOf : Mods → Finset TagId
  | .mods _ fs => FieldInfo.tagsOfOption fs

def FieldInfo.tagsOfOption : Option FieldInfo → Finset TagId
  | none => ∅
  | some f => f.tagsOf

def FieldInfo.tagsOf : FieldInfo → Finset TagId
  | .fieldInfo ds _ _ _ _ _ => FieldInfo.tagsOfDecls ds

def FieldInfo.tagsOfDecls : List (CType × CId) → Finset TagId
  | [] => ∅
  | d :: ds => FieldInfo.tagsOfDecl d ∪ FieldInfo.tagsOfDecls ds

def FieldInfo.tagsOfDecl : CType × CId → Finset TagId
  | (T, _) => T.tagsOf

end

mutual

@[simp] theorem tagsOf_utype : ∀ T : CType, (utype T).tagsOf = T.tagsOf
  | .t _ m st => by rw [utype, UType.tagsOf, CType.tagsOf, tagsOf_unqualSimple st]

theorem tagsOf_unqualSimple : ∀ st : SimpleType, (unqualSimple st).tagsOf = st.tagsOf
  | .array _ T => by rw [unqualSimple, SimpleUType.tagsOf, SimpleType.tagsOf, tagsOf_utype T]
  | .nonArray _ => by rw [unqualSimple, SimpleUType.tagsOf, SimpleType.tagsOf]

end

@[simp] theorem tagsOf_type (T : UType) : (type T).tagsOf = T.tagsOf := by
  rw [← tagsOf_utype, utype_type]

@[simp] theorem tagsOf_stripQualifiers (T : CType) : (stripQualifiers T).tagsOf = T.tagsOf := by
  rw [stripQualifiers, tagsOf_type, tagsOf_utype]

/-- The tags the table mentions. -/
def tableTags : Tags → Finset TagId
  | [] => ∅
  | (_, .fields f) :: tags => f.tagsOf ∪ tableTags tags
  | _ :: tags => tableTags tags

/-! ## What the rules go on with -/

section Steps

variable {cfg : Settings} {tags : Tags}

theorem declared_size {p : ParamDecl} {T : CType} (h : p.declared = some T) : T.size = p.size := by
  cases p with
  | variadic => cases h
  | type T' => cases h; rw [ParamDecl.size]
  | typedDeclaration T' x => cases h; rw [ParamDecl.size]

theorem declared_tagsOf {p : ParamDecl} {T : CType} (h : p.declared = some T) :
    T.tagsOf = p.tagsOf := by
  cases p with
  | variadic => cases h
  | type T' => cases h; rw [ParamDecl.tagsOf]
  | typedDeclaration T' x => cases h; rw [ParamDecl.tagsOf]

/-- The parameters of two function types are compared pairwise, without their qualifiers. -/
theorem mem_paramQueries {c : List (TagId × TagId)} {L L' : List ParamDecl} {qs : List CompatQuery}
    (h : paramQueries c L L' = some qs) {q : CompatQuery} (hq : q ∈ qs) :
    q.cache = c ∧ q.left.size ≤ ParamDecl.sizeList L ∧ q.left.tagsOf ⊆ ParamDecl.tagsOfList L ∧
      q.right.tagsOf ⊆ ParamDecl.tagsOfList L' ∧ (L = L' → q.left = q.right) := by
  induction L generalizing L' qs with
  | nil =>
    cases L' with
    | nil => cases h; cases hq
    | cons p' L' => cases h
  | cons p L ih =>
    cases L' with
    | nil => cases h
    | cons p' L' =>
      -- the head pair first, then what the rest asks
      have hrest : ∀ {qs'}, paramQueries c L L' = some qs' → q ∈ qs' →
          q.cache = c ∧ q.left.size ≤ ParamDecl.sizeList (p :: L) ∧
          q.left.tagsOf ⊆ ParamDecl.tagsOfList (p :: L) ∧
          q.right.tagsOf ⊆ ParamDecl.tagsOfList (p' :: L') ∧
          (p :: L = p' :: L' → q.left = q.right) := by
        intro qs' hqs' hmem
        obtain ⟨h1, h2, h3, h4, h5⟩ := ih hqs' hmem
        refine ⟨h1, ?_, ?_, ?_, fun heq => h5 (List.cons.inj heq).2⟩
        · rw [ParamDecl.sizeList]; omega
        · rw [ParamDecl.tagsOfList]; exact h3.trans Finset.subset_union_right
        · rw [ParamDecl.tagsOfList]; exact h4.trans Finset.subset_union_right
      rw [paramQueries] at h
      cases hp : p.declared with
      | none =>
        cases hp' : p'.declared with
        | none =>
          simp only [hp, hp'] at h
          exact hrest h hq
        | some T' => simp [hp, hp'] at h
      | some T =>
        cases hp' : p'.declared with
        | none => simp [hp, hp'] at h
        | some T' =>
          simp only [hp, hp', Option.map_eq_some_iff] at h
          obtain ⟨qs', hqs', rfl⟩ := h
          rcases List.mem_cons.mp hq with rfl | hmem
          · refine ⟨rfl, ?_, ?_, ?_, ?_⟩
            · rw [size_stripQualifiers, declared_size hp, ParamDecl.sizeList]; omega
            · rw [tagsOf_stripQualifiers, declared_tagsOf hp, ParamDecl.tagsOfList]
              exact Finset.subset_union_left
            · rw [tagsOf_stripQualifiers, declared_tagsOf hp', ParamDecl.tagsOfList]
              exact Finset.subset_union_left
            · intro heq
              have : p = p' := (List.cons.inj heq).1
              subst this
              rw [hp] at hp'
              cases hp'
              rfl
          · exact hrest hqs' hmem

/-- A type no rule goes on from: a basic type or an enumeration. -/
def CType.isLeaf : CType → Bool
  | .t _ _ (.nonArray (.basic _)) => true
  | .t _ _ (.nonArray (.enumType _)) => true
  | _ => false

theorem isLeaf_type_of_arithmetic {T : UType} (h : T.isInteger = true ∨ T.isFloat = true) :
    (type T).isLeaf = true := by
  rcases h with h | h
  · rcases UType.isInteger_cases h with ⟨m, i, rfl⟩ | ⟨m, i, n, rfl⟩ | ⟨m, s, rfl⟩ <;> rfl
  · obtain ⟨m, f, rfl⟩ := UType.isFloat_cases h
    rfl

/-- The check of argument promotions compares a type with itself, or an arithmetic type. -/
theorem mem_promotedQueries {L : List ParamDecl} {qs : List CompatQuery}
    (h : promotedQueries cfg tags L = some qs) {q : CompatQuery} (hq : q ∈ qs) :
    (q.left = q.right ∨ q.left.isLeaf = true) ∧ q.left.tagsOf ⊆ ParamDecl.tagsOfList L ∧
      q.right.tagsOf ⊆ ParamDecl.tagsOfList L := by
  induction L generalizing qs with
  | nil => cases h; cases hq
  | cons p L ih =>
    have hrest : ∀ {qs'}, promotedQueries cfg tags L = some qs' → q ∈ qs' →
        (q.left = q.right ∨ q.left.isLeaf = true) ∧
        q.left.tagsOf ⊆ ParamDecl.tagsOfList (p :: L) ∧
        q.right.tagsOf ⊆ ParamDecl.tagsOfList (p :: L) := by
      intro qs' hqs' hmem
      obtain ⟨h1, h2, h3⟩ := ih hqs' hmem
      rw [ParamDecl.tagsOfList]
      exact ⟨h1, h2.trans Finset.subset_union_right, h3.trans Finset.subset_union_right⟩
    rw [promotedQueries] at h
    cases hp : p.declared with
    | none =>
      simp only [hp] at h
      exact hrest h hq
    | some T =>
      cases hP : argPromoteType cfg tags (utype T) with
      | error e => simp [hp, hP] at h
      | ok P =>
        simp only [hp, hP, Option.map_eq_some_iff] at h
        obtain ⟨qs', hqs', rfl⟩ := h
        rcases List.mem_cons.mp hq with rfl | hmem
        · have hT : T.tagsOf ⊆ ParamDecl.tagsOfList (p :: L) := by
            rw [declared_tagsOf hp, ParamDecl.tagsOfList]
            exact Finset.subset_union_left
          refine ⟨?_, by rw [tagsOf_type, tagsOf_utype]; exact hT, ?_⟩
          · rcases argPromoteType_cases hP with rfl | ⟨harith, -⟩
            · exact .inl rfl
            · exact .inr (isLeaf_type_of_arithmetic harith)
          · show (type P).tagsOf ⊆ _
            rw [tagsOf_type]
            rcases argPromoteType_cases hP with rfl | ⟨-, m, b, rfl, hm⟩
            · rw [tagsOf_utype]; exact hT
            · rw [UType.tagsOf, SimpleUType.tagsOf, SimpleNonArrayType.tagsOf, Finset.union_empty]
              rcases hm with rfl | rfl
              · exact Finset.empty_subset _
              · refine Finset.Subset.trans ?_ hT
                rw [← tagsOf_utype]
                cases utype T with
                | ut m' st' =>
                  rw [UType.tagsOf]
                  exact Finset.subset_union_left
        · exact hrest hqs' hmem

/-- The members of two structs are compared pairwise. -/
theorem mem_fieldQueries {c : List (TagId × TagId)} {ds ds' : List (CType × CId)}
    {qs : List CompatQuery} (h : fieldQueries c ds ds' = some qs) {q : CompatQuery} (hq : q ∈ qs) :
    q.cache = c ∧ q.left.tagsOf ⊆ FieldInfo.tagsOfDecls ds ∧
      q.right.tagsOf ⊆ FieldInfo.tagsOfDecls ds' := by
  induction ds generalizing ds' qs with
  | nil =>
    cases ds' with
    | nil => cases h; cases hq
    | cons d' ds' => cases h
  | cons d ds ih =>
    cases ds' with
    | nil => cases h
    | cons d' ds' =>
      obtain ⟨T, x⟩ := d
      obtain ⟨T', x'⟩ := d'
      rw [fieldQueries] at h
      split at h
      · simp only [Option.map_eq_some_iff] at h
        obtain ⟨qs', hqs', rfl⟩ := h
        rw [FieldInfo.tagsOfDecls, FieldInfo.tagsOfDecls, FieldInfo.tagsOfDecl, FieldInfo.tagsOfDecl]
        rcases List.mem_cons.mp hq with rfl | hmem
        · exact ⟨rfl, Finset.subset_union_left, Finset.subset_union_left⟩
        · obtain ⟨h1, h2, h3⟩ := ih hqs' hmem
          exact ⟨h1, h2.trans Finset.subset_union_right, h3.trans Finset.subset_union_right⟩
      · cases h

theorem tagsOfDecls_subset_tableTags (s : TagId) :
    FieldInfo.tagsOfDecls (getFieldInfo tags s).decls ⊆ tableTags tags := by
  unfold getFieldInfo getTagInfo
  induction tags with
  | nil => exact Finset.empty_subset _
  | cons e tags ih =>
    obtain ⟨s', info⟩ := e
    have hmono : tableTags tags ⊆ tableTags ((s', info) :: tags) := by
      cases info with
      | fields f => rw [tableTags]; exact Finset.subset_union_right
      | enumInfo a => exact Finset.Subset.refl _
      | incomplete => exact Finset.Subset.refl _
    rw [List.lookup_cons]
    cases hs : s == s' with
    | false => exact ih.trans hmono
    | true =>
      cases info with
      | fields f =>
        cases f with
        | fieldInfo ds n ts os ps a =>
          rw [tableTags, FieldInfo.tagsOf]
          exact Finset.subset_union_left
      | enumInfo a => exact Finset.empty_subset _
      | incomplete => exact Finset.empty_subset _

/-- The members of a struct mention only tags of its modifiers and of the table. -/
theorem tagsOfDecls_getFields (m : Mods) (s : TagId) :
    FieldInfo.tagsOfDecls (getFields tags m s).decls ⊆ m.tagsOf ∪ tableTags tags := by
  obtain ⟨fl, fs⟩ := m
  cases fs with
  | none => exact (tagsOfDecls_subset_tableTags s).trans Finset.subset_union_right
  | some f =>
    cases f with
    | fieldInfo ds n ts os ps a =>
      rw [Mods.tagsOf, FieldInfo.tagsOfOption, FieldInfo.tagsOf]
      exact Finset.subset_union_left

/-! ## Termination -/

/-- The pairs of tags of `U` that are not in the cache. -/
def missing (U : Finset TagId) (cache : List (TagId × TagId)) : Finset (TagId × TagId) :=
  (U ×ˢ U).filter fun p => p ∉ cache

theorem missing_card_lt {U : Finset TagId} {cache : List (TagId × TagId)} {s s' : TagId}
    (hs : s ∈ U) (hs' : s' ∈ U) (h : (s, s') ∉ cache) :
    (missing U ((s, s') :: cache)).card < (missing U cache).card := by
  refine Finset.card_lt_card (Finset.ssubset_iff_subset_ne.mpr ⟨?_, ?_⟩)
  · intro p hp
    simp only [missing, Finset.mem_filter, List.mem_cons, not_or] at hp ⊢
    exact ⟨hp.1, hp.2.2⟩
  · intro heq
    have hmem : (s, s') ∈ missing U cache := by
      simp [missing, hs, hs', h]
    rw [← heq] at hmem
    simp [missing] at hmem

/-- How many struct comparisons can still be opened: none when a type is compared with itself or
    is a leaf. -/
def openings (U : Finset TagId) (q : CompatQuery) : Nat :=
  if q.left = q.right ∨ q.left.isLeaf = true then 0 else (missing U q.cache).card + 1

/-- The measure of a comparison. -/
def compatMeasure (U : Finset TagId) (q : CompatQuery) : ℕ ×ₗ ℕ := toLex (openings U q, q.left.size)

/-- Going down the type with the same cache lowers the measure. -/
theorem compatMeasure_lt_of_size {U : Finset TagId} {q q' : CompatQuery}
    (hleaf : q.left.isLeaf = false) (hcache : q'.cache = q.cache) (hsize : q'.left.size < q.left.size)
    (hrefl : q.left = q.right → q'.left = q'.right) : compatMeasure U q' < compatMeasure U q := by
  have hle : openings U q' ≤ openings U q := by
    unfold openings
    by_cases heq : q.left = q.right
    · rw [if_pos (.inl (hrefl heq)), if_pos (.inl heq)]
    · rw [if_neg (show ¬(q.left = q.right ∨ q.left.isLeaf = true) by simp [heq, hleaf]), hcache]
      split <;> omega
  rcases Nat.lt_or_eq_of_le hle with hlt | heq
  · exact Prod.Lex.toLex_lt_toLex.mpr (.inl hlt)
  · exact Prod.Lex.toLex_lt_toLex.mpr (.inr ⟨heq, hsize⟩)

/-- Fewer openings lower the measure, whatever the types. -/
theorem compatMeasure_lt_of_openings {U : Finset TagId} {q q' : CompatQuery}
    (h : openings U q' < openings U q) : compatMeasure U q' < compatMeasure U q :=
  Prod.Lex.toLex_lt_toLex.mpr (.inl h)

/-- The class of comparisons that is closed: all tags are in `U`. -/
def TagsIn (U : Finset TagId) (q : CompatQuery) : Prop := q.left.tagsOf ⊆ U ∧ q.right.tagsOf ⊆ U

/-- A comparison that mentions only the tags in `U` and is smaller than another. -/
def Below (U : Finset TagId) (q' q : CompatQuery) : Prop :=
  TagsIn U q' ∧ compatMeasure U q' < compatMeasure U q

theorem onlyIf_eq_some {b : Bool} {qs : List CompatQuery} (h : onlyIf b = some qs) : qs = [] := by
  unfold onlyIf at h
  split at h
  · cases h; rfl
  · cases h

/-- Two structs or unions: the pair of tags is new in the cache. -/
theorem taggedQueries_below {U : Finset TagId} (hU : tableTags tags ⊆ U)
    {cache : List (TagId × TagId)} {L R : CType} {m m' : Mods} {s s' : TagId} {qs : List CompatQuery}
    (hm : m.tagsOf ⊆ U) (hm' : m'.tagsOf ⊆ U) (hs : s ∈ U) (hs' : s' ∈ U) (hleaf : L.isLeaf = false)
    (hne : s ≠ s' → L ≠ R) (h : taggedQueries tags cache m s m' s' = some qs) :
    ∀ q' ∈ qs, Below U q' ⟨cache, L, R⟩ := by
  intro q' hq'
  unfold taggedQueries at h
  split at h
  · cases h; cases hq'
  · rename_i hnew
    rw [not_or] at hnew
    split at h
    · unfold structQueries at h
      split at h
      · cases h; cases hq'
      · obtain ⟨hc, hl, hr⟩ := mem_fieldQueries h hq'
        refine ⟨⟨?_, ?_⟩, compatMeasure_lt_of_openings ?_⟩
        · exact hl.trans ((tagsOfDecls_getFields m s).trans (Finset.union_subset hm hU))
        · exact hr.trans ((tagsOfDecls_getFields m' s').trans (Finset.union_subset hm' hU))
        · have hlt := missing_card_lt hs hs' hnew.2
          have hq0 : openings U ⟨cache, L, R⟩ = (missing U cache).card + 1 := by
            unfold openings
            rw [if_neg]
            simp only [not_or]
            exact ⟨hne hnew.1, by rw [hleaf]; simp⟩
          rw [hq0]
          unfold openings
          rw [hc]
          split <;> omega
    · cases h

section Functions

variable {U : Finset TagId} {cache : List (TagId × TagId)} {Q : Quals} {m m' : Mods} {r r' : UType}
  {ps ps' : List ParamDecl} {qs : List CompatQuery}

/-- The return types are compared in every case. -/
theorem returnTypes_below (hr : r.tagsOf ⊆ U) (hr' : r'.tagsOf ⊆ U) :
    Below U ⟨cache, type r, type r'⟩ ⟨cache, .t Q m (.nonArray (.functionType r ps)),
      .t Q m' (.nonArray (.functionType r' ps'))⟩ := by
  refine ⟨⟨?_, ?_⟩, compatMeasure_lt_of_size rfl rfl ?_ ?_⟩
  · show (type r).tagsOf ⊆ U
    rw [tagsOf_type]; exact hr
  · show (type r').tagsOf ⊆ U
    rw [tagsOf_type]; exact hr'
  · simp only [CType.size, SimpleType.size, SimpleNonArrayType.size, size_type]; omega
  · intro heq; cases heq; rfl

/-- Promotions compare a type with itself or a leaf, while the two functions differ. -/
theorem promotedQueries_below {L : List ParamDecl} (hL : ParamDecl.tagsOfList L ⊆ U)
    (hlen : ps.length ≠ ps'.length) (h : promotedQueries cfg tags L = some qs) :
    ∀ q' ∈ qs, Below U q' ⟨cache, .t Q m (.nonArray (.functionType r ps)),
      .t Q m' (.nonArray (.functionType r' ps'))⟩ := by
  intro q' hq'
  obtain ⟨h1, h2, h3⟩ := mem_promotedQueries h hq'
  refine ⟨⟨h2.trans hL, h3.trans hL⟩, compatMeasure_lt_of_openings ?_⟩
  unfold openings
  rw [if_pos h1, if_neg]
  · omega
  · rintro (heq | hleaf)
    · cases heq; exact hlen rfl
    · cases hleaf

theorem functionQueries_below (hr : r.tagsOf ⊆ U) (hr' : r'.tagsOf ⊆ U)
    (hps : ParamDecl.tagsOfList ps ⊆ U) (hps' : ParamDecl.tagsOfList ps' ⊆ U)
    (h : functionQueries cfg tags cache r ps r' ps' = some qs) :
    ∀ q' ∈ qs, Below U q' ⟨cache, .t Q m (.nonArray (.functionType r ps)),
      .t Q m' (.nonArray (.functionType r' ps'))⟩ := by
  intro q' hq'
  unfold functionQueries at h
  split at h
  · simp only [Option.map_eq_some_iff] at h
    obtain ⟨qs', hqs', rfl⟩ := h
    rcases List.mem_cons.mp hq' with rfl | hmem
    · exact returnTypes_below hr hr'
    · obtain ⟨hc, hsize, hl, hr2, hrefl⟩ := mem_paramQueries hqs' hmem
      refine ⟨⟨hl.trans hps, hr2.trans hps'⟩, compatMeasure_lt_of_size rfl hc ?_ ?_⟩
      · simp only [CType.size, SimpleType.size, SimpleNonArrayType.size]; omega
      · intro heq; cases heq; exact hrefl rfl
  · rename_i hlen
    -- one list is promoted and the other is not compared
    have hpromoted : ∀ L qs', ParamDecl.tagsOfList L ⊆ U → promotedQueries cfg tags L = some qs' →
        q' ∈ qs' ++ [⟨cache, type r, type r'⟩] → Below U q' ⟨cache,
          .t Q m (.nonArray (.functionType r ps)), .t Q m' (.nonArray (.functionType r' ps'))⟩ := by
      intro L qs' hL hqs' hmem
      rcases List.mem_append.mp hmem with hmem | hmem
      · exact promotedQueries_below hL hlen hqs' q' hmem
      · obtain rfl := List.mem_singleton.mp hmem
        exact returnTypes_below hr hr'
    split at h
    · simp only [Option.map_eq_some_iff] at h
      obtain ⟨qs', hqs', rfl⟩ := h
      exact hpromoted ps' qs' hps' hqs' hq'
    · split at h
      · simp only [Option.map_eq_some_iff] at h
        obtain ⟨qs', hqs', rfl⟩ := h
        exact hpromoted ps qs' hps hqs' hq'
      · cases h

end Functions

/-- **One step of the comparison** stays among the tags of `U` and lowers the measure. -/
theorem compatQueries_lt {U : Finset TagId} (hU : tableTags tags ⊆ U) (q : CompatQuery)
    (qs : List CompatQuery) (hq : TagsIn U q) (h : compatQueries cfg tags q = some qs) :
    ∀ q' ∈ qs, TagsIn U q' ∧ compatMeasure U q' < compatMeasure U q := by
  obtain ⟨cache, L, R⟩ := q
  obtain ⟨Q, m, st⟩ := L
  obtain ⟨Q', m', st'⟩ := R
  obtain ⟨hL, hR⟩ := hq
  simp only [CType.tagsOf] at hL hR
  have hLm := Finset.union_subset_left hL
  have hLs := Finset.union_subset_right hL
  have hRm := Finset.union_subset_left hR
  have hRs := Finset.union_subset_right hR
  simp only [compatQueries] at h
  split at h
  · rename_i hQ
    subst hQ
    cases st with
    | array k T =>
      cases st' with
      | nonArray n => cases h
      | array k' T' =>
        simp only at h
        split at h
        · cases h
          intro q' hq'
          obtain rfl := List.mem_singleton.mp hq'
          refine ⟨⟨?_, ?_⟩, compatMeasure_lt_of_size rfl rfl ?_ ?_⟩
          · simpa [SimpleType.tagsOf] using hLs
          · simpa [SimpleType.tagsOf] using hRs
          · simp only [CType.size, SimpleType.size]; omega
          · intro heq; cases heq; rfl
        · cases h
    | nonArray n =>
      cases st' with
      | array k' T' => cases h
      | nonArray n' =>
        simp only at h
        unfold nonArrayQueries at h
        split at h
        · obtain rfl := onlyIf_eq_some h; simp
        · obtain rfl := onlyIf_eq_some h; simp
        · obtain rfl := onlyIf_eq_some h; simp
        · obtain rfl := onlyIf_eq_some h; simp
        · rename_i s s'
          refine taggedQueries_below hU hLm hRm ?_ ?_ rfl ?_ h
          · exact hLs (by simp [SimpleType.tagsOf, SimpleNonArrayType.tagsOf])
          · exact hRs (by simp [SimpleType.tagsOf, SimpleNonArrayType.tagsOf])
          · intro hne heq; cases heq; exact hne rfl
        · rename_i s s'
          refine taggedQueries_below hU hLm hRm ?_ ?_ rfl ?_ h
          · exact hLs (by simp [SimpleType.tagsOf, SimpleNonArrayType.tagsOf])
          · exact hRs (by simp [SimpleType.tagsOf, SimpleNonArrayType.tagsOf])
          · intro hne heq; cases heq; exact hne rfl
        · rename_i T T'
          cases h
          intro q' hq'
          obtain rfl := List.mem_singleton.mp hq'
          refine ⟨⟨?_, ?_⟩, compatMeasure_lt_of_size rfl rfl ?_ ?_⟩
          · simpa [SimpleType.tagsOf, SimpleNonArrayType.tagsOf] using hLs
          · simpa [SimpleType.tagsOf, SimpleNonArrayType.tagsOf] using hRs
          · simp only [CType.size, SimpleType.size, SimpleNonArrayType.size]; omega
          · intro heq; cases heq; rfl
        · simp only [SimpleType.tagsOf, SimpleNonArrayType.tagsOf] at hLs hRs
          exact functionQueries_below (Finset.union_subset_left hLs) (Finset.union_subset_left hRs)
            (Finset.union_subset_right hLs) (Finset.union_subset_right hRs) h
        · cases h
  · cases h

/-- Every comparison is decided, whatever the cache. -/
theorem compatQueries_decides (cfg : Settings) (tags : Tags) (q : CompatQuery) :
    ∃ b, Decides (compatQueries cfg tags) q b := by
  have hU : tableTags tags ⊆ q.left.tagsOf ∪ q.right.tagsOf ∪ tableTags tags :=
    Finset.subset_union_right
  refine decides_of_measure wellFounded_lt
    (compatMeasure (q.left.tagsOf ∪ q.right.tagsOf ∪ tableTags tags))
    (TagsIn (q.left.tagsOf ∪ q.right.tagsOf ∪ tableTags tags))
    (fun a qs ha hqs q' hq' => compatQueries_lt hU a qs ha hqs q' hq') q ⟨?_, ?_⟩
  · exact Finset.subset_union_left.trans Finset.subset_union_left
  · exact Finset.subset_union_right.trans Finset.subset_union_left

/-! ## Reflexivity -/

theorem areTagsCompat_self (x : CId) : areTagsCompat x x = true := by
  cases x <;> simp [areTagsCompat]

theorem areIntsCompat_self (i : IntType) : areIntsCompat i i = true := by
  cases i <;> rfl

theorem areBasicCompat_self (b : SimpleBasicType) : areBasicCompat b b = true := by
  cases b <;> simp [areBasicCompat, areIntsCompat_self]

theorem areArrayKindsCompat_self (k : ArrayKind) : areArrayKindsCompat k k = true := by
  cases k <;> simp [areArrayKindsCompat]

theorem paramQueries_self (c : List (TagId × TagId)) (L : List ParamDecl) :
    ∃ qs, paramQueries c L L = some qs := by
  induction L with
  | nil => exact ⟨[], rfl⟩
  | cons p L ih =>
    obtain ⟨qs, hqs⟩ := ih
    cases hp : p.declared with
    | none => exact ⟨qs, by simp [paramQueries, hp, hqs]⟩
    | some T => exact ⟨_, by simp only [paramQueries, hp, hqs, Option.map_some]; rfl⟩

/-- A comparison of a type with itself goes on with smaller types compared with themselves. -/
theorem compatQueries_self (c : List (TagId × TagId)) (T : CType) :
    ∃ qs, compatQueries cfg tags ⟨c, T, T⟩ = some qs ∧
      ∀ q ∈ qs, q.left = q.right ∧ q.left.size < T.size := by
  obtain ⟨Q, m, st⟩ := T
  cases st with
  | array k T =>
    refine ⟨[⟨c, T, T⟩], by simp [compatQueries, areArrayKindsCompat_self], ?_⟩
    intro q hq
    obtain rfl := List.mem_singleton.mp hq
    exact ⟨rfl, by simp only [CType.size, SimpleType.size]; omega⟩
  | nonArray n =>
    cases n with
    | basic b => exact ⟨[], by simp [compatQueries, nonArrayQueries, onlyIf, areBasicCompat_self], by simp⟩
    | enumType s =>
      exact ⟨[], by simp [compatQueries, nonArrayQueries, onlyIf, areTagsCompat_self], by simp⟩
    | structType s => exact ⟨[], by simp [compatQueries, nonArrayQueries, taggedQueries], by simp⟩
    | unionType s => exact ⟨[], by simp [compatQueries, nonArrayQueries, taggedQueries], by simp⟩
    | pointerType T =>
      refine ⟨[⟨c, T, T⟩], by simp [compatQueries, nonArrayQueries], ?_⟩
      intro q hq
      obtain rfl := List.mem_singleton.mp hq
      exact ⟨rfl, by simp only [CType.size, SimpleType.size, SimpleNonArrayType.size]; omega⟩
    | functionType r ps =>
      obtain ⟨qs, hqs⟩ := paramQueries_self c ps
      refine ⟨⟨c, type r, type r⟩ :: qs, by simp [compatQueries, nonArrayQueries, functionQueries, hqs], ?_⟩
      intro q hq
      simp only [CType.size, SimpleType.size, SimpleNonArrayType.size]
      rcases List.mem_cons.mp hq with rfl | hmem
      · exact ⟨rfl, by rw [size_type]; omega⟩
      · obtain ⟨-, hsize, -, -, hrefl⟩ := mem_paramQueries hqs hmem
        exact ⟨hrefl rfl, by omega⟩

/-- **Every type is compatible with itself**, whatever is assumed about tags. -/
theorem decides_self (c : List (TagId × TagId)) (T : CType) :
    Decides (compatQueries cfg tags) ⟨c, T, T⟩ true := by
  induction hn : T.size using Nat.strongRecOn generalizing c T with
  | _ n ih =>
    subst hn
    obtain ⟨qs, hqs, hsub⟩ := @compatQueries_self cfg tags c T
    refine decides_true_iff.mpr ⟨qs, hqs, ?_⟩
    rintro ⟨c', L, R⟩ hq
    obtain ⟨heq, hlt⟩ := hsub _ hq
    have hLR : L = R := heq
    subst hLR
    exact ih L.size hlt c' L rfl

/-! ## Symmetry -/

/-- The comparison the other way round. -/
def CompatQuery.swap (q : CompatQuery) : CompatQuery := ⟨q.cache.map Prod.swap, q.right, q.left⟩

/-- A comparison and itself, or itself the other way round. -/
def SwapOrSame (q q' : CompatQuery) : Prop := q' = q ∨ q' = q.swap

theorem areTagsCompat_comm (x x' : CId) : areTagsCompat x x' = areTagsCompat x' x := by
  cases x <;> cases x' <;> simp [areTagsCompat, Bool.beq_comm]

theorem areCompatIds_comm (x x' : CId) : areCompatIds x x' = areCompatIds x' x := by
  rw [areCompatIds, areCompatIds, Bool.beq_comm, Bool.and_comm]

theorem areIntsCompat_comm (i i' : IntType) : areIntsCompat i i' = areIntsCompat i' i := by
  cases i <;> cases i' <;> rfl

theorem areBasicCompat_comm (b b' : SimpleBasicType) : areBasicCompat b b' = areBasicCompat b' b := by
  cases b <;> cases b' <;> simp [areBasicCompat, Bool.beq_comm, areIntsCompat_comm]

theorem areArrayKindsCompat_comm (k k' : ArrayKind) :
    areArrayKindsCompat k k' = areArrayKindsCompat k' k := by
  cases k <;> cases k' <;> simp [areArrayKindsCompat, Bool.beq_comm]

theorem paramQueries_swap (c : List (TagId × TagId)) (L L' : List ParamDecl) :
    paramQueries (c.map Prod.swap) L' L = (paramQueries c L L').map (List.map CompatQuery.swap) := by
  induction L generalizing L' with
  | nil => cases L' <;> rfl
  | cons p L ih =>
    cases L' with
    | nil => rfl
    | cons p' L' =>
      rw [paramQueries, paramQueries, ih L']
      cases hp : p.declared <;> cases hp' : p'.declared <;> simp [Option.map_map]
      cases paramQueries c L L' <;> simp [CompatQuery.swap]

theorem fieldQueries_swap (c : List (TagId × TagId)) (L L' : List (CType × CId)) :
    fieldQueries (c.map Prod.swap) L' L = (fieldQueries c L L').map (List.map CompatQuery.swap) := by
  induction L generalizing L' with
  | nil => cases L' <;> rfl
  | cons d L ih =>
    cases L' with
    | nil => rfl
    | cons d' L' =>
      obtain ⟨T, x⟩ := d
      obtain ⟨T', x'⟩ := d'
      rw [fieldQueries, fieldQueries, ih L', areCompatIds_comm x' x]
      split
      · cases fieldQueries c L L' <;> simp [CompatQuery.swap]
      · rfl

theorem taggedQueries_swap (c : List (TagId × TagId)) (m : Mods) (s : TagId) (m' : Mods)
    (s' : TagId) :
    taggedQueries tags (c.map Prod.swap) m' s' m s =
      (taggedQueries tags c m s m' s').map (List.map CompatQuery.swap) := by
  have hmem : (s', s) ∈ c.map Prod.swap ↔ (s, s') ∈ c := by
    constructor
    · intro h
      obtain ⟨⟨a, b⟩, hab, heq⟩ := List.mem_map.mp h
      cases heq
      exact hab
    · intro h
      exact List.mem_map.mpr ⟨(s, s'), h, rfl⟩
  unfold taggedQueries
  by_cases hcut : s = s' ∨ (s, s') ∈ c
  · rw [if_pos hcut, if_pos (by rw [hmem]; exact hcut.imp Eq.symm id)]
    rfl
  · rw [if_neg hcut, if_neg (by rw [hmem]; exact fun h => hcut (h.imp Eq.symm id))]
    rw [areTagsCompat_comm]
    split
    · have hcons : (s', s) :: c.map Prod.swap = ((s, s') :: c).map Prod.swap := rfl
      unfold structQueries
      rw [hcons, fieldQueries_swap, Bool.or_comm]
      split <;> rfl
    · rfl

/-- Queries and the same queries the other way round. -/
theorem rel_map_swap (x : Option (List CompatQuery)) :
    Option.Rel (List.Forall₂ SwapOrSame) x (x.map (List.map CompatQuery.swap)) := by
  cases x with
  | none => exact .none
  | some qs =>
    refine .some ?_
    rw [List.forall₂_map_right_iff]
    exact List.forall₂_same.mpr fun q _ => .inr rfl

theorem rel_refl (x : Option (List CompatQuery)) : Option.Rel (List.Forall₂ SwapOrSame) x x := by
  cases x with
  | none => exact .none
  | some qs => exact .some (List.forall₂_same.mpr fun q _ => .inl rfl)

/-- The promotions are checked the same way, only the last comparison is turned round. -/
theorem rel_append_swap (x : Option (List CompatQuery)) (q : CompatQuery) :
    Option.Rel (List.Forall₂ SwapOrSame) (x.map (· ++ [q])) (x.map (· ++ [q.swap])) := by
  cases x with
  | none => exact .none
  | some qs =>
    refine .some (List.rel_append (List.forall₂_same.mpr fun q _ => .inl rfl) ?_)
    exact .cons (.inr rfl) .nil

theorem functionQueries_swap (c : List (TagId × TagId)) (r : UType) (ps : List ParamDecl)
    (r' : UType) (ps' : List ParamDecl) :
    Option.Rel (List.Forall₂ SwapOrSame) (functionQueries cfg tags c r ps r' ps')
      (functionQueries cfg tags (c.map Prod.swap) r' ps' r ps) := by
  unfold functionQueries
  by_cases hlen : ps.length = ps'.length
  · rw [if_pos hlen, if_pos hlen.symm, paramQueries_swap, Option.map_map]
    have := rel_map_swap ((paramQueries c ps ps').map (⟨c, type r, type r'⟩ :: ·))
    rw [Option.map_map] at this
    exact this
  · have hlen' : ¬ ps'.length = ps.length := fun h => hlen h.symm
    simp only [if_neg hlen, if_neg hlen']
    -- the two rules for an empty list of parameters change places
    by_cases h1 : ps = [] ∧ ParamDecl.variadic ∉ ps'
    · have h2 : ¬(ps' = [] ∧ ParamDecl.variadic ∉ ps) := by
        rintro ⟨rfl, -⟩
        exact hlen (by rw [h1.1])
      rw [if_pos h1, if_neg h2, if_pos h1]
      exact rel_append_swap _ ⟨c, type r, type r'⟩
    · rw [if_neg h1]
      by_cases h2 : ps' = [] ∧ ParamDecl.variadic ∉ ps
      · rw [if_pos h2, if_pos h2]
        exact rel_append_swap _ ⟨c, type r, type r'⟩
      · rw [if_neg h2, if_neg h2, if_neg h1]
        exact .none

/-- **A comparison turned round expands to the same comparisons**, turned round or not. -/
theorem compatQueries_swap (q : CompatQuery) :
    Option.Rel (List.Forall₂ SwapOrSame) (compatQueries cfg tags q) (compatQueries cfg tags q.swap) := by
  obtain ⟨c, L, R⟩ := q
  obtain ⟨Q, m, st⟩ := L
  obtain ⟨Q', m', st'⟩ := R
  simp only [compatQueries, CompatQuery.swap]
  by_cases hQ : Q = Q'
  · subst hQ
    rw [if_pos rfl, if_pos rfl]
    cases st with
    | array k T =>
      cases st' with
      | nonArray n' => exact .none
      | array k' T' =>
        simp only [areArrayKindsCompat_comm k' k]
        split
        · exact rel_map_swap (some [⟨c, T, T'⟩])
        · exact .none
    | nonArray n =>
      cases st' with
      | array k' T' => exact .none
      | nonArray n' =>
        simp only
        cases n with
        | basic b =>
          cases n' with
          | basic b' =>
            rw [nonArrayQueries, nonArrayQueries, areBasicCompat_comm b' b]
            exact rel_refl _
          | enumType s => cases b <;> exact rel_refl _
          | _ => cases b <;> exact .none
        | enumType s =>
          cases n' with
          | basic b' => cases b' <;> exact rel_refl _
          | enumType s' =>
            rw [nonArrayQueries, nonArrayQueries, areTagsCompat_comm s'.name s.name]
            exact rel_refl _
          | _ => exact .none
        | structType s =>
          cases n' with
          | structType s' =>
            rw [nonArrayQueries, nonArrayQueries, taggedQueries_swap]
            exact rel_map_swap _
          | basic b' => cases b' <;> exact .none
          | _ => exact .none
        | unionType s =>
          cases n' with
          | unionType s' =>
            rw [nonArrayQueries, nonArrayQueries, taggedQueries_swap]
            exact rel_map_swap _
          | basic b' => cases b' <;> exact .none
          | _ => exact .none
        | pointerType T =>
          cases n' with
          | pointerType T' => exact rel_map_swap (some [⟨c, T, T'⟩])
          | basic b' => cases b' <;> exact .none
          | _ => exact .none
        | functionType r ps =>
          cases n' with
          | functionType r' ps' => exact functionQueries_swap c r ps r' ps'
          | basic b' => cases b' <;> exact .none
          | _ => exact .none
  · rw [if_neg hQ, if_neg fun h => hQ h.symm]
    exact .none

theorem decides_swap (q : CompatQuery) (b : Bool) :
    Decides (compatQueries cfg tags) q b ↔ Decides (compatQueries cfg tags) q.swap b := by
  refine decides_rel (R := SwapOrSame) ?_ (.inr rfl)
  rintro a a' (rfl | rfl)
  · exact rel_refl _
  · exact compatQueries_swap a

end Steps

/-- **Compatibility is decided, reflexive and symmetric**: for every pair of types, however their
    structs and unions refer to each other, `areCompatible` ends with exactly one answer, says yes
    to a type and itself, and gives the same answer the other way round. -/
theorem areCompatible_equiv (cfg : Settings) (tags : Tags) (T T' : CType) :
    (∃ b, AreCompatible cfg tags T T' b ∧ ∀ c, AreCompatible cfg tags T T' c → c = b) ∧
    AreCompatible cfg tags T T true ∧
    ∀ b, AreCompatible cfg tags T T' b ↔ AreCompatible cfg tags T' T b := by
  refine ⟨?_, decides_self [] T, fun b => decides_swap ⟨[], T, T'⟩ b⟩
  obtain ⟨b, hb⟩ := compatQueries_decides cfg tags ⟨[], T, T'⟩
  exact ⟨b, hb, fun c hc => hc.unique hb⟩

end CSemantics
