/-
  The active members of unions.

  The effective type of an object records, inside the type, which member of each union is active:
  a union carries its active member, the members of a struct and the elements of an array have types
  of their own once they differ from the declared ones.  An access `u.F` calls
  `setVariantAtOffset(T, F, o)` on the type `T` of the whole object, with the offset `o` of `u` in it,
  and `getTypesAtOffset` lists what is at an offset, from the outside in, through active members.

  The union that is meant is given by an offset and a name only, and everything that starts at the
  offset shares it.  The walk down to it takes

      in an array                 the element at the offset
      in a struct, offset > 0     the last member that starts at or before the offset
      in a struct, offset 0       nothing, when the struct has a member F itself;
                                  what `getUnnamed` finds, when F is in an anonymous member;
                                  the first member otherwise
      in a union, offset > 0      the active member
      in a union, offset 0        what `getUnnamed` finds, when F is in an anonymous member;
                                  the active member, when F is a flat member of it;
                                  and else the union itself: F becomes its active member

  and so does not get to every union.  `Reaches` says of each step towards a union what it takes to be
  the step the walk makes; where all are, the walk arrives (`Reaches.sound`), and what lies outside
  the union stays as it was (`Reaches.frame`).  It arrives nowhere else: where the union has got its
  active member, each step was one towards it (`reaches_iff_placed`).
-/
import CSemantics.Alignment

namespace CSemantics.Effective

/-! ## Types with their variants -/

mutual

/--
A type of an object, and what is recorded in it about variants.  The members of a struct or a union
are those of the tag, or of the `fieldInfo` that an access puts into the type.
-/
inductive EType
  /-- anything but an array, a struct or a union -/
  | scalar (T : CType)
  /-- `arrayType(T, N)`, with the `elementTypes` by bit offset -/
  | array (q : Quals) (len : ℕ) (elem : EType) (elems : Elems)
  | struct (q : Quals) (tag : TagId) (size : Int) (fields : Fields)
  /-- a union, with its `activeVariant` -/
  | union (q : Quals) (tag : TagId) (size : Int) (fields : Fields) (active : Option CId)

/-- The members in order, each with its bit offset and its type. -/
inductive Fields
  | nil
  | cons (F : CId) (offset : Int) (T : EType) (rest : Fields)

/-- The types of elements by their bit offset. -/
inductive Elems
  | nil
  | cons (k : Int) (T : EType) (rest : Elems)

end

deriving instance DecidableEq for EType, Fields, Elems

/-! ## The code -/

/-- `getFieldType'`; `none` is `no-type`. -/
def Fields.type (F : CId) : Fields → Option EType
  | .nil => none
  | .cons G _ T rest => if G = F then some T else rest.type F

/-- `getFieldOffset'` -/
def Fields.offset (F : CId) : Fields → Option Int
  | .nil => none
  | .cons G o _ rest => if G = F then some o else rest.offset F

/-- `getFieldAtOffset'`: the last member that starts at or before the offset. -/
def Fields.atOffset (r : Int) : Fields → Option CId
  | .nil => none
  | .cons G o _ rest =>
    match rest.atOffset r with
    | some H => some H
    | none => if o ≤ r then some G else none

/-- `setFieldType'`; a name that is no member has no type to replace. -/
def Fields.set (F : CId) (T' : EType) : Fields → Fields
  | .nil => .nil
  | .cons G o T rest => if G = F then .cons G o T' rest else .cons G o T (rest.set F T')

def Elems.lookup (k : Int) : Elems → Option EType
  | .nil => none
  | .cons k' T rest => if k' = k then some T else rest.lookup k

/-- `ETs[k <- T]` -/
def Elems.set (k : Int) (T' : EType) : Elems → Elems
  | .nil => .cons k T' .nil
  | .cons k' T rest => if k' = k then .cons k' T' rest else .cons k' T (rest.set k T')

mutual

/-- `findFieldOffset(F, T)`, through anonymous members; `none` where `findFieldType` is `no-type`. -/
def EType.findFieldOffset (F : CId) : EType → Option Int
  | .struct _ _ _ fields => fields.findFieldOffset F
  | .union _ _ _ fields _ => fields.findFieldOffset F
  | _ => none

def Fields.findFieldOffset (F : CId) : Fields → Option Int
  | .nil => none
  | .cons G o T rest =>
    match T with
    | .struct _ _ _ fields =>
      if G.isNoName then ((fields.findFieldOffset F).map (· + o)).or (rest.findFieldOffset F)
      else if G = F then some o else rest.findFieldOffset F
    | .union _ _ _ fields _ =>
      if G.isNoName then ((fields.findFieldOffset F).map (· + o)).or (rest.findFieldOffset F)
      else if G = F then some o else rest.findFieldOffset F
    | _ => if G = F then some o else rest.findFieldOffset F

end

/-- `getUnnamed(F, T)` -/
def Fields.getUnnamed (F : CId) (fields : Fields) : Option CId :=
  (fields.findFieldOffset F).bind fields.atOffset

mutual

/-- `clearActiveVariant`: of a union, and of the unions that are its members. -/
def EType.clear : EType → EType
  | .union q tag size fields _ => .union q tag size fields.clear none
  | T => T

def Fields.clear : Fields → Fields
  | .nil => .nil
  | .cons F o T rest => .cons F o T.clear rest.clear

end

section Code

variable (bits : UType → Int)

/-- `bitSizeofType`, where `bits` is the size of what is not an array, a struct or a union. -/
def EType.size : EType → Int
  | .scalar T => bits (utype T)
  | .array _ len elem _ => elem.size * len
  | .struct _ _ size _ => size
  | .union _ _ size _ _ => size

mutual

/-- `setVariantAtOffset(T, F, Offset)` -/
def EType.setVariantAtOffset (F : CId) : EType → Int → EType
  | .scalar T, _ => .scalar T
  | .array q len elem elems, r =>
    if 0 < elem.size bits then
      let T' := (elems.variantAt F (r / elem.size bits * elem.size bits) (r % elem.size bits)).getD
        (elem.setVariantAtOffset F (r % elem.size bits))
      -- `setElementType` records no type that is the declared one
      if T' = elem then .array q len elem elems
      else .array q len elem (elems.set (r / elem.size bits * elem.size bits) T')
    else .array q len elem elems
  | .struct q tag size fields, r =>
    if r ≠ 0 then
      match fields.atOffset r with
      | some G => .struct q tag size (fields.setVariant F G (r - (fields.offset G).getD 0))
      | none => .struct q tag size fields
    else if (fields.type F).isSome then .struct q tag size fields
    else if (fields.findFieldOffset F).isSome then
      match fields.getUnnamed F with
      | some G => .struct q tag size (fields.setVariant F G 0)
      | none => .struct q tag size fields
    else
      match fields.atOffset 0 with
      | some G => .struct q tag size (fields.setVariant F G 0)
      | none => .struct q tag size fields
  | .union q tag size fields active, r =>
    if r ≠ 0 then
      match active with
      | some A => .union q tag size (fields.setVariant F A r) active
      | none => .union q tag size fields active
    else if (fields.type F).isNone ∧ (fields.findFieldOffset F).isSome then
      match fields.getUnnamed F with
      | some G =>
        match fields.variantOf F G 0 with
        | some T' => .union q tag size (fields.clear.set G T') (some G)
        | none => .union q tag size fields.clear (some G)
      | none => .union q tag size fields active
    else
      match active.bind fields.type with
      | none =>
        if (fields.type F).isSome then .union q tag size fields.clear (some F)
        else .union q tag size fields active
      | some X =>
        if (X.findFieldOffset F).isSome then
          match active with
          | some A => .union q tag size (fields.setVariant F A 0) active
          | none => .union q tag size fields active
        else .union q tag size fields.clear (some F)

/-- The members, with the variant of `F` set in the type of the member `G`. -/
def Fields.setVariant (F G : CId) (r : Int) : Fields → Fields
  | .nil => .nil
  | .cons H o T rest =>
    if H = G then .cons H o (T.setVariantAtOffset F r) rest else .cons H o T (rest.setVariant F G r)

/-- The type of the member `G` with the variant of `F` set. -/
def Fields.variantOf (F G : CId) (r : Int) : Fields → Option EType
  | .nil => none
  | .cons H _ T rest => if H = G then some (T.setVariantAtOffset F r) else rest.variantOf F G r

/-- The recorded type of the element at `k` with the variant of `F` set. -/
def Elems.variantAt (F : CId) (k r : Int) : Elems → Option EType
  | .nil => none
  | .cons k' T rest => if k' = k then some (T.setVariantAtOffset F r) else rest.variantAt F k r

end

/-- `addQualifiers(Qs, T)` -/
def EType.addQualifiers (qs : Quals) : EType → EType
  | .scalar T => .scalar (CSemantics.addQualifiers qs T)
  | .array q len elem elems => .array q len (elem.addQualifiers qs) elems
  | .struct q tag size fields => .struct (q.plus qs) tag size fields
  | .union q tag size fields active => .union (q.plus qs) tag size fields active

/-- An offset behind the end of an object is one in the next of the same type. -/
def wrap (size r : Int) : Int := if 0 < size ∧ size ≤ r then r % size else r

mutual

/-- `getTypesAtOffset(addQualifiers(Qs, T), Offset)` -/
def EType.typesAt (qs : Quals) : EType → Int → List EType
  | .scalar T, r =>
    if wrap (bits (utype T)) r = 0 then
      match CSemantics.addQualifiers qs T with
      | .t q m (.nonArray (.basic (.bitfieldType i n))) =>
        [.scalar (.t q m (.nonArray (.basic (.bitfieldType i n)))),
          .scalar (.t q noMods (.nonArray (.basic (.integer i))))]
      | T' => [.scalar T']
    else []
  | .array q len elem elems, r =>
    let r := wrap (elem.size bits * len) r
    let inner := (elems.typesAt q (r / elem.size bits * elem.size bits) (r % elem.size bits)).getD
      (elem.typesAt (qs.plus q) (r % elem.size bits))
    if r = 0 then .array q len (elem.addQualifiers qs) elems :: inner
    else if 0 < r ∧ r < elem.size bits * len ∧ 0 < elem.size bits then inner
    else []
  | .struct q tag size fields, r =>
    let r := wrap size r
    let inner :=
      match fields.atOffset r with
      | some G => fields.typesAt (q.plus qs) G (r - (fields.offset G).getD 0)
      | none => []
    if r = 0 then .struct (q.plus qs) tag size fields :: inner
    else if 0 < r ∧ r < size then inner
    else []
  | .union q tag size fields active, r =>
    let r := wrap size r
    let inner :=
      match active with
      | some A => fields.typesAt (q.plus qs) A r
      | none => []
    if r = 0 then .union (q.plus qs) tag size fields active :: inner
    else if 0 < r ∧ r < size then inner
    else []

/-- The types at an offset of the member `G`. -/
def Fields.typesAt (qs : Quals) (G : CId) (r : Int) : Fields → List EType
  | .nil => []
  | .cons H _ T rest => if H = G then T.typesAt qs r else rest.typesAt qs G r

/-- The types at an offset of the element at `k`, if its type is recorded. -/
def Elems.typesAt (qs : Quals) (k r : Int) : Elems → Option (List EType)
  | .nil => none
  | .cons k' T rest => if k' = k then some (T.typesAt qs r) else rest.typesAt qs k r

end

/-- `getTypesAtOffset(T, Offset)` -/
def EType.getTypesAtOffset (T : EType) (r : Int) : List EType := T.typesAt bits noQuals r

end Code

/-! ## What an access changes

  Setting a variant replaces the types of members and elements by types that are declared the same. -/

mutual

/-- The type as it was declared, without variants. -/
def EType.declared : EType → EType
  | .scalar T => .scalar T
  | .array q len elem _ => .array q len elem.declared .nil
  | .struct q tag size fields => .struct q tag size fields.declared
  | .union q tag size fields _ => .union q tag size fields.declared none

def Fields.declared : Fields → Fields
  | .nil => .nil
  | .cons F o T rest => .cons F o T.declared rest.declared

end

section Proofs

variable {bits : UType → Int} {F : CId}

theorem EType.size_declared : ∀ T : EType, T.declared.size bits = T.size bits
  | .scalar T => rfl
  | .array q len elem elems => by
    rw [EType.declared, EType.size, EType.size, EType.size_declared elem]
  | .struct q tag size fields => rfl
  | .union q tag size fields active => rfl

theorem EType.size_eq {T T' : EType} (h : T.declared = T'.declared) : T.size bits = T'.size bits := by
  rw [← EType.size_declared T, h, EType.size_declared T']

/-! ### The members of a record -/

theorem Fields.type_setVariant (F G H : CId) (r : Int) : ∀ fields : Fields,
    (fields.setVariant bits F G r).type H =
      if G = H then (fields.type H).map (·.setVariantAtOffset bits F r) else fields.type H
  | .nil => by simp [Fields.setVariant, Fields.type]
  | .cons K o T rest => by
    have ih := Fields.type_setVariant F G H r rest
    by_cases hKG : K = G
    · subst hKG
      by_cases hKH : K = H
      · simp [Fields.setVariant, Fields.type, hKH]
      · simp [Fields.setVariant, Fields.type, hKH]
    · by_cases hKH : K = H
      · subst hKH
        simp [Fields.setVariant, Fields.type, hKG, Ne.symm hKG]
      · simp [Fields.setVariant, Fields.type, hKG, hKH, ih]

theorem Fields.offset_setVariant (F G H : CId) (r : Int) : ∀ fields : Fields,
    (fields.setVariant bits F G r).offset H = fields.offset H
  | .nil => rfl
  | .cons K o T rest => by
    have ih := Fields.offset_setVariant F G H r rest
    by_cases hKG : K = G
    · simp [Fields.setVariant, Fields.offset, hKG]
    · simp [Fields.setVariant, Fields.offset, hKG, ih]

theorem Fields.atOffset_setVariant (F G : CId) (r p : Int) : ∀ fields : Fields,
    (fields.setVariant bits F G r).atOffset p = fields.atOffset p
  | .nil => rfl
  | .cons K o T rest => by
    have ih := Fields.atOffset_setVariant F G r p rest
    by_cases hKG : K = G
    · simp [Fields.setVariant, Fields.atOffset, hKG]
    · simp [Fields.setVariant, Fields.atOffset, hKG, ih]

theorem Fields.variantOf_eq (F G : CId) (r : Int) : ∀ fields : Fields,
    fields.variantOf bits F G r = (fields.type G).map (·.setVariantAtOffset bits F r)
  | .nil => rfl
  | .cons K o T rest => by
    have ih := Fields.variantOf_eq F G r rest
    by_cases hKG : K = G
    · simp [Fields.variantOf, Fields.type, hKG]
    · simp [Fields.variantOf, Fields.type, hKG, ih]

theorem Fields.type_clear (G : CId) : ∀ fields : Fields, fields.clear.type G = (fields.type G).map EType.clear
  | .nil => rfl
  | .cons K o T rest => by
    have ih := Fields.type_clear G rest
    by_cases hKG : K = G
    · simp [Fields.clear, Fields.type, hKG]
    · simp [Fields.clear, Fields.type, hKG, ih]

theorem Fields.type_set (G H : CId) (T' : EType) : ∀ fields : Fields,
    (fields.set G T').type H = if G = H then (fields.type H).map fun _ => T' else fields.type H
  | .nil => by simp [Fields.set, Fields.type]
  | .cons K o T rest => by
    have ih := Fields.type_set G H T' rest
    by_cases hKG : K = G
    · subst hKG
      by_cases hKH : K = H
      · simp [Fields.set, Fields.type, hKH]
      · simp [Fields.set, Fields.type, hKH]
    · by_cases hKH : K = H
      · subst hKH
        simp [Fields.set, Fields.type, hKG, Ne.symm hKG]
      · simp [Fields.set, Fields.type, hKG, hKH, ih]

theorem Fields.typesAt_eq (qs : Quals) (G : CId) (r : Int) : ∀ fields : Fields,
    fields.typesAt bits qs G r = ((fields.type G).map (·.typesAt bits qs r)).getD []
  | .nil => rfl
  | .cons K o T rest => by
    have ih := Fields.typesAt_eq qs G r rest
    by_cases hKG : K = G
    · simp [Fields.typesAt, Fields.type, hKG]
    · simp [Fields.typesAt, Fields.type, hKG, ih]

theorem Elems.variantAt_eq (F : CId) (k r : Int) : ∀ elems : Elems,
    elems.variantAt bits F k r = (elems.lookup k).map (·.setVariantAtOffset bits F r)
  | .nil => rfl
  | .cons k' T rest => by
    have ih := Elems.variantAt_eq F k r rest
    by_cases hk : k' = k
    · simp [Elems.variantAt, Elems.lookup, hk]
    · simp [Elems.variantAt, Elems.lookup, hk, ih]

theorem Elems.typesAt_eq (qs : Quals) (k r : Int) : ∀ elems : Elems,
    elems.typesAt bits qs k r = (elems.lookup k).map (·.typesAt bits qs r)
  | .nil => rfl
  | .cons k' T rest => by
    have ih := Elems.typesAt_eq qs k r rest
    by_cases hk : k' = k
    · simp [Elems.typesAt, Elems.lookup, hk]
    · simp [Elems.typesAt, Elems.lookup, hk, ih]

theorem Elems.lookup_set (k k' : Int) (T' : EType) : ∀ elems : Elems,
    (elems.set k T').lookup k' = if k = k' then some T' else elems.lookup k'
  | .nil => by simp [Elems.set, Elems.lookup]
  | .cons j T rest => by
    have ih := Elems.lookup_set k k' T' rest
    by_cases hjk : j = k
    · subst hjk
      by_cases hjk' : j = k'
      · simp [Elems.set, Elems.lookup, hjk']
      · simp [Elems.set, Elems.lookup, hjk']
    · by_cases hjk' : j = k'
      · subst hjk'
        simp [Elems.set, Elems.lookup, hjk, Ne.symm hjk]
      · simp [Elems.set, Elems.lookup, hjk, hjk', ih]

/-! ### One step of the walk -/

/-- In a struct the walk goes into one member, or nowhere. -/
theorem setVariant_struct (q : Quals) (tag : TagId) (n : Int) (fields : Fields) (r : Int) :
    ∃ fields', (EType.struct q tag n fields).setVariantAtOffset bits F r = .struct q tag n fields' ∧
      (fields' = fields ∨ ∃ G r', fields' = fields.setVariant bits F G r') := by
  simp only [EType.setVariantAtOffset]
  split
  · split
    · exact ⟨_, rfl, .inr ⟨_, _, rfl⟩⟩
    · exact ⟨_, rfl, .inl rfl⟩
  · split
    · exact ⟨_, rfl, .inl rfl⟩
    · split
      all_goals
        split
        · exact ⟨_, rfl, .inr ⟨_, _, rfl⟩⟩
        · exact ⟨_, rfl, .inl rfl⟩

/-- In a union it goes into one member, or makes one active and clears the others, or both. -/
theorem setVariant_union (q : Quals) (tag : TagId) (n : Int) (fields : Fields) (active : Option CId)
    (r : Int) :
    ∃ fields' active', (EType.union q tag n fields active).setVariantAtOffset bits F r =
        .union q tag n fields' active' ∧
      (fields' = fields ∨ fields' = fields.clear ∨ (∃ G r', fields' = fields.setVariant bits F G r') ∨
        ∃ G X, fields.type G = some X ∧ fields' = fields.clear.set G (X.setVariantAtOffset bits F 0)) := by
  simp only [EType.setVariantAtOffset]
  split
  · split
    · exact ⟨_, _, rfl, .inr (.inr (.inl ⟨_, _, rfl⟩))⟩
    · exact ⟨_, _, rfl, .inl rfl⟩
  · split
    · split
      · split
        · rename_i T' hT'
          rw [Fields.variantOf_eq] at hT'
          obtain ⟨X, hX, rfl⟩ := Option.map_eq_some_iff.mp hT'
          exact ⟨_, _, rfl, .inr (.inr (.inr ⟨_, X, hX, rfl⟩))⟩
        · exact ⟨_, _, rfl, .inr (.inl rfl)⟩
      · exact ⟨_, _, rfl, .inl rfl⟩
    · split
      · split
        · exact ⟨_, _, rfl, .inr (.inl rfl)⟩
        · exact ⟨_, _, rfl, .inl rfl⟩
      · split
        · split
          · exact ⟨_, _, rfl, .inr (.inr (.inl ⟨_, _, rfl⟩))⟩
          · exact ⟨_, _, rfl, .inl rfl⟩
        · exact ⟨_, _, rfl, .inr (.inl rfl)⟩

/-- In an array it goes into one element. -/
theorem setVariant_array (q : Quals) (len : ℕ) (elem : EType) (elems : Elems) (r : Int) :
    (EType.array q len elem elems).setVariantAtOffset bits F r = .array q len elem elems ∨
      ∃ k, (EType.array q len elem elems).setVariantAtOffset bits F r =
        .array q len elem (elems.set k (((elems.lookup k).getD elem).setVariantAtOffset bits F
          (r % elem.size bits))) := by
  simp only [EType.setVariantAtOffset]
  split
  · split
    · exact .inl rfl
    · refine .inr ⟨r / elem.size bits * elem.size bits, ?_⟩
      rw [Elems.variantAt_eq]
      cases elems.lookup (r / elem.size bits * elem.size bits) <;> rfl
  · exact .inl rfl

mutual

theorem EType.declared_clear : ∀ T : EType, T.clear.declared = T.declared
  | .scalar T => rfl
  | .array q len elem elems => rfl
  | .struct q tag size fields => rfl
  | .union q tag size fields active => by
    rw [EType.clear, EType.declared, EType.declared, Fields.declared_clear fields]

theorem Fields.declared_clear : ∀ fields : Fields, fields.clear.declared = fields.declared
  | .nil => rfl
  | .cons F o T rest => by
    rw [Fields.clear, Fields.declared, Fields.declared, EType.declared_clear T, Fields.declared_clear rest]

end

theorem Fields.declared_set {G : CId} {X T' : EType} (hT' : T'.declared = X.declared) :
    ∀ fields : Fields, fields.type G = some X → (fields.set G T').declared = fields.declared
  | .nil, _ => rfl
  | .cons K o T rest, h => by
    by_cases hKG : K = G
    · simp only [Fields.type, hKG, if_true, Option.some.injEq] at h
      simp [Fields.set, Fields.declared, hKG, hT', h]
    · simp only [Fields.type, hKG, if_false] at h
      simp [Fields.set, Fields.declared, hKG, Fields.declared_set hT' rest h]

theorem Fields.declared_type {G : CId} {X Y : EType} : ∀ fields fields' : Fields,
    fields.declared = fields'.declared → fields.type G = some X → fields'.type G = some Y →
    X.declared = Y.declared
  | .nil, _, _, hX, _ => by cases hX
  | .cons K o T rest, .nil, h, _, _ => by cases h
  | .cons K o T rest, .cons K' o' T' rest', h, hX, hY => by
    simp only [Fields.declared, Fields.cons.injEq] at h
    obtain ⟨rfl, -, hT, hrest⟩ := h
    by_cases hKG : K = G
    · simp only [Fields.type, hKG, if_true, Option.some.injEq] at hX hY
      rw [← hX, ← hY, hT]
    · simp only [Fields.type, hKG, if_false] at hX hY
      exact Fields.declared_type rest rest' hrest hX hY

mutual

/-- **An access changes no declared type.** -/
theorem EType.declared_setVariant (F : CId) : ∀ (T : EType) (r : Int),
    (T.setVariantAtOffset bits F r).declared = T.declared
  | .scalar T, r => by rw [EType.setVariantAtOffset]
  | .array q len elem elems, r => by
    rcases @setVariant_array bits F q len elem elems r with h | ⟨k, h⟩
    · rw [h]
    · rw [h, EType.declared, EType.declared]
  | .struct q tag n fields, r => by
    obtain ⟨fields', h, rfl | ⟨G, r', rfl⟩⟩ := @setVariant_struct bits F q tag n fields r
    · rw [h]
    · rw [h, EType.declared, EType.declared, Fields.declared_setVariant F G fields r']
  | .union q tag n fields active, r => by
    obtain ⟨fields', active', h, rfl | rfl | ⟨G, r', rfl⟩ | ⟨G, X, hX, rfl⟩⟩ :=
      @setVariant_union bits F q tag n fields active r
    · rw [h, EType.declared, EType.declared]
    · rw [h, EType.declared, EType.declared, Fields.declared_clear]
    · rw [h, EType.declared, EType.declared, Fields.declared_setVariant F G fields r']
    · have hclear : fields.clear.type G = some X.clear := by rw [Fields.type_clear, hX]; rfl
      have hX' := Fields.declared_type_setVariant F G fields X hX
      rw [← EType.declared_clear X] at hX'
      rw [h, EType.declared, EType.declared, Fields.declared_set hX' fields.clear hclear, Fields.declared_clear]

theorem Fields.declared_setVariant (F G : CId) : ∀ (fields : Fields) (r : Int),
    (fields.setVariant bits F G r).declared = fields.declared
  | .nil, r => by rw [Fields.setVariant]
  | .cons K o T rest, r => by
    by_cases hKG : K = G
    · simp [Fields.setVariant, Fields.declared, hKG, EType.declared_setVariant F T r]
    · simp [Fields.setVariant, Fields.declared, hKG, Fields.declared_setVariant F G rest r]

theorem Fields.declared_type_setVariant (F G : CId) : ∀ (fields : Fields) (X : EType),
    fields.type G = some X → (X.setVariantAtOffset bits F 0).declared = X.declared
  | .nil, X, h => by cases h
  | .cons K o T rest, X, h => by
    by_cases hKG : K = G
    · simp only [Fields.type, hKG, if_true, Option.some.injEq] at h
      rw [← h]
      exact EType.declared_setVariant F T 0
    · simp only [Fields.type, hKG, if_false] at h
      exact Fields.declared_type_setVariant F G rest X h

end

end Proofs

/-! ## Types as they are laid out -/

/-- The names of the members are different. -/
def Fields.Named : Fields → Prop
  | .nil => True
  | .cons F _ _ rest => rest.type F = none ∧ rest.Named

section Layout

variable (bits : UType → Int)

/-- The members of a struct lie behind each other in `[lo, n)`. -/
def Fields.Ordered (n : Int) : Int → Fields → Prop
  | lo, .nil => lo ≤ n
  | lo, .cons _ o T rest => lo ≤ o ∧ 0 ≤ T.size bits ∧ rest.Ordered n (o + T.size bits)

/-- The members of a union lie over each other in `[0, n)`. -/
def Fields.Overlaid (n : Int) : Fields → Prop
  | .nil => True
  | .cons _ o T rest => o = 0 ∧ T.size bits ≤ n ∧ rest.Overlaid n

mutual

/-- Members do not overlap but in unions, and the types of elements are variants of the declared one. -/
def EType.WF : EType → Prop
  | .scalar _ => True
  | .array _ _ elem elems => elem.WF ∧ elem.declared = elem ∧ elems.WF elem
  | .struct _ _ n fields => fields.WF ∧ fields.Named ∧ fields.Ordered bits n 0
  | .union _ _ n fields _ => fields.WF ∧ fields.Named ∧ fields.Overlaid bits n

def Fields.WF : Fields → Prop
  | .nil => True
  | .cons _ _ T rest => T.WF ∧ rest.WF

def Elems.WF (elem : EType) : Elems → Prop
  | .nil => True
  | .cons _ T rest => T.WF ∧ T.declared = elem ∧ rest.WF elem

end

/-- `U` is a union at the offset `o` in `T`, in the active member of each union around it. -/
inductive Sub : EType → Int → EType → Prop
  | here {q tag n fields active} : Sub (.union q tag n fields active) 0 (.union q tag n fields active)
  | field {q tag n fields G g X r U} (type : fields.type G = some X) (offset : fields.offset G = some g)
      (sub : Sub X r U) : Sub (.struct q tag n fields) (g + r) U
  | elem {q len elem elems r U} (k : ℕ) (bound : k < len)
      (sub : Sub ((elems.lookup (k * elem.size bits)).getD elem) r U) :
      Sub (.array q len elem elems) (k * elem.size bits + r) U
  | active {q tag n fields A X r U} (type : fields.type A = some X) (sub : Sub X r U) :
      Sub (.union q tag n fields (some A)) r U

/-- `getFieldType(F, T)` -/
def EType.fieldType (F : CId) : EType → Option EType
  | .struct _ _ _ fields => fields.type F
  | .union _ _ _ fields _ => fields.type F
  | _ => none

/-- An offset is one of the bits of `U`, which is at `r`. -/
def EType.Covers (U : EType) (r p : Int) : Prop := r ≤ p ∧ p < r + U.size bits

/--
`U` is a union with the member `F` at the offset `o` in `T`, which has the qualifiers `qs` from around
it, and what the walk from `T` with `F` and `o` does at each type on the way is a step towards `U`.
With `whole`, what `getTypesAtOffset` finds elsewhere in `T` does not depend on `U` either.
-/
inductive Reaches (F : CId) (whole : Prop) : Quals → EType → Int → EType → Prop
  /-- `U` is not empty, and the active member has no member `F` of its own. -/
  | here {qs q tag n fields active} (nonempty : 0 < n) (member : (fields.type F).isSome)
      (other : ∀ A X, active = some A → fields.type A = some X → A = F ∨ X.findFieldOffset F = none) :
      Reaches F whole qs (.union q tag n fields active) 0 (.union q tag n fields active)
  /-- At offset 0 the struct has no member `F`, and if `F` is in an anonymous member then in this one. -/
  | field {qs q tag n fields G g X r U} (type : fields.type G = some X) (offset : fields.offset G = some g)
      (first : g + r = 0 → fields.type F = none ∧
        ((fields.findFieldOffset F).isSome → fields.getUnnamed F = some G))
      (apart : whole → ∀ p, p < n → fields.atOffset p = some G → X.size bits ≤ p - g →
        ¬ U.Covers bits r (wrap (X.size bits) (p - g)))
      (sub : Reaches F whole (q.plus qs) X r U) : Reaches F whole qs (.struct q tag n fields) (g + r) U
  /-- The element has a type of its own, or the array is in nothing qualified. -/
  | elem {qs q len elem elems r U} (k : ℕ) (bound : k < len)
      (plain : whole → (elems.lookup (k * elem.size bits)).isSome ∨ qs.plus q = q)
      (sub : Reaches F whole q ((elems.lookup (k * elem.size bits)).getD elem) r U) :
      Reaches F whole qs (.array q len elem elems) (k * elem.size bits + r) U
  /-- At offset 0 the union finds `F` in the active member, with or without `getUnnamed`. -/
  | active {qs q tag n fields A X r U} (type : fields.type A = some X)
      (first : r = 0 → if fields.type F = none ∧ (fields.findFieldOffset F).isSome
        then fields.getUnnamed F = some A else (X.findFieldOffset F).isSome)
      (apart : whole → ∀ p, p < n → X.size bits ≤ p → ¬ U.Covers bits r (wrap (X.size bits) p))
      (sub : Reaches F whole (q.plus qs) X r U) : Reaches F whole qs (.union q tag n fields (some A)) r U

end Layout

section Layout

variable {bits : UType → Int} {F : CId} {whole : Prop}

theorem Reaches.sub {qs : Quals} {T : EType} {o : Int} {U : EType} (h : Reaches bits F whole qs T o U) :
    Sub bits T o U := by
  induction h with
  | here => exact .here
  | field type offset _ _ _ ih => exact .field type offset ih
  | elem k bound _ _ ih => exact .elem k bound ih
  | active type _ _ _ ih => exact .active type ih

/-! ### Members in their places -/

theorem Fields.WF.type {G : CId} {X : EType} :
    ∀ {fields : Fields}, fields.WF bits → fields.type G = some X → X.WF bits
  | .cons K o T rest, h, hX => by
    by_cases hKG : K = G
    · simp only [Fields.type, hKG, if_true, Option.some.injEq] at hX
      exact hX ▸ h.1
    · simp only [Fields.type, hKG, if_false] at hX
      exact Fields.WF.type h.2 hX

theorem Elems.WF.lookup {k : Int} {elem X : EType} :
    ∀ {elems : Elems}, elems.WF bits elem → elems.lookup k = some X → X.WF bits ∧ X.declared = elem
  | .cons j T rest, h, hX => by
    by_cases hjk : j = k
    · simp only [Elems.lookup, hjk, if_true, Option.some.injEq] at hX
      exact hX ▸ ⟨h.1, h.2.1⟩
    · simp only [Elems.lookup, hjk, if_false] at hX
      exact Elems.WF.lookup h.2.2 hX

/-- The type of an element is well-formed and declared as the array says. -/
theorem Elems.WF.getD {k : Int} {elem : EType} {elems : Elems} (hwf : elem.WF bits)
    (hdecl : elem.declared = elem) (h : elems.WF bits elem) :
    ((elems.lookup k).getD elem).WF bits ∧ ((elems.lookup k).getD elem).declared = elem := by
  cases hl : elems.lookup k with
  | none => exact ⟨hwf, hdecl⟩
  | some X => exact Elems.WF.lookup h hl

theorem Fields.Ordered.le {n : Int} : ∀ {fields : Fields} {lo : Int}, fields.Ordered bits n lo → lo ≤ n
  | .nil, lo, h => h
  | .cons K o T rest, lo, h => by
    have := Fields.Ordered.le h.2.2
    have := h.1
    have := h.2.1
    omega

theorem Fields.Ordered.inside {n g : Int} {G : CId} {X : EType} : ∀ {fields : Fields} {lo : Int},
    fields.Ordered bits n lo → fields.type G = some X → fields.offset G = some g →
    lo ≤ g ∧ g + X.size bits ≤ n
  | .cons K o T rest, lo, h, hX, hg => by
    by_cases hKG : K = G
    · simp only [Fields.type, Fields.offset, hKG, if_true, Option.some.injEq] at hX hg
      subst hX
      subst hg
      exact ⟨h.1, Fields.Ordered.le h.2.2⟩
    · simp only [Fields.type, Fields.offset, hKG, if_false] at hX hg
      have ih := Fields.Ordered.inside h.2.2 hX hg
      have := h.1
      have := h.2.1
      omega

theorem Fields.Overlaid.inside {n : Int} {G : CId} {X : EType} : ∀ {fields : Fields},
    fields.Overlaid bits n → fields.type G = some X → X.size bits ≤ n
  | .cons K o T rest, h, hX => by
    by_cases hKG : K = G
    · simp only [Fields.type, hKG, if_true, Option.some.injEq] at hX
      exact hX ▸ h.2.1
    · simp only [Fields.type, hKG, if_false] at hX
      exact Fields.Overlaid.inside h.2.2 hX

/-- No member of a struct starts before `lo`. -/
theorem Fields.Ordered.atOffset_none {n : Int} : ∀ {fields : Fields} {lo p : Int},
    fields.Ordered bits n lo → p < lo → fields.atOffset p = none
  | .nil, lo, p, _, _ => rfl
  | .cons K o T rest, lo, p, h, hp => by
    have := h.1
    have := h.2.1
    have hrest : rest.atOffset p = none := Fields.Ordered.atOffset_none h.2.2 (by omega)
    simp only [Fields.atOffset, hrest]
    exact if_neg (by omega)

/-- A member is the one at each of its bits. -/
theorem Fields.Ordered.atOffset {n g p : Int} {G : CId} {X : EType} : ∀ {fields : Fields} {lo : Int},
    fields.Ordered bits n lo → fields.type G = some X → fields.offset G = some g →
    g ≤ p → p < g + X.size bits → fields.atOffset p = some G
  | .cons K o T rest, lo, h, hX, hg, hgp, hpg => by
    by_cases hKG : K = G
    · simp only [Fields.type, Fields.offset, hKG, if_true, Option.some.injEq] at hX hg
      subst hX
      subst hg
      have hrest : rest.atOffset p = none := Fields.Ordered.atOffset_none h.2.2 hpg
      simp only [Fields.atOffset, hrest, if_pos hgp, hKG]
    · simp only [Fields.type, Fields.offset, hKG, if_false] at hX hg
      have hrest : rest.atOffset p = some G := Fields.Ordered.atOffset h.2.2 hX hg hgp hpg
      simp only [Fields.atOffset, hrest]

theorem Fields.atOffset_type {p : Int} {G : CId} : ∀ {fields : Fields},
    fields.atOffset p = some G → (fields.type G).isSome
  | .cons K o T rest, h => by
    simp only [Fields.atOffset] at h
    split at h
    · rename_i H hH
      cases h
      have := Fields.atOffset_type hH
      by_cases hKG : K = G
      · simp [Fields.type, hKG]
      · simpa [Fields.type, hKG] using this
    · split at h
      · cases h
        simp [Fields.type]
      · cases h

/-- A member starts at or before where it is. -/
theorem Fields.Named.offset_le {p g : Int} {G : CId} : ∀ {fields : Fields}, fields.Named →
    fields.atOffset p = some G → fields.offset G = some g → g ≤ p
  | .cons K o T rest, h, hG, hg => by
    simp only [Fields.atOffset] at hG
    split at hG
    · rename_i H hH
      cases hG
      have hKG : K ≠ G := by
        intro hKG
        have := Fields.atOffset_type hH
        rw [← hKG, h.1] at this
        cases this
      simp only [Fields.offset, hKG, if_false] at hg
      exact Fields.Named.offset_le h.2 hH hg
    · split at hG
      · cases hG
        simp only [Fields.offset, if_true, Option.some.injEq] at hg
        omega
      · cases hG

/-- Which element an offset is in, and where in it. -/
theorem elem_index {k s r : Int} (hr : 0 ≤ r) (hs : r < s) : (k * s + r) / s = k ∧ (k * s + r) % s = r := by
  rw [Int.add_comm]
  constructor
  · rw [Int.add_mul_ediv_right _ _ (by omega), Int.ediv_eq_zero_of_lt hr hs, Int.zero_add]
  · rw [Int.add_mul_emod_self_right, Int.emod_eq_of_lt hr hs]

/-- An element is inside the array. -/
theorem elem_inside {k len : ℕ} {s r : Int} (hk : k < len) (hr : 0 ≤ r) (hs : r < s) :
    0 ≤ (k : Int) * s ∧ k * s + s ≤ s * len := by
  have hle : ((k : Int) + 1) * s ≤ len * s := Int.mul_le_mul_of_nonneg_right (by omega) (by omega)
  rw [Int.add_mul, Int.one_mul, Int.mul_comm len] at hle
  exact ⟨Int.mul_nonneg (by omega) (by omega), hle⟩

/-- The bits of a union in `T` are bits of `T`. -/
theorem Sub.inside {T : EType} {o : Int} {U : EType} (h : Sub bits T o U) (hU : 0 < U.size bits) :
    T.WF bits → 0 ≤ o ∧ o + U.size bits ≤ T.size bits := by
  induction h with
  | here =>
    intro _
    omega
  | field type offset _ ih =>
    intro hT
    obtain ⟨hr, hX⟩ := ih hU (Fields.WF.type hT.1 type)
    have := Fields.Ordered.inside hT.2.2 type offset
    simp only [EType.size] at *
    omega
  | @elem q len elem elems r U k bound _ ih =>
    intro hT
    obtain ⟨hE, hdecl⟩ := Elems.WF.getD hT.1 hT.2.1 hT.2.2
    obtain ⟨hr, hX⟩ := ih hU hE
    rw [EType.size_eq (hdecl.trans hT.2.1.symm)] at hX
    obtain ⟨hk0, hk⟩ := elem_inside bound hr (show r < elem.size bits by omega)
    rw [EType.size]
    omega
  | active type _ ih =>
    intro hT
    obtain ⟨hr, hX⟩ := ih hU (Fields.WF.type hT.1 type)
    have := Fields.Overlaid.inside hT.2.2 type
    simp only [EType.size] at *
    omega

theorem Reaches.nonempty {qs : Quals} {T : EType} {o : Int} {U : EType}
    (h : Reaches bits F whole qs T o U) : 0 < U.size bits := by
  induction h with
  | here nonempty => exact nonempty
  | field _ _ _ _ _ ih => exact ih
  | elem _ _ _ _ ih => exact ih
  | active _ _ _ _ ih => exact ih

theorem Reaches.inside {qs : Quals} {T : EType} {o : Int} {U : EType}
    (h : Reaches bits F whole qs T o U) (hT : T.WF bits) :
    0 ≤ o ∧ o + U.size bits ≤ T.size bits ∧ 0 < U.size bits := by
  obtain ⟨h0, hn⟩ := h.sub.inside h.nonempty hT
  exact ⟨h0, hn, h.nonempty⟩

/-! ### Steps towards the union -/

/-- In the union itself the member becomes the active one. -/
theorem setVariant_here (bits : UType → Int) {q : Quals} {tag : TagId} {n : Int} {fields : Fields}
    {active : Option CId}
    {X : EType} (hX : fields.type F = some X)
    (other : ∀ A Y, active = some A → fields.type A = some Y → A = F ∨ Y.findFieldOffset F = none) :
    ∃ fields' X', (EType.union q tag n fields active).setVariantAtOffset bits F 0 =
        .union q tag n fields' (some F) ∧
      fields'.type F = some X' ∧ X'.declared = X.declared := by
  have hclear : fields.clear.type F = some X.clear := by rw [Fields.type_clear, hX]; rfl
  simp only [EType.setVariantAtOffset, ne_eq, not_true_eq_false, if_false, hX, Option.isNone_some,
    Bool.false_eq_true, false_and, Option.isSome_some, if_true]
  cases hA : active.bind fields.type with
  | none => exact ⟨_, _, rfl, hclear, X.declared_clear⟩
  | some Y =>
    obtain ⟨A, rfl, hY⟩ := Option.bind_eq_some_iff.mp hA
    dsimp only
    split
    · rename_i hfind
      obtain rfl | hnone := other A Y rfl hY
      · refine ⟨_, X.setVariantAtOffset bits A 0, rfl, ?_, X.declared_setVariant A 0⟩
        rw [Fields.type_setVariant, hX]
        simp
      · rw [hnone] at hfind
        cases hfind
    · exact ⟨_, _, rfl, hclear, X.declared_clear⟩

theorem setVariant_field {q : Quals} {tag : TagId} {n g r : Int} {fields : Fields} {G : CId}
    (offset : fields.offset G = some g) (hG : fields.atOffset (g + r) = some G) (hgr : 0 ≤ g) (hr : 0 ≤ r)
    (first : g + r = 0 → fields.type F = none ∧
      ((fields.findFieldOffset F).isSome → fields.getUnnamed F = some G)) :
    (EType.struct q tag n fields).setVariantAtOffset bits F (g + r) =
      .struct q tag n (fields.setVariant bits F G r) := by
  simp only [EType.setVariantAtOffset]
  by_cases h0 : g + r = 0
  · obtain ⟨hF, hfound⟩ := first h0
    have hr0 : r = 0 := by omega
    rw [h0] at hG
    subst hr0
    by_cases hfind : (fields.findFieldOffset F).isSome
    · simp [h0, hF, hfind, hfound hfind]
    · simp [h0, hF, hfind, hG]
  · simp [h0, hG, offset]

theorem setVariant_active (bits : UType → Int) (q : Quals) (tag : TagId) (n : Int) {r : Int}
    {fields : Fields} {A : CId} {X : EType}
    (hX : fields.type A = some X)
    (first : r = 0 → if fields.type F = none ∧ (fields.findFieldOffset F).isSome
      then fields.getUnnamed F = some A else (X.findFieldOffset F).isSome) :
    ∃ fields', (EType.union q tag n fields (some A)).setVariantAtOffset bits F r =
        .union q tag n fields' (some A) ∧
      fields'.type A = some (X.setVariantAtOffset bits F r) := by
  have hset : (fields.setVariant bits F A r).type A = some (X.setVariantAtOffset bits F r) := by
    rw [Fields.type_setVariant, hX]
    simp
  simp only [EType.setVariantAtOffset]
  by_cases h0 : r = 0
  · subst h0
    have first := first rfl
    by_cases hF : fields.type F = none ∧ (fields.findFieldOffset F).isSome
    · rw [if_pos hF] at first
      refine ⟨fields.clear.set A (X.setVariantAtOffset bits F 0), ?_, ?_⟩
      · simp [hF.1, hF.2, first, Fields.variantOf_eq, hX]
      · rw [Fields.type_set, Fields.type_clear, hX]
        simp
    · rw [if_neg hF] at first
      refine ⟨fields.setVariant bits F A 0, ?_, hset⟩
      have hF' : ¬ ((fields.type F).isNone ∧ (fields.findFieldOffset F).isSome) := by
        simpa using hF
      simp only [ne_eq, not_true_eq_false, if_false, if_neg hF', Option.bind_some, hX, first, if_true]
  · exact ⟨_, by simp [h0], hset⟩

theorem setVariant_elem {q : Quals} {len : ℕ} {elem : EType} {elems : Elems} {k : ℕ} {r : Int}
    (hr : 0 ≤ r) (hs : r < elem.size bits) :
    (EType.array q len elem elems).setVariantAtOffset bits F (k * elem.size bits + r) =
      if ((elems.lookup (k * elem.size bits)).getD elem).setVariantAtOffset bits F r = elem
      then .array q len elem elems
      else .array q len elem (elems.set (k * elem.size bits)
        (((elems.lookup (k * elem.size bits)).getD elem).setVariantAtOffset bits F r)) := by
  obtain ⟨hdiv, hmod⟩ := @elem_index k _ _ hr hs
  have hpos : 0 < elem.size bits := by omega
  simp only [EType.setVariantAtOffset, if_pos hpos, hmod, hdiv, Elems.variantAt_eq]
  cases elems.lookup (k * elem.size bits) <;> rfl

/-! ### What is at an offset -/

theorem wrap_of_lt {size r : Int} (h : r < size) : wrap size r = r := if_neg (by omega)

theorem wrap_zero (size : Int) : wrap size 0 = 0 := if_neg (by omega)

theorem wrap_nonneg (size : Int) {r : Int} (h : 0 ≤ r) : 0 ≤ wrap size r := by
  unfold wrap
  split
  · exact Int.emod_nonneg _ (by omega)
  · exact h

theorem wrap_lt {size r : Int} (h : 0 < size) : wrap size r < size := by
  unfold wrap
  split
  · exact Int.emod_lt_of_pos _ h
  · omega

theorem EType.declared_addQualifiers (qs : Quals) : ∀ T : EType,
    (T.addQualifiers qs).declared = T.declared.addQualifiers qs
  | .scalar T => rfl
  | .array q len elem elems => by
    simp only [EType.addQualifiers, EType.declared, EType.declared_addQualifiers qs elem]
  | .struct q tag size fields => rfl
  | .union q tag size fields active => rfl

/-- What is at the offset 0 of a type is the type first. -/
theorem EType.head_typesAt (qs : Quals) : ∀ T : EType, T.addQualifiers qs ∈ T.typesAt bits qs 0
  | .scalar T => by
    simp only [EType.typesAt, wrap_zero, if_true, EType.addQualifiers]
    split
    · rename_i h
      rw [h]
      exact List.mem_cons_self
    · exact List.mem_cons_self
  | .array q len elem elems => by
    simp only [EType.typesAt, wrap_zero, if_true]
    exact List.mem_cons_self
  | .struct q tag size fields => by
    simp only [EType.typesAt, wrap_zero, if_true]
    exact List.mem_cons_self
  | .union q tag size fields active => by
    simp only [EType.typesAt, wrap_zero, if_true]
    exact List.mem_cons_self

theorem typesAt_field {qs q : Quals} {tag : TagId} {n g p : Int} {fields : Fields} {G : CId} {X Y : EType}
    (h0 : 0 ≤ p) (hn : p < n) (hG : fields.atOffset p = some G) (hg : fields.offset G = some g)
    (hX : fields.type G = some X) (hY : Y ∈ X.typesAt bits (q.plus qs) (p - g)) :
    Y ∈ (EType.struct q tag n fields).typesAt bits qs p := by
  simp only [EType.typesAt, wrap_of_lt hn, hG, hg, Option.getD_some, Fields.typesAt_eq, hX, Option.map_some]
  split
  · exact List.mem_cons_of_mem _ hY
  · rw [if_pos (by omega)]
    exact hY

theorem typesAt_active {qs q : Quals} {tag : TagId} {n p : Int} {fields : Fields} {A : CId} {X Y : EType}
    (h0 : 0 ≤ p) (hn : p < n) (hX : fields.type A = some X) (hY : Y ∈ X.typesAt bits (q.plus qs) p) :
    Y ∈ (EType.union q tag n fields (some A)).typesAt bits qs p := by
  simp only [EType.typesAt, wrap_of_lt hn, Option.getD_some, Fields.typesAt_eq, hX, Option.map_some]
  split
  · exact List.mem_cons_of_mem _ hY
  · rw [if_pos (by omega)]
    exact hY

theorem typesAt_elem {qs q : Quals} {len : ℕ} {elem : EType} {elems : Elems} {k : ℕ} {r : Int} {X Y : EType}
    (hk : k < len) (hr : 0 ≤ r) (hs : r < elem.size bits)
    (hX : elems.lookup (k * elem.size bits) = some X) (hY : Y ∈ X.typesAt bits q r) :
    Y ∈ (EType.array q len elem elems).typesAt bits qs (k * elem.size bits + r) := by
  obtain ⟨hdiv, hmod⟩ := @elem_index k _ _ hr hs
  obtain ⟨hk0, hk'⟩ := elem_inside hk hr hs
  simp only [EType.typesAt, wrap_of_lt (show k * elem.size bits + r < elem.size bits * len by omega), hmod,
    hdiv, Elems.typesAt_eq, hX, Option.map_some, Option.getD_some]
  split
  · exact List.mem_cons_of_mem _ hY
  · rw [if_pos (by omega)]
    exact hY

theorem Fields.type_declared (G : CId) : ∀ fields : Fields,
    fields.declared.type G = (fields.type G).map EType.declared
  | .nil => rfl
  | .cons K o T rest => by
    have ih := Fields.type_declared G rest
    by_cases hKG : K = G
    · simp [Fields.declared, Fields.type, hKG]
    · simp [Fields.declared, Fields.type, hKG, ih]

/-! ### The walk -/

/-- Towards a member of a struct the walk goes into the member, which is inside the struct. -/
theorem Reaches.walk_field {qs q : Quals} {tag : TagId} {n g r : Int} {fields : Fields} {G : CId}
    {X U : EType} (hT : (EType.struct q tag n fields).WF bits) (type : fields.type G = some X)
    (offset : fields.offset G = some g)
    (first : g + r = 0 → fields.type F = none ∧
      ((fields.findFieldOffset F).isSome → fields.getUnnamed F = some G))
    (sub : Reaches bits F whole (q.plus qs) X r U) :
    (EType.struct q tag n fields).setVariantAtOffset bits F (g + r) =
        .struct q tag n (fields.setVariant bits F G r) ∧
      fields.atOffset (g + r) = some G ∧ 0 ≤ g + r ∧ g + r < n := by
  obtain ⟨hr, hX, hU⟩ := sub.inside (Fields.WF.type hT.1 type)
  have hG := Fields.Ordered.atOffset hT.2.2 type offset (p := g + r) (by omega) (by omega)
  have hg := Fields.Ordered.inside hT.2.2 type offset
  exact ⟨setVariant_field offset hG hg.1 hr first, hG, by omega, by omega⟩

/-- What the walk leaves is no declared type. -/
theorem Reaches.varied {qs : Quals} {T : EType} {o : Int} {U : EType} (h : Reaches bits F whole qs T o U) :
    T.WF bits →
      (T.setVariantAtOffset bits F o).declared ≠ T.setVariantAtOffset bits F o := by
  induction h with
  | here nonempty member other =>
    intro _ heq
    obtain ⟨X, hX⟩ := Option.isSome_iff_exists.mp member
    obtain ⟨fields', X', hset, -, -⟩ := setVariant_here bits hX other
    rw [hset] at heq
    simp [EType.declared] at heq
  | @field qs q tag n fields G g X r U type offset first _ sub ih =>
    intro hT heq
    rw [(Reaches.walk_field hT type offset first sub).1] at heq
    simp only [EType.declared, EType.struct.injEq, true_and] at heq
    have hset : (fields.setVariant bits F G r).type G = some (X.setVariantAtOffset bits F r) := by
      rw [Fields.type_setVariant, type]
      simp
    have hdecl := Fields.type_declared G (fields.setVariant bits F G r)
    rw [heq, hset, Option.map_some, Option.some.injEq] at hdecl
    exact ih (Fields.WF.type hT.1 type) hdecl.symm
  | @elem qs q len elem elems r U k bound _ sub ih =>
    intro hT heq
    obtain ⟨hE, hdecl⟩ := Elems.WF.getD hT.1 hT.2.1 hT.2.2
    obtain ⟨hr, hX, hU⟩ := sub.inside hE
    rw [EType.size_eq (hdecl.trans hT.2.1.symm)] at hX
    rw [setVariant_elem hr (by omega)] at heq
    split at heq
    · rename_i h
      apply ih hE
      rw [h]
      exact hT.2.1
    · simp only [EType.declared, EType.array.injEq, true_and] at heq
      have := congrArg (Elems.lookup (k * elem.size bits)) heq.2
      rw [Elems.lookup_set, if_pos rfl] at this
      cases this
  | active type first _ sub ih =>
    intro _ heq
    obtain ⟨fields', hset, -⟩ := setVariant_active bits _ _ _ type first
    rw [hset] at heq
    simp [EType.declared] at heq

/-- Towards an element of an array the walk goes into the element, and what it leaves is recorded. -/
theorem Reaches.walk_elem {q : Quals} {len : ℕ} {elem : EType} {elems : Elems} {k : ℕ} {r : Int}
    {U : EType} (hT : (EType.array q len elem elems).WF bits)
    (sub : Reaches bits F whole q ((elems.lookup (k * elem.size bits)).getD elem) r U) :
    (EType.array q len elem elems).setVariantAtOffset bits F (k * elem.size bits + r) =
        .array q len elem (elems.set (k * elem.size bits)
          (((elems.lookup (k * elem.size bits)).getD elem).setVariantAtOffset bits F r)) ∧
      ((elems.lookup (k * elem.size bits)).getD elem).WF bits ∧
      ((elems.lookup (k * elem.size bits)).getD elem).size bits = elem.size bits ∧
      0 ≤ r ∧ r < elem.size bits := by
  obtain ⟨hE, hdecl⟩ := Elems.WF.getD hT.1 hT.2.1 hT.2.2
  obtain ⟨hr, hX, hU⟩ := sub.inside hE
  have hsize := @EType.size_eq bits _ _ (hdecl.trans hT.2.1.symm)
  have hs : r < elem.size bits := by omega
  have hvaried := sub.varied hE
  refine ⟨?_, hE, hsize, hr, hs⟩
  rw [setVariant_elem hr hs, if_neg fun heq => hvaried (by rw [heq, hT.2.1])]

/-- **The walk arrives**: the type of `F` as a member of `U` is at the offset of `U`. -/
theorem Reaches.sound {qs : Quals} {T : EType} {o : Int} {U : EType} (h : Reaches bits F whole qs T o U) :
    T.WF bits → ∃ X qs', U.fieldType F = some X ∧
      ∃ Y ∈ (T.setVariantAtOffset bits F o).typesAt bits qs o, Y.declared = (X.addQualifiers qs').declared := by
  induction h with
  | @here qs q tag n fields active nonempty member other =>
    intro _
    obtain ⟨X, hX⟩ := Option.isSome_iff_exists.mp member
    obtain ⟨fields', X', hset, hX', hdecl⟩ := setVariant_here bits hX other
    refine ⟨X, q.plus qs, hX, X'.addQualifiers (q.plus qs), ?_, ?_⟩
    · rw [hset]
      exact typesAt_active le_rfl nonempty hX' (X'.head_typesAt _)
    · rw [EType.declared_addQualifiers, EType.declared_addQualifiers, hdecl]
  | @field qs q tag n fields G g X r U type offset first _ sub ih =>
    intro hT
    obtain ⟨hset, hG, h0, hn⟩ := Reaches.walk_field hT type offset first sub
    obtain ⟨XF, qs', hXF, Y, hY, hdecl⟩ := ih (Fields.WF.type hT.1 type)
    refine ⟨XF, qs', hXF, Y, ?_, hdecl⟩
    rw [hset]
    refine typesAt_field h0 hn (by rw [Fields.atOffset_setVariant, hG])
      (by rw [Fields.offset_setVariant, offset]) (by rw [Fields.type_setVariant, type, if_pos rfl]; rfl) ?_
    rwa [add_sub_cancel_left]
  | @elem qs q len elem elems r U k bound _ sub ih =>
    intro hT
    obtain ⟨hset, hE, -, hr, hs⟩ := Reaches.walk_elem hT sub
    obtain ⟨XF, qs', hXF, Y, hY, hdecl⟩ := ih hE
    refine ⟨XF, qs', hXF, Y, ?_, hdecl⟩
    rw [hset]
    exact typesAt_elem bound hr hs (by rw [Elems.lookup_set, if_pos rfl]) hY
  | @active qs q tag n fields A X r U type first _ sub ih =>
    intro hT
    obtain ⟨hr, hX, hU⟩ := sub.inside (Fields.WF.type hT.1 type)
    have hn := Fields.Overlaid.inside hT.2.2 type
    obtain ⟨fields', hset, hA⟩ := setVariant_active bits q tag n type first
    obtain ⟨XF, qs', hXF, Y, hY, hdecl⟩ := ih (Fields.WF.type hT.1 type)
    refine ⟨XF, qs', hXF, Y, ?_, hdecl⟩
    rw [hset]
    exact typesAt_active (by omega) (by omega) hA hY

/-! ### What the walk leaves as it was -/

/-- What is in a struct changes where the member `G` is, and there as in the type of `G`. -/
theorem frame_field {qs q : Quals} {tag : TagId} {n g r p : Int} {fields : Fields} {G : CId} {X : EType}
    (type : fields.type G = some X) (offset : fields.offset G = some g)
    (hX : fields.atOffset (wrap n p) = some G →
      ((X.setVariantAtOffset bits F r).typesAt bits (q.plus qs) (wrap n p - g)).map EType.declared =
        (X.typesAt bits (q.plus qs) (wrap n p - g)).map EType.declared) :
    ((EType.struct q tag n (fields.setVariant bits F G r)).typesAt bits qs p).map EType.declared =
      ((EType.struct q tag n fields).typesAt bits qs p).map EType.declared := by
  have hinner : ∀ H, fields.atOffset (wrap n p) = some H →
      ((fields.setVariant bits F G r).typesAt bits (q.plus qs) H
          (wrap n p - (fields.offset H).getD 0)).map EType.declared =
        (fields.typesAt bits (q.plus qs) H (wrap n p - (fields.offset H).getD 0)).map EType.declared := by
    intro H hH
    rw [Fields.typesAt_eq, Fields.typesAt_eq, Fields.type_setVariant]
    by_cases hGH : G = H
    · subst hGH
      rw [if_pos rfl, type, offset]
      exact hX hH
    · rw [if_neg hGH]
  simp only [EType.typesAt, Fields.atOffset_setVariant, Fields.offset_setVariant]
  cases hH : fields.atOffset (wrap n p) with
  | none => split_ifs <;> simp [EType.declared, Fields.declared_setVariant]
  | some H => split_ifs <;> simp [EType.declared, Fields.declared_setVariant, hinner H hH]

/-- What is in an array changes where the element is whose type is recorded, and there as its type. -/
theorem frame_elem {qs q : Quals} {len : ℕ} {elem E' : EType} {elems : Elems} {k p : Int}
    (plain : (elems.lookup k).isSome ∨ qs.plus q = q)
    (hE : k = wrap (elem.size bits * len) p / elem.size bits * elem.size bits →
      (E'.typesAt bits q (wrap (elem.size bits * len) p % elem.size bits)).map EType.declared =
        (((elems.lookup k).getD elem).typesAt bits q
          (wrap (elem.size bits * len) p % elem.size bits)).map EType.declared) :
    ((EType.array q len elem (elems.set k E')).typesAt bits qs p).map EType.declared =
      ((EType.array q len elem elems).typesAt bits qs p).map EType.declared := by
  have hinner : (((elems.set k E').typesAt bits q
          (wrap (elem.size bits * len) p / elem.size bits * elem.size bits)
          (wrap (elem.size bits * len) p % elem.size bits)).getD
        (elem.typesAt bits (qs.plus q) (wrap (elem.size bits * len) p % elem.size bits))).map EType.declared =
      ((elems.typesAt bits q (wrap (elem.size bits * len) p / elem.size bits * elem.size bits)
          (wrap (elem.size bits * len) p % elem.size bits)).getD
        (elem.typesAt bits (qs.plus q) (wrap (elem.size bits * len) p % elem.size bits))).map EType.declared := by
    rw [Elems.typesAt_eq, Elems.typesAt_eq, Elems.lookup_set]
    by_cases hk : k = wrap (elem.size bits * len) p / elem.size bits * elem.size bits
    · have h := hE hk
      rw [if_pos hk, ← hk]
      cases hl : elems.lookup k with
      | none =>
        rw [hl] at h plain
        have hq : qs.plus q = q := by simpa using plain
        rw [hq]
        exact h
      | some E =>
        rw [hl] at h
        exact h
    · rw [if_neg hk]
  simp only [EType.typesAt]
  split_ifs <;> simp [EType.declared, hinner]

/-- What is in a union changes as the type of the active member. -/
theorem frame_active {qs q : Quals} {tag : TagId} {n p : Int} {fields fields' : Fields} {A : CId}
    {X X' : EType} (hdecl : fields'.declared = fields.declared) (type : fields.type A = some X)
    (type' : fields'.type A = some X')
    (hX : (X'.typesAt bits (q.plus qs) (wrap n p)).map EType.declared =
      (X.typesAt bits (q.plus qs) (wrap n p)).map EType.declared) :
    ((EType.union q tag n fields' (some A)).typesAt bits qs p).map EType.declared =
      ((EType.union q tag n fields (some A)).typesAt bits qs p).map EType.declared := by
  have hinner : (fields'.typesAt bits (q.plus qs) A (wrap n p)).map EType.declared =
      (fields.typesAt bits (q.plus qs) A (wrap n p)).map EType.declared := by
    rw [Fields.typesAt_eq, Fields.typesAt_eq, type, type']
    exact hX
  simp only [EType.typesAt]
  split_ifs <;> simp [EType.declared, hdecl, hinner]

/-- **Outside the union nothing changes** but what is recorded about the variants of the types. -/
theorem Reaches.frame {qs : Quals} {T : EType} {o : Int} {U : EType} (h : Reaches bits F True qs T o U) :
    T.WF bits → ∀ p, 0 ≤ p → ¬ U.Covers bits o (wrap (T.size bits) p) →
      ((T.setVariantAtOffset bits F o).typesAt bits qs p).map EType.declared =
        (T.typesAt bits qs p).map EType.declared := by
  induction h with
  | @here qs q tag n fields active nonempty member other =>
    intro _ p hp hcov
    exfalso
    apply hcov
    have h0 := wrap_nonneg n hp
    have hn := wrap_lt (r := p) nonempty
    simp only [EType.Covers, EType.size]
    omega
  | @field qs q tag n fields G g X r U type offset first apart sub ih =>
    intro hT p hp hcov
    obtain ⟨hset, -, h0, hn⟩ := Reaches.walk_field hT type offset first sub
    have hw := wrap_lt (r := p) (show 0 < n by omega)
    rw [hset]
    refine frame_field type offset fun hG => ?_
    have hle := Fields.Named.offset_le hT.2.1 hG offset
    refine ih (Fields.WF.type hT.1 type) _ (by omega) fun hcov' => ?_
    -- a bit of `U` is in the member or in the padding behind it
    by_cases hbehind : X.size bits ≤ wrap n p - g
    · exact apart trivial _ hw hG hbehind hcov'
    · rw [wrap_of_lt (by omega)] at hcov'
      apply hcov
      simp only [EType.Covers, EType.size] at hcov' ⊢
      omega
  | @elem qs q len elem elems r U k bound plain sub ih =>
    intro hT p hp hcov
    obtain ⟨hset, hE, hsize, hr, hs⟩ := Reaches.walk_elem hT sub
    have hpos : 0 < elem.size bits := by omega
    rw [hset]
    refine frame_elem (plain trivial) fun hk => ih hE _ (Int.emod_nonneg _ (by omega)) fun hcov' => ?_
    have hlt := Int.emod_lt_of_pos (wrap (elem.size bits * len) p) hpos
    have hdm := Int.ediv_mul_add_emod (wrap (elem.size bits * len) p) (elem.size bits)
    rw [hsize, wrap_of_lt hlt] at hcov'
    apply hcov
    simp only [EType.Covers, EType.size] at hcov' ⊢
    omega
  | @active qs q tag n fields A X r U type first apart sub ih =>
    intro hT p hp hcov
    obtain ⟨hr, hX, hU⟩ := sub.inside (Fields.WF.type hT.1 type)
    have hAn := Fields.Overlaid.inside hT.2.2 type
    have hw := wrap_lt (r := p) (show 0 < n by omega)
    obtain ⟨fields', hset, hA⟩ := setVariant_active bits q tag n type first
    have hdecl := @EType.declared_setVariant bits F (.union q tag n fields (some A)) r
    rw [hset] at hdecl ⊢
    simp only [EType.declared, EType.union.injEq, true_and, and_true] at hdecl
    refine frame_active hdecl type hA (ih (Fields.WF.type hT.1 type) _ (wrap_nonneg n hp) fun hcov' => ?_)
    by_cases hbehind : X.size bits ≤ wrap n p
    · exact apart trivial _ hw hbehind hcov'
    · rw [wrap_of_lt (by omega)] at hcov'
      exact hcov hcov'

/-! ### Where the walk ends -/

/-- `activeVariant(F)` -/
def EType.activeVariant : EType → Option CId
  | .union _ _ _ _ active => active
  | _ => none

/-- `T'` has the union `U` of `T` in the same place, with the active member `F`. -/
inductive Placed (bits : UType → Int) (F : CId) : EType → EType → Int → EType → Prop
  | here {q tag n fields fields' active} :
      Placed bits F (.union q tag n fields active) (.union q tag n fields' (some F)) 0
        (.union q tag n fields active)
  | field {q tag n fields fields' G g X X' r U} (type : fields.type G = some X)
      (offset : fields.offset G = some g) (type' : fields'.type G = some X')
      (placed : Placed bits F X X' r U) :
      Placed bits F (.struct q tag n fields) (.struct q tag n fields') (g + r) U
  | elem {q len elem elems elems' r U} (k : ℕ) (bound : k < len)
      (placed : Placed bits F ((elems.lookup (k * elem.size bits)).getD elem)
        ((elems'.lookup (k * elem.size bits)).getD elem) r U) :
      Placed bits F (.array q len elem elems) (.array q len elem elems') (k * elem.size bits + r) U
  | active {q tag n fields fields' A X X' r U} (type : fields.type A = some X)
      (type' : fields'.type A = some X') (placed : Placed bits F X X' r U) :
      Placed bits F (.union q tag n fields (some A)) (.union q tag n fields' (some A)) r U

theorem Placed.sub {T T' : EType} {o : Int} {U : EType} (h : Placed bits F T T' o U) : Sub bits T o U := by
  induction h with
  | here => exact .here
  | field type offset _ _ ih => exact .field type offset ih
  | elem k bound _ ih => exact .elem k bound ih
  | active type _ _ ih => exact .active type ih

theorem Reaches.placed {qs : Quals} {T : EType} {o : Int} {U : EType}
    (h : Reaches bits F whole qs T o U) :
    T.WF bits → Placed bits F T (T.setVariantAtOffset bits F o) o U := by
  induction h with
  | here _ member other =>
    intro _
    obtain ⟨X, hX⟩ := Option.isSome_iff_exists.mp member
    obtain ⟨fields', X', hset, -, -⟩ := setVariant_here bits hX other
    rw [hset]
    exact .here
  | field type offset first _ sub ih =>
    intro hT
    rw [(Reaches.walk_field hT type offset first sub).1]
    refine .field type offset ?_ (ih (Fields.WF.type hT.1 type))
    rw [Fields.type_setVariant, if_pos rfl, type]
    rfl
  | elem k bound _ sub ih =>
    intro hT
    obtain ⟨hset, hE, -⟩ := Reaches.walk_elem hT sub
    rw [hset]
    refine .elem k bound ?_
    rw [Elems.lookup_set, if_pos rfl]
    exact ih hE
  | active type first _ sub ih =>
    intro hT
    obtain ⟨fields', hset, hA⟩ := setVariant_active bits _ _ _ type first
    rw [hset]
    exact .active type hA (ih (Fields.WF.type hT.1 type))

/-- Where nothing has changed, `F` was the active member. -/
theorem Placed.of_eq {T T' : EType} {o : Int} {U : EType} (h : Placed bits F T T' o U) :
    T' = T → U.activeVariant = some F := by
  induction h with
  | here =>
    intro heq
    simp only [EType.union.injEq, true_and] at heq
    exact heq.2.symm
  | field type _ type' _ ih =>
    intro heq
    simp only [EType.struct.injEq, true_and] at heq
    rw [heq, type] at type'
    cases type'
    exact ih rfl
  | elem k _ _ ih =>
    intro heq
    simp only [EType.array.injEq, true_and] at heq
    exact ih (by rw [heq])
  | active type type' _ ih =>
    intro heq
    simp only [EType.union.injEq, true_and, and_true] at heq
    rw [heq, type] at type'
    cases type'
    exact ih rfl

/-- And nothing that is cleared makes it one. -/
theorem Placed.of_clear {T : EType} {o : Int} {U : EType} (h : Placed bits F T T.clear o U) :
    U.activeVariant = some F := by
  cases T with
  | scalar T => cases h
  | array q len elem elems => exact h.of_eq rfl
  | struct q tag n fields => exact h.of_eq rfl
  | union q tag n fields active => cases h

/-- In a struct with the union in `G`, the walk that arrives went into `G`. -/
theorem Placed.first_field {q : Quals} {tag : TagId} {n : Int} {fields fields' : Fields} {G : CId}
    {X X' U : EType} (type : fields.type G = some X) (type' : fields'.type G = some X')
    (placed : Placed bits F X X' 0 U) (hU : U.activeVariant ≠ some F)
    (hG : fields.atOffset 0 = some G)
    (heq : EType.struct q tag n fields' = (EType.struct q tag n fields).setVariantAtOffset bits F 0) :
    X' = X.setVariantAtOffset bits F 0 ∧ fields.type F = none ∧
      ((fields.findFieldOffset F).isSome → fields.getUnnamed F = some G) := by
  -- the walk does not leave the member as it was
  have hchanged : X' ≠ X := fun h => hU (placed.of_eq h)
  have hsame : fields' ≠ fields := by
    rintro rfl
    rw [type] at type'
    cases type'
    exact hchanged rfl
  have hset : ∀ H, fields' = fields.setVariant bits F H 0 → H = G ∧ X' = X.setVariantAtOffset bits F 0 := by
    intro H h
    rw [h, Fields.type_setVariant, type] at type'
    by_cases hHG : H = G
    · rw [if_pos hHG] at type'
      cases type'
      exact ⟨hHG, rfl⟩
    · rw [if_neg hHG] at type'
      cases type'
      exact absurd rfl hchanged
  simp only [EType.setVariantAtOffset, ne_eq, not_true_eq_false, if_false] at heq
  cases hF : fields.type F with
  | some Y =>
    simp only [hF, Option.isSome_some, if_true, EType.struct.injEq, true_and] at heq
    exact absurd heq hsame
  | none =>
    simp only [hF, Option.isSome_none, Bool.false_eq_true, if_false] at heq
    by_cases hfind : (fields.findFieldOffset F).isSome
    · rw [if_pos hfind] at heq
      cases hget : fields.getUnnamed F with
      | none =>
        simp only [hget, EType.struct.injEq, true_and] at heq
        exact absurd heq hsame
      | some H =>
        simp only [hget, EType.struct.injEq, true_and] at heq
        obtain ⟨rfl, hX'⟩ := hset H heq
        exact ⟨hX', rfl, fun _ => rfl⟩
    · rw [if_neg hfind] at heq
      simp only [hG, EType.struct.injEq, true_and] at heq
      exact ⟨(hset G heq).2, rfl, fun h => absurd h hfind⟩

/-- And in a union with the union in the active member `A`, into `A`. -/
theorem Placed.first_active {q : Quals} {tag : TagId} {n : Int} {fields fields' : Fields} {A : CId}
    {X X' U : EType} (type : fields.type A = some X) (type' : fields'.type A = some X')
    (placed : Placed bits F X X' 0 U) (hU : U.activeVariant ≠ some F)
    (heq : EType.union q tag n fields' (some A) =
      (EType.union q tag n fields (some A)).setVariantAtOffset bits F 0) :
    X' = X.setVariantAtOffset bits F 0 ∧ if fields.type F = none ∧ (fields.findFieldOffset F).isSome
      then fields.getUnnamed F = some A else (X.findFieldOffset F).isSome := by
  have hsame : fields' ≠ fields := by
    rintro rfl
    rw [type] at type'
    cases type'
    exact hU (placed.of_eq rfl)
  simp only [EType.setVariantAtOffset, ne_eq, not_true_eq_false, if_false] at heq
  by_cases hF : fields.type F = none ∧ (fields.findFieldOffset F).isSome
  · rw [if_pos hF]
    rw [if_pos (by simpa using hF)] at heq
    cases hget : fields.getUnnamed F with
    | none =>
      simp only [hget, EType.union.injEq, true_and, and_true] at heq
      exact absurd heq hsame
    | some G =>
      cases hG : fields.variantOf bits F G 0 with
      | none =>
        simp only [hget, hG, EType.union.injEq, true_and, Option.some.injEq] at heq
        obtain ⟨-, rfl⟩ := heq
        rw [Fields.variantOf_eq, type] at hG
        cases hG
      | some Y =>
        simp only [hget, hG, EType.union.injEq, true_and, Option.some.injEq] at heq
        obtain ⟨rfl, rfl⟩ := heq
        rw [Fields.variantOf_eq, type] at hG
        cases hG
        rw [Fields.type_set, Fields.type_clear, type] at type'
        simp only [if_true, Option.map_some, Option.some.injEq] at type'
        exact ⟨type'.symm, rfl⟩
  · rw [if_neg hF]
    rw [if_neg (by simpa using hF)] at heq
    simp only [Option.bind_some, type] at heq
    by_cases hfind : (X.findFieldOffset F).isSome
    · simp only [hfind, if_true, EType.union.injEq, true_and, and_true] at heq
      rw [heq, Fields.type_setVariant, type] at type'
      simp only [if_true, Option.map_some, Option.some.injEq] at type'
      exact ⟨type'.symm, hfind⟩
    · rw [if_neg hfind] at heq
      cases heq
      rw [Fields.type_clear, type] at type'
      cases type'
      exact absurd placed.of_clear hU

/-- **Where the walk arrives, each step was one towards the union.** -/
theorem Placed.reaches {T T' : EType} {o : Int} {U : EType} (h : Placed bits F T T' o U)
    (hsize : 0 < U.size bits) (hF : (U.fieldType F).isSome) (hU : U.activeVariant ≠ some F) :
    T.WF bits → T' = T.setVariantAtOffset bits F o → ∀ qs, Reaches bits F False qs T o U := by
  induction h with
  | @here q tag n fields fields' active =>
    intro _ heq qs
    refine .here hsize hF fun A X hA hX => ?_
    by_contra hother
    obtain ⟨hAF, hfind⟩ := not_or.mp hother
    obtain ⟨Y, hY⟩ := Option.isSome_iff_exists.mp hF
    subst hA
    have hY' : fields.type F = some Y := hY
    have hfind' : (X.findFieldOffset F).isSome := Option.isSome_iff_ne_none.mpr hfind
    simp only [EType.setVariantAtOffset, ne_eq, not_true_eq_false, if_false, hY', Option.isNone_some,
      Bool.false_eq_true, false_and, Option.bind_some, hX, hfind', if_true, EType.union.injEq, true_and,
      Option.some.injEq] at heq
    exact hAF heq.2.symm
  | @field q tag n fields fields' G g X X' r U type offset type' placed ih =>
    intro hT heq qs
    have hX := Fields.WF.type hT.1 type
    obtain ⟨hr, hrX⟩ := placed.sub.inside hsize hX
    have hg := Fields.Ordered.inside hT.2.2 type offset
    have hG := Fields.Ordered.atOffset hT.2.2 type offset (p := g + r) (by omega) (by omega)
    by_cases h0 : g + r = 0
    · obtain rfl : r = 0 := by omega
      rw [h0] at heq hG
      obtain ⟨hX', hfirst⟩ := Placed.first_field type type' placed hU hG heq
      exact .field type offset (fun _ => hfirst) False.elim (ih hsize hF hU hX hX' _)
    · rw [setVariant_field offset hG hg.1 hr (fun h => absurd h h0)] at heq
      cases heq
      rw [Fields.type_setVariant, if_pos rfl, type] at type'
      cases type'
      exact .field type offset (fun h => absurd h h0) False.elim (ih hsize hF hU hX rfl _)
  | @elem q len elem elems elems' r U k bound placed ih =>
    intro hT heq qs
    obtain ⟨hE, hdecl⟩ := Elems.WF.getD hT.1 hT.2.1 hT.2.2
    obtain ⟨hr, hrE⟩ := placed.sub.inside hsize hE
    rw [EType.size_eq (hdecl.trans hT.2.1.symm)] at hrE
    rw [setVariant_elem hr (by omega)] at heq
    split at heq
    · cases heq
      exact absurd (placed.of_eq rfl) hU
    · cases heq
      refine .elem k bound False.elim (ih hsize hF hU hE ?_ _)
      rw [Elems.lookup_set, if_pos rfl]
      rfl
  | @active q tag n fields fields' A X X' r U type type' placed ih =>
    intro hT heq qs
    have hX := Fields.WF.type hT.1 type
    by_cases h0 : r = 0
    · subst h0
      obtain ⟨hX', hfirst⟩ := Placed.first_active type type' placed hU heq
      exact .active type (fun _ => hfirst) False.elim (ih hsize hF hU hX hX' _)
    · obtain ⟨fields'', hset, hA⟩ := setVariant_active bits q tag n type fun h => absurd h h0
      rw [hset] at heq
      cases heq
      rw [type'] at hA
      cases hA
      exact .active type (fun h => absurd h h0) False.elim (ih hsize hF hU hX rfl _)

/-- **The walk arrives exactly where each step is one towards the union**, at a union with bits whose
    active member is another. -/
theorem reaches_iff_placed {T : EType} {o : Int} {U : EType} (hT : T.WF bits) (hsize : 0 < U.size bits)
    (hF : (U.fieldType F).isSome) (hU : U.activeVariant ≠ some F) :
    Reaches bits F False noQuals T o U ↔ Placed bits F T (T.setVariantAtOffset bits F o) o U :=
  ⟨fun h => h.placed hT, fun h => h.reaches hsize hF hU hT rfl noQuals⟩

end Layout

/-! ## An access to a member of a union -/

/--
The variant of `F` in the union `U` at `o` is set: the type of `F` as a member of `U` is at `o`, with
the qualifiers of what is around it, and what is at the other offsets of `T` is declared as before.
-/
structure Tracked (bits : UType → Int) (F : CId) (T : EType) (o : Int) (U : EType) : Prop where
  member : ∃ X qs, U.fieldType F = some X ∧
    ∃ Y ∈ (T.setVariantAtOffset bits F o).getTypesAtOffset bits o, Y.declared = (X.addQualifiers qs).declared
  outside : ∀ p, 0 ≤ p → p < T.size bits → ¬ U.Covers bits o p →
    ((T.setVariantAtOffset bits F o).getTypesAtOffset bits p).map EType.declared =
      (T.getTypesAtOffset bits p).map EType.declared

/-- **An access sets the variant of the union that is meant, where the walk gets to it.** -/
theorem setVariantAtOffset_tracked (bits : UType → Int) (F : CId) (T : EType) (o : Int) (U : EType)
    (hT : T.WF bits) (h : Reaches bits F True noQuals T o U) : Tracked bits F T o U where
  member := h.sound hT
  outside p hp hpT hcov := h.frame hT p hp (by rwa [wrap_of_lt hpT])

def intType : EType := .scalar IntType.int.toSimple.toType

def floatType : EType := .scalar (SimpleNonArrayType.basic (.float .float)).toType

/-- `union U { int a; float f; }` -/
def numberUnion (active : Option CId) : EType :=
  .union noQuals ⟨.Identifier "U", "tu", .global⟩ 32
    (.cons (.Identifier "a") 0 intType (.cons (.Identifier "f") 0 floatType .nil)) active

/-- `struct S { int c; union U u; }` -/
def taggedStruct (active : Option CId) : EType :=
  .struct noQuals ⟨.Identifier "S", "tu", .global⟩ 64
    (.cons (.Identifier "c") 0 intType (.cons (.Identifier "u") 32 (numberUnion active) .nil))

/-- `union V { struct S s; int i; }` -/
def outerUnion (active inner : Option CId) : EType :=
  .union noQuals ⟨.Identifier "V", "tu", .global⟩ 64
    (.cons (.Identifier "s") 0 (taggedStruct inner) (.cons (.Identifier "i") 0 intType .nil)) active

/-- `struct T { int n; union V v[2]; }`, with `v[1].s.u.a` active. -/
def nestedUnion : EType :=
  .struct noQuals ⟨.Identifier "T", "tu", .global⟩ 160
    (.cons (.Identifier "n") 0 intType (.cons (.Identifier "v") 32
      (.array noQuals 2 (outerUnion none none)
        (.cons 64 (outerUnion (some (.Identifier "s")) (some (.Identifier "a"))) .nil)) .nil))

theorem nestedUnion_wf : nestedUnion.WF fun _ => 32 := by
  simp [nestedUnion, outerUnion, taggedStruct, numberUnion, intType, floatType, EType.WF, Fields.WF,
    Elems.WF, Fields.Named, Fields.Ordered, Fields.Overlaid, Fields.type, EType.size, EType.declared,
    Fields.declared]

theorem nestedUnion_reaches : Reaches (fun _ => 32) (.Identifier "f") True noQuals nestedUnion (32 + (64 + (32 + 0)))
    (numberUnion (some (.Identifier "a"))) := by
  refine @Reaches.field _ _ _ _ _ _ _ _ (.Identifier "v") 32 _ _ _ rfl rfl (by decide) ?_ ?_
  · intro _ p hp _ hbehind
    simp [EType.size, outerUnion] at hbehind
    omega
  refine @Reaches.elem _ _ _ _ _ 2 (outerUnion none none) _ _ _ 1 (by decide) (fun _ => .inl rfl) ?_
  refine @Reaches.active _ _ _ _ _ _ _ _ _ (taggedStruct (some (.Identifier "a"))) _ _ rfl (by decide) ?_ ?_
  · intro _ p hp hbehind
    simp [EType.size, taggedStruct] at hbehind
    omega
  refine @Reaches.field _ _ _ _ _ _ _ _ (.Identifier "u") 32 _ _ _ rfl rfl (by decide) ?_ ?_
  · intro _ p hp _ hbehind
    simp [EType.size, numberUnion] at hbehind
    omega
  refine .here (by decide) rfl ?_
  intro A X hA hX
  cases hA
  cases hX
  exact .inr rfl

/-- The access `t.v[1].s.u.f`, where `v[1].s.u.a` is active. -/
theorem setVariantAtOffset_tracked_nested :
    Tracked (fun _ => 32) (.Identifier "f") nestedUnion (32 + (64 + (32 + 0)))
      (numberUnion (some (.Identifier "a"))) :=
  setVariantAtOffset_tracked _ _ _ _ _ nestedUnion_wf nestedUnion_reaches

/-- `struct { union U u; int f; }` -/
def hidingStruct : EType :=
  .struct noQuals ⟨.Identifier "T", "tu", .global⟩ 64
    (.cons (.Identifier "u") 0 (numberUnion none) (.cons (.Identifier "f") 32 intType .nil))

/-- **A member of the struct hides the one of the union**: for the access `t.u.f` no variant is set. -/
theorem member_hides_variant :
    hidingStruct.WF (fun _ => 32) ∧ Sub (fun _ => 32) hidingStruct (0 + 0) (numberUnion none) ∧
      (numberUnion none).fieldType (.Identifier "f") = some floatType ∧
      ¬ Tracked (fun _ => 32) (.Identifier "f") hidingStruct (0 + 0) (numberUnion none) := by
  refine ⟨?_, @Sub.field _ _ _ _ _ (.Identifier "u") 0 _ _ _ rfl rfl .here, rfl, fun h => ?_⟩
  · simp [hidingStruct, numberUnion, intType, floatType, EType.WF, Fields.WF, Fields.Named,
      Fields.Ordered, Fields.Overlaid, Fields.type, EType.size]
  · obtain ⟨X, qs, hX, Y, hY, hdecl⟩ := h.member
    cases hX
    have hset : (hidingStruct.setVariantAtOffset (fun _ => 32) (.Identifier "f") (0 + 0)).getTypesAtOffset
        (fun _ => 32) (0 + 0) = [hidingStruct, numberUnion none] := by decide
    rw [hset] at hY
    simp only [List.mem_cons, List.not_mem_nil, or_false] at hY
    rcases hY with rfl | rfl <;> cases hdecl

end CSemantics.Effective
