/-
  The specifiers of a declaration and the type that they name.

  `canonicalizeType` takes the specifiers from the last to the first and puts the type specifiers
  into one list and everything else into another.  A rule for EACH ORDER of the type specifiers gives
  the type, and the qualifiers and modifiers are added to it, again from the last to the first.

      unsigned const long int static long

  So what a declaration says must not depend on the order it says it in, and the orders that have a
  rule must be all the orders of the sets of specifiers that are a type.

  Left out are the specifiers that take part in the scope of tags and names, and the ones that have to
  be evaluated: `_Atomic(T)`, `_Alignas`, `__auto_type` and typedef names.
-/
import CSemantics.Alignment

namespace CSemantics.Specifiers

/-! ## The specifiers -/

inductive TypeSpecifier
  | Void | Bool | Char | Short | Int | Long | Signed | Unsigned | Float | Double | Complex | Imaginary
  | OversizedInt | OversizedFloat
  deriving DecidableEq, Repr

inductive Qualifier
  | Const | Volatile | Restrict | Atomic
  /-- `__restrict` and the like, which this profile supports -/
  | RestrictReserved (tok : String)
  deriving DecidableEq, Repr

inductive SpecifierElem
  | typeSpecifier (S : TypeSpecifier)
  | qualifier (Q : Qualifier)
  /-- storage classes and function specifiers -/
  | modifier (M : Modifier)
  /-- neither of them -/
  | Attribute
  | MissingType
  deriving DecidableEq, Repr

/-- `Complex()` and `Imaginary()` stay as modifiers of a floating type. -/
inductive Domain
  | real | complex | imaginary
  deriving DecidableEq, Repr

abbrev Specified := Domain × SimpleBasicType

/-! ## The rules -/

/-- The left sides of the rules of `canonicalizeSpecifier` and the types on their right sides -/
def rules : List (List TypeSpecifier × Specified) :=
  [([.Void], .real, .void), ([.Bool], .real, .integer .bool), ([.Char], .real, .integer .char),
   ([.Signed, .Char], .real, .integer .signedChar), ([.Char, .Signed], .real, .integer .signedChar),
   ([.Unsigned, .Char], .real, .integer .unsignedChar),
   ([.Char, .Unsigned], .real, .integer .unsignedChar), ([.Double], .real, .float .double),
   ([.Float], .real, .float .float), ([.Long, .Double], .real, .float .longDouble),
   ([.Double, .Long], .real, .float .longDouble), ([.OversizedFloat], .real, .float .oversizedFloat),
   ([.Complex, .Double], .complex, .float .double), ([.Double, .Complex], .complex, .float .double),
   ([.Complex, .Float], .complex, .float .float), ([.Float, .Complex], .complex, .float .float),
   ([.Complex, .Long, .Double], .complex, .float .longDouble),
   ([.Complex, .Double, .Long], .complex, .float .longDouble),
   ([.Double, .Complex, .Long], .complex, .float .longDouble),
   ([.Double, .Long, .Complex], .complex, .float .longDouble),
   ([.Long, .Double, .Complex], .complex, .float .longDouble),
   ([.Long, .Complex, .Double], .complex, .float .longDouble),
   ([.Imaginary, .Double], .imaginary, .float .double),
   ([.Double, .Imaginary], .imaginary, .float .double),
   ([.Imaginary, .Float], .imaginary, .float .float), ([.Float, .Imaginary], .imaginary, .float .float),
   ([.Imaginary, .Long, .Double], .imaginary, .float .longDouble),
   ([.Imaginary, .Double, .Long], .imaginary, .float .longDouble),
   ([.Double, .Imaginary, .Long], .imaginary, .float .longDouble),
   ([.Double, .Long, .Imaginary], .imaginary, .float .longDouble),
   ([.Long, .Double, .Imaginary], .imaginary, .float .longDouble),
   ([.Long, .Imaginary, .Double], .imaginary, .float .longDouble),
   ([.Short], .real, .integer .shortInt), ([.Signed, .Short], .real, .integer .shortInt),
   ([.Short, .Signed], .real, .integer .shortInt), ([.Short, .Int], .real, .integer .shortInt),
   ([.Int, .Short], .real, .integer .shortInt), ([.Signed, .Short, .Int], .real, .integer .shortInt),
   ([.Signed, .Int, .Short], .real, .integer .shortInt),
   ([.Int, .Signed, .Short], .real, .integer .shortInt),
   ([.Int, .Short, .Signed], .real, .integer .shortInt),
   ([.Short, .Signed, .Int], .real, .integer .shortInt),
   ([.Short, .Int, .Signed], .real, .integer .shortInt),
   ([.Unsigned, .Short], .real, .integer .unsignedShortInt),
   ([.Short, .Unsigned], .real, .integer .unsignedShortInt),
   ([.Unsigned, .Short, .Int], .real, .integer .unsignedShortInt),
   ([.Unsigned, .Int, .Short], .real, .integer .unsignedShortInt),
   ([.Int, .Unsigned, .Short], .real, .integer .unsignedShortInt),
   ([.Int, .Short, .Unsigned], .real, .integer .unsignedShortInt),
   ([.Short, .Unsigned, .Int], .real, .integer .unsignedShortInt),
   ([.Short, .Int, .Unsigned], .real, .integer .unsignedShortInt), ([.Int], .real, .integer .int),
   ([.Signed], .real, .integer .signedInt), ([.Signed, .Int], .real, .integer .signedInt),
   ([.Int, .Signed], .real, .integer .signedInt), ([.Unsigned], .real, .integer .unsignedInt),
   ([.Unsigned, .Int], .real, .integer .unsignedInt), ([.Int, .Unsigned], .real, .integer .unsignedInt),
   ([.Long], .real, .integer .longInt), ([.Signed, .Long], .real, .integer .longInt),
   ([.Long, .Signed], .real, .integer .longInt), ([.Long, .Int], .real, .integer .longInt),
   ([.Int, .Long], .real, .integer .longInt), ([.Signed, .Long, .Int], .real, .integer .longInt),
   ([.Signed, .Int, .Long], .real, .integer .longInt),
   ([.Int, .Signed, .Long], .real, .integer .longInt),
   ([.Int, .Long, .Signed], .real, .integer .longInt),
   ([.Long, .Signed, .Int], .real, .integer .longInt),
   ([.Long, .Int, .Signed], .real, .integer .longInt),
   ([.Unsigned, .Long], .real, .integer .unsignedLongInt),
   ([.Long, .Unsigned], .real, .integer .unsignedLongInt),
   ([.Unsigned, .Long, .Int], .real, .integer .unsignedLongInt),
   ([.Unsigned, .Int, .Long], .real, .integer .unsignedLongInt),
   ([.Int, .Unsigned, .Long], .real, .integer .unsignedLongInt),
   ([.Int, .Long, .Unsigned], .real, .integer .unsignedLongInt),
   ([.Long, .Unsigned, .Int], .real, .integer .unsignedLongInt),
   ([.Long, .Int, .Unsigned], .real, .integer .unsignedLongInt),
   ([.Long, .Long], .real, .integer .longLongInt),
   ([.Signed, .Long, .Long], .real, .integer .longLongInt),
   ([.Long, .Signed, .Long], .real, .integer .longLongInt),
   ([.Long, .Long, .Signed], .real, .integer .longLongInt),
   ([.Int, .Long, .Long], .real, .integer .longLongInt),
   ([.Long, .Int, .Long], .real, .integer .longLongInt),
   ([.Long, .Long, .Int], .real, .integer .longLongInt),
   ([.Signed, .Long, .Long, .Int], .real, .integer .longLongInt),
   ([.Long, .Signed, .Long, .Int], .real, .integer .longLongInt),
   ([.Long, .Long, .Signed, .Int], .real, .integer .longLongInt),
   ([.Signed, .Long, .Int, .Long], .real, .integer .longLongInt),
   ([.Long, .Signed, .Int, .Long], .real, .integer .longLongInt),
   ([.Long, .Long, .Int, .Signed], .real, .integer .longLongInt),
   ([.Signed, .Int, .Long, .Long], .real, .integer .longLongInt),
   ([.Long, .Int, .Signed, .Long], .real, .integer .longLongInt),
   ([.Long, .Int, .Long, .Signed], .real, .integer .longLongInt),
   ([.Int, .Signed, .Long, .Long], .real, .integer .longLongInt),
   ([.Int, .Long, .Signed, .Long], .real, .integer .longLongInt),
   ([.Int, .Long, .Long, .Signed], .real, .integer .longLongInt),
   ([.OversizedInt], .real, .integer .oversizedInt),
   ([.Signed, .OversizedInt], .real, .integer .oversizedInt),
   ([.OversizedInt, .Signed], .real, .integer .oversizedInt),
   ([.Unsigned, .Long, .Long], .real, .integer .unsignedLongLongInt),
   ([.Long, .Unsigned, .Long], .real, .integer .unsignedLongLongInt),
   ([.Long, .Long, .Unsigned], .real, .integer .unsignedLongLongInt),
   ([.Unsigned, .Long, .Long, .Int], .real, .integer .unsignedLongLongInt),
   ([.Long, .Unsigned, .Long, .Int], .real, .integer .unsignedLongLongInt),
   ([.Long, .Long, .Unsigned, .Int], .real, .integer .unsignedLongLongInt),
   ([.Unsigned, .Long, .Int, .Long], .real, .integer .unsignedLongLongInt),
   ([.Long, .Unsigned, .Int, .Long], .real, .integer .unsignedLongLongInt),
   ([.Long, .Long, .Int, .Unsigned], .real, .integer .unsignedLongLongInt),
   ([.Unsigned, .Int, .Long, .Long], .real, .integer .unsignedLongLongInt),
   ([.Long, .Int, .Unsigned, .Long], .real, .integer .unsignedLongLongInt),
   ([.Long, .Int, .Long, .Unsigned], .real, .integer .unsignedLongLongInt),
   ([.Int, .Unsigned, .Long, .Long], .real, .integer .unsignedLongLongInt),
   ([.Int, .Long, .Unsigned, .Long], .real, .integer .unsignedLongLongInt),
   ([.Int, .Long, .Long, .Unsigned], .real, .integer .unsignedLongLongInt),
   ([.Unsigned, .OversizedInt], .real, .integer .unsignedOversizedInt),
   ([.OversizedInt, .Unsigned], .real, .integer .unsignedOversizedInt)]

def canonicalizeSpecifier (Specs : List TypeSpecifier) : Eval Specified :=
  match Specs with
  | [] => .error (CV "TCANON4" "Declaration with no type specifiers.")
  | Specs => (rules.lookup Specs).elim (.error .stuck) .ok

def Qualifier.quals : Qualifier → Quals
  | Const => ⟨true, false, false, false⟩
  | Volatile => ⟨false, true, false, false⟩
  | Restrict => ⟨false, false, true, false⟩
  | Atomic => ⟨false, false, false, true⟩
  | RestrictReserved _ => ⟨false, false, true, false⟩

/-- `addModifier` -/
def addModifier (M : Modifier) : CType → CType
  | .t q m st => .t q (m.add M) st

/-- `addMods`, on what it takes first. -/
def addMods : List SpecifierElem → CType → CType
  | [], T => T
  | .qualifier Q :: Mods, T => addMods Mods (addQualifiers Q.quals T)
  | .modifier M :: Mods, T => addMods Mods (addModifier M T)
  | _ :: Mods, T => addMods Mods T

/-- `type(B)` -/
def typeOf (B : SimpleBasicType) : CType := .t noQuals noMods (.nonArray (.basic B))

/-- `canonicalizeType'`, on what is left of the specifiers, the last one first. -/
def canonicalizeType' : List SpecifierElem → List TypeSpecifier → List SpecifierElem → Eval (Domain × CType)
  | [], Specs, Mods => do
    let (D, B) ← canonicalizeSpecifier Specs
    return (D, addMods Mods.reverse (typeOf B))
  | .MissingType :: _, _, _ => .error (CV "TCANON3" "Function declared without a return type.")
  | .typeSpecifier S :: L, Specs, Mods => canonicalizeType' L (Specs ++ [S]) Mods
  | E :: L, Specs, Mods => canonicalizeType' L Specs (Mods ++ [E])

def canonicalizeType (L : List SpecifierElem) : Eval (Domain × CType) := canonicalizeType' L.reverse [] []

/-! ## What they say -/

/-- C11 6.7.2p2 and the oversized types: the sets of specifiers that are a type, each in one of its orders -/
def standard : List (List TypeSpecifier × Specified) :=
  [([.Void], .real, .void), ([.Bool], .real, .integer .bool), ([.Char], .real, .integer .char),
   ([.Signed, .Char], .real, .integer .signedChar), ([.Unsigned, .Char], .real, .integer .unsignedChar),
   ([.Double], .real, .float .double), ([.Float], .real, .float .float),
   ([.Long, .Double], .real, .float .longDouble), ([.OversizedFloat], .real, .float .oversizedFloat),
   ([.Complex, .Double], .complex, .float .double), ([.Complex, .Float], .complex, .float .float),
   ([.Complex, .Long, .Double], .complex, .float .longDouble),
   ([.Imaginary, .Double], .imaginary, .float .double),
   ([.Imaginary, .Float], .imaginary, .float .float),
   ([.Imaginary, .Long, .Double], .imaginary, .float .longDouble),
   ([.Short], .real, .integer .shortInt), ([.Signed, .Short], .real, .integer .shortInt),
   ([.Short, .Int], .real, .integer .shortInt), ([.Signed, .Short, .Int], .real, .integer .shortInt),
   ([.Unsigned, .Short], .real, .integer .unsignedShortInt),
   ([.Unsigned, .Short, .Int], .real, .integer .unsignedShortInt), ([.Int], .real, .integer .int),
   ([.Signed], .real, .integer .signedInt), ([.Signed, .Int], .real, .integer .signedInt),
   ([.Unsigned], .real, .integer .unsignedInt), ([.Unsigned, .Int], .real, .integer .unsignedInt),
   ([.Long], .real, .integer .longInt), ([.Signed, .Long], .real, .integer .longInt),
   ([.Long, .Int], .real, .integer .longInt), ([.Signed, .Long, .Int], .real, .integer .longInt),
   ([.Unsigned, .Long], .real, .integer .unsignedLongInt),
   ([.Unsigned, .Long, .Int], .real, .integer .unsignedLongInt),
   ([.Long, .Long], .real, .integer .longLongInt),
   ([.Signed, .Long, .Long], .real, .integer .longLongInt),
   ([.Int, .Long, .Long], .real, .integer .longLongInt),
   ([.Signed, .Long, .Long, .Int], .real, .integer .longLongInt),
   ([.OversizedInt], .real, .integer .oversizedInt),
   ([.Signed, .OversizedInt], .real, .integer .oversizedInt),
   ([.Unsigned, .Long, .Long], .real, .integer .unsignedLongLongInt),
   ([.Unsigned, .Long, .Long, .Int], .real, .integer .unsignedLongLongInt),
   ([.Unsigned, .OversizedInt], .real, .integer .unsignedOversizedInt)]

def typeSpecifiers (L : List SpecifierElem) : List TypeSpecifier :=
  L.filterMap fun E => match E with
    | .typeSpecifier S => some S
    | _ => none

/-- The qualifiers that are there. -/
def quals (L : List SpecifierElem) : Quals where
  const := decide (.qualifier .Const ∈ L)
  volatile := decide (.qualifier .Volatile ∈ L)
  restrict := L.any fun E => match E with
    | .qualifier .Restrict => true
    | .qualifier (.RestrictReserved _) => true
    | _ => false
  atomic := decide (.qualifier .Atomic ∈ L)

/-- The modifiers that are there. -/
def flags (L : List SpecifierElem) : Finset Modifier :=
  (L.filterMap fun E => match E with
    | .modifier M => some M
    | _ => none).toFinset

/-! ## Every order has its rule -/

/-- Every rule is for an order of a set that is a type. -/
theorem rules_sound : ∀ r ∈ rules, ∃ row ∈ standard, r.1.Perm row.1 ∧ r.2 = row.2 := by decide +kernel

/-- Every order of a set that is a type has its rule, and it is the first that applies. -/
theorem rules_complete : ∀ row ∈ standard, ∀ Specs ∈ row.1.permutations',
    Specs ≠ [] ∧ rules.lookup Specs = some row.2 := by decide +kernel

theorem canonicalizeSpecifier_iff {Specs : List TypeSpecifier} {r : Specified} :
    canonicalizeSpecifier Specs = .ok r ↔ ∃ row ∈ standard, Specs.Perm row.1 ∧ r = row.2 := by
  constructor
  · intro h
    cases hlookup : rules.lookup Specs with
    | none =>
      cases Specs with
      | nil => cases h
      | cons S Specs =>
        rw [canonicalizeSpecifier, hlookup] at h
        · cases h
        · exact List.cons_ne_nil _ _
    | some r' =>
      have hr : r' = r := by
        cases Specs with
        | nil => cases h
        | cons S Specs =>
          rw [canonicalizeSpecifier, hlookup] at h
          · exact Except.ok.inj h
          · exact List.cons_ne_nil _ _
      obtain ⟨l₁, l₂, hrules, -⟩ := List.lookup_eq_some_iff.1 hlookup
      have hmem : (Specs, r') ∈ rules := by
        rw [hrules]
        simp
      exact hr ▸ rules_sound _ hmem
  · rintro ⟨row, hrow, hperm, rfl⟩
    obtain ⟨hne, hlookup⟩ := rules_complete row hrow Specs (List.mem_permutations'.2 hperm)
    rw [canonicalizeSpecifier, hlookup]
    · rfl
    · exact hne

/-! ## The other specifiers -/

theorem addMods_append (Ms Ms' : List SpecifierElem) (T : CType) :
    addMods (Ms ++ Ms') T = addMods Ms' (addMods Ms T) := by
  induction Ms generalizing T with
  | nil => rfl
  | cons E Ms ih => cases E <;> exact ih _

theorem flags_append (Ms Ms' : List SpecifierElem) : flags (Ms ++ Ms') = flags Ms ∪ flags Ms' := by
  simp [flags, List.filterMap_append, List.toFinset_append]

theorem quals_append (Ms Ms' : List SpecifierElem) : quals (Ms ++ Ms') = (quals Ms).plus (quals Ms') := by
  simp [quals, Quals.plus, List.mem_append, List.any_append]

/-- One step of `addMods` on a type that is no array. -/
theorem addMods_singleton (E : SpecifierElem) (q : Quals) (fl : Finset Modifier) (n : SimpleNonArrayType) :
    addMods [E] (.t q (.mods fl none) (.nonArray n)) =
      .t (q.plus (quals [E])) (.mods (fl ∪ flags [E]) none) (.nonArray n) := by
  cases E with
  | qualifier Q =>
    cases Q <;> simp [addMods, addQualifiers, Qualifier.quals, quals, flags]
  | modifier M =>
    have hquals : q.plus (quals [.modifier M]) = q := by simp [quals, Quals.plus]
    have hflags : flags [.modifier M] = {M} := by simp [flags]
    rw [hquals, hflags, Finset.union_comm, ← Finset.insert_eq]
    rfl
  | typeSpecifier S => simp [addMods, quals, flags, Quals.plus]
  | Attribute => simp [addMods, quals, flags, Quals.plus]
  | MissingType => simp [addMods, quals, flags, Quals.plus]

theorem plus_assoc (q q' q'' : Quals) : (q.plus q').plus q'' = q.plus (q'.plus q'') := by
  simp [Quals.plus, Bool.or_assoc]

/-- Adding the specifiers one after the other adds them all. -/
theorem addMods_eq (Ms : List SpecifierElem) (n : SimpleNonArrayType) :
    addMods Ms (.t noQuals noMods (.nonArray n)) = .t (quals Ms) (.mods (flags Ms) none) (.nonArray n) := by
  induction Ms using List.reverseRecOn with
  | nil => rfl
  | append_singleton Ms E ih =>
    rw [addMods_append, ih, addMods_singleton, quals_append, flags_append]

theorem quals_perm {L L' : List SpecifierElem} (h : L.Perm L') : quals L = quals L' := by
  have hany : ∀ p : SpecifierElem → Bool, L.any p = L'.any p := fun p => by
    rw [Bool.eq_iff_iff, List.any_eq_true, List.any_eq_true]
    simp only [h.mem_iff]
  simp only [quals, h.mem_iff, hany]

theorem flags_perm {L L' : List SpecifierElem} (h : L.Perm L') : flags L = flags L' :=
  List.toFinset_eq_of_perm _ _ (h.filterMap _)

/-! ## Sorting the specifiers -/

/-- The type that a rule gives, with the qualifiers and modifiers of a list -/
def withSpecifiers (L : List SpecifierElem) (r : Specified) : Domain × CType :=
  (r.1, .t (quals L) (.mods (flags L) none) (.nonArray (.basic r.2)))

theorem withSpecifiers_typeSpecifier (Mods L : List SpecifierElem) (S : TypeSpecifier) :
    withSpecifiers (Mods ++ .typeSpecifier S :: L) = withSpecifiers (Mods ++ L) := by
  have hquals : quals (Mods ++ .typeSpecifier S :: L) = quals (Mods ++ L) := by
    simp [quals, List.mem_append, List.any_append]
  have hflags : flags (Mods ++ .typeSpecifier S :: L) = flags (Mods ++ L) := by
    simp [flags, List.filterMap_append]
  funext r
  rw [withSpecifiers, withSpecifiers, hquals, hflags]

theorem canonicalizeType'_eq (L : List SpecifierElem) : ∀ (Specs : List TypeSpecifier) (Mods : List SpecifierElem),
    .MissingType ∉ L →
    canonicalizeType' L Specs Mods =
      (canonicalizeSpecifier (Specs ++ typeSpecifiers L)).map (withSpecifiers (Mods ++ L)) := by
  induction L with
  | nil =>
    intro Specs Mods _
    rw [canonicalizeType', typeSpecifiers, List.filterMap_nil, List.append_nil, List.append_nil]
    cases canonicalizeSpecifier Specs with
    | error e => rfl
    | ok r =>
      show Except.ok (r.1, addMods Mods.reverse (typeOf r.2)) = .ok (withSpecifiers Mods r)
      rw [typeOf, addMods_eq, quals_perm Mods.reverse_perm, flags_perm Mods.reverse_perm]
      rfl
  | cons E L ih =>
    intro Specs Mods hmissing
    have hL : .MissingType ∉ L := fun h => hmissing (List.mem_cons_of_mem _ h)
    have hother : ∀ E, canonicalizeType' L Specs (Mods ++ [E]) =
        (canonicalizeSpecifier (Specs ++ typeSpecifiers L)).map (withSpecifiers (Mods ++ E :: L)) := fun E => by
      rw [ih _ _ hL, List.append_assoc, List.singleton_append]
    cases E with
    | typeSpecifier S =>
      rw [canonicalizeType', ih _ _ hL, withSpecifiers_typeSpecifier, List.append_assoc]
      rfl
    | MissingType => exact absurd List.mem_cons_self hmissing
    | qualifier Q => exact hother (.qualifier Q)
    | modifier M => exact hother (.modifier M)
    | Attribute => exact hother .Attribute

theorem canonicalizeType'_missing (L : List SpecifierElem) : ∀ (Specs : List TypeSpecifier) (Mods : List SpecifierElem),
    .MissingType ∈ L → ∀ r, canonicalizeType' L Specs Mods ≠ .ok r := by
  induction L with
  | nil => exact fun _ _ h => absurd h List.not_mem_nil
  | cons E L ih =>
    intro Specs Mods h r
    rcases List.mem_cons.1 h with rfl | hL
    · exact fun hok => by cases hok
    · cases E with
      | MissingType => exact fun hok => by cases hok
      | typeSpecifier S => exact ih _ _ hL r
      | qualifier Q => exact ih _ _ hL r
      | modifier M => exact ih _ _ hL r
      | Attribute => exact ih _ _ hL r

/-- **What a declaration says does not depend on the order of its specifiers.**  It has a type exactly when its type
    specifiers are one of the sets that are a type, whatever is between them, and all of its qualifiers and modifiers
    are added to that. -/
theorem canonicalizeType_iff (L : List SpecifierElem) (D : Domain) (T : CType) :
    (canonicalizeType L = .ok (D, T) ↔ .MissingType ∉ L ∧ ∃ row ∈ standard, (typeSpecifiers L).Perm row.1 ∧
      D = row.2.1 ∧ T = .t (quals L) (.mods (flags L) none) (.nonArray (.basic row.2.2))) ∧
    ∀ L', L.Perm L' → (canonicalizeType L = .ok (D, T) ↔ canonicalizeType L' = .ok (D, T)) := by
  have hiff : ∀ L : List SpecifierElem, canonicalizeType L = .ok (D, T) ↔ .MissingType ∉ L ∧
      ∃ row ∈ standard, (typeSpecifiers L).Perm row.1 ∧ D = row.2.1 ∧
        T = .t (quals L) (.mods (flags L) none) (.nonArray (.basic row.2.2)) := by
    intro L
    have hrev : L.reverse.Perm L := L.reverse_perm
    have hspecs : (typeSpecifiers L.reverse).Perm (typeSpecifiers L) := hrev.filterMap _
    by_cases hmissing : .MissingType ∈ L
    · constructor
      · exact fun h => absurd h (canonicalizeType'_missing _ _ _ (List.mem_reverse.2 hmissing) _)
      · exact fun h => absurd hmissing h.1
    · rw [canonicalizeType, canonicalizeType'_eq _ _ _ (by rwa [List.mem_reverse]), List.nil_append, List.nil_append]
      constructor
      · intro h
        cases hspec : canonicalizeSpecifier (typeSpecifiers L.reverse) with
        | error e =>
          rw [hspec] at h
          cases h
        | ok r =>
          rw [hspec] at h
          have heq : withSpecifiers L.reverse r = (D, T) := Except.ok.inj h
          obtain ⟨row, hrow, hperm, rfl⟩ := canonicalizeSpecifier_iff.1 hspec
          rw [withSpecifiers, quals_perm hrev, flags_perm hrev] at heq
          exact ⟨hmissing, row, hrow, hspecs.symm.trans hperm, (congrArg Prod.fst heq).symm,
            (congrArg Prod.snd heq).symm⟩
      · rintro ⟨-, row, hrow, hperm, rfl, rfl⟩
        rw [canonicalizeSpecifier_iff.2 ⟨row, hrow, hspecs.trans hperm, rfl⟩]
        show Except.ok (withSpecifiers L.reverse row.2) = _
        rw [withSpecifiers, quals_perm hrev, flags_perm hrev]
  refine ⟨hiff L, fun L' hperm => ?_⟩
  rw [hiff L, hiff L', hperm.mem_iff, quals_perm hperm, flags_perm hperm]
  have hspecs : (typeSpecifiers L).Perm (typeSpecifiers L') := hperm.filterMap _
  constructor
  · rintro ⟨hm, row, hrow, hp, hr⟩
    exact ⟨hm, row, hrow, hspecs.symm.trans hp, hr⟩
  · rintro ⟨hm, row, hrow, hp, hr⟩
    exact ⟨hm, row, hrow, hspecs.trans hp, hr⟩

example : canonicalizeType [.typeSpecifier .Unsigned, .qualifier .Const, .typeSpecifier .Long, .typeSpecifier .Int,
    .modifier (.storage .Static), .typeSpecifier .Long] =
      .ok (.real, .t ⟨true, false, false, false⟩ (.mods {.storage .Static} none)
        (.nonArray (.basic (.integer .unsignedLongLongInt)))) := rfl

end CSemantics.Specifiers
