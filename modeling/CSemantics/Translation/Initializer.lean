/-
  Initializers in braces, and what happens when the inner braces are left out.

  The machine keeps the CURRENT SUBOBJECT as a stack: the object to initialize next on top, under it
  the objects it is part of.  `down` on top asks for its first member, `next` for the member after it.
  An object that has no more members is to be climbed out of, and that is where the rules have holes:

      last member of a union or struct that is a member itself     on with the member after it
      last member of a union or struct that is an array element    a constraint violation
      last element of an array                                     a constraint violation

  What the program means is the list of scalar leaves in the order of declaration, `declLeaves`.  The
  machine goes through `walks`, in which an anonymous union has all its members and a union only its
  first one.

      Moves.climb               what the rules make of `next` is `nextPath`, on paths
      isChain_transition        from one leaf to the next `nextPath` is right iff `Climbs`
      flat_initializesTo_iff    a run through the leaves, up to a climb that is not possible
      braced_initializesTo      with braces nothing has to be climbed out of
      brace_elision_iff         a flat initializer means the leaves, as the fully braced one does, iff
                                the first leaves of both lists are the same and all climbs are possible
-/
import CSemantics.Common
import CSemantics.Lib.Machine
import CSemantics.Typing.Syntax

namespace CSemantics

/-! ## Types with their members -/

mutual

/-- A complete type, its members where a struct or union has its tag. -/
inductive InitType
  /-- anything but an aggregate or a union -/
  | scalar (T : CType)
  | arrayType (T : InitType) (len : Nat)
  | structType (fields : Fields)
  | unionType (fields : Fields)

/-- The member declarations of a struct or union, in order. -/
inductive Fields
  | nil
  | cons (F : CId) (T : InitType) (rest : Fields)

end

/-- `isAggregateOrUnionType` -/
def InitType.isAggregateOrUnion : InitType → Bool
  | .scalar _ => false
  | _ => true

/-- `getFlatFields`: the members, those of an anonymous struct or union in the place of it. -/
def Fields.flat : Fields → List (CId × InitType)
  | .nil => []
  | .cons F (.structType gs) rest => if F.isNoName then gs.flat ++ rest.flat else (F, .structType gs) :: rest.flat
  | .cons F (.unionType gs) rest => if F.isNoName then gs.flat ++ rest.flat else (F, .unionType gs) :: rest.flat
  | .cons F T rest => (F, T) :: rest.flat

def getFlatFields : InitType → List (CId × InitType)
  | .structType fs => fs.flat
  | .unionType fs => fs.flat
  | _ => []

def findFieldNames (T : InitType) : List CId := (getFlatFields T).map Prod.fst

/-- `type(no-type)` where there is no such field. -/
def findFieldType (F : CId) (T : InitType) : InitType :=
  ((getFlatFields T).lookup F).getD (.scalar (SimpleNonArrayType.basic .noType).toType)

/-! ## The machine -/

/-- A part of the object that is initialized. -/
inductive InitLValue
  /-- `ncle(X, T)` -/
  | object (X : CId)
  /-- `K[[N]]` -/
  | index (K : InitLValue) (N : Nat)
  /-- `K .init F` -/
  | init (K : InitLValue) (F : CId)
  deriving DecidableEq, Repr

/-- An entry of the current subobject. -/
inductive SubObject
  | next
  | down
  | noMoreFields
  | noMoreIndices
  | ncle (K : InitLValue) (T : InitType)

/-- An initializer without designators.  The expressions are of scalar type. -/
inductive Init (ε : Type)
  | SingleInit (e : ε)
  | CompoundInit (L : List (Init ε))

/-- What the initializer of an object is elaborated to. -/
inductive InitAction (ε : Type)
  | Zero (X : CId)
  | InitPadding (K : InitLValue) (F : CId)
  | Initializer (K : InitLValue) (e : ε)

/-- The computation.  A fragment is `InitFragment(NextInit(), _)`. -/
inductive InitK (ε : Type)
  | fillInits (L : List (Init ε))
  | fillInitFragment (exp : Init ε)
  | fillInit (exp : Init ε)
  | initializeSingleInit2 (e : ε)
  | finishCompoundInit (L : List SubObject)

/-- `<saved-init>` and `<incomplete-length>`. -/
structure SavedInit (ε : Type) where
  savedInit : List (InitAction ε)
  incompleteLength : Nat

structure InitCalc (ε : Type) where
  k : List (InitK ε)
  currSubobject : List SubObject
  currObject : List (InitLValue × InitType)
  saved : SavedInit ε

section Code

variable {ε : Type}

def firstField (K : InitLValue) (T : InitType) : List CId → SubObject
  | [] => .noMoreFields
  | F :: L => if F.isNoName then firstField K T L else .ncle (.init K F) (findFieldType F T)

def followingField (K : InitLValue) (F : CId) (T : InitType) : List CId → SubObject
  | [] => .noMoreFields
  | F' :: L => if F = F' then firstField K T L else followingField K F T L

/-- The rules under `subobjectKCell`. -/
def moveSubobject : List SubObject → Option (List SubObject)
  | .down :: .ncle K (.arrayType T len) :: S => some (.ncle (.index K 0) T :: .ncle K (.arrayType T len) :: S)
  | .down :: .ncle K (.structType fs) :: S =>
    some (firstField K (.structType fs) (findFieldNames (.structType fs)) :: .ncle K (.structType fs) :: S)
  | .down :: .ncle K (.unionType fs) :: S =>
    some (firstField K (.unionType fs) (findFieldNames (.unionType fs)) :: .ncle K (.unionType fs) :: S)
  | .next :: .ncle (.index K N) T :: .ncle K' (.arrayType U len) :: S =>
    if K = K' then
      if len > N + 1 then some (.ncle (.index K (N + 1)) T :: .ncle K' (.arrayType U len) :: S)
      else some (.noMoreIndices :: .ncle K' (.arrayType U len) :: S)
    else none
  | .next :: .ncle (.init K F) _ :: .ncle K' (.structType fs) :: S =>
    if K = K' then
      some (followingField K F (.structType fs) (findFieldNames (.structType fs)) :: .ncle K' (.structType fs) :: S)
    else none
  | .next :: .ncle (.init K _) _ :: .ncle K' (.unionType fs) :: S =>
    if K = K' then some (.noMoreFields :: .ncle K' (.unionType fs) :: S) else none
  | .noMoreFields :: .ncle (.init K F) T :: S => some (.next :: .ncle (.init K F) T :: S)
  | _ => none

/-- The number of elements that the outermost array has to have. -/
def getTopArrayUse : InitLValue → Nat
  | .object _ => 0
  | .index (.object _) N => N + 1
  | .index K _ => getTopArrayUse K
  | .init K _ => getTopArrayUse K

def trapPadding : InitLValue → List (InitAction ε)
  | .object _ => []
  | .index K _ => trapPadding K
  | .init K F => .InitPadding K F :: trapPadding K

/-- One scalar initialized. -/
def SavedInit.assign (s : SavedInit ε) (K : InitLValue) (e : ε) : SavedInit ε :=
  ⟨s.savedInit ++ (trapPadding K ++ [.Initializer K e]), max s.incompleteLength (getTopArrayUse K)⟩

def nonexistentMember : Stop := CV "CDI4" "Attempting to initialize nonexistent member."

def unexpectedCompound : Stop := CV "CDI5" "Unexpected compound initializer."

/-- The rules of one initializer, where the current subobject does not move.  Where there are no more
    indices the rule that takes `NextInit()` off applies as well, and nothing after it. -/
def stepInit (c : InitCalc ε) : Eval (InitCalc ε) :=
  match c.k, c.currSubobject with
  | .fillInitFragment _ :: _, .noMoreIndices :: _ => .error nonexistentMember
  | .fillInitFragment _ :: _, .noMoreFields :: _ => .error nonexistentMember
  | .fillInitFragment exp :: k, .ncle _ _ :: _ => .ok { c with k := .fillInit exp :: k }
  | .fillInit (.CompoundInit L) :: k, .ncle K T :: S =>
    if T.isAggregateOrUnion then
      .ok { c with
        k := .fillInits L :: .finishCompoundInit (.next :: .ncle K T :: S) :: k
        currSubobject := .down :: .ncle K T :: S
        currObject := (K, T) :: c.currObject }
    else match L with
      | [exp] => .ok { c with k := .fillInitFragment exp :: k }
      | _ => .error unexpectedCompound
  | .fillInit (.SingleInit e) :: k, _ => .ok { c with k := .initializeSingleInit2 e :: k }
  | .initializeSingleInit2 e :: k, .ncle K T :: S =>
    if T.isAggregateOrUnion then .ok { c with currSubobject := .down :: .ncle K T :: S }
    else .ok { c with k := k, currSubobject := .next :: .ncle K T :: S, saved := c.saved.assign K e }
  | _, _ => .error .stuck

def initStep (c : InitCalc ε) : Eval (InitCalc ε) :=
  match c.k with
  | [] => .error .stuck
  | .fillInits [] :: k => .ok { c with k := k }
  | .fillInits (exp :: L) :: k => .ok { c with k := .fillInitFragment exp :: .fillInits L :: k }
  | .finishCompoundInit L :: k =>
    match c.currObject with
    | [] => .error .stuck
    | _ :: O => .ok { c with k := k, currSubobject := L, currObject := O }
  | _ =>
    match moveSubobject c.currSubobject with
    | some S => .ok { c with currSubobject := S }
    | none => stepInit c

/-- `startInit(T, X, L)` -/
def startInit (T : InitType) (X : CId) (L : List (Init ε)) : InitCalc ε :=
  ⟨[.fillInits L], [.down, .ncle (.object X) T], [(.object X, T)], ⟨[.Zero X], 0⟩⟩

/-- What is assigned, in order. -/
def SavedInit.assigned (s : SavedInit ε) : List (InitLValue × ε) :=
  s.savedInit.filterMap fun
    | .Initializer K e => some (K, e)
    | _ => none

/-- The initializer is elaborated to these assignments. -/
def InitializesTo (T : InitType) (X : CId) (L : List (Init ε)) (A : List (InitLValue × ε)) : Prop :=
  ∃ c, Steps initStep (startInit T X L) c ∧ c.k = [] ∧ c.saved.assigned = A

end Code

/-! ## Leaves -/

/-- From an object to one that it consists of. -/
inductive InitStep
  | index (N : Nat)
  | field (F : CId)
  deriving DecidableEq, Repr

/-- From an object to a part of it. -/
abbrev InitPath := List InitStep

/-- `K[[N]]` or `K .init F` -/
def InitLValue.step (K : InitLValue) : InitStep → InitLValue
  | .index N => .index K N
  | .field F => .init K F

def InitLValue.path (K : InitLValue) (p : InitPath) : InitLValue := p.foldl InitLValue.step K

mutual

/-- **The scalar leaves of a type, in the order of declaration**: of a union the leaves of its first
    named member, and no unnamed bit-field.  An anonymous struct or union is a member like others. -/
def InitType.declLeaves : InitType → List InitPath
  | .scalar _ => [[]]
  | .arrayType T len => (List.range len).flatMap fun N => T.declLeaves.map (.index N :: ·)
  | .structType fs => fs.declLeaves
  | .unionType fs => fs.declFirst

/-- The leaves of a member that has no name. -/
def InitType.anonymousLeaves : InitType → List InitPath
  | .structType fs => fs.declLeaves
  | .unionType fs => fs.declFirst
  | _ => []

def Fields.declLeaves : Fields → List InitPath
  | .nil => []
  | .cons F T rest =>
    (if F.isNoName then T.anonymousLeaves else T.declLeaves.map (.field F :: ·)) ++ rest.declLeaves

/-- The leaves of the first member that has any. -/
def Fields.declFirst : Fields → List InitPath
  | .nil => []
  | .cons F T rest =>
    let leaves := if F.isNoName then T.anonymousLeaves else T.declLeaves.map (.field F :: ·)
    if leaves.isEmpty then rest.declFirst else leaves

end

/-- The members that can be named. -/
def Fields.members (fs : Fields) : List (CId × InitType) := fs.flat.filter fun p => !p.1.isNoName

mutual

/-- The leaves of a type as `down` and `next` go through them. -/
def InitType.walks : InitType → List InitPath
  | .scalar _ => [[]]
  | .arrayType T len => (List.range len).flatMap fun N => T.walks.map (.index N :: ·)
  | .structType fs => fs.walks
  | .unionType fs => fs.firstWalks

/-- An anonymous struct or union has all its members in the place of it. -/
def Fields.walks : Fields → List InitPath
  | .nil => []
  | .cons F (.structType gs) rest =>
    (if F.isNoName then gs.walks else gs.walks.map (.field F :: ·)) ++ rest.walks
  | .cons F (.unionType gs) rest =>
    (if F.isNoName then gs.walks else gs.firstWalks.map (.field F :: ·)) ++ rest.walks
  | .cons F T rest => (if F.isNoName then [] else T.walks.map (.field F :: ·)) ++ rest.walks

def Fields.firstWalks : Fields → List InitPath
  | .nil => []
  | .cons F (.structType gs) rest =>
    if F.isNoName then if gs.members.isEmpty then rest.firstWalks else gs.firstWalks
    else gs.walks.map (.field F :: ·)
  | .cons F (.unionType gs) rest =>
    if F.isNoName then if gs.members.isEmpty then rest.firstWalks else gs.firstWalks
    else gs.firstWalks.map (.field F :: ·)
  | .cons F T rest => if F.isNoName then rest.firstWalks else T.walks.map (.field F :: ·)

end

/-- What an object consists of, as `down` and `next` go through it. -/
def InitType.subs : InitType → List (InitStep × InitType)
  | .scalar _ => []
  | .arrayType T len => (List.range len).map fun N => (.index N, T)
  | .structType fs => fs.members.map fun p => (.field p.1, p.2)
  | .unionType fs => (fs.members.take 1).map fun p => (.field p.1, p.2)

def InitStep.isField : InitStep → Bool
  | .index _ => false
  | .field _ => true

/-- **Going on from a leaf to the next one is possible**: where the two paths part, the first one ends
    with the next step, or it has no index from there on. -/
def Climbs : InitPath → InitPath → Prop
  | x :: p, y :: q => if x = y then Climbs p q else p = [] ∨ ∀ s ∈ x :: p, s.isField = true
  | _, _ => True

/-- An array has an element, a struct or union a member, and no two members have one name. -/
inductive InitType.WellFormed : InitType → Prop
  | scalar (T : CType) : WellFormed (.scalar T)
  | arrayType {T : InitType} {len : Nat} (h : T.WellFormed) (hlen : 0 < len) : WellFormed (.arrayType T len)
  | structType {fs : Fields} (hne : fs.members ≠ []) (hnodup : (fs.members.map Prod.fst).Nodup)
      (h : ∀ p ∈ fs.members, p.2.WellFormed) : WellFormed (.structType fs)
  | unionType {fs : Fields} (hne : fs.members ≠ []) (hnodup : (fs.members.map Prod.fst).Nodup)
      (h : ∀ p ∈ fs.members, p.2.WellFormed) : WellFormed (.unionType fs)

/-- Pieces of some lengths, until nothing is left. -/
def pieces {ε : Type} : List (Nat × (List ε → Init ε)) → List ε → List (Init ε)
  | [], _ => []
  | (n, f) :: fs, es => if es.isEmpty then [] else f (es.take n) :: pieces fs (es.drop n)

/-- The members of an anonymous struct or union. -/
def InitType.anonymousMembers : InitType → List (CId × InitType)
  | .structType gs => gs.members
  | .unionType gs => gs.members
  | _ => []

@[simp] theorem Fields.members_nil : Fields.nil.members = [] := rfl

theorem Fields.members_cons (F : CId) (T : InitType) (rest : Fields) : (Fields.cons F T rest).members =
    (if F.isNoName then T.anonymousMembers else [(F, T)]) ++ rest.members := by
  unfold Fields.members
  cases T <;> cases hF : F.isNoName <;> simp [Fields.flat, InitType.anonymousMembers, Fields.members, hF]

theorem Fields.sizeOf_lt_of_mem_flat : (fs : Fields) → ∀ p ∈ fs.flat, sizeOf p.2 < sizeOf fs
  | .nil => by simp [Fields.flat]
  | .cons F T rest => by
    have hrest := Fields.sizeOf_lt_of_mem_flat rest
    have hself : ∀ p ∈ (F, T) :: rest.flat, sizeOf p.2 < sizeOf (Fields.cons F T rest) := by
      intro p hp
      simp only [Fields.cons.sizeOf_spec]
      rcases List.mem_cons.mp hp with rfl | hp
      · show sizeOf T < _
        omega
      · have := hrest p hp
        omega
    cases T with
    | scalar => exact hself
    | arrayType => exact hself
    | structType gs | unionType gs =>
      unfold Fields.flat
      split
      · intro p hp
        simp only [Fields.cons.sizeOf_spec, InitType.structType.sizeOf_spec, InitType.unionType.sizeOf_spec]
        rcases List.mem_append.mp hp with hp | hp
        · have := Fields.sizeOf_lt_of_mem_flat gs p hp
          omega
        · have := hrest p hp
          omega
      · exact hself

theorem InitType.sizeOf_lt_of_mem_subs {T : InitType} : ∀ p ∈ T.subs, sizeOf p.2 < sizeOf T := by
  have hfields : ∀ fs : Fields, ∀ p ∈ fs.members.map fun p => (InitStep.field p.1, p.2), sizeOf p.2 < sizeOf fs := by
    intro fs p hp
    obtain ⟨q, hq, rfl⟩ := List.mem_map.mp hp
    exact fs.sizeOf_lt_of_mem_flat q (List.mem_of_mem_filter hq)
  cases T with
  | scalar => simp [InitType.subs]
  | arrayType T len =>
    intro p hp
    obtain ⟨N, -, rfl⟩ := List.mem_map.mp hp
    simp only [InitType.arrayType.sizeOf_spec]
    omega
  | structType fs =>
    intro p hp
    have := hfields fs p hp
    simp only [InitType.structType.sizeOf_spec]
    omega
  | unionType fs =>
    intro p hp
    have := hfields fs p (((List.take_sublist 1 fs.members).map _).mem hp)
    simp only [InitType.unionType.sizeOf_spec]
    omega

/-- **The fully braced initializer**: braces around every part that is not a scalar. -/
def braced {ε : Type} (T : InitType) (es : List ε) : Init ε :=
  match T.isAggregateOrUnion, es with
  | false, [e] => .SingleInit e
  | _, es => .CompoundInit (pieces (T.subs.attach.map fun p => (p.val.2.walks.length, braced p.val.2)) es)
termination_by sizeOf T
decreasing_by exact InitType.sizeOf_lt_of_mem_subs p.val p.property

/-! ## The parts of an object -/

theorem Fields.walks_eq : (fs : Fields) →
    fs.walks = fs.members.flatMap fun p => p.2.walks.map (.field p.1 :: ·)
  | .nil => rfl
  | .cons F T rest => by
    rw [Fields.members_cons, List.flatMap_append, ← Fields.walks_eq rest]
    cases T with
    | scalar | arrayType => cases hF : F.isNoName <;> simp [Fields.walks, hF, InitType.anonymousMembers]
    | structType gs | unionType gs =>
      cases hF : F.isNoName <;>
        simp [Fields.walks, hF, InitType.anonymousMembers, InitType.walks, ← Fields.walks_eq gs]

theorem Fields.firstWalks_eq : (fs : Fields) →
    fs.firstWalks = (fs.members.take 1).flatMap fun p => p.2.walks.map (.field p.1 :: ·)
  | .nil => rfl
  | .cons F T rest => by
    have hrest := Fields.firstWalks_eq rest
    rw [Fields.members_cons]
    cases T with
    | scalar | arrayType =>
      cases hF : F.isNoName <;> simp [Fields.firstWalks, hF, InitType.anonymousMembers, hrest]
    | structType gs | unionType gs =>
      have hgs := Fields.firstWalks_eq gs
      cases hF : F.isNoName with
      | false => simp [Fields.firstWalks, hF, InitType.walks]
      | true =>
        simp only [Fields.firstWalks, hF, if_true, InitType.anonymousMembers]
        cases hm : gs.members with
        | nil => simpa using hrest
        | cons q qs => simpa [hm] using hgs

/-- The leaves of an object are those of its parts. -/
theorem InitType.walks_eq {T : InitType} (h : T.isAggregateOrUnion = true) :
    T.walks = T.subs.flatMap fun p => p.2.walks.map (p.1 :: ·) := by
  cases T with
  | scalar => cases h
  | arrayType T len => simp [InitType.walks, InitType.subs, List.flatMap_map]
  | structType fs => simp [InitType.walks, InitType.subs, List.flatMap_map, fs.walks_eq]
  | unionType fs =>
    rw [InitType.walks, InitType.subs, List.flatMap_map]
    simpa [← List.map_take, List.flatMap_map] using fs.firstWalks_eq

namespace InitType.WellFormed

variable {T : InitType}

theorem subs (h : T.WellFormed) : ∀ p ∈ T.subs, p.2.WellFormed := by
  cases h with
  | scalar => simp [InitType.subs]
  | arrayType h _ =>
    intro p hp
    obtain ⟨N, -, rfl⟩ := List.mem_map.mp hp
    exact h
  | structType _ _ h =>
    intro p hp
    obtain ⟨q, hq, rfl⟩ := List.mem_map.mp hp
    exact h q hq
  | unionType _ _ h =>
    intro p hp
    obtain ⟨q, hq, rfl⟩ := List.mem_map.mp hp
    exact h q (List.mem_of_mem_take hq)

theorem subs_ne_nil (h : T.WellFormed) (hagg : T.isAggregateOrUnion = true) : T.subs ≠ [] := by
  cases h with
  | scalar => cases hagg
  | arrayType _ hlen => simp [InitType.subs]; omega
  | structType hne => simpa [InitType.subs] using hne
  | unionType hne => simpa [InitType.subs] using hne

theorem nodup_subs (h : T.WellFormed) : (T.subs.map Prod.fst).Nodup := by
  have hfield : Function.Injective InitStep.field := by
    intro F G hFG
    cases hFG
    rfl
  have hindex : Function.Injective InitStep.index := by
    intro M N hMN
    cases hMN
    rfl
  cases h with
  | scalar => exact List.nodup_nil
  | arrayType =>
    simp only [InitType.subs, List.map_map]
    exact List.nodup_range.map hindex
  | structType _ hnodup =>
    have := hnodup.map hfield
    rw [List.map_map] at this
    rw [InitType.subs, List.map_map]
    exact this
  | unionType _ hnodup =>
    have := (hnodup.sublist ((List.take_sublist 1 _).map Prod.fst)).map hfield
    rw [List.map_map] at this
    rw [InitType.subs, List.map_map]
    exact this

/-- Induction over the parts of an object. -/
theorem induction_subs {motive : InitType → Prop} (scalar : ∀ T, T.isAggregateOrUnion = false → motive T)
    (aggregate : ∀ T : InitType, T.WellFormed → T.isAggregateOrUnion = true → (∀ p ∈ T.subs, motive p.2) → motive T)
    (h : T.WellFormed) : motive T := by
  induction h with
  | scalar => exact scalar _ rfl
  | arrayType h hlen ih =>
    refine aggregate _ (.arrayType h hlen) rfl fun p hp => ?_
    obtain ⟨N, -, rfl⟩ := List.mem_map.mp hp
    exact ih
  | structType hne hnodup h ih =>
    refine aggregate _ (.structType hne hnodup h) rfl fun p hp => ?_
    obtain ⟨q, hq, rfl⟩ := List.mem_map.mp hp
    exact ih q hq
  | unionType hne hnodup h ih =>
    refine aggregate _ (.unionType hne hnodup h) rfl fun p hp => ?_
    obtain ⟨q, hq, rfl⟩ := List.mem_map.mp hp
    exact ih q (List.mem_of_mem_take hq)

/-- An object that is no aggregate is its only leaf. -/
theorem walks_scalar (hagg : T.isAggregateOrUnion = false) : T.walks = [[]] := by
  cases T with
  | scalar => rfl
  | arrayType | structType | unionType => cases hagg

/-- Every object has a leaf. -/
theorem walks_ne_nil (h : T.WellFormed) : T.walks ≠ [] := by
  refine h.induction_subs (motive := fun T => T.walks ≠ []) ?_ ?_
  · intro T hagg
    rw [walks_scalar hagg]
    exact List.cons_ne_nil _ _
  · intro T h hagg ih
    obtain ⟨p, ps, hps⟩ := List.exists_cons_of_ne_nil (h.subs_ne_nil hagg)
    have := ih p (hps ▸ List.mem_cons_self)
    simp [InitType.walks_eq hagg, hps, this]

end InitType.WellFormed

/-! ## Moves of the current subobject -/

/-- The type of a part. -/
def InitType.child : InitType → InitStep → InitType
  | .arrayType T _, .index _ => T
  | T, .field F => findFieldType F T
  | T, .index _ => T

/-- The stack of the current subobject for a part of `T`, `K` being the place of the whole. -/
def frames (K : InitLValue) (T : InitType) : InitPath → List SubObject
  | [] => [.ncle K T]
  | x :: p => frames (K.step x) (T.child x) p ++ [.ncle K T]

/-- Where `next` leads to. -/
inductive NextPath
  /-- The whole was the last object. -/
  | done
  /-- The whole has no more fields. -/
  | noFields
  /-- There is no rule, or a constraint violation. -/
  | fail
  | path (p : InitPath)
  deriving DecidableEq

/-- The first name, and the first one after `F`, that is a name. -/
def firstName : List CId → Option CId
  | [] => none
  | F :: L => if F.isNoName then firstName L else some F

def followingName (F : CId) : List CId → Option CId
  | [] => none
  | F' :: L => if F = F' then firstName L else followingName F L

/-- The part after `x`. -/
def InitType.after : InitType → InitStep → NextPath
  | .arrayType _ len, .index N => if N + 1 < len then .path [.index (N + 1)] else .fail
  | .structType fs, .field F =>
    match followingName F (findFieldNames (.structType fs)) with
    | some G => .path [.field G]
    | none => .noFields
  | .unionType _, .field _ => .noFields
  | _, _ => .fail

/-- The climb out of a part of `T` to the part after it. -/
def nextPath (T : InitType) : InitPath → NextPath
  | [] => .done
  | x :: p =>
    match nextPath (T.child x) p with
    | .path q => .path (x :: q)
    | .done => T.after x
    | .noFields => if x.isField then T.after x else .fail
    | .fail => .fail

/-- Any number of moves. -/
def Moves : List SubObject → List SubObject → Prop := Relation.ReflTransGen fun S S' => moveSubobject S = some S'

/-- No more moves, and no object on top. -/
structure DeadEnd (S : List SubObject) : Prop where
  move : moveSubobject S = none
  top : ∀ K T R, S ≠ .ncle K T :: R

/-- What a climb from `S` has to come to. -/
def Moves.Reaches (S : List SubObject) (K : InitLValue) (T : InitType) (R : List SubObject) : NextPath → Prop
  | .done => Moves S (.next :: .ncle K T :: R)
  | .noFields => Moves S (.noMoreFields :: .ncle K T :: R)
  | .fail => ∃ S', Moves S S' ∧ DeadEnd S'
  | .path q => Moves S (frames K T q ++ R)

section Moves

variable {K : InitLValue} {T : InitType} {S S' R : List SubObject}

theorem firstField_eq (K : InitLValue) (T : InitType) (L : List CId) : firstField K T L =
    match firstName L with
    | some F => .ncle (.init K F) (findFieldType F T)
    | none => .noMoreFields := by
  induction L with
  | nil => rfl
  | cons F L ih => cases hF : F.isNoName <;> simp [firstField, firstName, hF, ih]

theorem followingField_eq (K : InitLValue) (F : CId) (T : InitType) (L : List CId) : followingField K F T L =
    match followingName F L with
    | some G => .ncle (.init K G) (findFieldType G T)
    | none => .noMoreFields := by
  induction L with
  | nil => rfl
  | cons F' L ih =>
    by_cases hF : F = F'
    · simp only [followingField, followingName, if_pos hF]
      exact firstField_eq K T L
    · simp only [followingField, followingName, if_neg hF]
      exact ih

theorem Moves.Reaches.of_moves {n : NextPath} (h : Moves S S') (h' : Moves.Reaches S' K T R n) :
    Moves.Reaches S K T R n := by
  cases n with
  | done | noFields | path => exact Relation.ReflTransGen.trans h h'
  | fail =>
    obtain ⟨S'', hm, hdead⟩ := h'
    exact ⟨S'', Relation.ReflTransGen.trans h hm, hdead⟩

/-- `next` after a part. -/
theorem Moves.after (K : InitLValue) (T : InitType) (x : InitStep) (R : List SubObject) :
    Moves.Reaches (.next :: .ncle (K.step x) (T.child x) :: .ncle K T :: R) K T R (T.after x) := by
  have hdead : moveSubobject (.next :: .ncle (K.step x) (T.child x) :: .ncle K T :: R) = none →
      Moves.Reaches (.next :: .ncle (K.step x) (T.child x) :: .ncle K T :: R) K T R .fail :=
    fun hmove => ⟨_, Relation.ReflTransGen.refl, hmove, by simp⟩
  match T, x with
  | .scalar _, .index _ | .scalar _, .field _ | .arrayType _ _, .field _ | .structType _, .index _
  | .unionType _, .index _ => exact hdead rfl
  | .arrayType U len, .index N =>
    simp only [InitType.after]
    by_cases hlen : N + 1 < len
    · rw [if_pos hlen]
      refine Relation.ReflTransGen.single ?_
      simp [moveSubobject, InitLValue.step, InitType.child, hlen, frames]
    · rw [if_neg hlen]
      refine ⟨.noMoreIndices :: .ncle K (.arrayType U len) :: R, Relation.ReflTransGen.single ?_, rfl, by simp⟩
      simp [moveSubobject, InitLValue.step, hlen]
  | .structType fs, .field F =>
    have hmove : moveSubobject (.next :: .ncle (.init K F) (findFieldType F (.structType fs)) ::
        .ncle K (.structType fs) :: R) = some (followingField K F (.structType fs)
          (findFieldNames (.structType fs)) :: .ncle K (.structType fs) :: R) := by
      simp [moveSubobject]
    rw [followingField_eq] at hmove
    simp only [InitType.after]
    cases hF : followingName F (findFieldNames (.structType fs)) with
    | none =>
      rw [hF] at hmove
      exact Relation.ReflTransGen.single hmove
    | some G =>
      rw [hF] at hmove
      exact Relation.ReflTransGen.single hmove
  | .unionType fs, .field F =>
    refine Relation.ReflTransGen.single ?_
    simp [moveSubobject, InitLValue.step]

/-- **What the rules make of `next`** is `nextPath`. -/
theorem Moves.climb (K : InitLValue) (T : InitType) (p : InitPath) (R : List SubObject) :
    Moves.Reaches (.next :: (frames K T p ++ R)) K T R (nextPath T p) := by
  induction p generalizing K T R with
  | nil => exact Relation.ReflTransGen.refl
  | cons x p ih =>
    have hframes : frames K T (x :: p) ++ R = frames (K.step x) (T.child x) p ++ (.ncle K T :: R) := by
      rw [frames, List.append_assoc, List.singleton_append]
    have ih := ih (K.step x) (T.child x) (.ncle K T :: R)
    rw [hframes, nextPath]
    cases hnext : nextPath (T.child x) p with
    | path q =>
      rw [hnext] at ih
      show Moves _ (frames K T (x :: q) ++ R)
      rw [frames, List.append_assoc]
      exact ih
    | done =>
      rw [hnext] at ih
      exact Moves.Reaches.of_moves ih (Moves.after K T x R)
    | fail =>
      rw [hnext] at ih
      exact ih
    | noFields =>
      rw [hnext] at ih
      cases x with
      | index N => exact ⟨_, ih, rfl, by simp⟩
      | field F =>
        have hstep : Moves (.noMoreFields :: .ncle (K.step (.field F)) (T.child (.field F)) :: .ncle K T :: R)
            (.next :: .ncle (K.step (.field F)) (T.child (.field F)) :: .ncle K T :: R) :=
          Relation.ReflTransGen.single rfl
        exact Moves.Reaches.of_moves (Relation.ReflTransGen.trans ih hstep) (Moves.after K T (.field F) R)

end Moves

/-! ## Names of members -/

section Names

variable {F : CId} {L : List CId}

theorem firstName_eq (L : List CId) : firstName L = (L.filter fun F => !F.isNoName).head? := by
  induction L with
  | nil => rfl
  | cons F L ih => cases hF : F.isNoName <;> simp [firstName, hF, ih]

theorem followingName_filter (hF : F.isNoName = false) (L : List CId) :
    followingName F L = followingName F (L.filter fun F => !F.isNoName) := by
  induction L with
  | nil => rfl
  | cons F' L ih =>
    by_cases heq : F = F'
    · subst heq
      simp only [followingName, if_true, hF, Bool.not_false, List.filter_cons_of_pos]
      rw [firstName_eq, firstName_eq, List.filter_filter]
      simp
    · cases hF' : F'.isNoName <;> simp [followingName, heq, hF', ih]

/-- After the name at one position comes the name at the next one. -/
theorem followingName_getElem (hnodup : L.Nodup) (hnamed : ∀ F ∈ L, F.isNoName = false) (i : Nat)
    (hi : i < L.length) : followingName L[i] L = L[i + 1]? := by
  induction L generalizing i with
  | nil => cases hi
  | cons F L ih =>
    obtain ⟨hnot, hnodup⟩ := List.nodup_cons.mp hnodup
    have hnamed' : ∀ F ∈ L, F.isNoName = false := fun G hG => hnamed G (List.mem_cons_of_mem _ hG)
    cases i with
    | zero =>
      have hfilter : L.filter (fun F => !F.isNoName) = L := by
        rw [List.filter_eq_self]
        intro G hG
        rw [hnamed' G hG]
        rfl
      simp only [List.getElem_cons_zero, followingName, if_true, firstName_eq, hfilter]
      rw [List.getElem?_cons_succ, List.head?_eq_getElem?]
    | succ i =>
      have hi : i < L.length := Nat.lt_of_succ_lt_succ hi
      have hne : L[i] ≠ F := fun heq => hnot (heq ▸ List.getElem_mem hi)
      simp only [List.getElem_cons_succ, followingName, if_neg hne, List.getElem?_cons_succ]
      exact ih hnodup hnamed' i hi

theorem Fields.names_eq (fs : Fields) :
    fs.members.map Prod.fst = (fs.flat.map Prod.fst).filter fun F => !F.isNoName := by
  rw [Fields.members, List.filter_map]
  rfl

theorem Fields.named_of_mem (fs : Fields) : ∀ F ∈ fs.members.map Prod.fst, F.isNoName = false := by
  intro F hF
  rw [Fields.names_eq] at hF
  simpa using (List.mem_filter.mp hF).2

/-- A member has the type it is declared with. -/
theorem Fields.lookup_flat {fs : Fields} (hnodup : (fs.members.map Prod.fst).Nodup) {p : CId × InitType}
    (hp : p ∈ fs.members) : fs.flat.lookup p.1 = some p.2 := by
  unfold Fields.members at hnodup hp
  generalize fs.flat = L at hnodup hp ⊢
  induction L with
  | nil => cases hp
  | cons q qs ih =>
    have hnamed : p.1.isNoName = false := by simpa using (List.mem_filter.mp hp).2
    rw [List.lookup_cons]
    cases hq : q.1.isNoName with
    | true =>
      have hne : (p.1 == q.1) = false := by
        rw [beq_eq_false_iff_ne]
        intro heq
        rw [← heq, hnamed] at hq
        cases hq
      rw [List.filter_cons_of_neg (by simp [hq])] at hnodup hp
      rw [hne]
      exact ih hnodup hp
    | false =>
      rw [List.filter_cons_of_pos (by simp [hq])] at hnodup hp
      obtain ⟨hnot, hnodup⟩ := List.nodup_cons.mp hnodup
      rcases List.mem_cons.mp hp with rfl | hp
      · simp
      · have hne : (p.1 == q.1) = false := by
          rw [beq_eq_false_iff_ne]
          intro heq
          exact hnot (heq ▸ List.mem_map_of_mem hp)
        rw [hne]
        exact ih hnodup hp

end Names

/-! ## From one part to the next -/

namespace InitType.WellFormed

variable {T V : InitType} {x : InitStep}

theorem child_eq (h : T.WellFormed) (hx : (x, V) ∈ T.subs) : T.child x = V := by
  cases h with
  | scalar => simp [InitType.subs] at hx
  | arrayType =>
    obtain ⟨N, -, heq⟩ := List.mem_map.mp hx
    cases heq
    rfl
  | structType _ hnodup =>
    obtain ⟨q, hq, heq⟩ := List.mem_map.mp hx
    cases heq
    show findFieldType q.1 (.structType _) = q.2
    rw [findFieldType, getFlatFields, Fields.lookup_flat hnodup hq]
    rfl
  | unionType _ hnodup =>
    obtain ⟨q, hq, heq⟩ := List.mem_map.mp hx
    cases heq
    show findFieldType q.1 (.unionType _) = q.2
    rw [findFieldType, getFlatFields, Fields.lookup_flat hnodup (List.mem_of_mem_take hq)]
    rfl

/-- `down` leads to the first part. -/
theorem move_down (h : T.WellFormed) (hx : T.subs.head? = some (x, V)) (K : InitLValue) (R : List SubObject) :
    moveSubobject (.down :: .ncle K T :: R) = some (.ncle (K.step x) V :: .ncle K T :: R) := by
  have hchild := h.child_eq (List.mem_of_mem_head? (Option.mem_def.mpr hx))
  have hfirst : ∀ fs : Fields, ∀ q, fs.members.head? = some q → firstName (fs.flat.map Prod.fst) = some q.1 := by
    intro fs q hq
    rw [firstName_eq, ← Fields.names_eq, List.head?_map, hq]
    rfl
  cases h with
  | scalar => simp [InitType.subs] at hx
  | @arrayType U len _ hlen =>
    obtain ⟨n, rfl⟩ : ∃ n, len = n + 1 := ⟨len - 1, by omega⟩
    simp only [InitType.subs, List.range_succ_eq_map, List.map_cons, List.head?_cons, Option.some.injEq,
      Prod.mk.injEq] at hx
    obtain ⟨rfl, rfl⟩ := hx
    rfl
  | structType hne =>
    obtain ⟨q, qs, hq⟩ := List.exists_cons_of_ne_nil hne
    simp only [InitType.subs, hq, List.map_cons, List.head?_cons, Option.some.injEq, Prod.mk.injEq] at hx
    obtain ⟨rfl, rfl⟩ := hx
    simp only [moveSubobject, findFieldNames, getFlatFields, firstField_eq, hfirst _ q (by rw [hq]; rfl)]
    rw [show findFieldType q.1 _ = q.2 from hchild]
    rfl
  | unionType hne =>
    obtain ⟨q, qs, hq⟩ := List.exists_cons_of_ne_nil hne
    simp only [InitType.subs, hq, List.take_succ_cons, List.map_cons, List.head?_cons, Option.some.injEq,
      Prod.mk.injEq] at hx
    obtain ⟨rfl, rfl⟩ := hx
    simp only [moveSubobject, findFieldNames, getFlatFields, firstField_eq, hfirst _ q (by rw [hq]; rfl)]
    rw [show findFieldType q.1 _ = q.2 from hchild]
    rfl

/-- After the member at one position comes the one at the next position. -/
theorem after_getElem {fs : Fields} (hnodup : (fs.members.map Prod.fst).Nodup) (i : Nat)
    (hi : i < fs.members.length) : followingName fs.members[i].1 (findFieldNames (.structType fs)) =
      (fs.members.map Prod.fst)[i + 1]? := by
  have hlen : i < (fs.members.map Prod.fst).length := by simpa using hi
  have hname : fs.members[i].1 = (fs.members.map Prod.fst)[i] := by simp
  rw [hname, findFieldNames, getFlatFields,
    followingName_filter (fs.named_of_mem _ (List.getElem_mem hlen)), ← Fields.names_eq]
  exact followingName_getElem hnodup fs.named_of_mem i hlen

/-- After a part comes the next one. -/
theorem isChain_subs (h : T.WellFormed) :
    T.subs.IsChain fun a b => T.after a.1 = .path [b.1] ∧ a.1 ≠ b.1 := by
  have hne := h.nodup_subs
  rw [List.isChain_iff_getElem]
  intro i hi
  refine ⟨?_, ?_⟩
  · cases h with
    | scalar => simp [InitType.subs] at hi
    | arrayType =>
      simp only [InitType.subs, List.length_map, List.length_range] at hi
      simp only [InitType.subs, List.getElem_map, List.getElem_range, InitType.after, if_pos hi]
    | structType _ hnodup =>
      simp only [InitType.subs, List.length_map] at hi
      simp only [InitType.subs, List.getElem_map, InitType.after]
      rw [after_getElem hnodup i (by omega), List.getElem?_map, List.getElem?_eq_getElem hi]
      rfl
    | unionType => simp [InitType.subs] at hi
  · intro heq
    have hi' : i + 1 < (T.subs.map Prod.fst).length := by simpa using hi
    have hi'' : i < (T.subs.map Prod.fst).length := by omega
    have hkeys : (T.subs.map Prod.fst)[i] = (T.subs.map Prod.fst)[i + 1] := by simpa using heq
    have : i = i + 1 := hne.getElem_inj_iff.mp hkeys
    omega

/-- After the last part there is no field. -/
theorem after_last (h : T.WellFormed) (hx : T.subs.getLast? = some (x, V)) :
    T.after x = if x.isField then .noFields else .fail := by
  cases h with
  | scalar => simp [InitType.subs] at hx
  | @arrayType U len _ hlen =>
    obtain ⟨n, rfl⟩ : ∃ n, len = n + 1 := ⟨len - 1, by omega⟩
    simp only [InitType.subs, List.range_succ, List.map_append, List.map_cons, List.map_nil,
      List.getLast?_concat, Option.some.injEq, Prod.mk.injEq] at hx
    obtain ⟨rfl, rfl⟩ := hx
    simp [InitType.after, InitStep.isField]
  | @structType fs hne hnodup =>
    have hlen : 0 < fs.members.length := List.length_pos_iff.mpr hne
    rw [InitType.subs, List.getLast?_map, List.getLast?_eq_getElem?, List.getElem?_eq_getElem (by omega)] at hx
    simp only [Option.map_some, Option.some.injEq, Prod.mk.injEq] at hx
    obtain ⟨rfl, rfl⟩ := hx
    simp only [InitType.after, InitStep.isField, if_true]
    rw [after_getElem hnodup _ (by omega), List.getElem?_eq_none (by simp; omega)]
  | unionType =>
    obtain ⟨q, -, heq⟩ := List.mem_map.mp (List.mem_of_getLast? hx)
    cases heq
    rfl

end InitType.WellFormed

/-! ## From one leaf to the next -/

/-- The type of a part of a part. -/
def InitType.at (T : InitType) (p : InitPath) : InitType := p.foldl InitType.child T

/-- **What the machine makes of the leaves `p` and `q`**, one after the other: where a climb is possible
    it goes to an object whose first leaf is `q`, and nowhere else. -/
def Transition (T : InitType) (p q : InitPath) : Prop :=
  (Climbs p q ∧ ∃ r w, nextPath T p = .path r ∧ q = r ++ w ∧ (T.at r).WellFormed ∧ (T.at r).walks.head? = some w) ∨
    (¬Climbs p q ∧ nextPath T p = .fail)

/-- The climb from the last leaf: out of the object if there is no index on the way. -/
def LastLeaf (T : InitType) (p : InitPath) : Prop :=
  p ≠ [] ∧ nextPath T p = if ∀ s ∈ p, s.isField = true then .noFields else .fail

/-- A climb that comes to the end of a part goes on if the part is a field. -/
theorem nextPath_cons_of_last {T : InitType} {x : InitStep} {p : InitPath}
    (h : nextPath (T.child x) p = if ∀ s ∈ p, s.isField = true then .noFields else .fail) :
    nextPath T (x :: p) = if ∀ s ∈ x :: p, s.isField = true then T.after x else .fail := by
  rw [nextPath, h]
  by_cases hall : ∀ s ∈ p, s.isField = true
  · cases hx : x.isField with
    | false =>
      have : ¬∀ s ∈ x :: p, s.isField = true := fun hcontra => by simp [hx] at hcontra
      rw [if_pos hall, if_neg this]
      rfl
    | true =>
      have : ∀ s ∈ x :: p, s.isField = true := List.forall_mem_cons.mpr ⟨hx, hall⟩
      rw [if_pos hall, if_pos this]
      rfl
  · rw [if_neg hall, if_neg fun hcontra => hall (List.forall_mem_cons.mp hcontra).2]

namespace InitType.WellFormed

variable {T : InitType}

theorem head?_walks (h : T.WellFormed) (hagg : T.isAggregateOrUnion = true) {w : InitPath}
    (hw : T.walks.head? = some w) :
    ∃ x V w', T.subs.head? = some (x, V) ∧ V.walks.head? = some w' ∧ w = x :: w' := by
  obtain ⟨⟨x, V⟩, ss, hss⟩ := List.exists_cons_of_ne_nil (h.subs_ne_nil hagg)
  have hV : V.walks ≠ [] := (h.subs (x, V) (hss ▸ List.mem_cons_self)).walks_ne_nil
  obtain ⟨w', ws, hws⟩ := List.exists_cons_of_ne_nil hV
  rw [InitType.walks_eq hagg, hss, List.flatMap_cons, hws] at hw
  refine ⟨x, V, w', by rw [hss]; rfl, by rw [hws]; rfl, ?_⟩
  simpa using hw.symm

theorem getLast?_walks (h : T.WellFormed) (hagg : T.isAggregateOrUnion = true) {p : InitPath}
    (hp : T.walks.getLast? = some p) :
    ∃ x V p', T.subs.getLast? = some (x, V) ∧ V.walks.getLast? = some p' ∧ p = x :: p' := by
  obtain ⟨ss, ⟨x, V⟩, hss⟩ := (List.eq_nil_or_concat T.subs).resolve_left (h.subs_ne_nil hagg)
  have hV : V.walks ≠ [] := (h.subs (x, V) (hss ▸ by simp)).walks_ne_nil
  obtain ⟨ws, p', hws⟩ := (List.eq_nil_or_concat V.walks).resolve_left hV
  rw [InitType.walks_eq hagg, hss, List.concat_eq_append, List.flatMap_append, List.flatMap_singleton, hws] at hp
  refine ⟨x, V, p', by rw [hss]; simp, by rw [hws]; simp, ?_⟩
  simpa using hp.symm

theorem nextPath_last (h : T.WellFormed) :
    T.isAggregateOrUnion = true → ∀ p, T.walks.getLast? = some p → LastLeaf T p := by
  refine h.induction_subs (motive := fun T => T.isAggregateOrUnion = true → ∀ p, T.walks.getLast? = some p → LastLeaf T p)
    (fun T hagg hcontra => by cases hagg.symm.trans hcontra) ?_
  intro T h hagg ih _ p hp
  obtain ⟨x, V, p', hx, hp', rfl⟩ := h.getLast?_walks hagg hp
  have hmem : (x, V) ∈ T.subs := List.mem_of_getLast? hx
  have hafter := h.after_last hx
  refine ⟨List.cons_ne_nil _ _, ?_⟩
  cases hV : V.isAggregateOrUnion with
  | false =>
    rw [walks_scalar hV] at hp'
    obtain rfl : p' = [] := by simpa using hp'.symm
    simpa [nextPath] using hafter
  | true =>
    obtain ⟨-, hnext⟩ := ih (x, V) hmem hV p' hp'
    rw [nextPath_cons_of_last ((h.child_eq hmem).symm ▸ hnext), hafter]
    by_cases hall : ∀ s ∈ x :: p', s.isField = true
    · rw [if_pos hall, if_pos hall, if_pos (hall x List.mem_cons_self)]
    · rw [if_neg hall, if_neg hall]

end InitType.WellFormed

/-- Transitions inside of a part. -/
theorem Transition.cons {T V : InitType} {x : InitStep} {p q : InitPath} (hx : T.child x = V)
    (h : Transition V p q) : Transition T (x :: p) (x :: q) := by
  have hclimbs : Climbs (x :: p) (x :: q) ↔ Climbs p q := by
    rw [Climbs, if_pos rfl]
  rcases h with ⟨hc, r, w, hnext, rfl, hwf, hhead⟩ | ⟨hc, hnext⟩
  · refine .inl ⟨hclimbs.mpr hc, x :: r, w, ?_, rfl, ?_, ?_⟩
    · rw [nextPath, hx, hnext]
    · rw [InitType.at, List.foldl_cons, hx]
      exact hwf
    · rw [InitType.at, List.foldl_cons, hx]
      exact hhead
  · refine .inr ⟨fun hc' => hc (hclimbs.mp hc'), ?_⟩
    rw [nextPath, hx, hnext]

/-- Transitions from a part to the next one. -/
theorem Transition.between {T V W : InitType} {x y : InitStep} {p q : InitPath} (hx : T.child x = V)
    (hy : T.child y = W) (hne : x ≠ y) (hafter : T.after x = .path [y]) (hV : V.WellFormed) (hW : W.WellFormed)
    (hp : V.walks.getLast? = some p) (hq : W.walks.head? = some q) : Transition T (x :: p) (y :: q) := by
  have hclimbs : Climbs (x :: p) (y :: q) ↔ (p = [] ∨ ∀ s ∈ x :: p, s.isField = true) := by
    rw [Climbs, if_neg hne]
  have hto : nextPath T (x :: p) = .path [y] → Climbs (x :: p) (y :: q) → Transition T (x :: p) (y :: q) := by
    intro hnext hc
    refine .inl ⟨hc, [y], q, hnext, rfl, ?_, ?_⟩
    · simpa [InitType.at, hy] using hW
    · simpa [InitType.at, hy] using hq
  cases hagg : V.isAggregateOrUnion with
  | false =>
    rw [InitType.WellFormed.walks_scalar hagg] at hp
    obtain rfl : p = [] := by simpa using hp.symm
    exact hto (by rw [nextPath]; exact hafter) (hclimbs.mpr (.inl rfl))
  | true =>
    obtain ⟨hpne, hnext⟩ := hV.nextPath_last hagg p hp
    have hstep := nextPath_cons_of_last (hx.symm ▸ hnext)
    rw [hafter] at hstep
    by_cases hall : ∀ s ∈ x :: p, s.isField = true
    · rw [if_pos hall] at hstep
      exact hto hstep (hclimbs.mpr (.inr hall))
    · rw [if_neg hall] at hstep
      refine .inr ⟨fun hc => ?_, hstep⟩
      rcases hclimbs.mp hc with hnil | hcontra
      · exact hpne hnil
      · exact hall hcontra

/-- **Through all leaves of a type**, one transition after the other. -/
theorem InitType.WellFormed.isChain_transition {T : InitType} (h : T.WellFormed) : T.walks.IsChain (Transition T) := by
  refine h.induction_subs (motive := fun T => T.walks.IsChain (Transition T)) ?_ ?_
  · intro T hagg
    rw [InitType.WellFormed.walks_scalar hagg]
    exact List.isChain_singleton _
  · intro T h hagg ih
    have hmem : [] ∉ T.subs.map fun p => p.2.walks.map (p.1 :: ·) := by
      intro hnil
      obtain ⟨p, hp, heq⟩ := List.mem_map.mp hnil
      exact (h.subs p hp).walks_ne_nil (List.map_eq_nil_iff.mp heq)
    rw [InitType.walks_eq hagg, List.flatMap_def, List.isChain_flatten hmem]
    constructor
    · intro l hl
      obtain ⟨⟨x, V⟩, hp, rfl⟩ := List.mem_map.mp hl
      rw [List.isChain_map]
      exact (ih (x, V) hp).imp fun p q htr => htr.cons (h.child_eq hp)
    · rw [List.isChain_map]
      refine List.IsChain.imp_of_mem_imp ?_ h.isChain_subs
      rintro ⟨x, V⟩ ⟨y, W⟩ hx hy ⟨hafter, hne⟩ p hp q hq
      simp only [List.getLast?_map, List.head?_map, Option.mem_def, Option.map_eq_some_iff] at hp hq
      obtain ⟨p, hp, rfl⟩ := hp
      obtain ⟨q, hq, rfl⟩ := hq
      exact Transition.between (h.child_eq hx) (h.child_eq hy) hne hafter (h.subs _ hx) (h.subs _ hy) hp hq

/-! ## Runs of the machine -/

section Runs

variable {ε : Type} {k : List (InitK ε)} {K : InitLValue} {T V : InitType} {S S' R : List SubObject}
  {O : List (InitLValue × InitType)} {s : SavedInit ε}

/-- The computations under which the current subobject moves. -/
def InitK.moves : InitK ε → Bool
  | .fillInits _ => false
  | .finishCompoundInit _ => false
  | _ => true

theorem initStep_move {item : InitK ε} (h : item.moves = true) (hm : moveSubobject S = some S') :
    initStep ⟨item :: k, S, O, s⟩ = .ok ⟨item :: k, S', O, s⟩ := by
  cases item <;> simp_all [InitK.moves, initStep]

theorem steps_of_moves {item : InitK ε} (h : item.moves = true) (hm : Moves S S') :
    Steps initStep ⟨item :: k, S, O, s⟩ ⟨item :: k, S', O, s⟩ := by
  induction hm with
  | refl => exact .refl _
  | tail _ hmove ih => exact ih.trans (.single (initStep_move h hmove))

theorem moveSubobject_ncle (K : InitLValue) (T : InitType) (R : List SubObject) :
    moveSubobject (.ncle K T :: R) = none := by
  cases R <;> rfl

/-- A scalar expression for an object goes to its first leaf. -/
theorem steps_descend {e : ε} (h : T.WellFormed) : ∀ w K R, T.walks.head? = some w →
    Steps initStep ⟨.initializeSingleInit2 e :: k, .ncle K T :: R, O, s⟩
      ⟨k, .next :: (frames K T w ++ R), O, s.assign (K.path w) e⟩ := by
  refine h.induction_subs (motive := fun T => ∀ w K R, T.walks.head? = some w →
    Steps initStep ⟨.initializeSingleInit2 e :: k, .ncle K T :: R, O, s⟩
      ⟨k, .next :: (frames K T w ++ R), O, s.assign (K.path w) e⟩) ?_ ?_
  · intro T hagg w K R hw
    rw [InitType.WellFormed.walks_scalar hagg] at hw
    obtain rfl : w = [] := by simpa using hw.symm
    refine .single ?_
    simp [initStep, moveSubobject_ncle, stepInit, hagg, frames, InitLValue.path]
  · intro T h hagg ih w K R hw
    obtain ⟨x, V, w', hx, hw', rfl⟩ := h.head?_walks hagg hw
    have hmem : (x, V) ∈ T.subs := List.mem_of_mem_head? hx
    have hdown : initStep ⟨.initializeSingleInit2 e :: k, .ncle K T :: R, O, s⟩ =
        .ok ⟨.initializeSingleInit2 e :: k, .down :: .ncle K T :: R, O, s⟩ := by
      simp [initStep, moveSubobject_ncle, stepInit, hagg]
    refine .head hdown (.head (initStep_move rfl (h.move_down hx K R)) ?_)
    have hrest := ih (x, V) hmem w' (K.step x) (.ncle K T :: R) hw'
    rw [frames, List.append_assoc, h.child_eq hmem]
    exact hrest

/-- The object on top of the stack of a part is the part. -/
theorem frames_append (K : InitLValue) (T : InitType) (r : InitPath) :
    ∃ R, frames K T r = .ncle (K.path r) (T.at r) :: R ∧ ∀ w, frames K T (r ++ w) = frames (K.path r) (T.at r) w ++ R := by
  induction r generalizing K T with
  | nil => exact ⟨[], rfl, fun w => by simp [InitLValue.path, InitType.at]⟩
  | cons x r ih =>
    obtain ⟨R, hR, happ⟩ := ih (K.step x) (T.child x)
    refine ⟨R ++ [.ncle K T], ?_, fun w => ?_⟩
    · rw [frames, hR]
      rfl
    · rw [List.cons_append, frames, happ, List.append_assoc]
      rfl

theorem path_append (K : InitLValue) (p q : InitPath) : K.path (p ++ q) = (K.path p).path q := List.foldl_append

/-- The expression for an object that is on top: from the fragment to the first leaf. -/
theorem steps_fragment {e : ε} {L : List (Init ε)} {r w : InitPath} (hwf : (T.at r).WellFormed)
    (hw : (T.at r).walks.head? = some w) (hm : Moves S (frames K T r)) :
    Steps initStep ⟨.fillInits (.SingleInit e :: L) :: k, S, O, s⟩
      ⟨.fillInits L :: k, .next :: frames K T (r ++ w), O, s.assign (K.path (r ++ w)) e⟩ := by
  obtain ⟨R, hR, happ⟩ := frames_append K T r
  refine .head rfl ((steps_of_moves rfl hm).trans ?_)
  rw [hR]
  have htake : ∀ k : List (InitK ε), initStep ⟨.fillInitFragment (.SingleInit e) :: k, .ncle (K.path r) (T.at r) :: R, O, s⟩ =
      .ok ⟨.fillInit (.SingleInit e) :: k, .ncle (K.path r) (T.at r) :: R, O, s⟩ := by
    intro k
    simp [initStep, moveSubobject_ncle, stepInit]
  have hsingle : ∀ k : List (InitK ε), initStep ⟨.fillInit (.SingleInit e) :: k, .ncle (K.path r) (T.at r) :: R, O, s⟩ =
      .ok ⟨.initializeSingleInit2 e :: k, .ncle (K.path r) (T.at r) :: R, O, s⟩ := by
    intro k
    simp [initStep, moveSubobject_ncle, stepInit]
  refine .head (htake _) (.head (hsingle _) ?_)
  rw [happ, path_append]
  exact steps_descend hwf w _ R hw

/-- One scalar after the other. -/
def SavedInit.assigns (s : SavedInit ε) (A : List (InitLValue × ε)) : SavedInit ε :=
  A.foldl (fun s a => s.assign a.1 a.2) s

/-- Nothing goes on from a dead end. -/
theorem DeadEnd.stopped (h : DeadEnd S) (exp : Init ε) : Stopped initStep ⟨.fillInitFragment exp :: k, S, O, s⟩ := by
  have hstep : initStep ⟨.fillInitFragment exp :: k, S, O, s⟩ = stepInit ⟨.fillInitFragment exp :: k, S, O, s⟩ := by
    simp only [initStep, h.move]
  rw [Stopped, hstep]
  match S, h with
  | [], _ | .next :: _, _ | .down :: _, _ | .noMoreFields :: _, _ | .noMoreIndices :: _, _ => exact ⟨_, rfl⟩
  | .ncle K T :: R, h => exact absurd rfl (h.top K T R)

/-- **The scalars after the leaf `p`** go to the leaves after it, as long as all climbs are possible. -/
theorem steps_leaves (X : CId) (es : List ε) : ∀ p post (s : SavedInit ε), (p :: post).IsChain (Transition T) →
    es.length ≤ post.length → (p :: post.take es.length).IsChain Climbs →
    ∃ S, Steps initStep ⟨[.fillInits (es.map .SingleInit)], .next :: frames (.object X) T p, O, s⟩
      ⟨[], S, O, s.assigns ((post.map (InitLValue.object X).path).zip es)⟩ := by
  induction es with
  | nil =>
    intro p post s _ _ _
    rw [List.zip_nil_right]
    exact ⟨_, .single rfl⟩
  | cons e es ih =>
    intro p post s htrans hlen hclimbs
    obtain ⟨q, post, rfl⟩ := List.exists_cons_of_length_pos (show 0 < post.length by simp at hlen; omega)
    rw [List.length_cons, List.take_succ_cons, List.isChain_cons_cons] at hclimbs
    rw [List.isChain_cons_cons] at htrans
    obtain ⟨⟨hc, r, w, hnext, rfl, hwf, hw⟩ | ⟨hc, -⟩, htrans⟩ := htrans
    · have hmoves := Moves.climb (.object X) T p []
      rw [hnext, List.append_nil] at hmoves
      have hmoves : Moves (.next :: frames (.object X) T p) (frames (.object X) T r) := by
        simpa [Moves.Reaches] using hmoves
      obtain ⟨S, hS⟩ := ih (r ++ w) post (s.assign ((InitLValue.object X).path (r ++ w)) e) htrans (by simpa using hlen)
        hclimbs.2
      exact ⟨S, (steps_fragment hwf hw hmoves).trans hS⟩
    · exact absurd hclimbs.1 hc

/-- **Otherwise the machine stops** at the first climb that is not possible, or after the last leaf. -/
theorem steps_blocked (X : CId) (es : List ε) : ∀ p post (s : SavedInit ε), (p :: post).IsChain (Transition T) →
    (∀ q, (p :: post).getLast? = some q → LastLeaf T q) →
    ¬(es.length ≤ post.length ∧ (p :: post.take es.length).IsChain Climbs) →
    ∃ c, Steps initStep ⟨[.fillInits (es.map .SingleInit)], .next :: frames (.object X) T p, O, s⟩ c ∧
      Stopped initStep c ∧ c.k ≠ [] := by
  induction es with
  | nil =>
    intro p post s _ _ h
    exact absurd ⟨Nat.zero_le _, by simp⟩ h
  | cons e es ih =>
    intro p post s htrans hlast h
    have hmoves := Moves.climb (.object X) T p []
    have hdead : nextPath T p = .fail ∨ nextPath T p = .noFields →
        ∃ c, Steps initStep ⟨[.fillInits ((e :: es).map .SingleInit)], .next :: frames (.object X) T p, O, s⟩ c ∧
          Stopped initStep c ∧ c.k ≠ [] := by
      intro hnext
      obtain ⟨S', hS', hdead⟩ : ∃ S', Moves (.next :: frames (.object X) T p) S' ∧ DeadEnd S' := by
        rw [List.append_nil] at hmoves
        rcases hnext with hnext | hnext
        · rw [hnext] at hmoves
          exact hmoves
        · rw [hnext] at hmoves
          exact ⟨_, hmoves, rfl, by simp⟩
      exact ⟨_, .head rfl (steps_of_moves rfl hS'), hdead.stopped _, by simp⟩
    cases post with
    | nil =>
      obtain ⟨-, hnext⟩ := hlast p rfl
      refine hdead ?_
      rw [hnext]
      split
      · exact .inr rfl
      · exact .inl rfl
    | cons q post =>
      rw [List.isChain_cons_cons] at htrans
      obtain ⟨⟨hc, r, w, hnext, rfl, hwf, hw⟩ | ⟨-, hnext⟩, htrans⟩ := htrans
      · rw [hnext, List.append_nil] at hmoves
        have hmoves : Moves (.next :: frames (.object X) T p) (frames (.object X) T r) := by
          simpa [Moves.Reaches] using hmoves
        obtain ⟨c, hsteps, hstop⟩ := ih (r ++ w) post (s.assign ((InitLValue.object X).path (r ++ w)) e) htrans
          (fun q hq => hlast q (by rw [List.getLast?_cons_cons]; exact hq)) (by
            rintro ⟨hlen, hchain⟩
            refine h ⟨by simpa using hlen, ?_⟩
            rw [List.length_cons, List.take_succ_cons, List.isChain_cons_cons]
            exact ⟨hc, hchain⟩)
        exact ⟨c, (steps_fragment hwf hw hmoves).trans hsteps, hstop⟩
      · exact hdead (.inl hnext)

/-! ## Flat initializers -/

/-- The parts on the way to a place. -/
def InitLValue.toPath : InitLValue → InitPath
  | .object _ => []
  | .index K N => K.toPath ++ [.index N]
  | .init K F => K.toPath ++ [.field F]

theorem toPath_path (K : InitLValue) (p : InitPath) : (K.path p).toPath = K.toPath ++ p := by
  induction p generalizing K with
  | nil => simp [InitLValue.path]
  | cons x p ih =>
    have hstep : (K.step x).toPath = K.toPath ++ [x] := by cases x <;> rfl
    show ((K.step x).path p).toPath = _
    rw [ih, hstep, List.append_assoc, List.singleton_append]

theorem path_injective (K : InitLValue) : Function.Injective K.path := by
  intro p q hpq
  have := congrArg InitLValue.toPath hpq
  rw [toPath_path, toPath_path] at this
  exact List.append_cancel_left this

theorem assigned_assign (s : SavedInit ε) (K : InitLValue) (e : ε) :
    (s.assign K e).assigned = s.assigned ++ [(K, e)] := by
  have hpadding : ∀ K : InitLValue, (trapPadding K : List (InitAction ε)).filterMap (fun
      | .Initializer K e => some (K, e)
      | _ => none) = [] := by
    intro K
    induction K with
    | object => rfl
    | index K N ih => exact ih
    | init K F ih => exact ih
  unfold SavedInit.assigned SavedInit.assign
  rw [List.filterMap_append, List.filterMap_append, hpadding]
  rfl

theorem assigned_assigns (A : List (InitLValue × ε)) (s : SavedInit ε) :
    (s.assigns A).assigned = s.assigned ++ A := by
  induction A generalizing s with
  | nil => simp [SavedInit.assigns]
  | cons a A ih =>
    show ((s.assign a.1 a.2).assigns A).assigned = _
    rw [ih, assigned_assign, List.append_assoc]
    rfl

/-- What an initializer is elaborated to is known when the run that ends is. -/
theorem initializesTo_iff_of_steps {X : CId} {L : List (Init ε)} {c : InitCalc ε} (hc : Steps initStep (startInit T X L) c)
    (hstop : Stopped initStep c) (A : List (InitLValue × ε)) :
    InitializesTo T X L A ↔ c.k = [] ∧ c.saved.assigned = A := by
  constructor
  · rintro ⟨c', hc', hk, rfl⟩
    have hstop' : Stopped initStep c' := ⟨.stuck, by rw [initStep, hk]⟩
    rw [hc.unique hc' hstop hstop']
    exact ⟨hk, rfl⟩
  · rintro ⟨hk, hA⟩
    exact ⟨c, hc, hk, hA⟩

/-- **A flat initializer means the leaves that the machine goes through**, if all climbs are possible, and
    nothing otherwise. -/
theorem flat_initializesTo_iff (h : T.WellFormed) (hagg : T.isAggregateOrUnion = true) (X : CId) (es : List ε)
    (A : List (InitLValue × ε)) : InitializesTo T X (es.map .SingleInit) A ↔
      (es.length ≤ T.walks.length ∧ (T.walks.take es.length).IsChain Climbs) ∧
        (T.walks.map (InitLValue.object X).path).zip es = A := by
  cases es with
  | nil =>
    have hc : Steps initStep (startInit T X ([] : List (Init ε))) ⟨[], _, _, _⟩ := .single rfl
    have hassigned : (startInit T X ([] : List (Init ε))).saved.assigned = [] := rfl
    rw [List.map_nil, initializesTo_iff_of_steps hc ⟨.stuck, rfl⟩]
    simp [hassigned]
  | cons e es =>
    obtain ⟨p, post, hwalks⟩ := List.exists_cons_of_ne_nil h.walks_ne_nil
    obtain ⟨x, V, w, hx, hw, rfl⟩ := h.head?_walks hagg (w := p) (by rw [hwalks]; rfl)
    have hmem : (x, V) ∈ T.subs := List.mem_of_mem_head? hx
    have hat : T.at [x] = V := h.child_eq hmem
    have hdown : Moves [.down, .ncle (.object X) T] (frames (.object X) T [x]) := by
      rw [frames, frames, h.child_eq hmem]
      exact Relation.ReflTransGen.single (h.move_down hx _ _)
    have htrans := h.isChain_transition
    rw [hwalks] at htrans ⊢
    have hfirst : Steps initStep (startInit T X ((e :: es).map .SingleInit))
        ⟨[.fillInits (es.map .SingleInit)], .next :: frames (.object X) T (x :: w), [(.object X, T)],
          (⟨[.Zero X], 0⟩ : SavedInit ε).assign ((InitLValue.object X).path (x :: w)) e⟩ :=
      steps_fragment (r := [x]) (hat ▸ h.subs _ hmem) (hat ▸ hw) hdown
    rw [List.length_cons, List.take_succ_cons, List.length_cons, Nat.add_le_add_iff_right]
    by_cases hall : es.length ≤ post.length ∧ ((x :: w) :: post.take es.length).IsChain Climbs
    · obtain ⟨S, hS⟩ := steps_leaves X es _ post _ htrans hall.1 hall.2
      rw [initializesTo_iff_of_steps (hfirst.trans hS) ⟨.stuck, rfl⟩, assigned_assigns, assigned_assign]
      simp [hall, SavedInit.assigned]
    · obtain ⟨c, hc, hstop, hk⟩ := steps_blocked X es _ post _ htrans
        (fun q hq => h.nextPath_last hagg q (by rw [hwalks]; exact hq)) hall
      rw [initializesTo_iff_of_steps (hfirst.trans hc) hstop]
      exact iff_of_false (fun hcontra => hk hcontra.1) fun hcontra => hall hcontra.1

/-! ## Braced initializers -/

theorem braced_scalar (hagg : T.isAggregateOrUnion = false) (e : ε) : braced T [e] = .SingleInit e := by
  rw [braced]
  exact hagg

theorem braced_aggregate (hagg : T.isAggregateOrUnion = true) (es : List ε) :
    braced T es = .CompoundInit (pieces (T.subs.map fun p => (p.2.walks.length, braced p.2)) es) := by
  rw [braced]
  · exact congrArg (fun parts => Init.CompoundInit (pieces parts es))
      (List.attach_map_val (f := fun p : InitStep × InitType => (p.2.walks.length, braced p.2)))
  · intro e hcontra
    cases hagg.symm.trans hcontra

theorem zip_append_left {α β : Type} (A B : List α) (es : List β) :
    (A ++ B).zip es = A.zip (es.take A.length) ++ B.zip (es.drop A.length) := by
  induction A generalizing es with
  | nil => simp
  | cons a A ih =>
    cases es with
    | nil => simp
    | cons e es => simp [ih]

theorem assigns_append (s : SavedInit ε) (A B : List (InitLValue × ε)) : s.assigns (A ++ B) = (s.assigns A).assigns B :=
  List.foldl_append

/-- Where the leaves of some parts are. -/
def partLeaves (K : InitLValue) (ss : List (InitStep × InitType)) : List InitLValue :=
  ss.flatMap fun p => p.2.walks.map (K.step p.1).path

theorem map_path_walks (hagg : T.isAggregateOrUnion = true) (K : InitLValue) :
    T.walks.map K.path = partLeaves K T.subs := by
  rw [InitType.walks_eq hagg, List.map_flatMap, partLeaves]
  simp only [List.map_map]
  rfl

/-- What a braced initializer of one part does. -/
def BracedRuns (ε : Type) (T : InitType) : Prop :=
  ∀ (es : List ε) (K : InitLValue) (R : List SubObject) (k : List (InitK ε)) (O : List (InitLValue × InitType))
    (s : SavedInit ε), es ≠ [] → es.length ≤ T.walks.length →
      Steps initStep ⟨.fillInit (braced T es) :: k, .ncle K T :: R, O, s⟩
        ⟨k, .next :: .ncle K T :: R, O, s.assigns ((T.walks.map K.path).zip es)⟩

/-- The initializers of the parts, one after the other. -/
theorem steps_pieces (h : T.WellFormed) (hruns : ∀ p ∈ T.subs, BracedRuns ε p.2) (K : InitLValue) (R : List SubObject)
    (k : List (InitK ε)) : ∀ ss, ss <:+ T.subs → ∀ (es : List ε) (S : List SubObject) (s : SavedInit ε),
      (∀ x V, ss.head? = some (x, V) → Moves S (.ncle (K.step x) V :: .ncle K T :: R)) →
      es.length ≤ (partLeaves K ss).length →
      ∃ S', Steps initStep ⟨.fillInits (pieces (ss.map fun p => (p.2.walks.length, braced p.2)) es) :: k, S, O, s⟩
        ⟨k, S', O, s.assigns ((partLeaves K ss).zip es)⟩ := by
  intro ss
  induction ss with
  | nil => exact fun _ es S s _ _ => ⟨S, .single rfl⟩
  | cons p ss ih =>
    obtain ⟨x, V⟩ := p
    intro hsuffix es S s hmoves hlen
    cases es with
    | nil =>
      rw [List.zip_nil_right]
      exact ⟨S, .single rfl⟩
    | cons e es =>
      have hmem : (x, V) ∈ T.subs := hsuffix.mem List.mem_cons_self
      have hpos : 0 < V.walks.length := List.length_pos_iff.mpr (h.subs _ hmem).walks_ne_nil
      have hparts : partLeaves K ((x, V) :: ss) = V.walks.map (K.step x).path ++ partLeaves K ss := List.flatMap_cons
      have hlength : (V.walks.map (K.step x).path).length = V.walks.length := List.length_map _
      rw [hparts, List.length_append, hlength] at hlen
      have htakes : (e :: es).take V.walks.length ≠ [] := by
        intro hcontra
        rcases List.take_eq_nil_iff.mp hcontra with hzero | hnil
        · omega
        · cases hnil
      -- the part itself
      have htake : ∀ k : List (InitK ε), initStep ⟨.fillInitFragment (braced V ((e :: es).take V.walks.length)) :: k,
          .ncle (K.step x) V :: .ncle K T :: R, O, s⟩ =
          .ok ⟨.fillInit (braced V ((e :: es).take V.walks.length)) :: k, .ncle (K.step x) V :: .ncle K T :: R, O, s⟩ := by
        intro k
        simp [initStep, moveSubobject_ncle, stepInit]
      have hpart := hruns (x, V) hmem ((e :: es).take V.walks.length) (K.step x) (.ncle K T :: R)
        (.fillInits (pieces (ss.map fun p => (p.2.walks.length, braced p.2)) ((e :: es).drop V.walks.length)) :: k) O s
        htakes (List.length_take_le _ _)
      -- and the parts after it
      have hnext : ∀ y W, ss.head? = some (y, W) →
          Moves (.next :: .ncle (K.step x) V :: .ncle K T :: R) (.ncle (K.step y) W :: .ncle K T :: R) := by
        intro y W hy
        obtain ⟨ss', rfl⟩ : ∃ ss', ss = (y, W) :: ss' := by
          cases ss with
          | nil => cases hy
          | cons q ss' =>
            cases hy
            exact ⟨ss', rfl⟩
        have hafter : T.after x = .path [y] := by
          have := h.isChain_subs.suffix hsuffix
          rw [List.isChain_cons_cons] at this
          exact this.1.1
        have hmoves := Moves.after K T x R
        rw [hafter, h.child_eq hmem] at hmoves
        have hW : T.child y = W := h.child_eq (hsuffix.mem (by simp))
        simpa [Moves.Reaches, frames, hW] using hmoves
      obtain ⟨S', hS'⟩ := ih ((List.suffix_cons _ _).trans hsuffix) ((e :: es).drop V.walks.length)
        (.next :: .ncle (K.step x) V :: .ncle K T :: R)
        (s.assigns ((V.walks.map (K.step x).path).zip ((e :: es).take V.walks.length))) hnext (by
          rw [List.length_drop]
          omega)
      refine ⟨S', ?_⟩
      rw [hparts, zip_append_left, hlength, assigns_append]
      refine .head rfl ((steps_of_moves rfl (hmoves x V rfl)).trans ?_)
      exact .head (htake _) (hpart.trans hS')

/-- **A fully braced initializer** gives each scalar to its leaf. -/
theorem bracedRuns (h : T.WellFormed) : BracedRuns ε T := by
  refine h.induction_subs (motive := BracedRuns ε) ?_ ?_
  · intro T hagg es K R k O s hne hlen
    rw [InitType.WellFormed.walks_scalar hagg] at hlen ⊢
    obtain ⟨e, rfl⟩ : ∃ e, es = [e] := by
      cases es with
      | nil => exact absurd rfl hne
      | cons e es => exact ⟨e, by simpa using hlen⟩
    rw [braced_scalar hagg]
    refine .head (t := ⟨.initializeSingleInit2 e :: k, .ncle K T :: R, O, s⟩) ?_ (.single ?_)
    · simp [initStep, moveSubobject_ncle, stepInit]
    · simp [initStep, moveSubobject_ncle, stepInit, hagg, SavedInit.assigns, InitLValue.path]
  · intro T h hagg ih es K R k O s hne hlen
    rw [braced_aggregate hagg, map_path_walks hagg]
    have hcompound : ∀ L : List (Init ε), initStep ⟨.fillInit (.CompoundInit L) :: k, .ncle K T :: R, O, s⟩ =
        .ok ⟨.fillInits L :: .finishCompoundInit (.next :: .ncle K T :: R) :: k, .down :: .ncle K T :: R,
          (K, T) :: O, s⟩ := by
      intro L
      simp [initStep, moveSubobject_ncle, stepInit, hagg]
    obtain ⟨S', hS'⟩ := steps_pieces (O := (K, T) :: O) h ih K R (.finishCompoundInit (.next :: .ncle K T :: R) :: k)
      T.subs (List.suffix_refl _) es (.down :: .ncle K T :: R) s
      (fun x V hx => Relation.ReflTransGen.single (h.move_down hx K R))
      (by rw [← map_path_walks hagg, List.length_map]; exact hlen)
    exact .head (hcompound _) (hS'.trans (.single rfl))

theorem braced_initializesTo (h : T.WellFormed) (hagg : T.isAggregateOrUnion = true) (X : CId) (es : List ε)
    (hlen : es.length ≤ T.walks.length) : ∃ L, braced T es = .CompoundInit L ∧
      InitializesTo T X L ((T.walks.map (InitLValue.object X).path).zip es) := by
  obtain ⟨S', hS'⟩ := steps_pieces (O := [(.object X, T)]) h (fun p hp => bracedRuns (h.subs p hp)) (.object X) [] []
    T.subs (List.suffix_refl _) es [.down, .ncle (.object X) T] ⟨[.Zero X], 0⟩
    (fun x V hx => Relation.ReflTransGen.single (h.move_down hx (.object X) []))
    (by rw [← map_path_walks hagg, List.length_map]; exact hlen)
  refine ⟨_, braced_aggregate hagg es, ⟨_, hS', rfl, ?_⟩⟩
  rw [assigned_assigns, map_path_walks hagg]
  rfl

end Runs

/-! ## Brace elision -/

theorem map_fst_zip_take {α β : Type} (A : List α) (es : List β) : (A.zip es).map Prod.fst = A.take es.length := by
  induction A generalizing es with
  | nil => simp
  | cons a A ih => cases es <;> simp [ih]

theorem zip_take {α β : Type} (A : List α) (es : List β) : (A.take es.length).zip es = A.zip es := by
  induction A generalizing es with
  | nil => simp
  | cons a A ih => cases es <;> simp [ih]

instance decidableClimbs : DecidableRel Climbs
  | [], _ => .isTrue trivial
  | _ :: _, [] => .isTrue trivial
  | x :: p, y :: q =>
    if h : x = y then
      have := decidableClimbs p q
      decidable_of_iff (Climbs p q) (by rw [Climbs, if_pos h])
    else decidable_of_iff (p = [] ∨ ∀ s ∈ x :: p, s.isField = true) (by rw [Climbs, if_neg h])

/-- **Brace elision.**  A flat initializer with at most as many scalars as there are leaves is elaborated
    to the assignment of each scalar to its leaf, as the fully braced one is, exactly when the machine
    goes through the same leaves and can climb from each of them to the next one. -/
theorem brace_elision_iff {ε : Type} {T : InitType} (h : T.WellFormed) (hagg : T.isAggregateOrUnion = true) (X : CId)
    (es : List ε) (hlen : es.length ≤ T.declLeaves.length) :
    (InitializesTo T X (es.map .SingleInit) ((T.declLeaves.map (InitLValue.object X).path).zip es) ∧
      ∃ L, braced T es = .CompoundInit L ∧
        InitializesTo T X L ((T.declLeaves.map (InitLValue.object X).path).zip es)) ↔
    T.walks.take es.length = T.declLeaves.take es.length ∧ (T.declLeaves.take es.length).IsChain Climbs := by
  rw [flat_initializesTo_iff h hagg]
  constructor
  · rintro ⟨⟨⟨-, hchain⟩, hzip⟩, -⟩
    have htake : T.walks.take es.length = T.declLeaves.take es.length := by
      have := congrArg (List.map Prod.fst) hzip
      rw [map_fst_zip_take, map_fst_zip_take, ← List.map_take, ← List.map_take] at this
      exact (List.map_injective_iff.mpr (path_injective _)) this
    exact ⟨htake, htake ▸ hchain⟩
  · rintro ⟨htake, hchain⟩
    have hle : es.length ≤ T.walks.length := by
      have := congrArg List.length htake
      rw [List.length_take, List.length_take] at this
      omega
    have hzip : (T.walks.map (InitLValue.object X).path).zip es =
        (T.declLeaves.map (InitLValue.object X).path).zip es := by
      rw [← zip_take, ← List.map_take, htake, List.map_take, zip_take]
    obtain ⟨L, hL, hinit⟩ := braced_initializesTo h hagg X es hle
    exact ⟨⟨⟨hle, htake ▸ hchain⟩, hzip⟩, L, hL, hzip ▸ hinit⟩

/-- The scalar type of the examples below. -/
private def intMember : InitType := .scalar IntType.int.toSimple.toType

/-- `struct { int a; struct { int b; int c; } s; int d[2]; }` -/
private def nestedStruct : InitType :=
  .structType (.cons (.Identifier "a") intMember (.cons (.Identifier "s")
    (.structType (.cons (.Identifier "b") intMember (.cons (.Identifier "c") intMember .nil)))
    (.cons (.Identifier "d") (.arrayType intMember 2) .nil)))

private theorem nestedStruct_wellFormed : nestedStruct.WellFormed := by
  refine .structType (List.ne_nil_of_length_pos (by decide)) (by decide) ?_
  have hinner : (InitType.structType
      (.cons (.Identifier "b") intMember (.cons (.Identifier "c") intMember .nil))).WellFormed := by
    refine .structType (List.ne_nil_of_length_pos (by decide)) (by decide) ?_
    simp [Fields.members, Fields.flat, CId.isNoName, intMember, InitType.WellFormed.scalar]
  simp [Fields.members, Fields.flat, CId.isNoName, intMember, InitType.WellFormed.scalar,
    InitType.WellFormed.arrayType]
  exact hinner

/-- Out of a struct that is a member, and into an array: `{1, 2, 3, 4, 5}`. -/
theorem brace_elision_struct : InitializesTo nestedStruct (.Identifier "x") ([1, 2, 3, 4, 5].map .SingleInit)
    ((nestedStruct.declLeaves.map (InitLValue.object (.Identifier "x")).path).zip [1, 2, 3, 4, 5]) :=
  ((brace_elision_iff nestedStruct_wellFormed rfl (.Identifier "x") [1, 2, 3, 4, 5] (by decide)).mpr
    ⟨by decide, by decide⟩).1

/-- `int x[2][2] = {1, 2, 3, 4}`: there is nothing after the last element of `x[0]`. -/
theorem nested_array_rejected :
    let T : InitType := .arrayType (.arrayType intMember 2) 2
    let flat : List (Init Nat) := [1, 2, 3, 4].map .SingleInit
    T.WellFormed ∧ T.declLeaves.length = 4 ∧
      (∃ c, Steps initStep (startInit T (.Identifier "x") flat) c ∧ initStep c = .error nonexistentMember) ∧
      ∀ A, ¬InitializesTo T (.Identifier "x") flat A := by
  intro T flat
  obtain ⟨c, hrun, hk, hstep⟩ : ∃ c, runSteps initStep 14 (startInit T (.Identifier "x") flat) = .ok c ∧ c.k ≠ [] ∧
      initStep c = .error nonexistentMember := ⟨_, rfl, List.cons_ne_nil _ _, rfl⟩
  refine ⟨.arrayType (.arrayType (.scalar _) (by decide)) (by decide), by decide, ⟨c, .of_runSteps hrun, hstep⟩, ?_⟩
  intro A hA
  exact hk ((initializesTo_iff_of_steps (.of_runSteps hrun) ⟨_, hstep⟩ A).mp hA).1

end CSemantics
