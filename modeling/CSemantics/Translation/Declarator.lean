/-
  The type of a declarator.

  A declarator is evaluated from the name outwards, on a type that is built from the base type inwards: the node
  next to the name is the OUTERMOST type.  So each node is pushed down, through the type that the nodes below it
  have made of the base type, to the base type itself, and everything it passes is taken apart and made again.

      int *a[3]     PointerType(ArrayType(JustBase, 3))     int  →  int[3]  →  (int *)[3]

      derive               the type as the standard derives it, a node at a time and from the base type
      evalType_eq_iff      what is made again is what it was, but for the qualifiers in the brackets of an array
      declType_iff         which declarators are rejected

  The names that unnamed parameters get are left out, and so is the alignment of the result.
-/
import CSemantics.Typing.Syntax

namespace CSemantics.DeclType

-- `β` are the base types: basic types, structs, unions and typedefs.  `ε` are sizes that are not constant, and
-- `π` lists of parameters.
variable {β ε π : Type}

/-! ## Types and declarators -/

inductive Length (ε : Type)
  /-- `arrayType(_, N)` -/
  | constant (N : Int)
  | unspecified
  | variableLength (e : ε)
  | incomplete

/-- `t(quals(Qs), Mods, T)` -/
inductive Ty (β ε π : Type)
  | base (Qs : Quals) (Mods : Finset Modifier) (b : β)
  | pointerType (Qs : Quals) (Mods : Finset Modifier) (T : Ty β ε π)
  | arrayType (Qs : Quals) (Mods : Finset Modifier) (N : Length ε) (T : Ty β ε π)
  /-- `functionType'(T, L)` -/
  | functionType (Qs : Quals) (Mods : Finset Modifier) (T : Ty β ε π) (L : π)

/-- What stands in the brackets of an array, evaluated. -/
inductive Size (ε : Type)
  | int (N : Int)
  | float
  | unspecified
  /-- `isHold` -/
  | hold (e : ε)
  | emptyValue

inductive Declarator (ε π : Type)
  | JustBase
  | PointerType (Qs : Quals) (D : Declarator ε π)
  | ArrayType (D : Declarator ε π) (N : Size ε) (Qs : Quals) (Specs : Finset Modifier)
  | Prototype (D : Declarator ε π) (L : π)
  | NoPrototype (D : Declarator ε π) (L : π)

inductive Label (ε π : Type)
  | makePointerType (Qs : Quals) (Mods : Finset Modifier)
  | makeArrayType (Qs : Quals) (Mods : Finset Modifier) (ParamQs : Quals) (ParamMods : Finset Modifier) (N : Length ε)
  | makeFunctionType (Qs : Quals) (Mods : Finset Modifier) (L : π)
  | makeOldStyleFunctionType (L : π)

/-! ## The rules -/

/-- Storage class specifiers with `Packed`, and function specifiers. -/
def isSpecifier : Modifier → Bool
  | .storage _ | .Packed | .function _ => true
  | _ => false

namespace Ty

def quals : Ty β ε π → Quals
  | base Qs _ _ | pointerType Qs _ _ | arrayType Qs _ _ _ | functionType Qs _ _ _ => Qs

def mods : Ty β ε π → Finset Modifier
  | base _ Mods _ | pointerType _ Mods _ | arrayType _ Mods _ _ | functionType _ Mods _ _ => Mods

/-- Another set of modifiers. -/
def withMods (Mods : Finset Modifier) : Ty β ε π → Ty β ε π
  | base Qs _ b => base Qs Mods b
  | pointerType Qs _ T => pointerType Qs Mods T
  | arrayType Qs _ N T => arrayType Qs Mods N T
  | functionType Qs _ T L => functionType Qs Mods T L

def addModifiers (Mods : Finset Modifier) (T : Ty β ε π) : Ty β ε π := T.withMods (T.mods ∪ Mods)

def getSpecifiers (T : Ty β ε π) : Finset Modifier := T.mods.filter (isSpecifier ·)

def stripSpecifiers (T : Ty β ε π) : Ty β ε π := T.withMods (T.mods.filter (¬ isSpecifier ·))

/-- Qualifiers of an array are those of its elements. -/
def addQualifiers (Qs' : Quals) : Ty β ε π → Ty β ε π
  | base Qs Mods b => base (Qs.plus Qs') Mods b
  | pointerType Qs Mods T => pointerType (Qs.plus Qs') Mods T
  | arrayType Qs Mods N T => arrayType Qs Mods N (T.addQualifiers Qs')
  | functionType Qs Mods T L => functionType (Qs.plus Qs') Mods T L

def setQuals (Qs' : Quals) : Ty β ε π → Ty β ε π
  | base Qs Mods b => base (Qs.plus Qs') Mods b
  | pointerType Qs Mods T => pointerType (Qs.plus Qs') Mods T
  | arrayType Qs Mods N T => arrayType (Qs.plus Qs') Mods N T
  | functionType Qs Mods T L => functionType (Qs.plus Qs') Mods T L

/-- `addMods` with the elements of a set, in any order -/
def addMods (Qs : Quals) (Mods : Finset Modifier) (T : Ty β ε π) : Ty β ε π := (T.addModifiers Mods).addQualifiers Qs

end Ty

def applyTypeFunction : Label ε π → Ty β ε π → Ty β ε π
  | .makePointerType Qs Mods, T =>
    Ty.addMods Qs (Mods ∪ T.getSpecifiers) (.pointerType noQuals ∅ T.stripSpecifiers)
  | .makeArrayType Qs Mods ParamQs ParamMods N, T =>
    (Ty.addMods Qs (Mods ∪ T.getSpecifiers ∪ ParamMods) (.arrayType noQuals ∅ N T.stripSpecifiers)).setQuals ParamQs
  | .makeFunctionType Qs Mods L, T =>
    Ty.addMods Qs (Mods ∪ T.getSpecifiers) (.functionType noQuals ∅ T.stripSpecifiers L)
  | .makeOldStyleFunctionType L, T =>
    Ty.addMods noQuals (insert .oldStyle T.getSpecifiers) (.functionType noQuals ∅ T.stripSpecifiers L)

def pushTypeDown : Ty β ε π → Label ε π → Ty β ε π
  | .base Qs Mods b, Lbl => applyTypeFunction Lbl (.base Qs Mods b)
  | .pointerType Qs Mods T, Lbl => applyTypeFunction (.makePointerType Qs Mods) (pushTypeDown T Lbl)
  | .arrayType Qs Mods N T, Lbl => applyTypeFunction (.makeArrayType Qs Mods noQuals ∅ N) (pushTypeDown T Lbl)
  | .functionType Qs Mods T L, Lbl => applyTypeFunction (.makeFunctionType Qs Mods L) (pushTypeDown T Lbl)

def staticToArrayStatic (N : Int) (S : Finset Modifier) : Finset Modifier :=
  if .storage .Static ∈ S then insert (.arrayStatic N) (S.erase (.storage .Static)) else S

/-- The right sides of the rules for `ArrayType` -/
def Size.length : Size ε → Length ε
  | int N => .constant N
  | float | unspecified => .unspecified
  | hold e => .variableLength e
  | emptyValue => .incomplete

def Size.mods (Specs : Finset Modifier) : Size ε → Finset Modifier
  | int N => staticToArrayStatic N Specs
  | _ => Specs

/-- The violations that the rules for `ArrayType` find. -/
def Size.violations (flexible : Bool) (N : Size ε) : List Stop :=
  (match N with
    | float => [UNDEF "CTI1" "Arrays must have integer length."]
    | int N => if N ≤ 0 then [CV "CTI2" "Arrays must have positive length."] else []
    | _ => []) ++
  if flexible then [CV "CTI5" "Structs containing a flexible array member must not be array elements."] else []

/-- `isFlexibleType`: the members of a struct or union are looked at, and nothing else is. -/
def isFlexibleType (flexible : β → Bool) : Ty β ε π → Bool
  | .base _ _ b => flexible b
  | _ => false

def report : List Stop → Except (List Stop) Unit
  | [] => .ok ()
  | v :: vs => .error (v :: vs)

/-- `DeclType(T, D)`: a type, or what was found first.  Where several rules find something it is any of them. -/
def declType (flexible : β → Bool) (T : Ty β ε π) : Declarator ε π → Except (List Stop) (Ty β ε π)
  | .JustBase => .ok T
  | .PointerType Qs D => do
    let T ← declType flexible T D
    return pushTypeDown T (.makePointerType Qs ∅)
  | .ArrayType D N Qs Specs => do
    let T ← declType flexible T D
    report (N.violations (isFlexibleType flexible T))
    return pushTypeDown T (.makeArrayType noQuals ∅ Qs (N.mods Specs) N.length)
  | .Prototype D L => do
    let T ← declType flexible T D
    return pushTypeDown T (.makeFunctionType noQuals ∅ L)
  | .NoPrototype D L => do
    let T ← declType flexible T D
    return pushTypeDown T (.makeOldStyleFunctionType L)

/-! ## What a declarator says -/

/-- The type without the checks. -/
def evalType (T : Ty β ε π) : Declarator ε π → Ty β ε π
  | .JustBase => T
  | .PointerType Qs D => pushTypeDown (evalType T D) (.makePointerType Qs ∅)
  | .ArrayType D N Qs Specs => pushTypeDown (evalType T D) (.makeArrayType noQuals ∅ Qs (N.mods Specs) N.length)
  | .Prototype D L => pushTypeDown (evalType T D) (.makeFunctionType noQuals ∅ L)
  | .NoPrototype D L => pushTypeDown (evalType T D) (.makeOldStyleFunctionType L)

/-- C11 6.7.6.1 to 6.7.6.3: `* D` makes a pointer to the type, and `D` goes on from there. -/
def derive : Declarator ε π → Ty β ε π → Ty β ε π
  | .JustBase, T => T
  | .PointerType Qs D, T => derive D (.pointerType Qs ∅ T)
  | .ArrayType D N Qs Specs, T => derive D (.arrayType Qs (N.mods Specs) N.length T)
  | .Prototype D L, T => derive D (.functionType noQuals ∅ T L)
  | .NoPrototype D L, T => derive D (.functionType noQuals {.oldStyle} T L)

namespace Declarator

/-- The qualifiers in the brackets, from the name on. -/
def quals : Declarator ε π → List Quals
  | JustBase => []
  | PointerType _ D | Prototype D _ | NoPrototype D _ => D.quals
  | ArrayType D _ Qs _ => D.quals ++ [Qs]

/-- Without those of the node that is read last, which is not made again. -/
def innerQuals : Declarator ε π → List Quals
  | JustBase => []
  | PointerType _ D | Prototype D _ | NoPrototype D _ | ArrayType D _ _ _ => D.quals

/-- No bracket leaves a storage class behind: `static` is before a constant size. -/
def Plain : Declarator ε π → Prop
  | JustBase => True
  | PointerType _ D | Prototype D _ | NoPrototype D _ => D.Plain
  | ArrayType D N _ Specs => D.Plain ∧ ∀ M ∈ N.mods Specs, isSpecifier M = false

/-- The sizes are integers, and positive. -/
def SizesOk : Declarator ε π → Prop
  | JustBase => True
  | PointerType _ D | Prototype D _ | NoPrototype D _ => D.SizesOk
  | ArrayType D N _ _ => D.SizesOk ∧ N.violations false = []

/-- The node next to the name is an array. -/
def firstIsArray : Declarator ε π → Bool
  | JustBase => false
  | PointerType _ D | Prototype D _ | NoPrototype D _ => D.firstIsArray
  | ArrayType JustBase _ _ _ => true
  | ArrayType D _ _ _ => D.firstIsArray

/-- The node that is read last is an array. -/
def isArray : Declarator ε π → Bool
  | ArrayType _ _ _ _ => true
  | _ => false

end Declarator

/-! ## Specifiers go to the top -/

section Specifiers

variable {T Y : Ty β ε π} {S Mods : Finset Modifier} {Qs : Quals}

theorem plus_noQuals (Qs : Quals) : Qs.plus noQuals = Qs := by simp [Quals.plus, noQuals]

theorem noQuals_plus (Qs : Quals) : noQuals.plus Qs = Qs := by simp [Quals.plus, noQuals]

theorem addQualifiers_noQuals (T : Ty β ε π) : T.addQualifiers noQuals = T := by
  induction T with
  | arrayType Qs Mods N T ih => rw [Ty.addQualifiers, ih]
  | _ => rw [Ty.addQualifiers, plus_noQuals]

theorem apply_pointer : applyTypeFunction (.makePointerType Qs Mods) T =
    .pointerType Qs (Mods ∪ T.getSpecifiers) T.stripSpecifiers := by
  simp [applyTypeFunction, Ty.addMods, Ty.addModifiers, Ty.withMods, Ty.mods, Ty.addQualifiers, noQuals_plus]

theorem apply_array {ParamQs : Quals} {ParamMods : Finset Modifier} {N : Length ε} :
    applyTypeFunction (.makeArrayType Qs Mods ParamQs ParamMods N) T =
      .arrayType ParamQs (Mods ∪ T.getSpecifiers ∪ ParamMods) N (T.stripSpecifiers.addQualifiers Qs) := by
  simp [applyTypeFunction, Ty.addMods, Ty.addModifiers, Ty.withMods, Ty.mods, Ty.addQualifiers, Ty.setQuals,
    noQuals_plus]

theorem apply_function {L : π} : applyTypeFunction (.makeFunctionType Qs Mods L) T =
    .functionType Qs (Mods ∪ T.getSpecifiers) T.stripSpecifiers L := by
  simp [applyTypeFunction, Ty.addMods, Ty.addModifiers, Ty.withMods, Ty.mods, Ty.addQualifiers, noQuals_plus]

theorem apply_oldStyle {L : π} : applyTypeFunction (.makeOldStyleFunctionType L) T =
    .functionType noQuals (insert .oldStyle T.getSpecifiers) T.stripSpecifiers L := by
  simp [applyTypeFunction, Ty.addMods, Ty.addModifiers, Ty.withMods, Ty.mods, Ty.addQualifiers]

/-- None of the specifiers is in the set. -/
def Free (Mods : Finset Modifier) : Prop := ∀ M ∈ Mods, isSpecifier M = false

theorem filter_free (h : Free Mods) : Mods.filter (isSpecifier ·) = ∅ :=
  Finset.filter_eq_empty_iff.2 fun M hM => by rw [h M hM]; exact Bool.false_ne_true

theorem filter_not_free (h : Free Mods) : Mods.filter (¬ isSpecifier ·) = Mods :=
  Finset.filter_true_of_mem fun M hM => by rw [h M hM]; exact Bool.false_ne_true

theorem withMods_mods (T : Ty β ε π) : T.withMods T.mods = T := by cases T <;> rfl

theorem getSpecifiers_addModifiers (hT : Free T.mods) (hS : ∀ M ∈ S, isSpecifier M = true) :
    (T.addModifiers S).getSpecifiers = S := by
  have hmods : (T.addModifiers S).mods = T.mods ∪ S := by cases T <;> rfl
  rw [Ty.getSpecifiers, hmods, Finset.filter_union, filter_free hT, Finset.empty_union]
  exact Finset.filter_true_of_mem hS

theorem stripSpecifiers_addModifiers (hT : Free T.mods) (hS : ∀ M ∈ S, isSpecifier M = true) :
    (T.addModifiers S).stripSpecifiers = T := by
  have hmods : (T.addModifiers S).mods = T.mods ∪ S := by cases T <;> rfl
  have hwith : ∀ m : Finset Modifier, (T.addModifiers S).withMods m = T.withMods m := fun m => by cases T <;> rfl
  have hnone : S.filter (¬ isSpecifier ·) = ∅ :=
    Finset.filter_eq_empty_iff.2 fun M hM => by rw [hS M hM]; exact not_not_intro rfl
  rw [Ty.stripSpecifiers, hmods, hwith, Finset.filter_union, filter_not_free hT, hnone, Finset.union_empty,
    withMods_mods]

theorem getSpecifiers_free (hT : Free T.mods) : T.getSpecifiers = ∅ := filter_free hT

theorem stripSpecifiers_free (hT : Free T.mods) : T.stripSpecifiers = T := by
  rw [Ty.stripSpecifiers, filter_not_free hT, withMods_mods]

/-- A type is what it is without its specifiers, with these. -/
theorem addModifiers_getSpecifiers (T : Ty β ε π) : T.stripSpecifiers.addModifiers T.getSpecifiers = T := by
  have hunion : T.mods.filter (¬ isSpecifier ·) ∪ T.mods.filter (isSpecifier ·) = T.mods := by
    rw [Finset.union_comm]
    exact Finset.filter_union_filter_not_eq _ _
  cases T <;> exact congrArg (Ty.withMods · _) hunion

/-- What a label makes of a type. -/
def Label.make : Label ε π → Ty β ε π → Ty β ε π
  | makePointerType Qs Mods, T => .pointerType Qs Mods T
  | makeArrayType _ Mods ParamQs ParamMods N, T => .arrayType ParamQs (Mods ∪ ParamMods) N T
  | makeFunctionType Qs Mods L, T => .functionType Qs Mods T L
  | makeOldStyleFunctionType L, T => .functionType noQuals {.oldStyle} T L

/-- The label has no qualifiers for the elements, and no specifiers. -/
def Label.Fresh : Label ε π → Prop
  | makePointerType _ Mods | makeFunctionType _ Mods _ => Free Mods
  | makeArrayType Qs Mods _ ParamMods _ => Qs = noQuals ∧ Free (Mods ∪ ParamMods)
  | makeOldStyleFunctionType _ => True

theorem apply_fresh {Lbl : Label ε π} (h : Lbl.Fresh) (hT : Free T.mods) (hS : ∀ M ∈ S, isSpecifier M = true) :
    applyTypeFunction Lbl (T.addModifiers S) = (Lbl.make T).addModifiers S := by
  have hget := getSpecifiers_addModifiers hT hS
  have hstrip := stripSpecifiers_addModifiers hT hS
  cases Lbl with
  | makePointerType Qs Mods =>
    rw [apply_pointer, hget, hstrip]
    rfl
  | makeArrayType Qs Mods ParamQs ParamMods N =>
    rw [apply_array, hget, hstrip, h.1, addQualifiers_noQuals, Finset.union_right_comm]
    rfl
  | makeFunctionType Qs Mods L =>
    rw [apply_function, hget, hstrip]
    rfl
  | makeOldStyleFunctionType L =>
    rw [apply_oldStyle, hget, hstrip, Finset.insert_eq]
    rfl

theorem free_make {Lbl : Label ε π} (h : Lbl.Fresh) : Free (Lbl.make T).mods := by
  cases Lbl with
  | makePointerType Qs Mods => exact h
  | makeArrayType Qs Mods ParamQs ParamMods N => exact h.2
  | makeFunctionType Qs Mods L => exact h
  | makeOldStyleFunctionType L =>
    intro M hM
    rw [Finset.mem_singleton.1 hM]
    rfl

end Specifiers

/-! ## What is pushed down comes to the base type -/

section Push

variable {T : Ty β ε π} {S : Finset Modifier} {Lbl : Label ε π}

/-- The base type is replaced by what the label makes of it. -/
def graft (Lbl : Label ε π) : Ty β ε π → Ty β ε π
  | .base Qs Mods b => Lbl.make (.base Qs Mods b)
  | .pointerType Qs Mods T => .pointerType Qs Mods (graft Lbl T)
  | .arrayType Qs Mods N T => .arrayType Qs Mods N (graft Lbl T)
  | .functionType Qs Mods T L => .functionType Qs Mods (graft Lbl T) L

/-- A type that is made again as it was. -/
def Stable : Ty β ε π → Prop
  | .base _ Mods _ => Free Mods
  | .pointerType _ Mods T | .functionType _ Mods T _ => Free Mods ∧ Stable T
  | .arrayType Qs Mods _ T => Qs = noQuals ∧ Free Mods ∧ Stable T

theorem Stable.free (h : Stable T) : Free T.mods := by
  cases T with
  | base Qs Mods b => exact h
  | pointerType Qs Mods T => exact h.1
  | arrayType Qs Mods N T => exact h.2.1
  | functionType Qs Mods T L => exact h.1

theorem free_graft (h : Stable T) (hL : Lbl.Fresh) : Free (graft Lbl T).mods := by
  cases T with
  | base Qs Mods b => exact free_make hL
  | pointerType Qs Mods T => exact h.1
  | arrayType Qs Mods N T => exact h.2.1
  | functionType Qs Mods T L => exact h.1

theorem addModifiers_empty (T : Ty β ε π) : T.addModifiers ∅ = T := by
  rw [Ty.addModifiers, Finset.union_empty, withMods_mods]

/-- **Pushing a label down.**  The specifiers stay at the top. -/
theorem pushTypeDown_stable (h : Stable T) (hL : Lbl.Fresh) : ∀ {S : Finset Modifier}, (∀ M ∈ S, isSpecifier M = true) →
    pushTypeDown (T.addModifiers S) Lbl = (graft Lbl T).addModifiers S := by
  -- what is below has no specifiers
  have hbelow : ∀ {T : Ty β ε π}, (∀ {S : Finset Modifier}, (∀ M ∈ S, isSpecifier M = true) →
      pushTypeDown (T.addModifiers S) Lbl = (graft Lbl T).addModifiers S) → pushTypeDown T Lbl = graft Lbl T := by
    intro T ih
    have hempty := ih (S := ∅) fun M hM => absurd hM (Finset.notMem_empty M)
    rwa [addModifiers_empty, addModifiers_empty] at hempty
  induction T with
  | base Qs Mods b =>
    intro S hS
    exact apply_fresh (T := .base Qs Mods b) hL h hS
  | pointerType Qs Mods T ih =>
    intro S hS
    have hfree := free_graft h.2 hL
    show applyTypeFunction (.makePointerType Qs (Mods ∪ S)) (pushTypeDown T Lbl) = _
    rw [hbelow (ih h.2), apply_pointer, getSpecifiers_free hfree, stripSpecifiers_free hfree, Finset.union_empty]
    rfl
  | arrayType Qs Mods N T ih =>
    intro S hS
    have hfree := free_graft h.2.2 hL
    show applyTypeFunction (.makeArrayType Qs (Mods ∪ S) noQuals ∅ N) (pushTypeDown T Lbl) = _
    rw [hbelow (ih h.2.2), apply_array, getSpecifiers_free hfree, stripSpecifiers_free hfree, Finset.union_empty,
      Finset.union_empty, h.1, addQualifiers_noQuals]
    rfl
  | functionType Qs Mods T L ih =>
    intro S hS
    have hfree := free_graft h.2 hL
    show applyTypeFunction (.makeFunctionType Qs (Mods ∪ S) L) (pushTypeDown T Lbl) = _
    rw [hbelow (ih h.2), apply_function, getSpecifiers_free hfree, stripSpecifiers_free hfree, Finset.union_empty]
    rfl

/-- It is made of the base type, and the declarator goes on from there. -/
theorem graft_derive (Lbl : Label ε π) (D : Declarator ε π) : ∀ X : Ty β ε π,
    graft Lbl (derive D X) = derive D (graft Lbl X) := by
  induction D with
  | JustBase => exact fun _ => rfl
  | PointerType Qs D ih => exact fun X => ih (.pointerType Qs ∅ X)
  | ArrayType D N Qs Specs ih => exact fun X => ih (.arrayType Qs (N.mods Specs) N.length X)
  | Prototype D L ih => exact fun X => ih (.functionType noQuals ∅ X L)
  | NoPrototype D L ih => exact fun X => ih _

theorem free_empty : Free ∅ := fun M hM => absurd hM (Finset.notMem_empty M)

theorem free_oldStyle : Free {.oldStyle} := by
  intro M hM
  rw [Finset.mem_singleton.1 hM]
  rfl

theorem stable_derive {D : Declarator ε π} (hD : D.Plain) (hq : ∀ q ∈ D.quals, q = noQuals) :
    ∀ {X : Ty β ε π}, Stable X → Stable (derive D X) := by
  induction D with
  | JustBase => exact id
  | PointerType Qs D ih => exact fun hX => ih hD hq ⟨free_empty, hX⟩
  | ArrayType D N Qs Specs ih =>
    rw [Declarator.quals, List.forall_mem_append, List.forall_mem_singleton] at hq
    exact fun hX => ih hD.1 hq.1 ⟨hq.2, hD.2, hX⟩
  | Prototype D L ih => exact fun hX => ih hD hq ⟨free_empty, hX⟩
  | NoPrototype D L ih => exact fun hX => ih hD hq ⟨free_oldStyle, hX⟩

end Push

/-! ## The type of a declarator -/

section Eval

variable {D : Declarator ε π} {Qs : Quals} {Mods S : Finset Modifier} {b : β}

theorem innerQuals_of_quals (h : ∀ q ∈ D.quals, q = noQuals) : ∀ q ∈ D.innerQuals, q = noQuals := by
  cases D with
  | ArrayType D N Qs Specs => exact fun q hq => h q (List.mem_append_left _ hq)
  | _ => exact h

/-- **The type that is evaluated is the one that is derived**, where no bracket has qualifiers but the one that is
    read last. -/
theorem evalType_eq (hMods : Free Mods) (hS : ∀ M ∈ S, isSpecifier M = true) (hD : D.Plain)
    (hq : ∀ q ∈ D.innerQuals, q = noQuals) :
    evalType ((Ty.base Qs Mods b).addModifiers S) D = (derive D (.base Qs Mods b)).addModifiers S := by
  have hstep : ∀ {D : Declarator ε π} {Lbl : Label ε π}, D.Plain → (∀ q ∈ D.quals, q = noQuals) → Lbl.Fresh →
      evalType ((Ty.base Qs Mods b).addModifiers S) D = (derive D (.base Qs Mods b)).addModifiers S →
      pushTypeDown (evalType ((Ty.base Qs Mods b).addModifiers S) D) Lbl =
        (derive D (Lbl.make (.base Qs Mods b))).addModifiers S := by
    intro D Lbl hD hq hL ih
    rw [ih, pushTypeDown_stable (stable_derive (X := .base Qs Mods b) hD hq hMods) hL hS, graft_derive]
    rfl
  induction D with
  | JustBase => rfl
  | PointerType Qs D ih => exact hstep hD hq free_empty (ih hD (innerQuals_of_quals hq))
  | ArrayType D N Qs Specs ih =>
    have hL : Label.Fresh (.makeArrayType noQuals ∅ Qs (N.mods Specs) N.length : Label ε π) := by
      refine ⟨rfl, ?_⟩
      rw [Finset.empty_union]
      exact hD.2
    have h := hstep hD.1 hq hL (ih hD.1 (innerQuals_of_quals hq))
    rwa [Label.make, Finset.empty_union] at h
  | Prototype D L ih => exact hstep hD hq free_empty (ih hD (innerQuals_of_quals hq))
  | NoPrototype D L ih => exact hstep hD hq trivial (ih hD (innerQuals_of_quals hq))

/-- The qualifiers of the arrays of a type, from the outermost on. -/
def slots : Ty β ε π → List Quals
  | .base _ _ _ => []
  | .pointerType _ _ T | .functionType _ _ T _ => slots T
  | .arrayType Qs _ _ T => Qs :: slots T

theorem slots_withMods (T : Ty β ε π) (m : Finset Modifier) : slots (T.withMods m) = slots T := by cases T <;> rfl

theorem slots_addQualifiers (T : Ty β ε π) (Qs : Quals) : slots (T.addQualifiers Qs) = slots T := by
  induction T with
  | arrayType Qs' Mods N T ih => rw [Ty.addQualifiers, slots, slots, ih]
  | _ => rfl

def Label.slots : Label ε π → List Quals
  | makeArrayType _ _ ParamQs _ _ => [ParamQs]
  | _ => []

theorem slots_apply (Lbl : Label ε π) (T : Ty β ε π) :
    DeclType.slots (applyTypeFunction Lbl T) = Lbl.slots ++ DeclType.slots T := by
  cases Lbl with
  | makePointerType Qs Mods =>
    rw [apply_pointer]
    exact slots_withMods _ _
  | makeArrayType Qs Mods ParamQs ParamMods N =>
    rw [apply_array, DeclType.slots, slots_addQualifiers]
    exact congrArg _ (slots_withMods _ _)
  | makeFunctionType Qs Mods L =>
    rw [apply_function]
    exact slots_withMods _ _
  | makeOldStyleFunctionType L =>
    rw [apply_oldStyle]
    exact slots_withMods _ _

/-- An array that is made again has lost its qualifiers. -/
theorem slots_pushTypeDown (Lbl : Label ε π) (T : Ty β ε π) :
    slots (pushTypeDown T Lbl) = List.replicate (slots T).length noQuals ++ Lbl.slots := by
  induction T with
  | base Qs Mods b =>
    rw [pushTypeDown, slots_apply]
    exact List.append_nil _
  | pointerType Qs Mods T ih =>
    rw [pushTypeDown, slots_apply, ih]
    rfl
  | arrayType Qs Mods N T ih =>
    rw [pushTypeDown, slots_apply, ih]
    rfl
  | functionType Qs Mods T L ih =>
    rw [pushTypeDown, slots_apply, ih]
    rfl

theorem slots_derive (D : Declarator ε π) : ∀ X : Ty β ε π, slots (derive D X) = D.quals ++ slots X := by
  induction D with
  | JustBase => exact fun _ => rfl
  | PointerType Qs D ih => exact fun X => ih _
  | ArrayType D N Qs Specs ih =>
    intro X
    rw [derive, ih, Declarator.quals, List.append_assoc]
    rfl
  | Prototype D L ih => exact fun X => ih _
  | NoPrototype D L ih => exact fun X => ih _

theorem slots_evalType_length (T : Ty β ε π) (D : Declarator ε π) :
    (slots (evalType T D)).length = D.quals.length + (slots T).length := by
  induction D with
  | JustBase => exact (Nat.zero_add _).symm
  | PointerType Qs D ih | Prototype D L ih | NoPrototype D L ih =>
    rw [evalType, slots_pushTypeDown, List.length_append, List.length_replicate, ih]
    rfl
  | ArrayType D N Qs Specs ih =>
    rw [evalType, slots_pushTypeDown, List.length_append, List.length_replicate, ih, Declarator.quals,
      List.length_append, Nat.add_right_comm]
    rfl

/-- `static int *a[3]` -/
example : evalType (.base noQuals {.storage .Static} 'i' : Ty Char Empty Unit)
      (.PointerType noQuals (.ArrayType .JustBase (.int 3) noQuals ∅)) =
    .arrayType noQuals {.storage .Static} (.constant 3) (.pointerType noQuals ∅ (.base noQuals ∅ 'i')) := rfl

end Eval

/-! ## Which declarators are rejected -/

section Checks

variable {flexible : β → Bool} {D : Declarator ε π} {Qs : Quals} {Mods : Finset Modifier} {b : β} {T' : Ty β ε π}

/-- Some array of the type has the base type for its elements. -/
def hasArrayOfBase : Ty β ε π → Bool
  | .base _ _ _ => false
  | .pointerType _ _ T | .functionType _ _ T _ => hasArrayOfBase T
  | .arrayType _ _ _ (.base _ _ _) => true
  | .arrayType _ _ _ T => hasArrayOfBase T

theorem isFlexibleType_pushTypeDown (T : Ty β ε π) (Lbl : Label ε π) :
    isFlexibleType flexible (pushTypeDown T Lbl) = false := by
  have happly : ∀ (Lbl : Label ε π) (T : Ty β ε π), isFlexibleType flexible (applyTypeFunction Lbl T) = false := by
    intro Lbl T
    cases Lbl with
    | makePointerType Qs Mods => rw [apply_pointer]; rfl
    | makeArrayType Qs Mods ParamQs ParamMods N => rw [apply_array]; rfl
    | makeFunctionType Qs Mods L => rw [apply_function]; rfl
    | makeOldStyleFunctionType L => rw [apply_oldStyle]; rfl
  cases T <;> exact happly _ _

theorem violations_eq_nil {flex : Bool} {N : Size ε} :
    N.violations flex = [] ↔ N.violations false = [] ∧ flex = false := by
  cases flex with
  | false => simp
  | true =>
    simp only [Size.violations, if_true, List.append_eq_nil_iff, Bool.true_eq_false, and_false, iff_false]
    exact fun h => absurd h.2 (List.cons_ne_nil _ _)

/-- The sizes are right, and the array next to the name is not declared on a struct with a flexible member. -/
def Accepted (flexible : Bool) (D : Declarator ε π) : Prop := D.SizesOk ∧ ¬(flexible = true ∧ D.firstIsArray = true)

theorem accepted_array {N : Size ε} {Qs' : Quals} {Specs : Finset Modifier} :
    Accepted (flexible b) (.ArrayType D N Qs' Specs) ↔ Accepted (flexible b) D ∧
      N.violations (isFlexibleType flexible (evalType (.base Qs Mods b : Ty β ε π) D)) = [] := by
  rw [violations_eq_nil]
  have hinner : D ≠ .JustBase → (isFlexibleType flexible (evalType (.base Qs Mods b : Ty β ε π) D) = false ∧
      (Declarator.ArrayType D N Qs' Specs).firstIsArray = D.firstIsArray) := by
    intro hD
    cases D with
    | JustBase => exact absurd rfl hD
    | _ => exact ⟨isFlexibleType_pushTypeDown _ _, rfl⟩
  by_cases hD : D = .JustBase
  · subst hD
    show (True ∧ N.violations false = []) ∧ ¬(flexible b = true ∧ true = true) ↔
      (True ∧ ¬(flexible b = true ∧ false = true)) ∧ N.violations false = [] ∧ flexible b = false
    cases flexible b <;> simp
  · obtain ⟨hflex, hfirst⟩ := hinner hD
    rw [hflex, Accepted, Accepted, hfirst]
    show (D.SizesOk ∧ N.violations false = []) ∧ _ ↔ _
    tauto

theorem declType_spec (D : Declarator ε π) :
    (Accepted (flexible b) D → declType flexible (.base Qs Mods b) D = .ok (evalType (.base Qs Mods b) D)) ∧
      (¬ Accepted (flexible b) D → ∃ vs, declType flexible (.base Qs Mods b) D = .error vs) := by
  -- a node that is pushed down and not checked
  have hpush : ∀ {r : Except (List Stop) (Ty β ε π)} {T : Ty β ε π} {Lbl : Label ε π} {P : Prop},
      (P → r = .ok T) ∧ (¬ P → ∃ vs, r = .error vs) →
      (P → (do let T ← r; return pushTypeDown T Lbl) = Except.ok (pushTypeDown T Lbl)) ∧
        (¬ P → ∃ vs, (do let T ← r; return pushTypeDown T Lbl) = Except.error vs) := by
    intro r T Lbl P h
    refine ⟨fun hP => by rw [h.1 hP]; rfl, fun hP => ?_⟩
    obtain ⟨vs, hvs⟩ := h.2 hP
    exact ⟨vs, by rw [hvs]; rfl⟩
  induction D with
  | JustBase => exact ⟨fun _ => rfl, fun h => absurd ⟨trivial, fun hand => Bool.false_ne_true hand.2⟩ h⟩
  | PointerType Qs' D ih => exact hpush ih
  | Prototype D L ih => exact hpush ih
  | NoPrototype D L ih => exact hpush ih
  | ArrayType D N Qs' Specs ih =>
    rw [@accepted_array β ε π flexible D Qs Mods, declType]
    by_cases hD : Accepted (flexible b) D
    · rw [ih.1 hD]
      show (_ → (report _ >>= _) = _) ∧ (_ → ∃ vs, (report _ >>= _) = _)
      cases N.violations (isFlexibleType flexible (evalType (.base Qs Mods b) D)) with
      | nil => exact ⟨fun _ => rfl, fun h => absurd ⟨hD, rfl⟩ h⟩
      | cons v vs => exact ⟨fun h => absurd h.2 (List.cons_ne_nil _ _), fun _ => ⟨v :: vs, rfl⟩⟩
    · obtain ⟨vs, hvs⟩ := ih.2 hD
      exact ⟨fun h => absurd h.1 hD, fun _ => ⟨vs, by rw [hvs]; rfl⟩⟩

/-- **A declarator is rejected** for a size, or when the array next to the name is declared on a struct with a
    flexible member: the type that is looked at is not the one of the elements but what the array is built on. -/
theorem declType_iff {T' : Ty β ε π} : declType flexible (.base Qs Mods b) D = .ok T' ↔
    D.SizesOk ∧ ¬(flexible b = true ∧ D.firstIsArray = true) ∧ T' = evalType (.base Qs Mods b) D := by
  obtain ⟨hok, herror⟩ := @declType_spec β ε π flexible Qs Mods b D
  constructor
  · intro h
    by_cases hD : Accepted (flexible b) D
    · cases h.symm.trans (hok hD)
      exact ⟨hD.1, hD.2, rfl⟩
    · obtain ⟨vs, hvs⟩ := herror hD
      cases h.symm.trans hvs
  · rintro ⟨hsizes, hflex, rfl⟩
    exact hok ⟨hsizes, hflex⟩

def isBase : Ty β ε π → Bool
  | .base _ _ _ => true
  | _ => false

theorem hasArrayOfBase_derive (D : Declarator ε π) (T : Ty β ε π) (hT : isBase T = false) :
    hasArrayOfBase (derive D T) = hasArrayOfBase T := by
  induction D generalizing T with
  | JustBase => rfl
  | PointerType Qs D ih => exact ih _ rfl
  | ArrayType D N Qs Specs ih =>
    refine (ih _ rfl).trans ?_
    cases T with
    | base Qs Mods b => cases hT
    | _ => rfl
  | Prototype D L ih => exact ih _ rfl
  | NoPrototype D L ih => exact ih _ rfl

/-- The elements of an array have the base type when the array is read last. -/
theorem hasArrayOfBase_derive_base : hasArrayOfBase (derive D (.base Qs Mods b : Ty β ε π)) = D.isArray := by
  cases D with
  | JustBase => rfl
  | PointerType Qs' D => exact hasArrayOfBase_derive D (.pointerType Qs' ∅ (.base Qs Mods b)) rfl
  | ArrayType D N Qs' Specs =>
    exact hasArrayOfBase_derive D (.arrayType Qs' (N.mods Specs) N.length (.base Qs Mods b)) rfl
  | Prototype D L => exact hasArrayOfBase_derive D (.functionType noQuals ∅ (.base Qs Mods b) L) rfl
  | NoPrototype D L => exact hasArrayOfBase_derive D (.functionType noQuals {.oldStyle} (.base Qs Mods b) L) rfl

end Checks

end CSemantics.DeclType
