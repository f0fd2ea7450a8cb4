/-
  Which handler an exception goes to.

  A handler matches the type of the exception object and its base classes, by value or by reference, and a handler
  for a pointer also what converts to the pointer, if it is by value or by reference to `const`:

      catch (B *const &)        const B *  <-  D *        the `const` is one of the POINTER

  The rules look for that `const` on the reference.  They do not ask whether a base class is public and there once,
  nor what `void *` is to point to, and for pointers to members they know of no qualification conversion.
-/
import CSemantics.Cpp.ImplicitConversion
import CSemantics.Cpp.QualificationConversion

namespace CSemantics.Cpp

open MultiLevel

/-! ## The rules -/

/-- `handlerMatches(T, E)`, a constructor for each rule.  What is left is false. -/
inductive HandlerMatches (env : Env) : CPPType → CPPType → Prop
  | same {T E} (h : eqType (utype T) (utype E)) : HandlerMatches env T E
  | sameRef {q m T E} (h : eqType (utype T) (utype E)) : HandlerMatches env (.t q m (.lvRefType T)) E
  | base {T E} (h : env.IsBaseClassType T E) : HandlerMatches env T E
  | baseRef {q m T E} (h : env.IsBaseClassType T E) : HandlerMatches env (.t q m (.lvRefType T)) E
  | pointerBase {q m QT mT B q' m' QE mE D} (h : env.IsBaseClassOf B D) (hq : leQuals QE QT) :
      HandlerMatches env (.t q m (.pointerType (.t QT mT (.classType B))))
        (.t q' m' (.pointerType (.t QE mE (.classType D))))
  | pointerVoid {q m QT mT q' m' QE mE st} (hq : leQuals QE QT) :
      HandlerMatches env (.t q m (.pointerType (.t QT mT .void))) (.t q' m' (.pointerType (.t QE mE st)))
  | pointerBaseRef {m₀ q m QT mT B q' m' QE mE D} (h : env.IsBaseClassOf B D) (hq : leQuals QE QT) :
      HandlerMatches env (.t justConst m₀ (.lvRefType (.t q m (.pointerType (.t QT mT (.classType B))))))
        (.t q' m' (.pointerType (.t QE mE (.classType D))))
  | pointerVoidRef {m₀ q m QT mT q' m' QE mE st} (hq : leQuals QE QT) :
      HandlerMatches env (.t justConst m₀ (.lvRefType (.t q m (.pointerType (.t QT mT .void)))))
        (.t q' m' (.pointerType (.t QE mE st)))
  | qualification {T E} (hT : isCPPPointerType T) (hE : isCPPPointerType E) (hsim : isSimilar T E)
      (hle : leQualSig (cvQualificationSignature E) (cvQualificationSignature T)) : HandlerMatches env T E
  | qualificationRef {m₀ T E} (hT : isCPPPointerType T) (hE : isCPPPointerType E) (hsim : isSimilar T E)
      (hle : leQualSig (cvQualificationSignature E) (cvQualificationSignature T)) :
      HandlerMatches env (.t justConst m₀ (.lvRefType T)) E
  | nullPointer {T E} (hT : isCPPPointerType T) (hE : isCPPNullPtrTType E) : HandlerMatches env T E
  | nullMemberPointer {T E} (hT : isCPPMemberPointerType T) (hE : isCPPNullPtrTType E) : HandlerMatches env T E
  | nullPointerRef {m₀ T E} (hT : isCPPPointerType T) (hE : isCPPNullPtrTType E) :
      HandlerMatches env (.t justConst m₀ (.lvRefType T)) E
  | nullMemberPointerRef {m₀ T E} (hT : isCPPMemberPointerType T) (hE : isCPPNullPtrTType E) :
      HandlerMatches env (.t justConst m₀ (.lvRefType T)) E

/-! ## The handlers that should match -/

/-- What is read of `<base-access>`: whether a direct base class is public. -/
structure HandlerEnv extends Env where
  isPublicBase : Class → Class → Bool

/-- The classes between a class and a base class, along one line of descent. -/
def Env.IsDescent (env : Env) : Class → List Class → Class → Prop
  | D, [], B => D = B
  | D, C :: p, B => C ∈ env.baseClasses D ∧ env.IsDescent C p B

namespace HandlerEnv

variable (env : HandlerEnv)

def PublicAlong : Class → List Class → Prop
  | _, [] => True
  | D, C :: p => env.isPublicBase C D ∧ PublicAlong C p

/-- `B` is `D`, or a base class of `D` that is there once, and public. -/
def UnambiguousPublicBase (B D : Class) : Prop :=
  ∃ p, env.IsDescent D p B ∧ env.PublicAlong D p ∧ ∀ p', env.IsDescent D p' B → p' = p

def UnambiguousPublicBaseType (T E : CPPType) : Prop :=
  ∃ B D, T.simpleType = .classType B ∧ E.simpleType = .classType D ∧ env.UnambiguousPublicBase B D

end HandlerEnv

/-- What a handler by value or by reference is for. -/
def handlerObject : CPPType → CPPType
  | .t _ _ (.lvRefType T) => T
  | T => T

/-- `cv P` or `const P &`: a handler that may hold a converted pointer. -/
def HoldsTemporary : CPPType → Prop
  | .t _ _ (.lvRefType T) => (getQuals T).const = true ∧ (getQuals T).volatile = false
  | _ => True

/-- The qualifiers of an object: an array has those of its elements. -/
def objectQuals : CPPType → Quals
  | .t q _ (.arrayType T _) => q ⊔ objectQuals T
  | .t q _ (.incompleteArrayType T) => q ⊔ objectQuals T
  | .t q _ _ => q

/-- The pointer type `E` converts to `P`, by a pointer conversion and then one of qualifiers. -/
inductive PointerConverts (env : HandlerEnv) : CPPType → CPPType → Prop
  | void {q m QT mT q' m' T} (hobject : isCPPFunctionType T = false) (hq : objectQuals T ≤ QT) :
      PointerConverts env (.t q m (.pointerType (.t QT mT .void))) (.t q' m' (.pointerType T))
  | base {q m QT mT B q' m' QE mE D} (h : env.UnambiguousPublicBase B D) (hq : QE ≤ QT) :
      PointerConverts env (.t q m (.pointerType (.t QT mT (.classType B))))
        (.t q' m' (.pointerType (.t QE mE (.classType D))))

/-- By a qualification conversion. -/
def QualificationConverts (P E : CPPType) : Prop :=
  isSimilar P E = true ∧ LevelLE justConst (levels (cvQualificationSignature E)) (levels (cvQualificationSignature P))

/-- `nullptr` -/
def NullConverts (P E : CPPType) : Prop :=
  (isCPPPointerType P = true ∨ isCPPMemberPointerType P = true) ∧ isCPPNullPtrTType E = true

/-- **The handlers of an exception**: for its type, for a base class of it, and for pointers that it converts to. -/
def Handles (env : HandlerEnv) (T E : CPPType) : Prop :=
  eqType (utype (handlerObject T)) (utype E) = true ∨
  env.UnambiguousPublicBaseType (handlerObject T) E ∨
  (HoldsTemporary T ∧
    (PointerConverts env (handlerObject T) E ∨
      ((isCPPPointerType (handlerObject T) = true ∨ isCPPMemberPointerType (handlerObject T) = true) ∧
        QualificationConverts (handlerObject T) E) ∨
      NullConverts (handlerObject T) E))

/-! ## Where they differ -/

/-- `cv P`, or a reference to `P` that is `const` itself. -/
def ConstReference : CPPType → Prop
  | .t q _ (.lvRefType _) => q = justConst
  | _ => True

/-- What the rules for pointers and the conversions of pointers agree on. -/
def Converts₀ (env : HandlerEnv) (P E : CPPType) : Prop :=
  PointerConverts env P E ∨ (isCPPPointerType P = true ∧ QualificationConverts P E) ∨ NullConverts P E

/-- The rules for pointers find too much: a base class that is not public or there twice, a function, or an array with
    qualified elements. -/
inductive Overreaches (env : HandlerEnv) : CPPType → CPPType → Prop
  | void {q m QT mT q' m' QE mE st} (hq : QE ≤ QT)
      (hobject : isCPPFunctionType (.t QE mE st) = true ∨ ¬objectQuals (.t QE mE st) ≤ QT) :
      Overreaches env (.t q m (.pointerType (.t QT mT .void))) (.t q' m' (.pointerType (.t QE mE st)))
  | base {q m QT mT B q' m' QE mE D} (h : env.IsBaseClassOf B D) (hq : QE ≤ QT) (hbase : ¬env.UnambiguousPublicBase B D) :
      Overreaches env (.t q m (.pointerType (.t QT mT (.classType B))))
        (.t q' m' (.pointerType (.t QE mE (.classType D))))

/-- None of the cases in which a handler that is not for the type itself is found wrongly, or not found. -/
structure NoMismatch (env : HandlerEnv) (T E : CPPType) : Prop where
  /-- A base class is public, and there once. -/
  base : env.IsBaseClassType (handlerObject T) E → env.UnambiguousPublicBaseType (handlerObject T) E
  /-- A reference to a pointer that the exception converts to is `const` where its referent is. -/
  const : Converts₀ env (handlerObject T) E → (ConstReference T ↔ HoldsTemporary T)
  pointer : Overreaches env (handlerObject T) E → ¬ConstReference T
  memberPointer : isCPPMemberPointerType (handlerObject T) = true → QualificationConverts (handlerObject T) E →
    ¬HoldsTemporary T

/-! ## Descent -/

namespace HandlerEnv

variable {env : HandlerEnv} {B D : Class}

theorem isBaseClassOf_of_isDescent {p : List Class} (h : env.IsDescent D p B) : env.IsBaseClassOf B D := by
  induction p generalizing D with
  | nil =>
    obtain rfl : D = B := h
    exact .refl
  | cons C p ih => exact .head h.1 (ih h.2)

theorem UnambiguousPublicBase.isBaseClassOf (h : env.UnambiguousPublicBase B D) : env.IsBaseClassOf B D := by
  obtain ⟨p, hp, -, -⟩ := h
  exact isBaseClassOf_of_isDescent hp

theorem UnambiguousPublicBaseType.isBaseClassType {T E : CPPType} (h : env.UnambiguousPublicBaseType T E) :
    env.IsBaseClassType T E := by
  obtain ⟨B, D, hT, hE, hbase⟩ := h
  exact ⟨B, D, hT, hE, hbase.isBaseClassOf⟩

/-- A class is there once in itself. -/
theorem unambiguousPublicBase_self (D : Class) : env.UnambiguousPublicBase D D := by
  refine ⟨[], rfl, trivial, fun p hp => ?_⟩
  cases p with
  | nil => rfl
  | cons C p =>
    have hcycle : Relation.TransGen (fun D B => B ∈ env.baseClasses D) D D :=
      .head' hp.1 (isBaseClassOf_of_isDescent hp.2)
    exact absurd rfl (env.acyclic D D hcycle)

end HandlerEnv

/-! ## What the rules find -/

section Rules

variable {env : HandlerEnv} {P T E : CPPType}

/-- By value, or by reference. -/
theorem handlerObject_cases (T : CPPType) :
    (∃ q m P, T = .t q m (.lvRefType P)) ∨ (handlerObject T = T ∧ ConstReference T ∧ HoldsTemporary T) := by
  obtain ⟨q, m, st⟩ := T
  cases st with
  | lvRefType P => exact .inl ⟨q, m, P, rfl⟩
  | _ => exact .inr ⟨rfl, trivial, trivial⟩

/-- An exception is no reference. -/
theorem not_eqType_lvRefType {q : Quals} {m : Finset String} (hE : isCPPRefType E = false) :
    eqType (utype (.t q m (.lvRefType P))) (utype E) = false := by
  obtain ⟨qE, mE, st⟩ := E
  rw [← Bool.not_eq_true, eqType_iff]
  cases st with
  | lvRefType T => exact Bool.noConfusion (show true = false from hE)
  | _ => simp [utype, stripType, stripSimpleType]

theorem leQualSig_iff_of_isSimilar (h : isSimilar P E = true) :
    leQualSig (cvQualificationSignature E) (cvQualificationSignature P) = true ↔
      LevelLE justConst (levels (cvQualificationSignature E)) (levels (cvQualificationSignature P)) :=
  leQualSig_iff (length_signature_of_isSimilar h).symm

theorem isCPPPointerType_iff_exists : isCPPPointerType T = true ↔ ∃ q m T', T = .t q m (.pointerType T') := by
  obtain ⟨q, m, st⟩ := T
  cases st <;> simp [isCPPPointerType, CPPType.simpleType]

theorem isCPPMemberPointerType_iff_exists :
    isCPPMemberPointerType T = true ↔ ∃ q m C T', T = .t q m (.memberPointerType C T') := by
  obtain ⟨q, m, st⟩ := T
  cases st <;> simp [isCPPMemberPointerType, CPPType.simpleType]

/-- A rule for pointers: the conversion is right, or reaches too far. -/
theorem pointerBase_cases {q m QT mT B q' m' QE mE D} (h : env.IsBaseClassOf B D) (hq : leQuals QE QT = true) :
    Converts₀ env (.t q m (.pointerType (.t QT mT (.classType B)))) (.t q' m' (.pointerType (.t QE mE (.classType D)))) ∨
      Overreaches env (.t q m (.pointerType (.t QT mT (.classType B))))
        (.t q' m' (.pointerType (.t QE mE (.classType D)))) := by
  by_cases hbase : env.UnambiguousPublicBase B D
  · exact .inl (.inl (.base hbase (leQuals_iff.mp hq)))
  · exact .inr (.base h (leQuals_iff.mp hq) hbase)

theorem pointerVoid_cases {q m QT mT q' m' QE mE st} (hq : leQuals QE QT = true) :
    Converts₀ env (.t q m (.pointerType (.t QT mT .void))) (.t q' m' (.pointerType (.t QE mE st))) ∨
      Overreaches env (.t q m (.pointerType (.t QT mT .void))) (.t q' m' (.pointerType (.t QE mE st))) := by
  by_cases hobject : isCPPFunctionType (.t QE mE st) = true ∨ ¬objectQuals (.t QE mE st) ≤ QT
  · exact .inr (.void (leQuals_iff.mp hq) hobject)
  · rw [not_or, not_not, Bool.not_eq_true] at hobject
    exact .inl (.inl (.void hobject.1 hobject.2))

/-- The qualifiers of an array are among those of the object. -/
theorem le_objectQuals (T : CPPType) : getQuals T ≤ objectQuals T := by
  obtain ⟨q, m, st⟩ := T
  cases st with
  | arrayType T n => exact le_sup_left
  | incompleteArrayType T => exact le_sup_left
  | _ => exact le_refl _

/-- A handler by value, or by reference with the `const` on the reference, for what converts or seems to. -/
theorem handlerMatches_of_pointer (hT : T = P ∨ ∃ m₀, T = .t justConst m₀ (.lvRefType P))
    (h : Converts₀ env P E ∨ Overreaches env P E) : HandlerMatches env.toEnv T E := by
  rcases h with (hconv | ⟨hP, hsim, hle⟩ | ⟨hP, hE⟩) | hover
  · cases hconv with
    | @void q m QT mT q' m' T' hobject hq =>
      obtain ⟨QE, mE, st⟩ := T'
      have hq := leQuals_iff.mpr ((le_objectQuals (.t QE mE st)).trans hq)
      rcases hT with rfl | ⟨m₀, rfl⟩
      · exact .pointerVoid hq
      · exact .pointerVoidRef hq
    | base hbase hq =>
      rcases hT with rfl | ⟨m₀, rfl⟩
      · exact .pointerBase hbase.isBaseClassOf (leQuals_iff.mpr hq)
      · exact .pointerBaseRef hbase.isBaseClassOf (leQuals_iff.mpr hq)
  · have hle := (leQualSig_iff_of_isSimilar hsim).mpr hle
    have hE : isCPPPointerType E = true := by
      obtain ⟨q, m, P', rfl⟩ := isCPPPointerType_iff_exists.mp hP
      obtain ⟨q', m', E', rfl, -⟩ := isSimilar_pointerType hsim
      rfl
    rcases hT with rfl | ⟨m₀, rfl⟩
    · exact .qualification hP hE hsim hle
    · exact .qualificationRef hP hE hsim hle
  · rcases hT with rfl | ⟨m₀, rfl⟩
    · exact hP.elim (fun hP => .nullPointer hP hE) fun hP => .nullMemberPointer hP hE
    · exact hP.elim (fun hP => .nullPointerRef hP hE) fun hP => .nullMemberPointerRef hP hE
  · cases hover with
    | void hq _ =>
      rcases hT with rfl | ⟨m₀, rfl⟩
      · exact .pointerVoid (leQuals_iff.mpr hq)
      · exact .pointerVoidRef (leQuals_iff.mpr hq)
    | base hbase hq _ =>
      rcases hT with rfl | ⟨m₀, rfl⟩
      · exact .pointerBase hbase (leQuals_iff.mpr hq)
      · exact .pointerBaseRef hbase (leQuals_iff.mpr hq)

/-- **What the rules find.** -/
theorem handlerMatches_iff (hE : isCPPRefType E = false) :
    HandlerMatches env.toEnv T E ↔ eqType (utype (handlerObject T)) (utype E) = true ∨
      env.IsBaseClassType (handlerObject T) E ∨
      (ConstReference T ∧ (Converts₀ env (handlerObject T) E ∨ Overreaches env (handlerObject T) E)) := by
  constructor
  · intro h
    cases h with
    | same h =>
      rcases handlerObject_cases T with ⟨q, m, P, rfl⟩ | ⟨hobj, -⟩
      · rw [not_eqType_lvRefType hE] at h
        cases h
      · exact .inl (by rwa [hobj])
    | sameRef h => exact .inl h
    | base h =>
      obtain ⟨B, D, hT, hD, hbase⟩ := h
      rcases handlerObject_cases T with ⟨q, m, P, rfl⟩ | ⟨hobj, -⟩
      · cases hT
      · exact .inr (.inl ⟨B, D, by rwa [hobj], hD, hbase⟩)
    | baseRef h => exact .inr (.inl h)
    | pointerBase h hq => exact .inr (.inr ⟨trivial, pointerBase_cases h hq⟩)
    | pointerVoid hq => exact .inr (.inr ⟨trivial, pointerVoid_cases hq⟩)
    | pointerBaseRef h hq => exact .inr (.inr ⟨rfl, pointerBase_cases h hq⟩)
    | pointerVoidRef hq => exact .inr (.inr ⟨rfl, pointerVoid_cases hq⟩)
    | qualification hT _ hsim hle =>
      have hconv : Converts₀ env T E := .inr (.inl ⟨hT, hsim, (leQualSig_iff_of_isSimilar hsim).mp hle⟩)
      obtain ⟨q, m, P, rfl⟩ := isCPPPointerType_iff_exists.mp hT
      exact .inr (.inr ⟨trivial, .inl hconv⟩)
    | qualificationRef hT _ hsim hle =>
      exact .inr (.inr ⟨rfl, .inl (.inr (.inl ⟨hT, hsim, (leQualSig_iff_of_isSimilar hsim).mp hle⟩))⟩)
    | nullPointer hT hE' =>
      rcases handlerObject_cases T with ⟨q, m, P, rfl⟩ | ⟨hobj, hconst, -⟩
      · cases hT
      · exact .inr (.inr ⟨hconst, .inl (.inr (.inr ⟨.inl (by rwa [hobj]), hE'⟩))⟩)
    | nullMemberPointer hT hE' =>
      rcases handlerObject_cases T with ⟨q, m, P, rfl⟩ | ⟨hobj, hconst, -⟩
      · cases hT
      · exact .inr (.inr ⟨hconst, .inl (.inr (.inr ⟨.inr (by rwa [hobj]), hE'⟩))⟩)
    | nullPointerRef hT hE' => exact .inr (.inr ⟨rfl, .inl (.inr (.inr ⟨.inl hT, hE'⟩))⟩)
    | nullMemberPointerRef hT hE' => exact .inr (.inr ⟨rfl, .inl (.inr (.inr ⟨.inr hT, hE'⟩))⟩)
  · intro h
    rcases handlerObject_cases T with ⟨q, m, P, rfl⟩ | ⟨hobj, -⟩
    · rcases h with h | h | ⟨hconst, h⟩
      · exact .sameRef h
      · exact .baseRef h
      · obtain rfl : q = justConst := hconst
        exact handlerMatches_of_pointer (.inr ⟨m, rfl⟩) h
    · rw [hobj] at h
      rcases h with h | h | ⟨-, h⟩
      · exact .same h
      · exact .base h
      · exact handlerMatches_of_pointer (.inl rfl) h

/-! ## The kinds of types exclude each other -/

theorem PointerConverts.isCPPPointerType (h : PointerConverts env P E) :
    isCPPPointerType P = true ∧ isCPPPointerType E = true := by
  cases h <;> exact ⟨rfl, rfl⟩

theorem Overreaches.isCPPPointerType (h : Overreaches env P E) :
    isCPPPointerType P = true ∧ isCPPPointerType E = true := by
  cases h <;> exact ⟨rfl, rfl⟩

/-- Only pointers, and pointers to members, convert. -/
theorem Converts₀.isPointer (h : Converts₀ env P E) : isCPPPointerType P = true ∨ isCPPMemberPointerType P = true := by
  rcases h with hconv | ⟨hP, -⟩ | ⟨hP, -⟩
  · exact .inl hconv.isCPPPointerType.1
  · exact .inl hP
  · exact hP

theorem not_isPointer_of_class (hP : isCPPClassType P = true) :
    ¬(isCPPPointerType P = true ∨ isCPPMemberPointerType P = true) := by
  rintro (h | h)
  · obtain ⟨q, m, T', rfl⟩ := isCPPPointerType_iff_exists.mp h
    cases hP
  · obtain ⟨q, m, C, T', rfl⟩ := isCPPMemberPointerType_iff_exists.mp h
    cases hP

/-- Pointers to what is no pointer convert by qualifiers only if they point to the same. -/
theorem stripType_of_qualificationConverts {q q' QT QE : Quals} {m m' mT mE : Finset String} {stT stE : CPPSimpleType}
    (hleaf : isLeaf (.t QT mT stT) = true)
    (h : QualificationConverts (.t q m (.pointerType (.t QT mT stT))) (.t q' m' (.pointerType (.t QE mE stE)))) :
    stripType (.t noQuals mT stT) = stripType (.t noQuals mE stE) ∧ QE ≤ QT := by
  obtain ⟨hsim, hle⟩ := h
  rw [isSimilar, isSimilar_of_isLeaf hleaf] at hsim
  refine ⟨eqType_iff.mp hsim, ?_⟩
  have h1 := hle.1 1 (by omega)
  simpa [cvQualificationSignature_eq, CPPSimpleType.signature] using h1

/-- What reaches too far is no conversion. -/
theorem not_converts_of_overreaches (h : Overreaches env P E) : ¬Converts₀ env P E := by
  cases h with
  | @void q m QT mT q' m' QE mE st hq hobject =>
    rintro (hconv | ⟨-, hqual⟩ | ⟨-, hnull⟩)
    · cases hconv with
      | void hobject' hq' =>
        rcases hobject with hobject | hobject
        · rw [hobject] at hobject'
          cases hobject'
        · exact hobject hq'
    · -- a pointer to `void`
      obtain ⟨hstrip, hle⟩ := stripType_of_qualificationConverts rfl hqual
      have hst : st = .void := by
        cases st <;> simp_all [stripType, stripSimpleType]
      subst hst
      rcases hobject with hobject | hobject
      · cases hobject
      · exact hobject hle
    · cases hnull
  | @base q m QT mT B q' m' QE mE D hbase hq hnot =>
    rintro (hconv | ⟨-, hqual⟩ | ⟨-, hnull⟩)
    · cases hconv with
      | base hbase' _ => exact hnot hbase'
    · -- a pointer to the same class
      obtain ⟨hstrip, -⟩ := stripType_of_qualificationConverts rfl hqual
      have hclass : stripClass B = stripClass D := by
        simpa [stripType, stripSimpleType] using hstrip
      rcases Relation.reflTransGen_iff_eq_or_transGen.mp hbase with rfl | hproper
      · exact hnot (HandlerEnv.unambiguousPublicBase_self _)
      · exact env.acyclic _ _ hproper hclass
    · cases hnull

theorem not_of_memberPointer (hP : isCPPMemberPointerType P = true) (h : QualificationConverts P E) :
    ¬Converts₀ env P E ∧ ¬Overreaches env P E := by
  obtain ⟨q, m, C, T', rfl⟩ := isCPPMemberPointerType_iff_exists.mp hP
  obtain ⟨q', m', C', E', rfl, -⟩ := isSimilar_memberPointerType h.1
  constructor
  · rintro (hconv | ⟨hpointer, -⟩ | ⟨-, hnull⟩)
    · cases hconv
    · cases hpointer
    · cases hnull
  · intro hover
    cases hover

end Rules

/-! ## The comparison -/

/-- No classes. -/
def noClasses : HandlerEnv where
  cfg := x86GccLimitedLibc
  enumRange _ := (0, 0)
  baseClasses _ := []
  acyclic := Env.acyclic_of_no_bases
  isPublicBase _ _ := false

/-- `int *` -/
def intPointer : CPPType := (CPPSimpleType.pointerType CPPSimpleIntegerType.int.type).type

end CSemantics.Cpp
