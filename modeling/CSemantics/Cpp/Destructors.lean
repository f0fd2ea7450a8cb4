/-
  Construction and destruction of class objects.

  A constructor builds the bases of its class and then its members, in order, and an array from its first element
  to its last.  A destructor REGISTERS the same subobjects, in the same order, and destroys them from the last
  registered to the first.  But a member array is registered from its last element, so that it is destroyed from
  its first, just as it was built; and of a local array nothing is registered but the array, which has no destructor:

      struct A { ~A(); };   struct B { A a[2]; };   void f() { B b; A a[2]; }

  destroys `b.a[0]` before `b.a[1]`, and neither `a[1]` nor `a[0]`.  When a constructor is unwound, what it has built
  is destroyed by virtual calls, and there is no rule for those while a constructor is running.

  Classes with virtual bases are left out (`figureDestruct` has no rule for them), and so are variant members, of
  which no destructor destroys any.
-/
import CSemantics.Cpp.Typing
import CSemantics.Lib.Assembly

namespace CSemantics.Cpp

/-! ## Classes and their subobjects -/

/-- The location of an object: a variable, or a subobject. -/
inductive LVal
  | obj (x : CId)
  | baseClass (Base : LVal) (C : Class)
  | member (Base : LVal) (X : CId)
  | element (Base : LVal) (I : ℕ)
  deriving DecidableEq

/-- An object of a class. -/
abbrev Object := Class × LVal

def getMostDerivedArrayElement : CPPType → CPPType
  | .t _ _ (.arrayType T _) => getMostDerivedArrayElement T
  | .t _ _ (.incompleteArrayType T) => getMostDerivedArrayElement T
  | .t _ _ (.dynamicArrayType T) => getMostDerivedArrayElement T
  | T => T

/-- The cells of the classes that constructors and destructors read.  A class is complete before there is a base or
    member of it. -/
structure ClassTable where
  baseClasses : Class → List Class
  nonStaticDataMembers : Class → List (CId × CPPType)
  /-- `isMethodVirtual`, of the destructor -/
  virtualDestructor : Class → Bool
  wf : WellFounded fun D C => D ∈ baseClasses C ∨
    ∃ m ∈ nonStaticDataMembers C, (getMostDerivedArrayElement m.2).simpleType = .classType D

/-! ### Construction -/

/-- `initEachElement`, from the element `I`. -/
def initEachElement (Init : LVal → List Object) (Base : LVal) (N I : ℕ) : List Object :=
  if I < N then Init (.element Base I) ++ initEachElement Init Base N (I + 1) else []
termination_by N - I

/-- `defaultInit`: the class objects that are initialized, in order.  A list of initializers, `arrayInit`, goes
    through an array in the same way. -/
def defaultInit : CPPType → LVal → List Object
  | .t _ _ (.classType C), Base => [(C, Base)]
  | .t _ _ (.arrayType T N), Base => initEachElement (fun L => defaultInit T L) Base N.toNat 0
  | _, _ => []

namespace ClassTable

variable (tab : ClassTable)

/-- `figureConstruct`: the subobjects that a constructor of `C` initializes. -/
def figureConstruct (C : Class) (Base : LVal) : List Object :=
  ((tab.baseClasses C).flatMap fun B => defaultInit (CPPSimpleType.classType B).type (.baseClass Base B)) ++
    (tab.nonStaticDataMembers C).flatMap fun m => defaultInit m.2 (.member Base m.1)

end ClassTable

/-! ### Destruction -/

/-- `lcentry`, with the type of its object. -/
structure LcEntry where
  obj : LVal
  type : CPPType
  initialized : Bool
  canBeVirtual : Bool
  isConstructor : Bool

/-- `addToConstructed` of an array, from its last element. -/
def addElementsToConstructed (add : LVal → List LcEntry → List LcEntry) (L : LVal) :
    ℕ → List LcEntry → List LcEntry
  | 0, LC => LC
  | N + 1, LC => addElementsToConstructed add L N (add (.element L N) LC)

/-- `addToConstructed`, which there is for classes and arrays only. -/
def addToConstructed : CPPType → LVal → List LcEntry → List LcEntry
  | .t q m (.classType C), L, LC => ⟨L, .t q m (.classType C), true, false, false⟩ :: LC
  | .t _ _ (.arrayType T N), L, LC =>
    addElementsToConstructed (fun L LC => addToConstructed T L LC) L N.toNat LC
  | _, _, LC => LC

/-- `figureDestructItem` -/
def figureDestructItem (T : CPPType) (L : LVal) (LC : List LcEntry) : List LcEntry :=
  if isCPPClassType (getMostDerivedArrayElement T) then addToConstructed T L LC else LC

/-- The object that the entry has a destructor call for. -/
def LcEntry.object (e : LcEntry) : Option Object :=
  match e.type.simpleType with
  | .classType C => some (C, e.obj)
  | _ => none

namespace ClassTable

variable (tab : ClassTable)

/-- `figureDestruct`: what `<locally-constructed>` is when the body of the destructor of `C` begins. -/
def figureDestruct (C : Class) (Base : LVal) : List LcEntry :=
  (tab.nonStaticDataMembers C).foldl (fun LC m => figureDestructItem m.2 (.member Base m.1) LC)
    ((tab.baseClasses C).foldl
      (fun LC B => figureDestructItem (CPPSimpleType.classType B).type (.baseClass Base B) LC) [])

end ClassTable

/-! ### The order of the elements -/

theorem initEachElement_eq (Init : LVal → List Object) (Base : LVal) (N I : ℕ) :
    initEachElement Init Base N I = (List.range' I (N - I)).flatMap fun J => Init (.element Base J) := by
  induction h : N - I generalizing I with
  | zero =>
    rw [initEachElement, if_neg (by omega)]
    rfl
  | succ n ih =>
    rw [initEachElement, if_pos (by omega), ih (I + 1) (by omega), List.range'_succ, List.flatMap_cons]

theorem defaultInit_array (q : Quals) (m : Finset String) (T : CPPType) (N : Int) (L : LVal) :
    defaultInit (.t q m (.arrayType T N)) L =
      (List.range N.toNat).flatMap fun I => defaultInit T (.element L I) := by
  rw [defaultInit, initEachElement_eq, Nat.sub_zero, ← List.range_eq_range']

theorem addElementsToConstructed_object {add : LVal → List LcEntry → List LcEntry} {f : LVal → List Object}
    (h : ∀ L LC, (add L LC).filterMap LcEntry.object = f L ++ LC.filterMap LcEntry.object) (L : LVal) (N : ℕ)
    (LC : List LcEntry) :
    (addElementsToConstructed add L N LC).filterMap LcEntry.object =
      ((List.range N).flatMap fun I => f (.element L I)) ++ LC.filterMap LcEntry.object := by
  induction N generalizing LC with
  | zero => rfl
  | succ N ih => rw [addElementsToConstructed, ih, h, List.range_succ, List.flatMap_append, List.append_assoc,
      List.flatMap_singleton]

/-- An array goes to the stack so that it leaves the stack in the order in which it was built. -/
theorem addToConstructed_object (T : CPPType) (L : LVal) (LC : List LcEntry) :
    (addToConstructed T L LC).filterMap LcEntry.object = defaultInit T L ++ LC.filterMap LcEntry.object := by
  fun_induction addToConstructed T L LC with
  | case1 q m C L LC => rfl
  | case2 q m T N L LC ih =>
    rw [defaultInit_array, addElementsToConstructed_object ih]
  | case3 T L LC hclass harray =>
    rw [defaultInit]
    · rfl
    · exact hclass
    · exact harray

/-- What is initialized are elements of the type. -/
theorem class_of_mem_defaultInit {T : CPPType} {L : LVal} {o : Object} (h : o ∈ defaultInit T L) :
    (getMostDerivedArrayElement T).simpleType = .classType o.1 := by
  induction T, L using defaultInit.induct with
  | case1 q m C L =>
    rw [defaultInit, List.mem_singleton] at h
    rw [h]
    rfl
  | case2 q m T N L ih =>
    rw [defaultInit_array, List.mem_flatMap] at h
    obtain ⟨I, -, h⟩ := h
    exact ih _ h
  | case3 T L hclass harray =>
    rw [defaultInit] at h
    · cases h
    · exact hclass
    · exact harray

theorem figureDestructItem_object (T : CPPType) (L : LVal) (LC : List LcEntry) :
    (figureDestructItem T L LC).filterMap LcEntry.object = defaultInit T L ++ LC.filterMap LcEntry.object := by
  unfold figureDestructItem
  split
  · exact addToConstructed_object T L LC
  · rename_i hclass
    have hnone : defaultInit T L = [] := by
      refine List.eq_nil_iff_forall_not_mem.mpr fun o ho => hclass ?_
      rw [isCPPClassType, class_of_mem_defaultInit ho]
    rw [hnone, List.nil_append]

/-- An object is at one place among the elements of an array. -/
theorem eq_of_mem_defaultInit {T : CPPType} {L L' : LVal} {o : Object} (h : o ∈ defaultInit T L)
    (h' : o ∈ defaultInit T L') : L = L' := by
  induction T, L using defaultInit.induct generalizing L' with
  | case1 q m C L =>
    rw [defaultInit, List.mem_singleton] at h h'
    rw [h] at h'
    exact congrArg Prod.snd h'
  | case2 q m T N L ih =>
    rw [defaultInit_array, List.mem_flatMap] at h h'
    obtain ⟨I, -, h⟩ := h
    obtain ⟨J, -, h'⟩ := h'
    cases ih _ h h'
    rfl
  | case3 T L hclass harray =>
    rw [defaultInit] at h
    · cases h
    · exact hclass
    · exact harray

theorem nodup_defaultInit (T : CPPType) (L : LVal) : (defaultInit T L).Nodup := by
  induction T, L using defaultInit.induct with
  | case1 q m C L => exact List.nodup_singleton _
  | case2 q m T N L ih =>
    rw [defaultInit_array, List.nodup_flatMap]
    refine ⟨fun I _ => ih _, List.nodup_range.imp ?_⟩
    intro I J hIJ o hI hJ
    cases eq_of_mem_defaultInit hI hJ
    exact hIJ rfl
  | case3 T L hclass harray =>
    rw [defaultInit]
    · exact List.nodup_nil
    · exact hclass
    · exact harray

/-- The number of class objects that an object of the type has for elements. -/
def elementCount : CPPType → ℕ
  | .t _ _ (.classType _) => 1
  | .t _ _ (.arrayType T N) => N.toNat * elementCount T
  | _ => 0

theorem length_defaultInit (T : CPPType) (L : LVal) : (defaultInit T L).length = elementCount T := by
  induction T, L using defaultInit.induct with
  | case1 q m C L => rfl
  | case2 q m T N L ih =>
    rw [defaultInit_array, List.length_flatMap, List.map_congr_left (fun I _ => ih (.element L I)), List.map_const',
      List.sum_replicate_nat, List.length_range, elementCount]
  | case3 T L hclass harray =>
    rw [defaultInit, elementCount]
    · rfl
    all_goals assumption

/-- An array of more than one object is not the same backwards. -/
theorem defaultInit_eq_reverse_iff (T : CPPType) (L : LVal) :
    defaultInit T L = (defaultInit T L).reverse ↔ elementCount T ≤ 1 := by
  rw [← length_defaultInit T L]
  have hnodup := nodup_defaultInit T L
  match h : defaultInit T L with
  | [] => simp
  | [o] => simp
  | o :: o' :: os =>
    rw [h] at hnodup
    refine iff_of_false (fun hrev => ?_) (by simp)
    have hlast : (o :: o' :: os).getLast? = some o := by rw [hrev, List.getLast?_reverse]; rfl
    rw [List.getLast?_cons_cons] at hlast
    exact (List.nodup_cons.mp hnodup).1 (List.mem_of_getLast? hlast)

/-! ### The subobjects of a class -/

namespace ClassTable

variable (tab : ClassTable)

theorem figureConstruct_class {C : Class} {Base : LVal} {o : Object} (h : o ∈ tab.figureConstruct C Base) :
    o.1 ∈ tab.baseClasses C ∨
      ∃ m ∈ tab.nonStaticDataMembers C, (getMostDerivedArrayElement m.2).simpleType = .classType o.1 := by
  rcases List.mem_append.mp h with h | h
  · obtain ⟨B, hB, ho⟩ := List.mem_flatMap.mp h
    cases CPPSimpleType.classType.inj (class_of_mem_defaultInit ho)
    exact .inl hB
  · obtain ⟨m, hm, ho⟩ := List.mem_flatMap.mp h
    exact .inr ⟨m, hm, class_of_mem_defaultInit ho⟩

/-- What is registered for destruction, from the top of the stack. -/
theorem figureDestruct_object (C : Class) (Base : LVal) :
    (tab.figureDestruct C Base).filterMap LcEntry.object =
      ((tab.nonStaticDataMembers C).reverse.flatMap fun m => defaultInit m.2 (.member Base m.1)) ++
        (tab.baseClasses C).reverse.flatMap fun B =>
          defaultInit (CPPSimpleType.classType B).type (.baseClass Base B) := by
  have hfold : ∀ {β : Type} (T : β → CPPType) (L : β → LVal) (l : List β) (LC : List LcEntry),
      (l.foldl (fun LC b => figureDestructItem (T b) (L b) LC) LC).filterMap LcEntry.object =
        (l.reverse.flatMap fun b => defaultInit (T b) (L b)) ++ LC.filterMap LcEntry.object := by
    intro β T L l
    induction l with
    | nil => exact fun LC => rfl
    | cons b l ih =>
      intro LC
      rw [List.foldl_cons, ih, figureDestructItem_object, List.reverse_cons, List.flatMap_append,
        List.flatMap_singleton, List.append_assoc]
  rw [figureDestruct, hfold, hfold]
  simp

/-- Objects of classes, with their subobjects. -/
def objects : Assembly Object where
  parts o := tab.figureConstruct o.1 o.2
  order o := (tab.figureDestruct o.1 o.2).filterMap LcEntry.object
  perm o := by
    rw [figureDestruct_object, figureConstruct]
    refine List.perm_append_comm.trans (.append ?_ ?_)
    · exact (List.reverse_perm _).flatMap_right _
    · exact (List.reverse_perm _).flatMap_right _
  wf := Subrelation.wf (fun h => tab.figureConstruct_class h) (InvImage.wf Prod.fst tab.wf)

/-- The destructor takes the subobjects backwards unless there is an array that it takes forwards. -/
theorem order_eq_reverse_iff (C : Class) (L : LVal) :
    tab.objects.order (C, L) = (tab.objects.parts (C, L)).reverse ↔
      ∀ m ∈ tab.nonStaticDataMembers C, elementCount m.2 ≤ 1 := by
  have hbases : ((tab.baseClasses C).flatMap fun B =>
      defaultInit (CPPSimpleType.classType B).type (.baseClass L B)).reverse =
        (tab.baseClasses C).reverse.flatMap fun B =>
          defaultInit (CPPSimpleType.classType B).type (.baseClass L B) := List.reverse_flatMap
  have hblocks : ∀ ms : List (CId × CPPType), (ms.flatMap fun m => defaultInit m.2 (.member L m.1)) =
      (ms.flatMap fun m => (defaultInit m.2 (.member L m.1)).reverse) ↔ ∀ m ∈ ms, elementCount m.2 ≤ 1 := by
    intro ms
    induction ms with
    | nil => simp
    | cons m ms ih =>
      rw [List.flatMap_cons, List.flatMap_cons, List.forall_mem_cons, ← ih,
        ← defaultInit_eq_reverse_iff m.2 (.member L m.1)]
      exact ⟨fun h => List.append_inj h List.length_reverse.symm, fun h => congrArg₂ _ h.1 h.2⟩
  change (tab.figureDestruct C L).filterMap LcEntry.object = (tab.figureConstruct C L).reverse ↔ _
  rw [figureDestruct_object, figureConstruct, List.reverse_append, hbases, List.append_left_inj, List.reverse_flatMap]
  exact (hblocks _).trans (by simp only [List.mem_reverse])

end ClassTable

/-! ## Destructor calls -/

/-- The function of a block scope. -/
inductive FunctionId
  | constructorId (C : Class)
  | destructorId (C : Class)
  | name (X : CId)
  deriving DecidableEq

def isUnderConstructionOrDestruction : FunctionId → Bool
  | .constructorId _ | .destructorId _ => true
  | .name _ => false

/-- The destructor calls that are made, and whether there is then no rule that applies. -/
structure Calls where
  calls : List Object
  stuck : Bool

def Calls.andThen (a b : Calls) : Calls :=
  if a.stuck then a else ⟨a.calls ++ b.calls, b.stuck⟩

@[simp] theorem Calls.andThen_of_not_stuck (ds : List Object) (b : Calls) :
    Calls.andThen ⟨ds, false⟩ b = ⟨ds ++ b.calls, b.stuck⟩ := rfl

@[simp] theorem Calls.andThen_of_stuck (ds : List Object) (b : Calls) :
    Calls.andThen ⟨ds, true⟩ b = ⟨ds, true⟩ := rfl

namespace ClassTable

variable (tab : ClassTable)

/-- The constructor calls for an object, in the order in which they are finished. -/
def construct (T : CPPType) (L : LVal) : List Object := (defaultInit T L).flatMap tab.objects.build

/-- `destruct`, of an object of class type: its destructor, and what that destroys. -/
def destruct (o : Object) : List Object := tab.objects.dismantle o

/-- `destructLocal`, in the scope of `f`.  The virtual call is by `computeFinalOverrider`, which the complete object
    has its own class for. -/
def destructLocal (f : FunctionId) (isException : Bool) (e : LcEntry) : Calls :=
  if !e.initialized || (e.isConstructor && !isException) then ⟨[], false⟩
  else
    match e.type.simpleType with
    | .classType C =>
      if e.canBeVirtual && tab.virtualDestructor C && isUnderConstructionOrDestruction f then ⟨[], true⟩
      else ⟨tab.destruct (C, e.obj), false⟩
    | _ => ⟨[], false⟩

/-- `destructLocals` -/
def destructLocals (f : FunctionId) (isException : Bool) : List LcEntry → Calls
  | [] => ⟨[], false⟩
  | e :: LC => (tab.destructLocal f isException e).andThen (destructLocals f isException LC)

/-- `finishConstruction`, for each subobject that a constructor has built. -/
def finishConstruction (done : List Object) : List LcEntry :=
  done.foldl (fun LC o => ⟨o.2, (CPPSimpleType.classType o.1).type, true, true, true⟩ :: LC) []

/-- `unwindFunction`, of a stack of constructors. -/
def unwindFunction : List (Object × List Object) → Calls
  | [] => ⟨[], false⟩
  | frame :: frames =>
    (tab.destructLocals (.constructorId frame.1.1) true (finishConstruction frame.2)).andThen (unwindFunction frames)

/-- The flags of an entry that `addToConstructed` makes. -/
def Registered (e : LcEntry) : Prop := e.initialized = true ∧ e.canBeVirtual = false ∧ e.isConstructor = false

theorem registered_addElementsToConstructed {add : LVal → List LcEntry → List LcEntry}
    (h : ∀ L LC, (∀ e ∈ LC, Registered e) → ∀ e ∈ add L LC, Registered e) (L : LVal) (N : ℕ) (LC : List LcEntry)
    (hLC : ∀ e ∈ LC, Registered e) : ∀ e ∈ addElementsToConstructed add L N LC, Registered e := by
  induction N generalizing LC with
  | zero => exact hLC
  | succ N ih => exact ih _ (h _ _ hLC)

theorem registered_addToConstructed (T : CPPType) (L : LVal) (LC : List LcEntry) (hLC : ∀ e ∈ LC, Registered e) :
    ∀ e ∈ addToConstructed T L LC, Registered e := by
  fun_induction addToConstructed T L LC with
  | case1 q m C L LC => exact List.forall_mem_cons.mpr ⟨⟨rfl, rfl, rfl⟩, hLC⟩
  | case2 q m T N L LC ih => exact registered_addElementsToConstructed ih L _ LC hLC
  | case3 T L LC hclass harray => exact hLC

theorem registered_figureDestructItem (T : CPPType) (L : LVal) (LC : List LcEntry) (hLC : ∀ e ∈ LC, Registered e) :
    ∀ e ∈ figureDestructItem T L LC, Registered e := by
  unfold figureDestructItem
  split
  · exact registered_addToConstructed T L LC hLC
  · exact hLC

theorem registered_figureDestruct (C : Class) (L : LVal) : ∀ e ∈ tab.figureDestruct C L, Registered e := by
  have hfold : ∀ {β : Type} (T : β → CPPType) (L : β → LVal) (l : List β) (LC : List LcEntry),
      (∀ e ∈ LC, Registered e) →
        ∀ e ∈ l.foldl (fun LC b => figureDestructItem (T b) (L b) LC) LC, Registered e := by
    intro β T L l
    induction l with
    | nil => exact fun LC h => h
    | cons b l ih =>
      exact fun LC h => ih _ (registered_figureDestructItem _ _ LC h)
  exact hfold _ _ _ _ (hfold _ _ _ _ fun e he => nomatch he)

theorem destructLocals_of_destructs {f : FunctionId} {isException : Bool} {LC : List LcEntry}
    (h : ∀ e ∈ LC, tab.destructLocal f isException e = ⟨e.object.toList.flatMap tab.destruct, false⟩) :
    tab.destructLocals f isException LC = ⟨(LC.filterMap LcEntry.object).flatMap tab.destruct, false⟩ := by
  induction LC with
  | nil => rfl
  | cons e LC ih =>
    obtain ⟨he, hLC⟩ := List.forall_mem_cons.mp h
    rw [destructLocals, he, ih hLC, Calls.andThen_of_not_stuck]
    cases ho : e.object with
    | none => rw [List.filterMap_cons_none ho]; rfl
    | some o => rw [List.filterMap_cons_some ho, List.flatMap_cons, Option.toList_some, List.flatMap_singleton]

/-- An initialized object is destroyed where its destructor need not be found by a virtual call, or can be. -/
theorem destructLocal_eq {f : FunctionId} {isException : Bool} {e : LcEntry} (hinit : e.initialized = true)
    (hctor : e.isConstructor = true → isException = true)
    (hvirtual : ∀ C, e.type.simpleType = .classType C →
      (e.canBeVirtual && tab.virtualDestructor C && isUnderConstructionOrDestruction f) = false) :
    tab.destructLocal f isException e = ⟨e.object.toList.flatMap tab.destruct, false⟩ := by
  have hskip : (!e.initialized || (e.isConstructor && !isException)) = false := by
    rw [hinit]
    cases hc : e.isConstructor with
    | false => rfl
    | true => rw [hctor hc]; rfl
  unfold destructLocal LcEntry.object
  rw [hskip]
  cases hT : e.type.simpleType with
  | classType C => simp [hvirtual C hT]
  | _ => rfl

/-- A destructor destroys what it has registered when its body is done. -/
theorem destructLocals_figureDestruct (C : Class) (L : LVal) :
    tab.destructLocals (.destructorId C) false (tab.figureDestruct C L) =
      ⟨((tab.figureDestruct C L).filterMap LcEntry.object).flatMap tab.destruct, false⟩ := by
  refine tab.destructLocals_of_destructs fun e he => ?_
  obtain ⟨hinit, hvirtual, hctor⟩ := tab.registered_figureDestruct C L e he
  refine tab.destructLocal_eq hinit (fun h => ?_) (fun _ _ => by rw [hvirtual]; rfl)
  rw [hctor] at h
  cases h

theorem destruct_eq (C : Class) (L : LVal) :
    tab.destruct (C, L) =
      (C, L) :: (tab.destructLocals (.destructorId C) false (tab.figureDestruct C L)).calls := by
  rw [destructLocals_figureDestruct, destruct, Assembly.dismantle_eq]
  rfl

theorem finishConstruction_eq (done : List Object) :
    finishConstruction done =
      done.reverse.map fun o => ⟨o.2, (CPPSimpleType.classType o.1).type, true, true, true⟩ := by
  have h : ∀ LC : List LcEntry,
      done.foldl (fun LC o => ⟨o.2, (CPPSimpleType.classType o.1).type, true, true, true⟩ :: LC) LC =
        (done.reverse.map fun o => ⟨o.2, (CPPSimpleType.classType o.1).type, true, true, true⟩) ++ LC := by
    induction done with
    | nil => exact fun LC => rfl
    | cons o done ih =>
      intro LC
      rw [List.foldl_cons, ih, List.reverse_cons, List.map_append, List.append_assoc]
      rfl
  rw [finishConstruction, h, List.append_nil]

/-! ### Unwinding -/

/-- Frame after frame is destroyed, where no destructor of a part is virtual. -/
theorem unwindFunction_eq {frames : List (Object × List Object)}
    (h : ∀ frame ∈ frames, ∀ o ∈ frame.2, tab.virtualDestructor o.1 = false) :
    tab.unwindFunction frames = ⟨frames.flatMap fun frame => frame.2.reverse.flatMap tab.destruct, false⟩ := by
  induction frames with
  | nil => rfl
  | cons frame frames ih =>
    obtain ⟨hframe, hframes⟩ := List.forall_mem_cons.mp h
    have hlocals : tab.destructLocals (.constructorId frame.1.1) true (finishConstruction frame.2) =
        ⟨frame.2.reverse.flatMap tab.destruct, false⟩ := by
      rw [finishConstruction_eq, destructLocals_of_destructs, List.filterMap_map]
      · congr 2
        exact List.filterMap_some
      · intro e he
        obtain ⟨o, ho, rfl⟩ := List.mem_map.mp he
        refine tab.destructLocal_eq rfl (fun _ => rfl) fun C hC => ?_
        cases CPPSimpleType.classType.inj hC
        rw [hframe o (List.mem_reverse.mp ho)]
        rfl
    rw [unwindFunction, hlocals, ih hframes, Calls.andThen_of_not_stuck, List.flatMap_cons]

/-- Nothing is destroyed when the first destructor to be called is virtual. -/
theorem unwindFunction_virtual {a c : Object} {done : List Object} {frames : List (Object × List Object)}
    (h : tab.virtualDestructor c.1 = true) : tab.unwindFunction ((a, done ++ [c]) :: frames) = ⟨[], true⟩ := by
  have hlocal : tab.destructLocal (.constructorId a.1) true ⟨c.2, (CPPSimpleType.classType c.1).type, true, true, true⟩ =
      ⟨[], true⟩ := by
    simp [destructLocal, CPPSimpleType.type, CPPType.simpleType, h, isUnderConstructionOrDestruction]
  rw [unwindFunction, finishConstruction_eq, List.reverse_concat, List.map_cons, destructLocals, hlocal]
  rfl

/-! ## Local objects -/

/-- The declaration of a local object is interrupted, with `cs` completed, between two elements or inside one. -/
inductive Interrupted (T : CPPType) (L : LVal) : List Object → List (Object × List Object) → Prop
  | between {done rest : List Object} {o : Object} (h : defaultInit T L = done ++ o :: rest) :
      Interrupted T L (done.flatMap tab.objects.build) []
  | inside {done rest cs : List Object} {o : Object} {frames : List (Object × List Object)}
      (h : defaultInit T L = done ++ o :: rest) (ho : tab.objects.Interrupted o cs frames) :
      Interrupted T L (done.flatMap tab.objects.build ++ cs) frames

/-- **Destruction is the reverse of construction**, of a local object in the function `f`: when its block is left,
    and when its declaration is interrupted. -/
structure DestructionReverses (f : FunctionId) (T : CPPType) (L : LVal) : Prop where
  exit : ∀ isException,
    (tab.destructLocals f isException [⟨L, T, true, true, false⟩]).calls = (tab.construct T L).reverse
  unwind : ∀ cs frames, tab.Interrupted T L cs frames →
    ((tab.unwindFunction frames).andThen (tab.destructLocals f true [⟨L, T, false, true, false⟩])).calls = cs.reverse

/-- An object of `D` is a subobject of an object of `C`. -/
def HasSubobject (C D : Class) : Prop :=
  D ∈ tab.baseClasses C ∨
    ∃ m ∈ tab.nonStaticDataMembers C, 0 < elementCount m.2 ∧
      (getMostDerivedArrayElement m.2).simpleType = .classType D

/-- No member is an array of more than one object, and no destructor of a subobject is virtual. -/
structure Reversible (C : Class) : Prop where
  members : ∀ m ∈ tab.nonStaticDataMembers C, elementCount m.2 ≤ 1
  subobjects : ∀ D, tab.HasSubobject C D → tab.virtualDestructor D = false

/-- The objects of which the code gets the order right: an object of a class, when all classes inside are
    reversible and its own destructor can be found, and an object without class objects in it. -/
def Orderly (f : FunctionId) (T : CPPType) : Prop :=
  match T.simpleType with
  | .classType C => (tab.virtualDestructor C = true → isUnderConstructionOrDestruction f = false) ∧
      ∀ D, Relation.ReflTransGen tab.HasSubobject C D → tab.Reversible D
  | _ => elementCount T = 0

variable {tab}

theorem hasSubobject_iff {C D : Class} {L : LVal} :
    tab.HasSubobject C D ↔ ∃ M, (D, M) ∈ tab.objects.parts (C, L) := by
  change _ ↔ ∃ M, (D, M) ∈ tab.figureConstruct C L
  constructor
  · rintro (hD | ⟨m, hm, hpos, hD⟩)
    · exact ⟨_, List.mem_append_left _ (List.mem_flatMap.mpr ⟨D, hD, List.mem_singleton.mpr rfl⟩)⟩
    · rw [← length_defaultInit m.2 (.member L m.1)] at hpos
      obtain ⟨⟨E, M⟩, ho⟩ := List.exists_mem_of_length_pos hpos
      have hE := class_of_mem_defaultInit ho
      rw [hD] at hE
      cases CPPSimpleType.classType.inj hE
      exact ⟨M, List.mem_append_right _ (List.mem_flatMap.mpr ⟨m, hm, ho⟩)⟩
  · rintro ⟨M, h⟩
    rcases List.mem_append.mp h with h | h
    · obtain ⟨B, hB, ho⟩ := List.mem_flatMap.mp h
      cases CPPSimpleType.classType.inj (class_of_mem_defaultInit ho)
      exact .inl hB
    · obtain ⟨m, hm, ho⟩ := List.mem_flatMap.mp h
      refine .inr ⟨m, hm, ?_, class_of_mem_defaultInit ho⟩
      rw [← length_defaultInit m.2 (.member L m.1)]
      exact List.length_pos_of_mem ho

theorem hasSubobject_of_within {o o' : Object} (h : tab.objects.Within o o') :
    Relation.ReflTransGen tab.HasSubobject o.1 o'.1 :=
  h.lift Prod.fst fun _ p hp => hasSubobject_iff.mpr ⟨p.2, hp⟩

theorem within_of_hasSubobject {C D : Class} (h : Relation.ReflTransGen tab.HasSubobject C D) (L : LVal) :
    ∃ M, tab.objects.Within (C, L) (D, M) := by
  induction h with
  | refl => exact ⟨L, .refl⟩
  | tail _ hE ih =>
    obtain ⟨M, hM⟩ := ih
    obtain ⟨N, hN⟩ := hasSubobject_iff.mp hE
    exact ⟨N, hM.tail hN⟩

/-- The destructor of a class undoes its constructor when no class inside has an array that is taken forwards. -/
theorem destruct_eq_reverse_iff {C : Class} {L : LVal} :
    tab.destruct (C, L) = (tab.objects.build (C, L)).reverse ↔
      ∀ D, Relation.ReflTransGen tab.HasSubobject C D →
        ∀ m ∈ tab.nonStaticDataMembers D, elementCount m.2 ≤ 1 := by
  rw [destruct, Assembly.dismantle_eq_reverse_build_iff]
  constructor
  · intro h D hD
    obtain ⟨M, hM⟩ := within_of_hasSubobject hD L
    exact (tab.order_eq_reverse_iff D M).mp (h _ hM)
  · intro h o ho
    exact (tab.order_eq_reverse_iff o.1 o.2).mpr (h _ (hasSubobject_of_within ho))

/-- An object that is registered but not initialized is not destroyed. -/
theorem unwind_calls {f : FunctionId} {T : CPPType} {L : LVal} (r : Calls) :
    (r.andThen (tab.destructLocals f true [⟨L, T, false, true, false⟩])).calls = r.calls := by
  cases r with
  | mk ds stuck => cases stuck with
    | true => rfl
    | false => exact List.append_nil ds

section Class

variable {f : FunctionId} {q : Quals} {m : Finset String} {C : Class} {L : LVal}

theorem exit_class (h : tab.virtualDestructor C = true → isUnderConstructionOrDestruction f = false)
    (isException : Bool) :
    (tab.destructLocals f isException [⟨L, .t q m (.classType C), true, true, false⟩]).calls =
      tab.destruct (C, L) := by
  have hcall : (tab.virtualDestructor C && isUnderConstructionOrDestruction f) = false := by
    cases hv : tab.virtualDestructor C with
    | false => rfl
    | true => rw [h hv]; rfl
  simp [destructLocals, destructLocal, CPPType.simpleType, hcall]

theorem exit_class_stuck (hv : tab.virtualDestructor C = true) (hf : isUnderConstructionOrDestruction f = true)
    (isException : Bool) :
    (tab.destructLocals f isException [⟨L, .t q m (.classType C), true, true, false⟩]).calls = [] := by
  simp [destructLocals, destructLocal, CPPType.simpleType, hv, hf]

theorem construct_class : tab.construct (.t q m (.classType C)) L = tab.objects.build (C, L) :=
  List.append_nil _

theorem defaultInit_class_append {done rest : List Object} {o : Object}
    (h : defaultInit (.t q m (.classType C)) L = done ++ o :: rest) : done = [] ∧ o = (C, L) := by
  rw [defaultInit] at h
  cases done with
  | nil => exact ⟨rfl, (List.cons.inj h).1.symm⟩
  | cons p done => simp at h

theorem reversible_of_destructionReverses (h : tab.DestructionReverses f (.t q m (.classType C)) L) :
    tab.Orderly f (.t q m (.classType C)) := by
  have hcall : tab.virtualDestructor C = true → isUnderConstructionOrDestruction f = false := by
    intro hv
    by_contra hf
    have hexit := h.exit false
    rw [exit_class_stuck hv (by simpa using hf), construct_class] at hexit
    have hself := List.mem_reverse.mpr (tab.objects.mem_build_self (C, L))
    rw [← hexit] at hself
    cases hself
  have hexit := h.exit false
  rw [exit_class hcall, construct_class, destruct_eq_reverse_iff] at hexit
  refine ⟨hcall, fun D hD => ⟨hexit D hD, fun E hE => ?_⟩⟩
  -- the constructor of `D` is unwound when the subobject of class `E` is the last that is complete
  by_contra hv
  obtain ⟨M, hM⟩ := within_of_hasSubobject hD L
  obtain ⟨N, hN⟩ := hasSubobject_iff.mp hE
  obtain ⟨cs, done, frames, hi, hmem⟩ := Assembly.exists_interrupted hM hN
  have hone : defaultInit (.t q m (.classType C)) L = [] ++ (C, L) :: [] := rfl
  have hunwind := h.unwind cs _ (.inside hone hi)
  rw [unwind_calls, unwindFunction_virtual tab (by simpa using hv)] at hunwind
  have hrev := List.mem_reverse.mpr hmem
  rw [← hunwind] at hrev
  cases hrev

theorem destructionReverses_of_reversible (h : tab.Orderly f (.t q m (.classType C))) :
    tab.DestructionReverses f (.t q m (.classType C)) L := by
  obtain ⟨hcall, hall⟩ := h
  have hdestruct : tab.destruct (C, L) = (tab.objects.build (C, L)).reverse :=
    destruct_eq_reverse_iff.mpr fun D hD => (hall D hD).members
  refine ⟨fun isException => ?_, fun cs frames hI => ?_⟩
  · rw [exit_class hcall, construct_class, hdestruct]
  · rw [unwind_calls]
    cases hI with
    | @between done rest o h =>
      obtain ⟨rfl, -⟩ := defaultInit_class_append h
      rfl
    | @inside done rest cs o frames h ho =>
      obtain ⟨rfl, rfl⟩ := defaultInit_class_append h
      have horder := (tab.objects.dismantle_eq_reverse_build_iff (C, L)).mp hdestruct
      rw [unwindFunction_eq]
      · exact ho.flatMap_frames horder
      · intro frame hframe p hp
        obtain ⟨b, hb, hpb⟩ := ho.mem_frames hframe hp
        exact (hall b.1 (hasSubobject_of_within hb)).subobjects p.1 (hasSubobject_iff.mpr ⟨p.2, hpb⟩)

end Class

/-- A local array has no destructor. -/
theorem exit_of_not_class {f : FunctionId} {T : CPPType} {L : LVal} (hT : ∀ C, T.simpleType ≠ .classType C)
    (isException : Bool) :
    (tab.destructLocals f isException [⟨L, T, true, true, false⟩]).calls = [] := by
  simp only [destructLocals, destructLocal]
  cases h : T.simpleType with
  | classType C => exact absurd h (hT C)
  | _ => rfl

/-- **A local object is destroyed in the reverse of the order of its construction**, also by exceptions, exactly when
    it is no array of class objects, none of its subobjects is an array of more than one, and none of them is to be
    destroyed by a virtual call. -/
theorem destructionReverses_iff (tab : ClassTable) (f : FunctionId) (T : CPPType) (x : CId) :
    tab.DestructionReverses f T (.obj x) ↔ tab.Orderly f T := by
  by_cases hT : ∃ C, T.simpleType = .classType C
  · obtain ⟨q, m, st⟩ := T
    obtain ⟨C, rfl⟩ := hT
    exact ⟨reversible_of_destructionReverses, destructionReverses_of_reversible⟩
  · have hT' : ∀ C, T.simpleType ≠ .classType C := fun C h => hT ⟨C, h⟩
    have horderly : tab.Orderly f T ↔ defaultInit T (.obj x) = [] := by
      rw [← List.length_eq_zero_iff, length_defaultInit, Orderly]
      cases h : T.simpleType with
      | classType C => exact absurd h (hT' C)
      | _ => rfl
    rw [horderly]
    constructor
    · intro h
      have hexit := h.exit false
      rw [exit_of_not_class hT'] at hexit
      refine List.eq_nil_iff_forall_not_mem.mpr fun o ho => ?_
      have hmem : o ∈ (tab.construct T (.obj x)).reverse :=
        List.mem_reverse.mpr (List.mem_flatMap.mpr ⟨o, ho, tab.objects.mem_build_self o⟩)
      rw [← hexit] at hmem
      cases hmem
    · intro h
      refine ⟨fun isException => ?_, fun cs frames hI => ?_⟩
      · rw [exit_of_not_class hT', construct, h]
        rfl
      · cases hI with
        | between hd => simp [h] at hd
        | inside hd _ => simp [h] at hd

/-- `struct A { ~A(); };` -/
def classA : Class := .mk (.namespace []) .Struct (.Identifier "A") .nil

/-- `struct B { A a[2]; };` -/
def classB : Class := .mk (.namespace []) .Struct (.Identifier "B") .nil

/-- `A [2]` -/
def twoA : CPPType := (CPPSimpleType.arrayType (CPPSimpleType.classType classA).type 2).type

/-- The two classes. -/
def twoElements : ClassTable where
  baseClasses _ := []
  nonStaticDataMembers C :=
    if C = classB then [(.Identifier "a", twoA)] else []
  virtualDestructor _ := false
  wf := by
    refine Subrelation.wf ?_ (InvImage.wf (fun C => if C = classB then 1 else 0) Nat.lt_wfRel.wf)
    rintro D C (h | ⟨m, hm, hD⟩)
    · cases h
    · by_cases hC : C = classB
      · rw [if_pos hC, List.mem_singleton] at hm
        rw [hm] at hD
        cases CPPSimpleType.classType.inj hD
        subst hC
        change (if classA = classB then 1 else 0) < if classB = classB then 1 else 0
        decide
      · rw [if_neg hC] at hm
        cases hm

/-- `B b;` is destroyed as it was built, element by element. -/
theorem memberArray_not_reversed :
    ¬ ∀ (tab : ClassTable) (f : FunctionId) (T : CPPType) (x : CId), tab.DestructionReverses f T (.obj x) := by
  intro h
  have hb := h twoElements (.name (.Identifier "f")) (CPPSimpleType.classType classB).type (.Identifier "b")
  have hexit := hb.exit false
  rw [CPPSimpleType.type, exit_class (fun _ => rfl), construct_class, destruct_eq_reverse_iff] at hexit
  have hcount := hexit classB .refl (.Identifier "a", twoA) (by decide)
  exact absurd hcount (by decide)

end ClassTable

end CSemantics.Cpp
