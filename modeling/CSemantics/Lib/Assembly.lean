/-
  Things that are built from parts and taken apart again.

  A thing is complete when its parts are, in their order, and it is taken apart before they are, in an order of
  its own.  Taking apart undoes building step by step exactly when NO thing on the way takes its parts in another
  order than backwards; two orders that differ anywhere differ in what comes first there.

  Building can be interrupted, inside a part of a part.  What is left then is a stack of FRAMES, one for each thing
  begun, with the parts it has got so far.
-/
import Mathlib.Data.List.Perm.Basic
import Mathlib.Logic.Relation

/-- Things with their parts, in the order in which they are built, and in the order in which they are taken apart. -/
structure Assembly (α : Type*) where
  parts : α → List α
  order : α → List α
  perm : ∀ a, (order a).Perm (parts a)
  wf : WellFounded fun b a => b ∈ parts a

namespace Assembly

variable {α : Type*} (A : Assembly α)

/-- What is completed when `a` is built. -/
def build : α → List α :=
  A.wf.fix fun a build => (A.parts a).attach.flatMap (fun b => build b.1 b.2) ++ [a]

theorem mem_parts_of_mem_order {a b : α} (h : b ∈ A.order a) : b ∈ A.parts a := (A.perm a).mem_iff.mp h

/-- What is taken apart with `a`. -/
def dismantle : α → List α :=
  A.wf.fix fun a dismantle => a :: (A.order a).attach.flatMap fun b => dismantle b.1 (A.mem_parts_of_mem_order b.2)

theorem build_eq (a : α) : A.build a = (A.parts a).flatMap A.build ++ [a] := by
  rw [build, WellFounded.fix_eq]
  exact congrArg (fun l : List (List α) => l.flatten ++ [a]) (List.attach_map_val (f := A.build))

theorem dismantle_eq (a : α) : A.dismantle a = a :: (A.order a).flatMap A.dismantle := by
  rw [dismantle, WellFounded.fix_eq]
  exact congrArg (fun l : List (List α) => a :: l.flatten) (List.attach_map_val (f := A.dismantle))

theorem mem_build_self (a : α) : a ∈ A.build a := by
  rw [build_eq]
  exact List.mem_append_right _ (List.mem_singleton.mpr rfl)

/-! ## Backwards -/

theorem length_dismantle (a : α) : (A.dismantle a).length = (A.build a).length := by
  induction a using A.wf.induction with
  | _ a ih =>
    have hperm := ((A.perm a).map fun b => (A.dismantle b).length).sum_nat
    have hmap : (A.parts a).map (fun b => (A.dismantle b).length) = (A.parts a).map fun b => (A.build b).length :=
      List.map_congr_left fun b hb => ih b hb
    rw [dismantle_eq, build_eq, List.length_cons, List.length_append, List.length_flatMap, List.length_flatMap, hperm,
      hmap, List.length_singleton]

/-- Blocks that begin with their own names, and are as long as the blocks they are compared with, are the same
    together only one by one. -/
theorem flatMap_eq_flatMap_iff {f g : α → List α} (hf : ∀ a, (f a).head? = some a) (hg : ∀ a, (g a).head? = some a)
    (hlen : ∀ a, (f a).length = (g a).length) (l l' : List α) :
    l.flatMap f = l'.flatMap g ↔ l = l' ∧ ∀ a ∈ l, f a = g a := by
  induction l generalizing l' with
  | nil =>
    cases l' with
    | nil => simp
    | cons b l' =>
      have hb : g b ≠ [] := by
        intro h
        have := hg b
        rw [h] at this
        cases this
      simp [List.flatMap_cons, hb]
  | cons a l ih =>
    have hhead : ∀ t, (f a ++ t).head? = some a := fun t => by rw [List.head?_append, hf]; rfl
    cases l' with
    | nil =>
      constructor
      · intro h
        have := hhead (l.flatMap f)
        rw [← List.flatMap_cons, h] at this
        cases this
      · rintro ⟨h, -⟩
        cases h
    | cons b l' =>
      rw [List.flatMap_cons, List.flatMap_cons]
      constructor
      · intro h
        have hab : a = b := by
          have := hhead (l.flatMap f)
          rw [h, List.head?_append, hg] at this
          exact (Option.some.inj this).symm
        subst hab
        obtain ⟨hfirst, hrest⟩ := List.append_inj h (hlen a)
        obtain ⟨rfl, hall⟩ := (ih l').mp hrest
        exact ⟨rfl, List.forall_mem_cons.mpr ⟨hfirst, hall⟩⟩
      · rintro ⟨h, hall⟩
        cases h
        rw [hall a List.mem_cons_self, (ih l).mpr ⟨rfl, fun c hc => hall c (List.mem_cons_of_mem _ hc)⟩]

/-- `b` is a part of `a`, at any depth. -/
def Within (a b : α) : Prop := Relation.ReflTransGen (fun a b => b ∈ A.parts a) a b

/-- **Taking apart undoes building exactly when every thing takes its parts backwards.** -/
theorem dismantle_eq_reverse_build_iff (a : α) :
    A.dismantle a = (A.build a).reverse ↔ ∀ b, A.Within a b → A.order b = (A.parts b).reverse := by
  have step : ∀ a, A.dismantle a = (A.build a).reverse ↔
      A.order a = (A.parts a).reverse ∧ ∀ b ∈ A.parts a, A.dismantle b = (A.build b).reverse := by
    intro a
    have hf : ∀ b, (A.dismantle b).head? = some b := fun b => by rw [dismantle_eq]; rfl
    have hg : ∀ b, (A.build b).reverse.head? = some b := fun b => by rw [build_eq, List.reverse_concat]; rfl
    have hlen : ∀ b, (A.dismantle b).length = (A.build b).reverse.length := fun b => by
      rw [List.length_reverse, length_dismantle]
    have hmem : ∀ b, b ∈ A.order a ↔ b ∈ A.parts a := fun b => (A.perm a).mem_iff
    have hrev : (A.build a).reverse = a :: (A.parts a).reverse.flatMap fun b => (A.build b).reverse := by
      rw [build_eq, List.reverse_concat, List.reverse_flatMap]
      rfl
    rw [dismantle_eq, hrev, List.cons_eq_cons, flatMap_eq_flatMap_iff hf hg hlen]
    simp only [true_and, hmem]
  induction a using A.wf.induction with
  | _ a ih =>
    rw [step]
    constructor
    · rintro ⟨ha, hparts⟩ b hb
      rcases Relation.ReflTransGen.cases_head hb with rfl | ⟨c, hc, hcb⟩
      · exact ha
      · exact (ih c hc).mp (hparts c hc) b hcb
    · intro h
      exact ⟨h a .refl, fun c hc => (ih c hc).mpr fun b hb => h b (.head hc hb)⟩

/-! ## Interruptions -/

/-- `cs` has been completed for `a` when it is interrupted.  A frame is a thing begun and the parts it has got; the
    innermost is the first. -/
inductive Interrupted : α → List α → List (α × List α) → Prop
  | between {a : α} {done rest : List α} (h : A.parts a = done ++ rest) :
      Interrupted a (done.flatMap A.build) [(a, done)]
  | inside {a b : α} {done rest cs : List α} {frames : List (α × List α)} (h : A.parts a = done ++ b :: rest)
      (hb : Interrupted b cs frames) : Interrupted a (done.flatMap A.build ++ cs) (frames ++ [(a, done)])

variable {A}

/-- Where all parts are taken backwards, frame after frame taken apart backwards undoes what has been completed. -/
theorem Interrupted.flatMap_frames {a : α} {cs : List α} {frames : List (α × List α)}
    (hi : A.Interrupted a cs frames) (h : ∀ b, A.Within a b → A.order b = (A.parts b).reverse) :
    (frames.flatMap fun frame => frame.2.reverse.flatMap A.dismantle) = cs.reverse := by
  induction hi with
  | @between a done rest hp =>
    have hback : ∀ b ∈ done.reverse, A.dismantle b = (A.build b).reverse := by
      intro b hb
      have hba : b ∈ A.parts a := by rw [hp]; exact List.mem_append_left _ (List.mem_reverse.mp hb)
      exact (A.dismantle_eq_reverse_build_iff b).mpr fun c hc => h c (.head hba hc)
    rw [List.flatMap_singleton, List.reverse_flatMap, List.flatMap_congr hback]
    rfl
  | @inside a b done rest cs frames hp _ ih =>
    have hback : ∀ c ∈ done.reverse, A.dismantle c = (A.build c).reverse := by
      intro c hc
      have hca : c ∈ A.parts a := by rw [hp]; exact List.mem_append_left _ (List.mem_reverse.mp hc)
      exact (A.dismantle_eq_reverse_build_iff c).mpr fun d hd => h d (.head hca hd)
    have hba : b ∈ A.parts a := by rw [hp]; exact List.mem_append_right _ List.mem_cons_self
    rw [List.flatMap_append, List.flatMap_singleton, ih fun c hc => h c (.head hba hc), List.reverse_append,
      List.reverse_flatMap, List.flatMap_congr hback]
    rfl

/-- Every part, at any depth, is at some interruption the one completed last. -/
theorem exists_interrupted {a b c : α} (hab : A.Within a b) (hc : c ∈ A.parts b) :
    ∃ cs done frames, A.Interrupted a cs ((b, done ++ [c]) :: frames) ∧ c ∈ cs := by
  induction hab using Relation.ReflTransGen.head_induction_on with
  | refl =>
    obtain ⟨done, rest, h⟩ := List.append_of_mem hc
    have hlast : A.parts b = (done ++ [c]) ++ rest := by rw [h, List.append_assoc]; rfl
    refine ⟨(done ++ [c]).flatMap A.build, done, [], .between hlast, ?_⟩
    exact List.mem_flatMap.mpr ⟨c, by simp, A.mem_build_self c⟩
  | @head a a' ha _ ih =>
    obtain ⟨cs, done, frames, hi, hmem⟩ := ih
    obtain ⟨before, rest, h⟩ := List.append_of_mem ha
    exact ⟨_, done, frames ++ [(a, before)], .inside h hi, List.mem_append_right _ hmem⟩

/-- What the frames hold are parts of things begun. -/
theorem Interrupted.mem_frames {a c : α} {cs : List α} {frames : List (α × List α)} {frame : α × List α}
    (hi : A.Interrupted a cs frames) (hf : frame ∈ frames) (hc : c ∈ frame.2) :
    ∃ b, A.Within a b ∧ c ∈ A.parts b := by
  induction hi with
  | @between a done rest hp =>
    obtain rfl := List.mem_singleton.mp hf
    exact ⟨a, .refl, by rw [hp]; exact List.mem_append_left _ hc⟩
  | @inside a b done rest cs frames hp _ ih =>
    rcases List.mem_append.mp hf with hf | hf
    · obtain ⟨d, hbd, hcd⟩ := ih hf
      exact ⟨d, .head (by rw [hp]; exact List.mem_append_right _ List.mem_cons_self) hbd, hcd⟩
    · obtain rfl := List.mem_singleton.mp hf
      exact ⟨a, .refl, by rw [hp]; exact List.mem_append_left _ hc⟩

end Assembly
