/-
  A table in which a new binding HIDES the older ones of its key.

  `remove` takes away the newest binding of a key and the one before it is visible again.  Everything
  about such a table is in the stack of bindings of each key: `add` pushes on one stack, `remove` pops
  one, `find` reads the top.
-/
import Mathlib.Data.List.Basic

namespace CSemantics

/-- The bindings, the newest first. -/
structure ShadowTable (κ ν : Type) where
  bindings : List (κ × ν)

namespace ShadowTable

variable {κ ν : Type} [DecidableEq κ]

def add (t : ShadowTable κ ν) (k : κ) (v : ν) : ShadowTable κ ν := ⟨(k, v) :: t.bindings⟩

def remove (t : ShadowTable κ ν) (k : κ) : ShadowTable κ ν :=
  ⟨t.bindings.eraseP fun b => decide (b.1 = k)⟩

/-- All bindings of a key, the newest first. -/
def findAll (t : ShadowTable κ ν) (k : κ) : List ν :=
  (t.bindings.filter fun b => decide (b.1 = k)).map Prod.snd

def find (t : ShadowTable κ ν) (k : κ) : Option ν := (t.findAll k).head?

theorem findAll_add (t : ShadowTable κ ν) (k k' : κ) (v : ν) :
    (t.add k v).findAll k' = if k = k' then v :: t.findAll k' else t.findAll k' := by
  by_cases h : k = k' <;> simp [findAll, add, h]

theorem findAll_remove (t : ShadowTable κ ν) (k k' : κ) :
    (t.remove k).findAll k' = if k = k' then (t.findAll k').tail else t.findAll k' := by
  unfold findAll remove
  induction t.bindings with
  | nil => simp
  | cons b bs ih =>
    by_cases hb : b.1 = k
    · subst hb
      by_cases h : b.1 = k' <;> simp [h]
    · by_cases h : k = k'
      · subst h
        simpa [hb] using ih
      · rw [if_neg h] at ih ⊢
        by_cases hbk : b.1 = k' <;> simp [hb, hbk, Ne.symm h, ih]

/-- Removing a list of keys pops each stack as often as its key occurs. -/
theorem findAll_foldl_remove (ks : List κ) (t : ShadowTable κ ν) (k : κ) :
    (ks.foldl remove t).findAll k = (t.findAll k).drop (ks.count k) := by
  induction ks generalizing t with
  | nil => simp
  | cons k' ks ih =>
    rw [List.foldl_cons, ih, findAll_remove, List.count_cons]
    by_cases h : k' = k
    · subst h
      rw [if_pos rfl, List.drop_tail, beq_self_eq_true, if_pos rfl]
    · simp [h]

end ShadowTable

end CSemantics
