/-
  Making, clearing and copying objects.

  What these do to the BYTES of an object is their business; which objects there are and how long they
  are is what the heap depends on, and that is `Mem.lens`: one lemma for each says what it does to it.
  The loop of `copyBytes` goes from the last byte to the first and skips what is `uninit`.

      alloc_eq_ok, zeroObject_eq_ok, copyBytes_eq_ok, copyObjectType_eq_ok, lens_bufferWrite
-/
import CSemantics.Memory.Objects

namespace CSemantics

/-! ## The steps -/

/-- `alloc`; there is no rule when the object exists or another unit has to provide it. -/
def alloc (M : Mem) (b : SymBase) (T : CType) (len : Nat) : Eval Mem :=
  if isLinkBase b then .error .stuck
  else
    match M b with
    | some _ => .error .stuck
    | none =>
      .ok (Function.update M b (some
        ⟨if isNoType T then .dynamicType T else .type (stripStorageSpecifiers T), List.replicate len none⟩))

/-- `createArray` -/
def createArray (n : Nat) (v : Bits) : Eval (List (Option Bits)) :=
  fillArray (List.replicate n none) 0 n (some v)

/-- `zeroObject` -/
def zeroObject (cfg : Settings) (M : Mem) (b : SymBase) : Eval Mem :=
  match M b with
  | none => .error .stuck
  | some x => do
    let a ← createArray x.len ⟨.atom (.int 0), cfg.bitsPerByte⟩
    return Function.update M b (some { x with bytes := a })

/-- `copyBytes` -/
def copyBytes (old new : SymBase) : Nat → Mem → Eval Mem
  | 0, M => .ok M
  | n + 1, M =>
    match M old with
    | none => .error .stuck
    | some x =>
      match x.byteAt n with
      | none => copyBytes old new n M
      | some v =>
        match M new with
        | none => .error .stuck
        | some y => do
          let a ← updateArray y.bytes n [some v]
          copyBytes old new n (Function.update M new (some { y with bytes := a }))

/-- `copyObjectType` -/
def copyObjectType (M : Mem) (old new : SymBase) : Eval Mem :=
  match M old, M new with
  | some x, some y => .ok (Function.update M new (some { y with type := x.type }))
  | _, _ => .error .stuck

/-! ## Which objects there are, and how long they are -/

/-- The length of each object. -/
def Mem.lens (M : Mem) (b : SymBase) : Option Nat := (M b).map Object.len

section Lens

variable {M M' : Mem} {b c old new : SymBase}

theorem lens_eq_none : M.lens b = none ↔ M b = none := Option.map_eq_none_iff

theorem lens_update (M : Mem) (b : SymBase) (x : Option Object) :
    Mem.lens (Function.update M b x) = Function.update M.lens b (x.map Object.len) := by
  funext c
  by_cases hc : c = b
  · subst hc
    simp [Mem.lens]
  · simp [Mem.lens, hc]

/-- An object replaced by one as long. -/
theorem lens_update_same {x y : Object} (h : M b = some x) (hlen : y.len = x.len) :
    Mem.lens (Function.update M b (some y)) = M.lens := by
  rw [lens_update]
  have : M.lens b = some y.len := by rw [Mem.lens, h, hlen]; rfl
  rw [Option.map_some, ← this]
  exact Function.update_eq_self b M.lens

theorem length_updateArray {α : Type} {a l a' : List α} {i : Int} (h : updateArray a i l = .ok a') :
    a'.length = a.length := by
  obtain ⟨⟨-, hlen⟩, rfl⟩ := updateArray_eq_ok.mp h
  simp
  omega

theorem lens_bufferWrite {o : Int} {bytes : List Bits} (h : bufferWrite M b o bytes = .ok M') :
    M'.lens = M.lens := by
  unfold bufferWrite at h
  cases hM : M b with
  | none => rw [hM] at h; cases h
  | some x =>
    rw [hM] at h
    obtain ⟨a, ha, hM'⟩ := Eval.bind_eq_ok.mp h
    cases hM'
    exact lens_update_same hM (length_updateArray ha)

/-- An object is allocated exactly when there is none. -/
theorem alloc_eq_ok {T : CType} {n : Nat} (h : alloc M b T n = .ok M') :
    M b = none ∧ M'.lens = Function.update M.lens b (some n) := by
  unfold alloc at h
  split at h
  · cases h
  · cases hM : M b with
    | some x => rw [hM] at h; cases h
    | none =>
      rw [hM] at h
      cases h
      exact ⟨rfl, by simp [lens_update, Object.len]⟩

theorem exists_alloc (hb : M b = none) (hlink : isLinkBase b = false) (T : CType) (n : Nat) :
    ∃ M', alloc M b T n = .ok M' := by
  unfold alloc
  rw [hlink, hb]
  exact ⟨_, rfl⟩

theorem zeroObject_eq_ok {cfg : Settings} (h : zeroObject cfg M b = .ok M') : M'.lens = M.lens := by
  unfold zeroObject at h
  cases hM : M b with
  | none => rw [hM] at h; cases h
  | some x =>
    rw [hM] at h
    obtain ⟨a, ha, hM'⟩ := Eval.bind_eq_ok.mp h
    cases hM'
    refine lens_update_same hM ?_
    have hlen := length_updateArray ha
    rw [List.length_replicate] at hlen
    exact hlen

theorem exists_zeroObject (cfg : Settings) {n : Nat} (hb : M.lens b = some n) :
    ∃ M', zeroObject cfg M b = .ok M' := by
  obtain ⟨x, hM, -⟩ := Option.map_eq_some_iff.mp hb
  have ha : ∃ a, createArray x.len ⟨.atom (.int 0), cfg.bitsPerByte⟩ = .ok a := by
    unfold createArray fillArray updateArray
    exact ⟨_, if_pos (by simp)⟩
  obtain ⟨a, ha⟩ := ha
  unfold zeroObject
  simp only [hM, ha]
  exact ⟨_, rfl⟩

theorem copyBytes_eq_ok {n : Nat} (h : copyBytes old new n M = .ok M') : M'.lens = M.lens := by
  induction n generalizing M with
  | zero => cases h; rfl
  | succ n ih =>
    unfold copyBytes at h
    cases hold : M old with
    | none => rw [hold] at h; cases h
    | some x =>
      simp only [hold] at h
      cases hv : x.byteAt n with
      | none => rw [hv] at h; exact ih h
      | some v =>
        simp only [hv] at h
        cases hnew : M new with
        | none => rw [hnew] at h; cases h
        | some y =>
          rw [hnew] at h
          obtain ⟨a, ha, h⟩ := Eval.bind_eq_ok.mp h
          rw [ih h]
          exact lens_update_same hnew (length_updateArray ha)

/-- Copying goes through when both objects are long enough. -/
theorem exists_copyBytes {n m k : Nat} (hold : M.lens old = some m) (hnew : M.lens new = some k)
    (hk : n ≤ k) : ∃ M', copyBytes old new n M = .ok M' := by
  induction n generalizing M with
  | zero => exact ⟨M, rfl⟩
  | succ n ih =>
    obtain ⟨x, hx, -⟩ := Option.map_eq_some_iff.mp hold
    obtain ⟨y, hy, hlen⟩ := Option.map_eq_some_iff.mp hnew
    unfold copyBytes
    simp only [hx]
    cases hv : x.byteAt n with
    | none => exact ih hold hnew (by omega)
    | some v =>
      have hlt : n + 1 ≤ y.bytes.length := by
        have : y.bytes.length = k := hlen
        omega
      obtain ⟨a, ha⟩ : ∃ a, updateArray y.bytes n [some v] = .ok a := by
        unfold updateArray
        exact ⟨_, if_pos ⟨by omega, by simpa using hlt⟩⟩
      have hlens : Mem.lens (Function.update M new (some ⟨y.type, a⟩)) = M.lens :=
        lens_update_same hy (length_updateArray ha)
      simp only [hy, ha]
      refine ih ?_ ?_ (by omega)
      · rw [hlens, hold]
      · rw [hlens, hnew]

theorem copyObjectType_eq_ok (h : copyObjectType M old new = .ok M') : M'.lens = M.lens := by
  unfold copyObjectType at h
  split at h
  · rename_i x y _ hy
    cases h
    exact lens_update_same hy rfl
  · cases h

theorem exists_copyObjectType {m k : Nat} (hold : M.lens old = some m) (hnew : M.lens new = some k) :
    ∃ M', copyObjectType M old new = .ok M' := by
  obtain ⟨x, hx, -⟩ := Option.map_eq_some_iff.mp hold
  obtain ⟨y, hy, -⟩ := Option.map_eq_some_iff.mp hnew
  unfold copyObjectType
  rw [hx, hy]
  exact ⟨_, rfl⟩

end Lens

end CSemantics
