/-
  The objects in memory.

  `<mem>` maps the base of an object to its effective type and its bytes.  A byte that was never
  written is `uninit`.  The length of an object is the number of its bytes; it never changes, what
  a write changes is bytes, and those of one object only.

      byteAt_bufferWrite   what one buffered write or fill does to every byte
-/
import CSemantics.Bits
import CSemantics.Typing.Syntax

namespace CSemantics

/-- The type of the object a program has given it, or the one memory from `malloc` got last. -/
inductive EffectiveType
  | type (T : CType)
  | dynamicType (T : CType)

/-- `object(T, Len, Bytes)`, where `Len` is the number of bytes; `none` is `uninit`. -/
structure Object where
  type : EffectiveType
  bytes : List (Option Bits)

namespace Object

def len (x : Object) : Nat := x.bytes.length

/-- The byte at an offset, unless it is `uninit` or there is none. -/
def byteAt (x : Object) (o : Int) : Option Bits := if 0 ≤ o then x.bytes[o.toNat]?.join else none

end Object

/-- `<mem>` -/
abbrev Mem := SymBase → Option Object

/-- The byte at an offset of an object, unless it is `uninit` or there is none. -/
def Mem.byteAt (M : Mem) (b : SymBase) (o : Int) : Option Bits :=
  match M b with
  | none => none
  | some x => x.byteAt o

/-- `updateArray`; the result is not defined outside the array. -/
def updateArray {α : Type} (a : List α) (i : Int) (l : List α) : Eval (List α) :=
  if 0 ≤ i ∧ i.toNat + l.length ≤ a.length then
    .ok (a.take i.toNat ++ l ++ a.drop (i.toNat + l.length))
  else .error .stuck

/-- `fillArray` -/
def fillArray {α : Type} (a : List α) (i : Int) (n : Nat) (x : α) : Eval (List α) :=
  updateArray a i (List.replicate n x)

/-- `bufferWrite` -/
def bufferWrite (M : Mem) (b : SymBase) (offset : Int) (bytes : List Bits) : Eval Mem :=
  match M b with
  | none => .error .stuck
  | some x => do
    let a ← updateArray x.bytes offset (bytes.map some)
    return Function.update M b (some { x with bytes := a })

/-- `bufferFill` -/
def bufferFill (M : Mem) (b : SymBase) (offset : Int) (n : Nat) (v : Bits) : Eval Mem :=
  match M b with
  | none => .error .stuck
  | some x => do
    let a ← fillArray x.bytes offset n (some v)
    return Function.update M b (some { x with bytes := a })

/-- A fill is a write of one byte repeated. -/
theorem bufferFill_eq (M : Mem) (b : SymBase) (offset : Int) (n : Nat) (v : Bits) :
    bufferFill M b offset n v = bufferWrite M b offset (List.replicate n v) := by
  simp [bufferFill, bufferWrite, fillArray, List.map_replicate]

theorem updateArray_eq_ok {α : Type} {a l a' : List α} {i : Int} :
    updateArray a i l = .ok a' ↔ (0 ≤ i ∧ i.toNat + l.length ≤ a.length) ∧
      a' = a.take i.toNat ++ l ++ a.drop (i.toNat + l.length) := by
  unfold updateArray
  split
  · rename_i h
    simp only [h, and_self, true_and, Except.ok.injEq]
    exact eq_comm
  · rename_i h
    simp [h]

/-- The entries of an updated array. -/
theorem getElem?_updateArray {α : Type} {a l a' : List α} {i : Int} (h : updateArray a i l = .ok a')
    (k : Nat) :
    a'[k]? = if i.toNat ≤ k ∧ k < i.toNat + l.length then l[k - i.toNat]? else a[k]? := by
  obtain ⟨⟨-, hlen⟩, rfl⟩ := updateArray_eq_ok.mp h
  by_cases h1 : k < i.toNat
  · rw [if_neg (by omega), List.append_assoc, List.getElem?_append_left (by simp; omega),
      List.getElem?_take_of_lt h1]
  · by_cases h2 : k < i.toNat + l.length
    · rw [if_pos (by omega), List.append_assoc, List.getElem?_append_right (by simp; omega),
        List.getElem?_append_left (by simp; omega), List.length_take]
      congr 1
      omega
    · rw [if_neg (by omega), List.getElem?_append_right (by simp; omega), List.getElem?_drop]
      congr 1
      simp
      omega

/-- The byte a write of `bytes` at `offset` puts at the place `p`. -/
def writtenByte (offset : Int) (bytes : List Bits) (p : Int) : Option Bits :=
  if offset ≤ p ∧ p < offset + bytes.length then bytes[(p - offset).toNat]? else none

theorem writtenByte_isSome {offset : Int} {bytes : List Bits} {p : Int} :
    (writtenByte offset bytes p).isSome = true ↔ offset ≤ p ∧ p < offset + bytes.length := by
  unfold writtenByte
  split
  · rename_i h
    have hlt : (p - offset).toNat < bytes.length := by omega
    simp [h, List.getElem?_eq_getElem hlt]
  · rename_i h
    simp [h]

/-- **What one write does to every byte of memory.** -/
theorem byteAt_bufferWrite {M M' : Mem} {b : SymBase} {offset : Int} {bytes : List Bits}
    (h : bufferWrite M b offset bytes = .ok M') (c : SymBase) (p : Int) :
    M'.byteAt c p = (if c = b then writtenByte offset bytes p else none).or (M.byteAt c p) := by
  unfold bufferWrite at h
  cases hM : M b with
  | none => rw [hM] at h; cases h
  | some x =>
    rw [hM] at h
    obtain ⟨a, ha, hM'⟩ := Eval.bind_eq_ok.mp h
    cases hM'
    by_cases hc : c = b
    · subst hc
      obtain ⟨⟨hoff, hlen⟩, -⟩ := updateArray_eq_ok.mp ha
      simp only [Mem.byteAt, Object.byteAt, Function.update_self, hM, if_true]
      rw [List.length_map] at hlen
      by_cases hp : 0 ≤ p
      · simp only [if_pos hp, getElem?_updateArray ha, List.length_map, List.getElem?_map]
        unfold writtenByte
        by_cases hin : offset ≤ p ∧ p < offset + bytes.length
        · have hk : p.toNat - offset.toNat = (p - offset).toNat := by omega
          have hlt : (p - offset).toNat < bytes.length := by omega
          rw [if_pos (by omega), if_pos hin, hk, List.getElem?_eq_getElem hlt]
          rfl
        · rw [if_neg (by omega), if_neg hin]
          rfl
      · have hout : writtenByte offset bytes p = none := by
          unfold writtenByte
          rw [if_neg (by omega)]
        rw [if_neg hp, if_neg hp, hout]
        rfl
    · simp only [Mem.byteAt, Function.update_of_ne hc, if_neg hc]
      rfl

end CSemantics
