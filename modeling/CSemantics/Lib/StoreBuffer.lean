/-
  A store behind a first-in-first-out buffer.

  Operations are ISSUED at the tail of the buffer and take effect on the store when they are
  FLUSHED from its head, at any time.  An operation may fail; a flush of one that fails is not a
  step.  The one fact everything else follows from is `Run.exists_flushed`: the operations issued
  so far are those flushed, in the same order, followed by those still in the buffer.

      Run.exists_flushed   issued = flushed ++ buffer, and the store is the flushed ones applied
      Run.drained          with nothing in the buffer the store is what direct application gives
-/
import Mathlib.Data.List.Basic

namespace CSemantics.StoreBuffer

variable {σ ω ε : Type}

/-- Apply operations in order. -/
def applyAll (apply : σ → ω → Except ε σ) : σ → List ω → Except ε σ
  | m, [] => .ok m
  | m, op :: ops =>
    match apply m op with
    | .error e => .error e
    | .ok m' => applyAll apply m' ops

/-- A store with its buffer. -/
structure State (σ ω : Type) where
  mem : σ
  buffer : List ω

/-- **The runs**: what was issued, in program order, and the state it has led to. -/
inductive Run (apply : σ → ω → Except ε σ) (m₀ : σ) : List ω → State σ ω → Prop
  | init : Run apply m₀ [] ⟨m₀, []⟩
  | issue {ops : List ω} {s : State σ ω} (op : ω) (h : Run apply m₀ ops s) :
    Run apply m₀ (ops ++ [op]) ⟨s.mem, s.buffer ++ [op]⟩
  | flush {ops : List ω} {op : ω} {m m' : σ} {rest : List ω} (h : Run apply m₀ ops ⟨m, op :: rest⟩)
    (hop : apply m op = .ok m') : Run apply m₀ ops ⟨m', rest⟩

variable {apply : σ → ω → Except ε σ} {m₀ m m' : σ} {ops ops' : List ω} {s : State σ ω}

theorem applyAll_append (h : applyAll apply m ops = .ok m') :
    applyAll apply m (ops ++ ops') = applyAll apply m' ops' := by
  induction ops generalizing m with
  | nil => cases h; rfl
  | cons op ops ih =>
    rw [List.cons_append, applyAll]
    rw [applyAll] at h
    cases hop : apply m op with
    | error e => rw [hop] at h; cases h
    | ok m₁ =>
      rw [hop] at h
      exact ih h

/-- An observation of the store: it is what the last operation that sets it says, or else what it
    was before. -/
theorem applyAll_observe {ρ : Type} (observe : σ → Option ρ) (sets : ω → Option ρ)
    (hstep : ∀ m op m', apply m op = .ok m' → observe m' = (sets op).or (observe m))
    (h : applyAll apply m ops = .ok m') :
    observe m' = (ops.reverse.findSome? sets).or (observe m) := by
  induction ops generalizing m with
  | nil => cases h; rfl
  | cons op ops ih =>
    rw [applyAll] at h
    cases hop : apply m op with
    | error e => rw [hop] at h; cases h
    | ok m₁ =>
      rw [hop] at h
      rw [ih h, hstep m op m₁ hop, List.reverse_cons, List.findSome?_append, Option.or_assoc]
      congr 1
      cases hset : sets op <;> simp [List.findSome?, hset]

/-- **Nothing is lost, doubled or reordered.** -/
theorem Run.exists_flushed (h : Run apply m₀ ops s) :
    ∃ flushed, ops = flushed ++ s.buffer ∧ applyAll apply m₀ flushed = .ok s.mem := by
  induction h with
  | init => exact ⟨[], rfl, rfl⟩
  | issue op _ ih =>
    obtain ⟨flushed, rfl, hm⟩ := ih
    exact ⟨flushed, List.append_assoc _ _ _, hm⟩
  | @flush ops op m m' rest _ hop ih =>
    obtain ⟨flushed, rfl, hm⟩ := ih
    refine ⟨flushed ++ [op], by simp, ?_⟩
    rw [applyAll_append hm, applyAll, hop]
    rfl

/-- **An empty buffer means the store is up to date.** -/
theorem Run.drained (h : Run apply m₀ ops s) (hs : s.buffer = []) :
    applyAll apply m₀ ops = .ok s.mem := by
  obtain ⟨flushed, rfl, hm⟩ := h.exists_flushed
  rw [hs, List.append_nil]
  exact hm

/-- **What no operation in the buffer sets can be observed in the store**: it is what the last
    operation issued says, or else what it was at the start. -/
theorem Run.observe {ρ : Type} (h : Run apply m₀ ops s) (observe : σ → Option ρ)
    (sets : ω → Option ρ)
    (hstep : ∀ m op m', apply m op = .ok m' → observe m' = (sets op).or (observe m))
    (hpending : ∀ op ∈ s.buffer, sets op = none) :
    observe s.mem = (ops.reverse.findSome? sets).or (observe m₀) := by
  obtain ⟨flushed, rfl, hm⟩ := h.exists_flushed
  have hbuf : s.buffer.reverse.findSome? sets = none :=
    List.findSome?_eq_none_iff.mpr fun op hop => hpending op (List.mem_reverse.mp hop)
  rw [applyAll_observe observe sets hstep hm, List.reverse_append, List.findSome?_append, hbuf]
  rfl

end CSemantics.StoreBuffer
