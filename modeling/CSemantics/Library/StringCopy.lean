/-
  Copying bytes and strings: the functions of `string.c` that write.

  They go over memory byte by byte, each byte loaded before it is stored, so where the two regions
  overlap a loop reads what it has written.  What they return, their first argument, is left out.

      memcpy    forwards; where the source is ahead of the destination by k bytes it repeats the
                first k bytes of the source
      memmove   memcpy into memory from malloc, and from there
      strncpy   up to the terminator, then zeros
      strcat    the builtin strcpy, at the terminator of the first string
      strncat   writes the terminator of a short source twice

  `memcpy` does what `memmove` does exactly when nothing is repeated that was not repeated before.
-/
import Mathlib
import CSemantics.Library.StringSearch

namespace CSemantics.StringCopy

open StringSearch (CChar CString)

/-! ## Memory -/

/-- The objects by their numbers.  A number that is not in use is an object of no bytes. -/
@[ext] structure Mem (β : Type) where
  objects : ℕ → List β
  next : ℕ
  fresh : ∀ i, next ≤ i → objects i = []

@[ext] structure Pointer where
  obj : ℕ
  pos : ℕ
  deriving DecidableEq

def Pointer.plus (p : Pointer) (n : ℕ) : Pointer := ⟨p.obj, p.pos + n⟩

@[simp] theorem Pointer.plus_obj (p : Pointer) (n : ℕ) : (p.plus n).obj = p.obj := rfl
@[simp] theorem Pointer.plus_pos (p : Pointer) (n : ℕ) : (p.plus n).pos = p.pos + n := rfl
@[simp] theorem Pointer.plus_zero (p : Pointer) : p.plus 0 = p := rfl

theorem Pointer.plus_plus (p : Pointer) (n k : ℕ) : (p.plus n).plus k = p.plus (n + k) := by
  ext <;> simp [Nat.add_assoc]

namespace Mem

variable {β : Type}

def size (m : Mem β) (o : ℕ) : ℕ := (m.objects o).length

def load (m : Mem β) (p : Pointer) : Option β := (m.objects p.obj)[p.pos]?

def store (m : Mem β) (p : Pointer) (c : β) : Option (Mem β) :=
  if h : p.pos < m.size p.obj then
    some ⟨Function.update m.objects p.obj ((m.objects p.obj).set p.pos c), m.next, by
      intro i hi
      have hne : i ≠ p.obj := by
        rintro rfl
        simp [size, m.fresh _ hi] at h
      rw [Function.update_of_ne hne, m.fresh i hi]⟩
  else none

/-- `malloc`: the bytes are indeterminate.  Over the bound it gives a null pointer, which `memcpy` cannot
    write to. -/
def malloc (bound : ℕ) (indeterminate : β) (m : Mem β) (n : ℕ) : Option (Pointer × Mem β) :=
  if n ≤ bound then
    some (⟨m.next, 0⟩, ⟨Function.update m.objects m.next (List.replicate n indeterminate), m.next + 1, by
      intro i hi
      rw [Function.update_of_ne (by omega), m.fresh i (by omega)]⟩)
  else none

def free (m : Mem β) (p : Pointer) : Mem β where
  objects := Function.update m.objects p.obj []
  next := m.next
  fresh i hi := by
    by_cases h : i = p.obj
    · rw [h, Function.update_self]
    · rw [Function.update_of_ne h, m.fresh i hi]

/-! ## The functions -/

def memcpy (m : Mem β) (dest src : Pointer) : ℕ → Option (Mem β)
  | 0 => some m
  | count + 1 => do
    let c ← m.load src
    let m' ← m.store dest c
    m'.memcpy (dest.plus 1) (src.plus 1) count

def memmove (bound : ℕ) (indeterminate : β) (m : Mem β) (s1 s2 : Pointer) (n : ℕ) : Option (Mem β) := do
  let (tmp, m) ← malloc bound indeterminate m n
  let m ← m.memcpy tmp s2 n
  let m ← m.memcpy s1 tmp n
  return m.free tmp

/-! ## Loading and storing -/

theorem load_isSome {m : Mem β} {p : Pointer} : (m.load p).isSome ↔ p.pos < m.size p.obj := by
  rw [load, size, Option.isSome_iff_exists]
  constructor
  · rintro ⟨c, hc⟩
    exact (List.getElem?_eq_some_iff.1 hc).1
  · exact fun h => ⟨_, List.getElem?_eq_getElem h⟩

theorem store_eq_some {m : Mem β} {p : Pointer} {c : β} (h : p.pos < m.size p.obj) :
    ∃ m', m.store p c = some m' := by
  rw [store, dif_pos h]
  exact ⟨_, rfl⟩

theorem lt_of_store {m m' : Mem β} {p : Pointer} {c : β} (h : m.store p c = some m') :
    p.pos < m.size p.obj := by
  by_contra hlt
  rw [store, dif_neg hlt] at h
  cases h

theorem objects_store {m m' : Mem β} {p : Pointer} {c : β} (h : m.store p c = some m') :
    m'.objects = Function.update m.objects p.obj ((m.objects p.obj).set p.pos c) := by
  rw [store, dif_pos (lt_of_store h)] at h
  rw [← Option.some.inj h]

theorem next_store {m m' : Mem β} {p : Pointer} {c : β} (h : m.store p c = some m') : m'.next = m.next := by
  rw [store, dif_pos (lt_of_store h)] at h
  rw [← Option.some.inj h]

theorem size_store {m m' : Mem β} {p : Pointer} {c : β} (h : m.store p c = some m') (o : ℕ) :
    m'.size o = m.size o := by
  rw [size, size, objects_store h]
  by_cases ho : o = p.obj
  · rw [ho, Function.update_self, List.length_set]
  · rw [Function.update_of_ne ho]

theorem load_store {m m' : Mem β} {p : Pointer} {c : β} (h : m.store p c = some m') (q : Pointer) :
    m'.load q = if q = p then some c else m.load q := by
  have hlt : p.pos < (m.objects p.obj).length := lt_of_store h
  rw [load, load, objects_store h]
  by_cases ho : q.obj = p.obj
  · rw [ho, Function.update_self, List.getElem?_set]
    by_cases hp : p.pos = q.pos
    · rw [if_pos hp, if_pos hlt, if_pos (Pointer.ext ho hp.symm)]
    · rw [if_neg hp, if_neg fun heq => hp (congrArg Pointer.pos heq).symm]
  · rw [Function.update_of_ne ho, if_neg fun heq => ho (congrArg Pointer.obj heq)]

/-- Memory is what can be loaded from it. -/
theorem objects_ext {m m' : Mem β} (h : ∀ p, m.load p = m'.load p) : m.objects = m'.objects :=
  funext fun o => List.ext_getElem? fun i => h ⟨o, i⟩

/-! ## Copying bytes -/

/-- Bytes of one object, or none at all -/
def Holds (m : Mem β) (p : Pointer) (n : ℕ) : Prop := n = 0 ∨ p.pos + n ≤ m.size p.obj

/-- Where the byte that `memcpy` stores `i` bytes behind `d` was at first. -/
def origin (d s : Pointer) (i : ℕ) : Pointer :=
  s.plus (if s.obj = d.obj ∧ s.pos < d.pos then i % (d.pos - s.pos) else i)

/-- The bytes from `d` to `n` bytes behind it -/
def Within (d : Pointer) (n : ℕ) (p : Pointer) : Prop := p.obj = d.obj ∧ d.pos ≤ p.pos ∧ p.pos < d.pos + n

instance (d : Pointer) (n : ℕ) (p : Pointer) : Decidable (Within d n p) := inferInstanceAs (Decidable (_ ∧ _ ∧ _))

theorem origin_succ (d s : Pointer) (i : ℕ) :
    origin d s (i + 1) = if origin (d.plus 1) (s.plus 1) i = d then s else origin (d.plus 1) (s.plus 1) i := by
  by_cases hahead : s.obj = d.obj ∧ s.pos < d.pos
  · obtain ⟨o, d⟩ := d
    obtain ⟨o', s⟩ := s
    obtain ⟨hobj, hlt⟩ := hahead
    simp only at hobj hlt
    subst hobj
    obtain ⟨k, rfl⟩ : ∃ k, d = s + (k + 1) := ⟨d - s - 1, by omega⟩
    have hmod : i % (k + 1) < k + 1 := Nat.mod_lt _ (Nat.succ_pos k)
    have hsub : s + 1 + (k + 1) - (s + 1) = k + 1 := by omega
    have hsub' : s + (k + 1) - s = k + 1 := by omega
    have hpos : s + (k + 1) + 1 - (s + 1) = k + 1 := by omega
    simp only [origin, Pointer.plus, hpos, hsub', true_and, show s + 1 < s + (k + 1) + 1 by omega,
      show s < s + (k + 1) by omega, if_true, Pointer.mk.injEq]
    have hstep : (i + 1) % (k + 1) = if i % (k + 1) = k then 0 else i % (k + 1) + 1 := by
      conv_lhs => rw [← Nat.div_add_mod i (k + 1), Nat.add_assoc, Nat.mul_add_mod]
      by_cases hlast : i % (k + 1) = k
      · rw [if_pos hlast, hlast, Nat.mod_self]
      · rw [if_neg hlast, Nat.mod_eq_of_lt (by omega)]
    rw [hstep]
    by_cases hlast : i % (k + 1) = k
    · rw [if_pos hlast, if_pos (by omega)]
      rfl
    · rw [if_neg hlast, if_neg (by omega)]
      exact congrArg (Pointer.mk o') (by omega)
  · have horigin : origin d s (i + 1) = s.plus (i + 1) := by rw [origin, if_neg hahead]
    have horigin' : origin (d.plus 1) (s.plus 1) i = s.plus (i + 1) := by
      rw [origin, if_neg fun h => hahead ⟨h.1, Nat.lt_of_succ_lt_succ h.2⟩, Pointer.plus_plus, Nat.add_comm]
    rw [horigin, horigin', if_neg]
    rintro rfl
    exact hahead ⟨rfl, by simp only [Pointer.plus_pos]; omega⟩

/-- **The loop of `memcpy`**: what it stores, and that nothing else changes. -/
theorem memcpy_spec {n : ℕ} : ∀ {m : Mem β} {d s : Pointer}, Holds m d n → Holds m s n →
    ∃ m', m.memcpy d s n = some m' ∧ m'.next = m.next ∧ (∀ o, m'.size o = m.size o) ∧
      ∀ p, m'.load p = if Within d n p then m.load (origin d s (p.pos - d.pos)) else m.load p := by
  induction n with
  | zero =>
    intro m d s _ _
    refine ⟨m, rfl, rfl, fun _ => rfl, fun p => ?_⟩
    rw [if_neg]
    rintro ⟨-, h1, h2⟩
    omega
  | succ n ih =>
    intro m d s hd hs
    have hd : d.pos + (n + 1) ≤ m.size d.obj := hd.resolve_left (Nat.succ_ne_zero n)
    have hs : s.pos + (n + 1) ≤ m.size s.obj := hs.resolve_left (Nat.succ_ne_zero n)
    obtain ⟨c, hc⟩ := Option.isSome_iff_exists.1 (load_isSome.2 (show s.pos < m.size s.obj by omega))
    obtain ⟨m₁, hm₁⟩ := store_eq_some (c := c) (show d.pos < m.size d.obj by omega)
    have hsize := size_store hm₁
    obtain ⟨m', hm', hnext, hsize', hload⟩ := @ih m₁ (d.plus 1) (s.plus 1)
      (.inr (by simp only [Pointer.plus_obj, Pointer.plus_pos, hsize]; omega))
      (.inr (by simp only [Pointer.plus_obj, Pointer.plus_pos, hsize]; omega))
    refine ⟨m', ?_, hnext.trans (next_store hm₁), fun o => (hsize' o).trans (hsize o), fun p => ?_⟩
    · simp only [memcpy, hc, hm₁, Option.bind_eq_bind, Option.bind_some]
      exact hm'
    · rw [hload p]
      by_cases hp : Within (d.plus 1) n p
      · obtain ⟨hobj, hlo, hhi⟩ := hp
        simp only [Pointer.plus_obj, Pointer.plus_pos] at hobj hlo hhi
        obtain ⟨i, hi⟩ : ∃ i, p.pos = d.pos + (i + 1) := ⟨p.pos - d.pos - 1, by omega⟩
        rw [if_pos ⟨hobj, by simpa using hlo, by simp only [Pointer.plus_pos]; omega⟩,
          if_pos ⟨hobj, by omega, by omega⟩]
        rw [Pointer.plus_pos, show p.pos - (d.pos + 1) = i by omega, show p.pos - d.pos = i + 1 by omega, origin_succ,
          load_store hm₁]
        split
        · exact hc.symm
        · rfl
      · rw [if_neg hp, load_store hm₁]
        by_cases hpd : p = d
        · subst hpd
          rw [if_pos rfl, if_pos ⟨rfl, le_rfl, by omega⟩, Nat.sub_self]
          have horigin : origin p s 0 = s := by
            rw [origin]
            simp
          rw [horigin, hc]
        · rw [if_neg hpd, if_neg]
          rintro ⟨hobj, hlo, hhi⟩
          have hpos : p.pos ≠ d.pos := fun h => hpd (Pointer.ext hobj h)
          exact hp ⟨hobj, by simp only [Pointer.plus_pos]; omega, by simp only [Pointer.plus_pos]; omega⟩

theorem origin_of_not_ahead {d s : Pointer} (h : ¬ (s.obj = d.obj ∧ s.pos < d.pos)) (i : ℕ) :
    origin d s i = s.plus i := by
  rw [origin, if_neg h]

theorem load_of_fresh {m : Mem β} {p : Pointer} (h : m.next ≤ p.obj) : m.load p = none := by
  rw [load, m.fresh _ h, List.getElem?_nil]

theorem obj_ne_next {m : Mem β} {p : Pointer} {n : ℕ} (h : Holds m p n) (hn : n ≠ 0) : p.obj ≠ m.next := by
  intro heq
  have hsize := h.resolve_left hn
  rw [size, m.fresh _ heq.ge, List.length_nil] at hsize
  omega

theorem load_free (m : Mem β) (p q : Pointer) : (m.free p).load q = if q.obj = p.obj then none else m.load q := by
  show (Function.update m.objects p.obj [] q.obj)[q.pos]? = _
  rw [load]
  by_cases h : q.obj = p.obj
  · rw [if_pos h, h, Function.update_self, List.getElem?_nil]
  · rw [if_neg h, Function.update_of_ne h]

/-- `memmove` stores the bytes that the source had at first. -/
theorem memmove_spec {bound n : ℕ} {indeterminate : β} {m : Mem β} {d s : Pointer} (hn : n ≤ bound) (hd : Holds m d n)
    (hs : Holds m s n) :
    ∃ m', m.memmove bound indeterminate d s n = some m' ∧
      ∀ p, m'.load p = if Within d n p then m.load (s.plus (p.pos - d.pos)) else m.load p := by
  obtain ⟨tmp, m₁, hmalloc, htmp, hsize, hload₁⟩ : ∃ tmp m₁, malloc bound indeterminate m n = some (tmp, m₁) ∧
      tmp = ⟨m.next, 0⟩ ∧ (∀ o, m₁.size o = if o = m.next then n else m.size o) ∧
      ∀ p, p.obj ≠ m.next → m₁.load p = m.load p := by
    refine ⟨_, _, if_pos hn, rfl, fun o => ?_, fun p hp => ?_⟩
    · show (Function.update m.objects m.next (List.replicate n indeterminate) o).length = _
      by_cases ho : o = m.next
      · rw [if_pos ho, ho, Function.update_self, List.length_replicate]
      · rw [if_neg ho, Function.update_of_ne ho, size]
    · show (Function.update m.objects m.next (List.replicate n indeterminate) p.obj)[p.pos]? = _
      rw [Function.update_of_ne hp, load]
  have hkeeps : ∀ p, Holds m p n → Holds m₁ p n := by
    rintro p (h | h)
    · exact .inl h
    · refine .inr ?_
      rw [hsize]
      split
      · next ho =>
        rw [ho, size, m.fresh _ le_rfl, List.length_nil] at h
        omega
      · exact h
  have htmpHolds : Holds m₁ tmp n := .inr (by rw [hsize, htmp, if_pos rfl]; exact (Nat.zero_add n).le)
  obtain ⟨m₂, hm₂, -, hsize₂, hload₂⟩ := memcpy_spec htmpHolds (hkeeps s hs)
  have hd₂ : Holds m₂ d n := by
    rw [Holds, hsize₂]
    exact hkeeps d hd
  have htmp₂ : Holds m₂ tmp n := by
    rw [Holds, hsize₂]
    exact htmpHolds
  obtain ⟨m₃, hm₃, -, -, hload₃⟩ := memcpy_spec hd₂ htmp₂
  refine ⟨m₃.free tmp, ?_, fun p => ?_⟩
  · simp only [memmove, hmalloc, Option.bind_eq_bind, Option.bind_some, hm₂, hm₃]
    rfl
  · rw [load_free, htmp]
    by_cases hp : p.obj = m.next
    · have hout : ¬ Within d n p := fun h => obj_ne_next hd (by have := h.2; omega) (h.1.symm.trans hp)
      rw [if_pos hp, if_neg hout, load_of_fresh hp.ge]
    · rw [if_neg hp, hload₃]
      have hout : ∀ q : Pointer, q.obj ≠ m.next → ¬ Within tmp n q := fun q hq h =>
        hq (h.1.trans (congrArg Pointer.obj htmp))
      by_cases hin : Within d n p
      · have hn0 : n ≠ 0 := by
          have := hin.2
          omega
        have hne : tmp.obj ≠ d.obj := by
          rw [htmp]
          exact (obj_ne_next hd hn0).symm
        have hne' : s.obj ≠ tmp.obj := by
          rw [htmp]
          exact obj_ne_next hs hn0
        have hpos := hin.2
        rw [if_pos hin, if_pos hin, origin_of_not_ahead fun h => hne h.1, hload₂,
          if_pos ⟨rfl, by simp only [Pointer.plus_pos]; omega, by simp only [Pointer.plus_pos]; omega⟩,
          origin_of_not_ahead fun h => hne' h.1, hload₁ _ (by simpa [htmp] using hne'), htmp, Pointer.plus_pos]
        exact congrArg (fun i => m.load (s.plus i)) (by omega)
      · rw [if_neg hin, if_neg hin, hload₂, if_neg (hout p hp), hload₁ p hp]

/-- A function that repeats its first `k` values up to `n` has the period `k` there. -/
theorem mod_eq_iff_period {γ : Type} {f : ℕ → γ} {k n : ℕ} (hk : 0 < k) :
    (∀ i < n, f (i % k) = f i) ↔ ∀ i, i + k < n → f i = f (i + k) := by
  constructor
  · intro h i hi
    rw [← h i (by omega), ← h (i + k) hi, Nat.add_mod_right]
  · intro h i
    induction i using Nat.strong_induction_on with
    | _ i ih =>
      intro hi
      by_cases hlt : i < k
      · rw [Nat.mod_eq_of_lt hlt]
      · obtain ⟨j, rfl⟩ : ∃ j, i = j + k := ⟨i - k, by omega⟩
        rw [Nat.add_mod_right, ih j (by omega) (by omega)]
        exact h j hi

/-- The bytes from `s` on repeat after `k` of them. -/
def HasPeriod (m : Mem β) (s : Pointer) (k n : ℕ) : Prop :=
  ∀ i, i + k < n → m.load (s.plus i) = m.load (s.plus (i + k))

/-- Bytes, one behind the other -/
def storeAll (m : Mem β) (p : Pointer) : List β → Option (Mem β)
  | [] => some m
  | c :: cs => do
    let m' ← m.store p c
    m'.storeAll (p.plus 1) cs

theorem length_pos_of_load {m : Mem β} {p : Pointer} {c : β} (h : m.load p = some c) : p.pos < m.size p.obj :=
  load_isSome.1 (Option.isSome_iff_exists.2 ⟨c, h⟩)

/-- `strcpy`, which is a builtin. -/
def strcpy (m : Mem CChar) (dest src : Pointer) : Option (Mem CChar) :=
  match _hload : m.load src with
  | none => none
  | some c =>
    match _hstore : m.store dest c with
    | none => none
    | some m' => if c ≠ 0 then m'.strcpy (dest.plus 1) (src.plus 1) else some m'
termination_by m.size src.obj - src.pos
decreasing_by
  have := length_pos_of_load _hload
  rw [size_store _hstore, Pointer.plus_obj, Pointer.plus_pos]
  omega

/-- `while (*s != '\0') s++;` -/
def toEnd (m : Mem CChar) (s : Pointer) : Option Pointer :=
  match _hload : m.load s with
  | none => none
  | some c => if c ≠ 0 then m.toEnd (s.plus 1) else some s
termination_by m.size s.obj - s.pos
decreasing_by
  have := length_pos_of_load _hload
  rw [Pointer.plus_obj, Pointer.plus_pos]
  omega

def strcat (m : Mem CChar) (s1 s2 : Pointer) : Option (Mem CChar) := do
  let s ← m.toEnd s1
  m.strcpy s s2

def strncatLoop (m : Mem CChar) (s s2 : Pointer) : ℕ → Option (Mem CChar)
  | 0 => m.store s 0
  | n + 1 => do
    let c ← m.load s2
    let m' ← m.store s c
    if c ≠ 0 then m'.strncatLoop (s.plus 1) (s2.plus 1) n else m'.store s 0

def strncat (m : Mem CChar) (s1 s2 : Pointer) (n : ℕ) : Option (Mem CChar) := do
  let s ← m.toEnd s1
  m.strncatLoop s s2 n

/-- The second loop of `strncpy` -/
def zeros (m : Mem CChar) (dest : Pointer) : ℕ → Option (Mem CChar)
  | 0 => some m
  | n + 1 => do
    let m' ← m.store dest 0
    m'.zeros (dest.plus 1) n

def strncpy (m : Mem CChar) (dest src : Pointer) : ℕ → Option (Mem CChar)
  | 0 => some m
  | n + 1 => do
    let c ← m.load src
    let m' ← m.store dest c
    if c ≠ 0 then m'.strncpy (dest.plus 1) (src.plus 1) n else m'.zeros (dest.plus 1) n

/-! ### One write -/

/-- Bytes that memory holds from a pointer on -/
def Reads (m : Mem β) (p : Pointer) : List β → Prop
  | [] => True
  | c :: cs => m.load p = some c ∧ m.Reads (p.plus 1) cs

/-- A null-terminated string -/
structure IsString (m : Mem CChar) (p : Pointer) (l : List CChar) : Prop where
  nonzero : 0 ∉ l
  reads : m.Reads p (l ++ [0])

/-- Two regions of which no byte is the same -/
def Apart (p : Pointer) (n : ℕ) (q : Pointer) (k : ℕ) : Prop := ∀ r, Within p n r → ¬ Within q k r

theorem reads_iff {m : Mem β} {l : List β} : ∀ {p : Pointer},
    m.Reads p l ↔ ∀ i < l.length, m.load (p.plus i) = l[i]? := by
  induction l with
  | nil => exact fun {p} => ⟨fun _ i hi => absurd hi (Nat.not_lt_zero i), fun _ => trivial⟩
  | cons c l ih =>
    intro p
    rw [Reads, ih]
    constructor
    · rintro ⟨hc, hl⟩ i hi
      cases i with
      | zero => exact hc
      | succ i =>
        rw [List.getElem?_cons_succ, ← hl i (Nat.lt_of_succ_lt_succ hi), Pointer.plus_plus, Nat.add_comm]
    · intro h
      refine ⟨h 0 (Nat.succ_pos _), fun i hi => ?_⟩
      rw [Pointer.plus_plus, Nat.add_comm, h (i + 1) (Nat.succ_lt_succ hi), List.getElem?_cons_succ]

theorem Reads.store {m m' : Mem β} {p q : Pointer} {c : β} {l : List β} (h : m.Reads p l) (hm : m.store q c = some m')
    (hq : ¬ Within p l.length q) : m'.Reads p l := by
  rw [reads_iff] at h ⊢
  intro i hi
  rw [load_store hm, if_neg, h i hi]
  rintro rfl
  exact hq ⟨rfl, by simp only [Pointer.plus_pos]; omega, by simp only [Pointer.plus_pos]; omega⟩

/-- What is behind the first bytes of two regions is apart. -/
theorem Apart.tail {p q : Pointer} {n k : ℕ} (h : Apart p (n + 1) q (k + 1)) : Apart (p.plus 1) n (q.plus 1) k := by
  rintro r ⟨hobj, hlo, hhi⟩ ⟨hobj', hlo', hhi'⟩
  simp only [Pointer.plus_obj, Pointer.plus_pos] at *
  exact h r ⟨hobj, by omega, by omega⟩ ⟨hobj', by omega, by omega⟩

theorem Apart.head {p q : Pointer} {n k : ℕ} (h : Apart p (n + 1) q (k + 1)) : ¬ Within (q.plus 1) k p := by
  rintro ⟨hobj, hlo, hhi⟩
  simp only [Pointer.plus_obj, Pointer.plus_pos] at *
  exact h p ⟨rfl, le_rfl, by omega⟩ ⟨hobj, by omega, by omega⟩

theorem store_twice {m m' : Mem β} {p : Pointer} {c : β} (h : m.store p c = some m') : m'.store p c = some m' := by
  obtain ⟨m'', hm''⟩ := store_eq_some (m := m') (c := c) (show p.pos < m'.size p.obj by
    rw [size_store h]
    exact lt_of_store h)
  rw [hm'']
  refine congrArg some (Mem.ext (objects_ext fun q => ?_) (next_store hm''))
  rw [load_store hm'', load_store h]
  split <;> rfl

theorem toEnd_eq {m : Mem CChar} {a : List CChar} : ∀ {p : Pointer}, m.IsString p a →
    m.toEnd p = some (p.plus a.length) := by
  induction a with
  | nil =>
    intro p h
    have hload : m.load p = some 0 := h.reads.1
    rw [toEnd]
    split
    · next hnone => cases hload.symm.trans hnone
    · next c hc =>
      obtain rfl := Option.some.inj (hload.symm.trans hc)
      rw [if_neg (not_not.2 rfl)]
      rfl
  | cons x a ih =>
    intro p h
    have hload : m.load p = some x := h.reads.1
    have hx : x ≠ 0 := fun h0 => h.nonzero (h0 ▸ List.mem_cons_self)
    rw [toEnd]
    split
    · next hnone => cases hload.symm.trans hnone
    · next c hc =>
      obtain rfl := Option.some.inj (hload.symm.trans hc)
      rw [if_pos hx, ih ⟨fun h0 => h.nonzero (List.mem_cons_of_mem _ h0), h.reads.2⟩, Pointer.plus_plus, Nat.add_comm]
      rfl

theorem strcpy_eq {b : List CChar} : ∀ {m : Mem CChar} {d s : Pointer}, m.IsString s b →
    Apart d (b.length + 1) s (b.length + 1) → m.strcpy d s = m.storeAll d (b ++ [0]) := by
  induction b with
  | nil =>
    intro m d s h _
    have hload : m.load s = some 0 := h.reads.1
    rw [strcpy, List.nil_append, storeAll]
    split
    · next hnone => cases hload.symm.trans hnone
    · next c hc =>
      obtain rfl := Option.some.inj (hload.symm.trans hc)
      split
      · next hm => rw [hm]; rfl
      · next m' hm =>
        rw [hm, if_neg (not_not.2 rfl)]
        rfl
  | cons x b ih =>
    intro m d s h hapart
    have hload : m.load s = some x := h.reads.1
    have hx : x ≠ 0 := fun h0 => h.nonzero (h0 ▸ List.mem_cons_self)
    rw [strcpy, List.cons_append, storeAll]
    split
    · next hnone => cases hload.symm.trans hnone
    · next c hc =>
      obtain rfl := Option.some.inj (hload.symm.trans hc)
      split
      · next hm => rw [hm]; rfl
      · next m' hm =>
        rw [hm, if_pos hx, Option.bind_eq_bind, Option.bind_some]
        refine ih ⟨fun h0 => h.nonzero (List.mem_cons_of_mem _ h0), ?_⟩ hapart.tail
        exact Reads.store h.reads.2 hm (by rw [List.length_append]; exact hapart.head)

theorem storeAll_singleton (m : Mem β) (p : Pointer) (c : β) : m.storeAll p [c] = m.store p c := by
  rw [storeAll]
  cases m.store p c <;> rfl

theorem strncatLoop_eq {n : ℕ} : ∀ {b : List CChar} {m : Mem CChar} {d s : Pointer}, m.IsString s b →
    Apart d ((b.take n).length + 1) s (b.length + 1) → m.strncatLoop d s n = m.storeAll d (b.take n ++ [0]) := by
  induction n with
  | zero =>
    intro b m d s _ _
    rw [strncatLoop, List.take_zero, List.nil_append, storeAll_singleton]
  | succ n ih =>
    intro b m d s h hapart
    cases b with
    | nil =>
      have hload : m.load s = some 0 := h.reads.1
      rw [strncatLoop, hload, List.take_nil, List.nil_append, storeAll_singleton]
      cases hm : m.store d 0 with
      | none => simp only [Option.bind_eq_bind, Option.bind_some, hm, Option.bind_none]
      | some m' =>
        simp only [Option.bind_eq_bind, Option.bind_some, hm, ne_eq, not_true_eq_false, if_false, store_twice hm]
    | cons x b =>
      have hload : m.load s = some x := h.reads.1
      have hx : x ≠ 0 := fun h0 => h.nonzero (h0 ▸ List.mem_cons_self)
      rw [strncatLoop, hload, List.take_succ_cons, List.cons_append, storeAll]
      cases hm : m.store d x with
      | none => simp [hm]
      | some m' =>
        simp only [Option.bind_eq_bind, Option.bind_some, hm, if_pos hx]
        refine ih ⟨fun h0 => h.nonzero (List.mem_cons_of_mem _ h0), ?_⟩ hapart.tail
        exact Reads.store h.reads.2 hm (by rw [List.length_append]; exact hapart.head)

theorem zeros_eq {n : ℕ} : ∀ {m : Mem CChar} {d : Pointer}, m.zeros d n = m.storeAll d (List.replicate n 0) := by
  induction n with
  | zero => exact rfl
  | succ n ih =>
    intro m d
    rw [zeros, List.replicate_succ, storeAll]
    exact bind_congr fun m' => ih

theorem strncpy_eq {n : ℕ} : ∀ {b : List CChar} {m : Mem CChar} {d s : Pointer}, m.IsString s b →
    Apart d n s (b.length + 1) →
    m.strncpy d s n = m.storeAll d (b.take n ++ List.replicate (n - b.length) 0) := by
  induction n with
  | zero =>
    intro b m d s _ _
    rw [strncpy, List.take_zero, Nat.zero_sub]
    rfl
  | succ n ih =>
    intro b m d s h hapart
    cases b with
    | nil =>
      have hload : m.load s = some 0 := h.reads.1
      rw [strncpy, hload, List.take_nil, List.nil_append, List.length_nil, Nat.sub_zero, List.replicate_succ, storeAll]
      simp only [Option.bind_eq_bind, Option.bind_some, ne_eq, not_true_eq_false, if_false, zeros_eq]
    | cons x b =>
      have hload : m.load s = some x := h.reads.1
      have hx : x ≠ 0 := fun h0 => h.nonzero (h0 ▸ List.mem_cons_self)
      rw [strncpy, hload, List.take_succ_cons, List.cons_append, storeAll, List.length_cons, Nat.succ_sub_succ]
      cases hm : m.store d x with
      | none => simp [hm]
      | some m' =>
        simp only [Option.bind_eq_bind, Option.bind_some, hm, if_pos hx]
        refine ih ⟨fun h0 => h.nonzero (List.mem_cons_of_mem _ h0), ?_⟩ hapart.tail
        exact Reads.store h.reads.2 hm (by rw [List.length_append]; exact hapart.head)

/-- What such a write does to memory, and when it can be done. -/
theorem storeAll_spec {l : List β} : ∀ {m : Mem β} {p : Pointer},
    ((m.storeAll p l).isSome ↔ Holds m p l.length) ∧
      ∀ m', m.storeAll p l = some m' →
        ∀ q, m'.load q = if Within p l.length q then l[q.pos - p.pos]? else m.load q := by
  induction l with
  | nil =>
    intro m p
    refine ⟨⟨fun _ => .inl rfl, fun _ => rfl⟩, fun m' hm' q => ?_⟩
    rw [← Option.some.inj hm', if_neg]
    rintro ⟨-, hlo, hhi⟩
    rw [List.length_nil] at hhi
    omega
  | cons c l ih =>
    intro m p
    rw [storeAll]
    cases hm : m.store p c with
    | none =>
      refine ⟨⟨fun h => (by cases h), fun h => ?_⟩, fun m' hm' => (by cases hm')⟩
      have hlt := h.resolve_left (Nat.succ_ne_zero _)
      rw [List.length_cons] at hlt
      obtain ⟨m', hm'⟩ := store_eq_some (m := m) (c := c) (show p.pos < m.size p.obj by omega)
      rw [hm] at hm'
      cases hm'
    | some m₁ =>
      obtain ⟨hsome, hload⟩ := @ih m₁ (p.plus 1)
      refine ⟨hsome.trans ?_, fun m' hm' q => ?_⟩
      · have hlt := lt_of_store hm
        simp only [Holds, size_store hm, Pointer.plus_obj, Pointer.plus_pos, List.length_cons]
        omega
      · rw [hload m' hm' q]
        by_cases hq : q = p
        · subst hq
          rw [if_neg, load_store hm, if_pos rfl, if_pos ⟨rfl, le_rfl, by rw [List.length_cons]; omega⟩, Nat.sub_self]
          · rfl
          · rintro ⟨-, hlo, -⟩
            simp only [Pointer.plus_pos] at hlo
            omega
        · have hwithin : Within (p.plus 1) l.length q ↔ Within p (c :: l).length q := by
            simp only [Within, Pointer.plus_obj, Pointer.plus_pos, List.length_cons]
            constructor
            · rintro ⟨hobj, hlo, hhi⟩
              exact ⟨hobj, by omega, by omega⟩
            · rintro ⟨hobj, hlo, hhi⟩
              have hpos : q.pos ≠ p.pos := fun h => hq (Pointer.ext hobj h)
              exact ⟨hobj, by omega, by omega⟩
          rw [load_store hm, if_neg hq]
          by_cases hin : Within p (c :: l).length q
          · have hlo := (hwithin.2 hin).2.1
            rw [if_pos (hwithin.2 hin), if_pos hin, Pointer.plus_pos]
            rw [Pointer.plus_pos] at hlo
            rw [show q.pos - p.pos = q.pos - (p.pos + 1) + 1 by omega, List.getElem?_cons_succ]
          · rw [if_neg fun h => hin (hwithin.1 h), if_neg hin]

/-- **The functions that append and pad are one write each**, of as many bytes of the second string as they may
    take and the zeros they owe; `strncat` leaves the string that it promises. -/
theorem string_writes {m : Mem CChar} {d s : Pointer} {a b : List CChar} (n : ℕ) (ha : m.IsString d a)
    (hb : m.IsString s b) (hapart : Apart d (a.length + max n b.length + 1) s (b.length + 1)) :
    m.strcat d s = m.storeAll (d.plus a.length) (b ++ [0]) ∧
      m.strncat d s n = m.storeAll (d.plus a.length) (b.take n ++ [0]) ∧
      m.strncpy d s n = m.storeAll d (b.take n ++ List.replicate (n - b.length) 0) ∧
      ((m.strncat d s n).isSome ↔ d.pos + (a.length + min n b.length) < m.size d.obj) ∧
      ∀ m', m.strncat d s n = some m' → m'.IsString d (a ++ b.take n) := by
  have hwithin : ∀ {p : Pointer} {k : ℕ}, d.obj = p.obj → d.pos ≤ p.pos →
      p.pos + k ≤ d.pos + (a.length + max n b.length + 1) → Apart p k s (b.length + 1) := by
    rintro p k hobj hlo hhi r ⟨hr, hr1, hr2⟩
    exact hapart r ⟨hr.trans hobj.symm, by omega, by omega⟩
  have hlen : (b.take n).length = min n b.length := List.length_take
  have hcat : m.strncat d s n = m.storeAll (d.plus a.length) (b.take n ++ [0]) := by
    rw [strncat, toEnd_eq ha, Option.bind_eq_bind, Option.bind_some]
    exact strncatLoop_eq hb (hwithin rfl (by simp) (by simp only [Pointer.plus_pos, hlen]; omega))
  refine ⟨?_, hcat, strncpy_eq hb (hwithin rfl le_rfl (by omega)), ?_, fun m' hm' => ⟨?_, ?_⟩⟩
  · rw [strcat, toEnd_eq ha, Option.bind_eq_bind, Option.bind_some]
    exact strcpy_eq hb (hwithin rfl (by simp) (by simp only [Pointer.plus_pos]; omega))
  · rw [hcat, storeAll_spec.1, Holds, List.length_append, hlen, Pointer.plus_pos, Pointer.plus_obj,
      List.length_singleton]
    omega
  · exact fun h0 => (List.mem_append.1 h0).elim ha.nonzero fun h => hb.nonzero (List.mem_of_mem_take h)
  · have hload := storeAll_spec.2 m' (hcat.symm.trans hm')
    rw [reads_iff]
    intro i hi
    rw [List.append_assoc] at hi ⊢
    rw [hload]
    by_cases hia : i < a.length
    · rw [if_neg, List.getElem?_append_left hia]
      · have hread := reads_iff.1 ha.reads i (by rw [List.length_append]; omega)
        rw [hread, List.getElem?_append_left hia]
      · rintro ⟨-, hlo, -⟩
        simp only [Pointer.plus_pos] at hlo
        omega
    · rw [List.length_append] at hi
      rw [if_pos ⟨rfl, by simp only [Pointer.plus_pos]; omega, by simp only [Pointer.plus_pos]; omega⟩,
        List.getElem?_append_right (Nat.not_lt.1 hia)]
      have hindex : (d.plus i).pos - (d.plus a.length).pos = i - a.length := by
        simp only [Pointer.plus_pos]
        omega
      rw [hindex]

end Mem

/-! ## Examples -/

/-- An object of three bytes -/
def threeBytes : Mem ℕ where
  objects o := if o = 0 then [1, 2, 3] else []
  next := 1
  fresh o ho := if_neg (by omega)

/-- `"a"`, with room for two more, and `"bc"` -/
def twoStrings : Mem CChar where
  objects o := if o = 0 then [97, 0, 1, 1] else if o = 1 then [98, 99, 0] else []
  next := 2
  fresh o ho := by rw [if_neg (by omega), if_neg (by omega)]

theorem strncat_one : (twoStrings.strncat ⟨0, 0⟩ ⟨1, 0⟩ 1).isSome := by
  have ha : twoStrings.IsString ⟨0, 0⟩ [97] := ⟨by decide, rfl, rfl, trivial⟩
  have hb : twoStrings.IsString ⟨1, 0⟩ [98, 99] := ⟨by decide, rfl, rfl, rfl, trivial⟩
  have hapart : Mem.Apart ⟨0, 0⟩ 4 ⟨1, 0⟩ 3 := by
    rintro r ⟨hr, -⟩ ⟨hr', -⟩
    exact absurd (hr.symm.trans hr') (by decide)
  exact (Mem.string_writes 1 ha hb hapart).2.2.2.1.2 (by decide)

end CSemantics.StringCopy
