/-
  Searching in strings: `string.c` of the profile's library.

  A pointer is the part of its object from where it points on, and what is found is a position in it.
  A function that reads past the end of an object has no result.

      strchr    stops at `(char)c`, and then compares the character with `c` itself
      strrchr   strchr again and again, behind what it found
      strstr    strchr for the first character of the needle, strncmp there
      strtok_r  strspn over the delimiters, strcspn to the next one, which is overwritten

  For a `c` that is no value of `char` the two comparisons of `strchr` differ, and it finds nothing.
  The others pass on characters.
-/
import Mathlib.Data.List.TakeWhile
import Mathlib.Data.List.TakeDrop

namespace CSemantics.StringSearch

/-! ## Strings -/

/-- A `char`, which is signed: its value is `toInt`. -/
abbrev CChar := BitVec 8

/-- `(char)c` -/
def toChar (c : Int) : CChar := .ofInt 8 c

/-- A null-terminated string, and what is behind it in its object. -/
structure CString where
  chars : List CChar
  rest : List CChar
  nonzero : 0 ∉ chars

def CString.object (s : CString) : List CChar := s.chars ++ 0 :: s.rest

/-! ## The functions -/

def strlen : List CChar → Option ℕ
  | [] => none
  | x :: xs => if x = 0 then some 0 else (strlen xs).map (· + 1)

def strchr (c : Int) : List CChar → Option (Option ℕ)
  | [] => none
  | x :: xs =>
    if x ≠ 0 ∧ x ≠ toChar c then (strchr c xs).map (·.map (· + 1))
    else some (if x.toInt = c then some 0 else none)

/-- What is found is inside of the object. -/
theorem lt_length_of_strchr {c : Int} {s : List CChar} {i : ℕ} (h : strchr c s = some (some i)) :
    i < s.length := by
  induction s generalizing i with
  | nil => exact absurd h (by simp [strchr])
  | cons x xs ih =>
    rw [strchr] at h
    split at h
    · obtain ⟨r, hr, hi⟩ := Option.map_eq_some_iff.1 h
      obtain ⟨j, rfl, rfl⟩ := Option.map_eq_some_iff.1 hi
      exact Nat.succ_lt_succ (ih hr)
    · split at h
      · obtain rfl : 0 = i := Option.some.inj (Option.some.inj h)
        exact Nat.succ_pos _
      · exact absurd h (by simp)

/-- `k` is where `s` is by now. -/
def strrchrLoop (c : Int) (s : List CChar) (k : ℕ) (last : Option ℕ) : Option (Option ℕ) :=
  match _h : strchr c s with
  | none => none
  | some none => some last
  | some (some i) => strrchrLoop c (s.drop (i + 1)) (k + (i + 1)) (some (k + i))
termination_by s.length
decreasing_by
  have := lt_length_of_strchr _h
  rw [List.length_drop]
  omega

def strrchr (c : Int) (s : List CChar) : Option (Option ℕ) :=
  if c = 0 then strchr c s else strrchrLoop c s 0 none

/-- The result of `strncmp` where two characters differ. -/
def compareUnsigned (x y : CChar) : Int :=
  if x.toNat < y.toNat then -1 else if x.toNat > y.toNat then 1 else 0

def strncmpLoop : ℕ → List CChar → List CChar → Option Int
  | 0, x :: _, y :: _ => some (compareUnsigned x y)
  | n + 1, x :: xs, y :: ys =>
    if x = y then (if n = 0 ∨ x = 0 then some 0 else strncmpLoop n xs ys) else some (compareUnsigned x y)
  | _, _, _ => none

def strncmp (s1 s2 : List CChar) (n : ℕ) : Option Int := if n = 0 then some 0 else strncmpLoop n s1 s2

def strstrLoop (needle : List CChar) (c : CChar) (needlelen : ℕ) (haystack : List CChar) :
    Option (Option ℕ) :=
  match _h : strchr c.toInt haystack with
  | none => none
  | some none => some none
  | some (some i) =>
    match strncmp (haystack.drop i) needle needlelen with
    | none => none
    | some r =>
      if r = 0 then some (some i)
      else (strstrLoop needle c needlelen (haystack.drop (i + 1))).map (·.map ((i + 1) + ·))
termination_by haystack.length
decreasing_by
  have := lt_length_of_strchr _h
  rw [List.length_drop]
  omega

def strstr (haystack needle : List CChar) : Option (Option ℕ) :=
  match needle with
  | [] => none
  | c :: _ => if c = 0 then some (some 0) else (strlen needle).bind fun n => strstrLoop needle c n haystack

def strspn : List CChar → List CChar → Option ℕ
  | [], _ => none
  | x :: xs, s2 =>
    if x = 0 then some 0
    else (strchr x.toInt s2).bind fun r => if r = none then some 0 else (strspn xs s2).map (· + 1)

def strcspn : List CChar → List CChar → Option ℕ
  | [], _ => none
  | x :: xs, s2 =>
    if x = 0 then some 0
    else (strchr x.toInt s2).bind fun r => if r ≠ none then some 0 else (strcspn xs s2).map (· + 1)

/-- A pointer of `strtok_r`: into the object that is split, or to the literal `""`. -/
inductive Ptr
  | buf (p : ℕ)
  | empty
  deriving DecidableEq, Repr

def Ptr.load (m : List CChar) : Ptr → List CChar
  | buf p => m.drop p
  | empty => [0]

def Ptr.plus : Ptr → ℕ → Ptr
  | buf p, n => buf (p + n)
  | empty, _ => empty

/-- A literal cannot be written to. -/
def Ptr.store (m : List CChar) (c : CChar) : Ptr → Option (List CChar)
  | buf p => some (m.set p c)
  | empty => none

/-- What is returned, the object and `*lasts`. -/
def strtokR (m : List CChar) (s : Option Ptr) (delimiters : List CChar) (lasts : Ptr) :
    Option (Option Ptr × List CChar × Ptr) := do
  let sbegin := s.getD lasts
  let n ← strspn (sbegin.load m) delimiters
  let sbegin := sbegin.plus n
  let c ← (sbegin.load m).head?
  if c = 0 then return (none, m, .empty)
  let k ← strcspn (sbegin.load m) delimiters
  let send := sbegin.plus k
  let d ← (send.load m).head?
  if d = 0 then return (some sbegin, m, send)
  let m' ← send.store m 0
  return (some sbegin, m', send.plus 1)

/-- The string that a pointer points to. -/
def Ptr.string (m : List CChar) (p : Ptr) : List CChar := (p.load m).takeWhile (· ≠ 0)

/-- One call after the other, each with its own delimiters; only the first one passes a string.  What a
    call returns is read right after it. -/
def strtokCalls (m : List CChar) (s : Option Ptr) (lasts : Ptr) :
    List (List CChar) → Option (List (Option (Ptr × List CChar)))
  | [] => some []
  | d :: ds => do
    let (r, m', lasts') ← strtokR m s d lasts
    let rs ← strtokCalls m' none lasts' ds
    return r.map (fun p => (p, p.string m')) :: rs

/-! ## What they are for -/

/-- The first place where something holds. -/
def FirstAt (P : ℕ → Prop) : Option ℕ → Prop
  | none => ∀ i, ¬ P i
  | some i => P i ∧ ∀ j < i, ¬ P j

/-- The last place where something holds. -/
def LastAt (P : ℕ → Prop) : Option ℕ → Prop
  | none => ∀ i, ¬ P i
  | some i => P i ∧ ∀ j, i < j → ¬ P j

/-- The terminator is part of the string. -/
def CharAt (s : CString) (c : CChar) (i : ℕ) : Prop := (s.chars ++ [0])[i]? = some c

def OccursAt (s needle : CString) (i : ℕ) : Prop := i ≤ s.chars.length ∧ needle.chars <+: s.chars.drop i

/-- The next maximal run without delimiters, of the string `s` from `pos` on, and where to go on. -/
inductive NextToken (s : List CChar) (pos : ℕ) (d : List CChar) : Option (Ptr × List CChar) → ℕ → Prop
  | none : (∀ c ∈ s.drop pos, c ∈ d) → NextToken s pos d none s.length
  | some {skip token after : List CChar} : s.drop pos = skip ++ token ++ after →
      (∀ c ∈ skip, c ∈ d) → token ≠ [] → (∀ c ∈ token, c ∉ d) → (∀ c ∈ after.head?, c ∈ d) →
      NextToken s pos d (some (.buf (pos + skip.length), token)) (s.length - after.tail.length)

inductive Tokens (s : List CChar) : ℕ → List CString → List (Option (Ptr × List CChar)) → Prop
  | nil (pos : ℕ) : Tokens s pos [] []
  | cons {pos pos' : ℕ} {d : CString} {ds : List CString} {r : Option (Ptr × List CChar)}
      {rs : List (Option (Ptr × List CChar))} : NextToken s pos d.chars r pos' → Tokens s pos' ds rs →
      Tokens s pos (d :: ds) (r :: rs)

/-- `c` is a value of `char`. -/
def IsChar (c : Int) : Prop := (toChar c).toInt = c

/-! ## strchr -/

theorem FirstAt.shift {P : ℕ → Prop} {k : ℕ} {r : Option ℕ} (hk : ∀ j < k, ¬ P j)
    (h : FirstAt (fun j => P (k + j)) r) : FirstAt P (r.map (k + ·)) := by
  have hge : ∀ j, k ≤ j → ∃ i, j = k + i := fun j hj => ⟨j - k, by omega⟩
  cases r with
  | none =>
    intro j hj
    rcases Nat.lt_or_ge j k with hlt | hle
    · exact hk j hlt hj
    · obtain ⟨i, rfl⟩ := hge j hle
      exact h i hj
  | some i =>
    refine ⟨h.1, fun j hj => ?_⟩
    rcases Nat.lt_or_ge j k with hlt | hle
    · exact hk j hlt
    · obtain ⟨i', rfl⟩ := hge j hle
      have hlt : k + i' < k + i := hj
      exact h.2 i' (by omega)

theorem toChar_toInt (x : CChar) : toChar x.toInt = x := BitVec.ofInt_toInt

theorem isChar_toInt (x : CChar) : IsChar x.toInt := by
  rw [IsChar, toChar_toInt]

variable {s rest : List CChar} {c : Int}

theorem nonzero_cons {x : CChar} (hs : 0 ∉ x :: s) : x ≠ 0 ∧ 0 ∉ s :=
  ⟨fun h => hs (h ▸ List.mem_cons_self), fun h => hs (List.mem_cons_of_mem _ h)⟩

/-- A value of `char` is found. -/
theorem strchr_isChar (hc : IsChar c) (hs : 0 ∉ s) (rest : List CChar) :
    ∃ r, strchr c (s ++ 0 :: rest) = some r ∧ FirstAt (fun i => (s ++ [0])[i]? = some (toChar c)) r := by
  induction s with
  | nil =>
    rw [List.nil_append, strchr, if_neg (by simp)]
    refine ⟨_, rfl, ?_⟩
    by_cases hz : (0 : CChar).toInt = c
    · rw [if_pos hz]
      refine ⟨?_, fun j hj => absurd hj (Nat.not_lt_zero j)⟩
      rw [← hz, toChar_toInt]
      rfl
    · rw [if_neg hz]
      intro i hi
      match i, hi with
      | 0, hi =>
        have h0 : (0 : CChar) = toChar c := Option.some.inj hi
        exact hz (h0 ▸ hc)
  | cons x s ih =>
    obtain ⟨hx, hs⟩ := nonzero_cons hs
    by_cases hxc : x = toChar c
    · rw [List.cons_append, strchr, if_neg fun h => h.2 hxc, hxc]
      refine ⟨_, rfl, ?_⟩
      have hint : (toChar c).toInt = c := hc
      rw [if_pos hint]
      exact ⟨rfl, fun j hj => absurd hj (Nat.not_lt_zero j)⟩
    · obtain ⟨r, hr, hfirst⟩ := ih hs
      rw [List.cons_append, strchr, if_pos ⟨hx, hxc⟩, hr]
      refine ⟨_, rfl, ?_⟩
      have hshift := FirstAt.shift (P := fun i => (x :: s ++ [0])[i]? = some (toChar c)) (k := 1) (r := r) ?_ ?_
      · simpa [Nat.add_comm] using hshift
      · intro j hj
        obtain rfl : j = 0 := by omega
        intro h
        exact hxc (Option.some.inj h)
      · simpa [Nat.add_comm] using hfirst

/-- **No value of `char`.**  The loop may stop before the terminator, but nothing is found. -/
theorem strchr_not_isChar (hc : ¬ IsChar c) (hs : 0 ∉ s) (rest : List CChar) :
    strchr c (s ++ 0 :: rest) = some none := by
  have hne : ∀ x : CChar, x.toInt ≠ c := by
    rintro x rfl
    exact hc (isChar_toInt x)
  induction s with
  | nil => rw [List.nil_append, strchr, if_neg (by simp), if_neg (hne 0)]
  | cons x s ih =>
    obtain ⟨hx, hs⟩ := nonzero_cons hs
    rw [List.cons_append, strchr]
    split
    · rw [ih hs]
      rfl
    · rw [if_neg (hne x)]

/-- Where the character is. -/
theorem split_at_char {i : ℕ} {x : CChar} (h : (s ++ [0])[i]? = some x) (hx : x ≠ 0) :
    i < s.length ∧ s.drop i = x :: s.drop (i + 1) := by
  have hi : i < s.length := by
    by_contra hge
    rw [List.getElem?_append_right (by omega)] at h
    have hmem := List.mem_of_getElem? h
    exact hx (List.mem_singleton.1 hmem)
  rw [List.getElem?_append_left hi] at h
  refine ⟨hi, ?_⟩
  rw [List.drop_eq_getElem_cons hi]
  rw [List.getElem?_eq_getElem hi] at h
  rw [Option.some.inj h]

theorem drop_object {k : ℕ} (hk : k ≤ s.length) (rest : List CChar) :
    (s ++ 0 :: rest).drop k = s.drop k ++ 0 :: rest := List.drop_append_of_le_length hk

theorem not_mem_drop (hs : (0 : CChar) ∉ s) (k : ℕ) : 0 ∉ s.drop k := fun h => hs (List.mem_of_mem_drop h)

/-! ## strrchr -/

theorem LastAt.of_found {P : ℕ → Prop} {k : ℕ} {r : Option ℕ} (hk : P k) (hr : LastAt (fun j => P (k + 1 + j)) r) :
    LastAt P (some ((r.map (k + 1 + ·)).getD k)) := by
  have hge : ∀ j, k < j → ∃ i, j = k + 1 + i := fun j hj => ⟨j - (k + 1), by omega⟩
  match r, hr with
  | none, hr =>
    refine ⟨hk, fun j hj => ?_⟩
    obtain ⟨i, rfl⟩ := hge j hj
    exact hr i
  | some i, hr =>
    refine ⟨hr.1, fun j hj => ?_⟩
    have hj' : k + 1 + i < j := hj
    obtain ⟨i', rfl⟩ := hge j (by omega)
    exact hr.2 i' (by omega)

/-- **The loop of strrchr.**  By the length of what is left. -/
theorem strrchrLoop_isChar (hc : IsChar c) (hc0 : toChar c ≠ 0) (rest : List CChar) : ∀ n (s : List CChar),
    s.length ≤ n → 0 ∉ s → ∀ k last, ∃ r, LastAt (fun i => (s ++ [0])[i]? = some (toChar c)) r ∧
      strrchrLoop c (s ++ 0 :: rest) k last = some ((r.map (k + ·)).or last) := by
  intro n
  induction n with
  | zero =>
    intro s hlen hs k last
    obtain rfl : s = [] := List.eq_nil_of_length_eq_zero (by omega)
    refine ⟨none, ?_, ?_⟩
    · intro i hi
      exact absurd (split_at_char hi hc0).1 (Nat.not_lt_zero i)
    · obtain ⟨r, hr, hfirst⟩ := strchr_isChar hc hs rest
      match r, hr, hfirst with
      | none, hr, _ =>
        rw [strrchrLoop, hr]
        rfl
      | some i, _, hfirst => exact absurd (split_at_char hfirst.1 hc0).1 (Nat.not_lt_zero i)
  | succ n ih =>
    intro s hlen hs k last
    obtain ⟨r, hr, hfirst⟩ := strchr_isChar hc hs rest
    match r, hr, hfirst with
    | none, hr, hfirst =>
      refine ⟨none, hfirst, ?_⟩
      rw [strrchrLoop, hr]
      rfl
    | some i, hr, hfirst =>
      obtain ⟨hi, -⟩ := split_at_char hfirst.1 hc0
      have hdrop := drop_object (show i + 1 ≤ s.length from hi) rest
      have hlen' : (s.drop (i + 1)).length ≤ n := by
        rw [List.length_drop]
        omega
      obtain ⟨r', hlast, hloop⟩ := ih (s.drop (i + 1)) hlen' (not_mem_drop hs _) (k + (i + 1)) (some (k + i))
      have hlast' : LastAt (fun j => (s ++ [0])[i + 1 + j]? = some (toChar c)) r' := by
        have hchars : ∀ j, (s ++ [0])[i + 1 + j]? = (s.drop (i + 1) ++ [0])[j]? := by
          intro j
          rw [← List.drop_append_of_le_length (show i + 1 ≤ s.length from hi), List.getElem?_drop]
        simpa only [hchars] using hlast
      refine ⟨_, LastAt.of_found hfirst.1 hlast', ?_⟩
      rw [strrchrLoop, hr]
      show strrchrLoop c ((s ++ 0 :: rest).drop (i + 1)) _ _ = _
      rw [hdrop, hloop]
      cases r' with
      | none => rfl
      | some j =>
        show some (some (k + (i + 1) + j)) = some (some (k + (i + 1 + j)))
        rw [Nat.add_assoc]

/-! ## strncmp and strlen -/

theorem strlen_object (hs : 0 ∉ s) (rest : List CChar) : strlen (s ++ 0 :: rest) = some s.length := by
  induction s with
  | nil => rfl
  | cons x s ih =>
    obtain ⟨hx, hs⟩ := nonzero_cons hs
    rw [List.cons_append, strlen, if_neg hx, ih hs]
    rfl

theorem compareUnsigned_eq_zero {x y : CChar} : compareUnsigned x y = 0 ↔ x = y := by
  rw [compareUnsigned, ← BitVec.toNat_inj]
  split
  · omega
  · split <;> omega

/-- **A needle in front.**  The terminator of `s1` is not in the needle, so the loop ends there. -/
theorem strncmpLoop_needle {t rest' : List CChar} (ht : 0 ∉ t) (hne : t ≠ []) (hs : 0 ∉ s) (rest : List CChar) :
    ∃ r, strncmpLoop t.length (s ++ 0 :: rest) (t ++ rest') = some r ∧ (r = 0 ↔ t <+: s) := by
  induction t generalizing s with
  | nil => exact absurd rfl hne
  | cons y t ih =>
    obtain ⟨hy, ht'⟩ := nonzero_cons ht
    match s, hs with
    | [], _ =>
      refine ⟨compareUnsigned 0 y, ?_, ?_⟩
      · show (if (0 : CChar) = y then _ else _) = _
        rw [if_neg (Ne.symm hy)]
      · rw [compareUnsigned_eq_zero]
        exact ⟨fun h => absurd h.symm hy, fun h => absurd h (by simp)⟩
    | x :: s, hs =>
      obtain ⟨hx, hs⟩ := nonzero_cons hs
      by_cases hxy : x = y
      · subst hxy
        show ∃ r, (if x = x then (if t.length = 0 ∨ x = 0 then some 0 else
          strncmpLoop t.length (s ++ 0 :: rest) (t ++ rest')) else _) = some r ∧ _
        rw [if_pos rfl]
        by_cases hnil : t = []
        · subst hnil
          rw [if_pos (.inl rfl)]
          exact ⟨0, rfl, fun _ => ⟨s, rfl⟩, fun _ => rfl⟩
        · have hgo : ¬ (t.length = 0 ∨ x = 0) := fun h => h.elim (fun h => hnil (List.eq_nil_of_length_eq_zero h)) hx
          rw [if_neg hgo]
          obtain ⟨r, hr, hiff⟩ := ih ht' hnil hs
          refine ⟨r, hr, hiff.trans ?_⟩
          rw [List.cons_prefix_cons]
          exact ⟨fun h => ⟨rfl, h⟩, fun h => h.2⟩
      · refine ⟨compareUnsigned x y, ?_, ?_⟩
        · show (if x = y then _ else _) = _
          rw [if_neg hxy]
        · rw [compareUnsigned_eq_zero, List.cons_prefix_cons]
          exact ⟨fun h => absurd h hxy, fun h => absurd h.1.symm hxy⟩

/-! ## strstr -/

/-- A needle is only where its first character is. -/
theorem not_occurs_before {t : List CChar} {y : CChar} {i j : ℕ} (hfirst : ∀ j < i, (s ++ [0])[j]? ≠ some y)
    (hj : j < i) : ¬ (y :: t) <+: s.drop j := by
  rintro ⟨u, hu⟩
  have hget : s[j]? = some y := by
    have h0 : (s.drop j)[0]? = some y := by
      rw [← hu]
      rfl
    rwa [List.getElem?_drop, Nat.add_zero] at h0
  obtain ⟨hlt, -⟩ := List.getElem?_eq_some_iff.1 hget
  refine hfirst j hj ?_
  rw [List.getElem?_append_left hlt, hget]

/-- **The loop of strstr.**  By the length of what is left. -/
theorem strstrLoop_spec {y : CChar} {t rest' : List CChar} (hy : 0 ∉ y :: t) (rest : List CChar) : ∀ n
    (s : List CChar), s.length ≤ n → 0 ∉ s → ∃ r,
      strstrLoop (y :: t ++ rest') y (y :: t).length (s ++ 0 :: rest) = some r ∧
      FirstAt (fun i => (y :: t) <+: s.drop i) r := by
  have hy0 : y ≠ 0 := (nonzero_cons hy).1
  have hchar : toChar y.toInt ≠ 0 := by
    rw [toChar_toInt]
    exact hy0
  intro n
  induction n with
  | zero =>
    intro s hlen hs
    obtain rfl : s = [] := List.eq_nil_of_length_eq_zero (by omega)
    obtain ⟨r, hr, hfirst⟩ := strchr_isChar (isChar_toInt y) hs rest
    match r, hr, hfirst with
    | none, hr, _ =>
      refine ⟨none, ?_, fun i hi => ?_⟩
      · rw [strstrLoop, hr]
      · have hnil : (y :: t) <+: [] := List.drop_nil (i := i) ▸ hi
        exact absurd (List.prefix_nil.1 hnil) (by simp)
    | some i, _, hfirst => exact absurd (split_at_char hfirst.1 hchar).1 (Nat.not_lt_zero i)
  | succ n ih =>
    intro s hlen hs
    obtain ⟨r, hr, hfirst⟩ := strchr_isChar (isChar_toInt y) hs rest
    rw [toChar_toInt] at hfirst
    match r, hr, hfirst with
    | none, hr, hfirst =>
      refine ⟨none, ?_, fun i => not_occurs_before (i := i + 1) (fun j _ => hfirst j) (Nat.lt_succ_self i)⟩
      rw [strstrLoop, hr]
    | some i, hr, hfirst =>
      obtain ⟨hi, -⟩ := split_at_char hfirst.1 hy0
      obtain ⟨d, hd, hiff⟩ := @strncmpLoop_needle _ _ rest' hy (by simp) (not_mem_drop hs i) rest
      rw [← drop_object (Nat.le_of_lt hi)] at hd
      have hcmp : strncmp ((s ++ 0 :: rest).drop i) (y :: t ++ rest') (y :: t).length = some d := by
        rw [strncmp, if_neg (by simp)]
        exact hd
      by_cases hzero : d = 0
      · refine ⟨some i, ?_, hiff.1 hzero, fun j hj => not_occurs_before hfirst.2 hj⟩
        rw [strstrLoop, hr]
        show (match strncmp _ _ _ with | none => none | some r => _) = _
        rw [hcmp]
        show (if d = 0 then _ else _) = _
        rw [if_pos hzero]
      · have hlen' : (s.drop (i + 1)).length ≤ n := by
          rw [List.length_drop]
          omega
        obtain ⟨r', hloop, hnext⟩ := ih (s.drop (i + 1)) hlen' (not_mem_drop hs _)
        refine ⟨r'.map ((i + 1) + ·), ?_, FirstAt.shift (k := i + 1) (fun j hj => ?_) ?_⟩
        · rw [strstrLoop, hr]
          show (match strncmp _ _ _ with | none => none | some r => _) = _
          rw [hcmp]
          show (if d = 0 then _ else _) = _
          rw [if_neg hzero, drop_object (show i + 1 ≤ s.length from hi), hloop]
          rfl
        · rcases Nat.lt_or_ge j i with hlt | hge
          · exact not_occurs_before hfirst.2 hlt
          · obtain rfl : j = i := by omega
            exact fun h => hzero (hiff.2 h)
        · simpa only [List.drop_drop] using hnext

/-! ## strspn and strcspn -/

/-- A character of a string is a delimiter or not. -/
theorem strchr_delimiter (d : CString) {x : CChar} (hx : x ≠ 0) :
    ∃ r, strchr x.toInt d.object = some r ∧ (r = none ↔ x ∉ d.chars) := by
  obtain ⟨r, hr, hfirst⟩ := strchr_isChar (isChar_toInt x) d.nonzero d.rest
  rw [toChar_toInt] at hfirst
  have hmem : x ∈ d.chars ↔ x ∈ d.chars ++ [0] := by
    rw [List.mem_append, List.mem_singleton]
    exact ⟨.inl, fun h => h.resolve_right hx⟩
  refine ⟨r, hr, ?_⟩
  rw [hmem, List.mem_iff_getElem?]
  match r, hfirst with
  | none, hfirst => exact ⟨fun _ ⟨i, hi⟩ => hfirst i hi, fun _ => rfl⟩
  | some i, hfirst => exact ⟨fun h => absurd h (by simp), fun h => absurd ⟨i, hfirst.1⟩ h⟩

theorem strspn_object (hs : 0 ∉ s) (rest : List CChar) (d : CString) :
    strspn (s ++ 0 :: rest) d.object = some (s.takeWhile (· ∈ d.chars)).length := by
  induction s with
  | nil => rfl
  | cons x s ih =>
    obtain ⟨hx, hs⟩ := nonzero_cons hs
    obtain ⟨r, hr, hiff⟩ := strchr_delimiter d hx
    rw [List.cons_append, strspn, if_neg hx, hr]
    show (if r = none then _ else _) = _
    by_cases hmem : x ∈ d.chars
    · rw [if_neg (by rw [hiff, not_not]; exact hmem), ih hs, List.takeWhile_cons_of_pos (by simpa using hmem)]
      rfl
    · rw [if_pos (hiff.2 hmem), List.takeWhile_cons_of_neg (by simpa using hmem)]
      rfl

theorem strcspn_object (hs : 0 ∉ s) (rest : List CChar) (d : CString) :
    strcspn (s ++ 0 :: rest) d.object = some (s.takeWhile (· ∉ d.chars)).length := by
  induction s with
  | nil => rfl
  | cons x s ih =>
    obtain ⟨hx, hs⟩ := nonzero_cons hs
    obtain ⟨r, hr, hiff⟩ := strchr_delimiter d hx
    rw [List.cons_append, strcspn, if_neg hx, hr]
    show (if r ≠ none then _ else _) = _
    by_cases hmem : x ∈ d.chars
    · rw [if_pos fun h => hiff.1 h hmem, List.takeWhile_cons_of_neg (by simpa using hmem)]
      rfl
    · rw [if_neg (by rw [not_not]; exact hiff.2 hmem), ih hs,
        List.takeWhile_cons_of_pos (by simpa using hmem)]
      rfl

/-! ## strtok_r -/

/-- **Between two calls.**  What is left of the string is as it was: the writes are before it. -/
inductive Left (s rest m : List CChar) : Ptr → ℕ → Prop
  | buf {p : ℕ} : p ≤ s.length → m.drop p = s.drop p ++ 0 :: rest → Left s rest m (.buf p) p
  | empty : Left s rest m .empty s.length

theorem Left.load {s rest m : List CChar} {p : Ptr} {pos : ℕ} (h : Left s rest m p pos) :
    ∃ rest', p.load m = s.drop pos ++ 0 :: rest' := by
  cases h with
  | buf _ hm => exact ⟨rest, hm⟩
  | empty => exact ⟨[], by rw [List.drop_length]; rfl⟩

/-- Up to the first zero. -/
theorem string_eq {m : List CChar} {p : Ptr} {t u : List CChar} (ht : 0 ∉ t) (h : p.load m = t ++ 0 :: u) :
    p.string m = t := by
  rw [Ptr.string, h, List.takeWhile_append_of_pos fun c hc => ?_, List.takeWhile_cons_of_neg (by simp),
    List.append_nil]
  rw [decide_eq_true_iff]
  rintro rfl
  exact ht hc

theorem dropWhile_head {q : CChar → Bool} {l : List CChar} : ∀ c ∈ (l.dropWhile q).head?, q c = false := by
  intro c hc
  have := List.head?_dropWhile_not q l
  rw [Option.mem_def.1 hc] at this
  simpa using this

/-- Nothing but delimiters is left. -/
theorem strtokR_none {s m rest' : List CChar} (hs : 0 ∉ s) {arg : Option Ptr} {lasts : Ptr} (d : CString)
    (hload : ((arg.getD lasts).plus (s.takeWhile (· ∈ d.chars)).length).load m = 0 :: rest')
    (hsb : ∃ u, (arg.getD lasts).load m = s ++ 0 :: u) :
    strtokR m arg d.object lasts = some (none, m, .empty) := by
  obtain ⟨u, hu⟩ := hsb
  simp only [strtokR, hu, strspn_object hs u d, Option.bind_eq_bind, Option.bind_some, hload, List.head?_cons,
    if_pos]
  rfl

/-- A token is there: the call, up to where it looks at the end of the token. -/
theorem strtokR_token {m d : List CChar} {arg : Option Ptr} {lasts : Ptr} {p n k : ℕ} {x : CChar}
    (hsb : arg.getD lasts = .buf p) (hspn : strspn (m.drop p) d = some n)
    (hhead : ((Ptr.buf (p + n)).load m).head? = some x) (hx : x ≠ 0)
    (hcspn : strcspn ((Ptr.buf (p + n)).load m) d = some k) :
    strtokR m arg d lasts = ((Ptr.buf (p + n + k)).load m).head?.bind fun c =>
      if c = 0 then some (some (.buf (p + n)), m, .buf (p + n + k))
      else some (some (.buf (p + n)), m.set (p + n + k) 0, .buf (p + n + k + 1)) := by
  have hload : (Ptr.buf p).load m = m.drop p := rfl
  simp only [strtokR, hsb, hload, hspn, Ptr.plus, Option.bind_eq_bind, Option.bind_some, hhead, if_neg hx, hcspn,
    Ptr.store, Option.pure_def]

/-- **One call of strtok_r.** -/
theorem strtokR_spec {s rest m : List CChar} (hs : 0 ∉ s) {arg : Option Ptr} {lasts : Ptr} {pos : ℕ}
    (hleft : Left s rest m (arg.getD lasts) pos) (d : CString) :
    ∃ r m' lasts' pos', strtokR m arg d.object lasts = some (r, m', lasts') ∧ Left s rest m' lasts' pos' ∧
      NextToken s pos d.chars (r.map fun p => (p, p.string m')) pos' := by
  generalize hsb : arg.getD lasts = sb at hleft
  cases hleft with
  | empty =>
    refine ⟨none, m, .empty, s.length, ?_, .empty, .none fun c hc => ?_⟩
    · exact strtokR_none (s := []) List.not_mem_nil d (by rw [hsb]; rfl) ⟨[], by rw [hsb]; rfl⟩
    · rw [List.drop_length] at hc
      exact absurd hc List.not_mem_nil
  | buf hp hm =>
    have hs' := not_mem_drop hs pos
    -- what is left of the string, in three parts
    obtain ⟨skip, hskip⟩ : ∃ l, l = (s.drop pos).takeWhile (· ∈ d.chars) := ⟨_, rfl⟩
    obtain ⟨left, hleft⟩ : ∃ l, l = (s.drop pos).dropWhile (· ∈ d.chars) := ⟨_, rfl⟩
    have hsplit : s.drop pos = skip ++ left := by rw [hskip, hleft, List.takeWhile_append_dropWhile]
    have hskipd : ∀ c ∈ skip, c ∈ d.chars := by
      intro c hc
      rw [hskip] at hc
      simpa using List.mem_takeWhile_imp hc
    have hload : (Ptr.buf (pos + skip.length)).load m = left ++ 0 :: rest := by
      show m.drop (pos + skip.length) = _
      rw [← List.drop_drop, hm, hsplit, List.append_assoc, List.drop_left]
    have hnz : 0 ∉ left := fun h => hs' (by rw [hsplit]; exact List.mem_append_right _ h)
    match left, hleft, hsplit, hload, hnz with
    | [], _, hsplit, hload, _ =>
      refine ⟨none, m, .empty, s.length, ?_, .empty, .none fun c hc => ?_⟩
      · refine @strtokR_none _ _ rest hs' _ _ d ?_ ⟨rest, by rw [hsb]; exact hm⟩
        rw [hsb, ← hskip]
        exact hload
      · rw [hsplit, List.append_nil] at hc
        exact hskipd c hc
    | x :: l, hleft, hsplit, hload, hnz =>
      obtain ⟨token, htoken⟩ : ∃ t, t = (x :: l).takeWhile (· ∉ d.chars) := ⟨_, rfl⟩
      obtain ⟨after, hafter⟩ : ∃ t, t = (x :: l).dropWhile (· ∉ d.chars) := ⟨_, rfl⟩
      have hparts : x :: l = token ++ after := by rw [htoken, hafter, List.takeWhile_append_dropWhile]
      have hx : x ∉ d.chars := by
        have := dropWhile_head (q := (· ∈ d.chars)) (l := s.drop pos) x (by rw [← hleft]; rfl)
        simpa using this
      have hne : token ≠ [] := by
        rw [htoken, List.takeWhile_cons_of_pos (by simpa using hx)]
        exact List.cons_ne_nil _ _
      have htokend : ∀ c ∈ token, c ∉ d.chars := by
        intro c hc
        rw [htoken] at hc
        simpa using List.mem_takeWhile_imp hc
      have hafterd : ∀ c ∈ after.head?, c ∈ d.chars := by
        intro c hc
        rw [hafter] at hc
        simpa using dropWhile_head c hc
      have htnz : 0 ∉ token := fun h => hnz (by rw [hparts]; exact List.mem_append_left _ h)
      have hsend : (Ptr.buf (pos + skip.length + token.length)).load m = after ++ 0 :: rest := by
        show m.drop (pos + skip.length + token.length) = _
        rw [← List.drop_drop]
        show (Ptr.load m (Ptr.buf (pos + skip.length))).drop _ = _
        rw [hload, hparts, List.append_assoc, List.drop_left]
      have hlen : s.length = pos + skip.length + token.length + after.length := by
        have h := congrArg List.length hsplit
        rw [hparts, List.length_drop, List.length_append, List.length_append] at h
        omega
      have hnext := @NextToken.some s pos d.chars skip token after (by rw [hsplit, hparts, List.append_assoc]) hskipd
        hne htokend hafterd
      have hspn := strspn_object hs' rest d
      rw [← hm, ← hskip] at hspn
      have hcspn := strcspn_object hnz rest d
      rw [← hload, ← htoken] at hcspn
      have hhead : ((Ptr.buf (pos + skip.length)).load m).head? = some x := by
        rw [hload]
        rfl
      have hcall := strtokR_token (d := d.object) hsb hspn hhead (nonzero_cons hnz).1 hcspn
      match after, hsend, hparts, hlen, hnext with
      | [], hsend, hparts, hlen, hnext =>
        -- the last token, which ends where the string does
        rw [hsend] at hcall
        have hend : s.length = pos + skip.length + token.length := hlen
        rw [← hend] at hcall hsend
        refine ⟨_, _, _, s.length, hcall, .buf (Nat.le_refl _) ?_, ?_⟩
        · rw [List.drop_length]
          exact hsend
        · rw [List.append_nil] at hparts
          show NextToken _ _ _ (some (_, Ptr.string m _)) _
          rw [string_eq htnz (hload.trans (by rw [hparts]))]
          exact hnext
      | y :: after, hsend, hparts, hlen, hnext =>
        have hy : y ≠ 0 := fun h => hnz (by rw [hparts, h]; exact List.mem_append_right _ List.mem_cons_self)
        rw [List.length_cons] at hlen
        rw [hsend, List.cons_append, List.head?_cons, Option.bind_some, if_neg hy] at hcall
        refine ⟨_, _, _, pos + skip.length + token.length + 1, hcall, .buf (by omega) ?_, ?_⟩
        · have hleft : s.drop (pos + skip.length + token.length + 1) = after := by
            have h : s.drop pos = (skip ++ token ++ [y]) ++ after := by
              rw [hsplit, hparts]
              simp only [List.append_assoc, List.singleton_append]
            have hn : pos + skip.length + token.length + 1 = pos + (skip ++ token ++ [y]).length := by
              simp only [List.length_append, List.length_singleton]
              omega
            rw [hn, ← List.drop_drop, h, List.drop_left]
          have hlt : pos + skip.length + token.length < pos + skip.length + token.length + 1 := Nat.lt_succ_self _
          rw [List.drop_set_of_lt hlt, hleft, ← List.drop_drop]
          exact congrArg (List.drop 1) hsend
        · have hstring : (Ptr.buf (pos + skip.length)).load (m.set (pos + skip.length + token.length) 0) =
              token ++ 0 :: (after ++ 0 :: rest) := by
            show (m.set _ 0).drop (pos + skip.length) = _
            rw [List.drop_set, if_neg (by omega), Nat.add_sub_cancel_left]
            show ((Ptr.buf (pos + skip.length)).load m).set _ 0 = _
            rw [hload, hparts, List.append_assoc, List.set_append_right _ _ (Nat.le_refl _), Nat.sub_self]
            rfl
          have hpos : s.length - (y :: after).tail.length = pos + skip.length + token.length + 1 := by
            rw [List.tail_cons]
            omega
          rw [hpos] at hnext
          show NextToken _ _ _ (some (_, Ptr.string _ _)) _
          rw [string_eq htnz hstring]
          exact hnext

/-- **Every sequence of calls of strtok_r.** -/
theorem strtokCalls_spec {s rest : List CChar} (hs : 0 ∉ s) (ds : List CString) : ∀ {m : List CChar}
    {arg : Option Ptr} {lasts : Ptr} {pos : ℕ}, Left s rest m (arg.getD lasts) pos →
    ∃ rs, strtokCalls m arg lasts (ds.map CString.object) = some rs ∧ Tokens s pos ds rs := by
  induction ds with
  | nil => exact fun {_ _ _ pos} _ => ⟨[], rfl, .nil pos⟩
  | cons d ds ih =>
    intro m arg lasts pos hleft
    obtain ⟨r, m', lasts', pos', hcall, hleft', hnext⟩ := strtokR_spec hs hleft d
    obtain ⟨rs, hrs, htokens⟩ := @ih m' none lasts' pos' hleft'
    refine ⟨_, ?_, .cons hnext htokens⟩
    rw [List.map_cons, strtokCalls, hcall]
    show (strtokCalls m' none lasts' _).bind _ = _
    rw [hrs]
    rfl

/-! ## The library -/

/-- `strchr` and `strrchr` find the character that `c` is converted to. -/
structure FindsChar (s : CString) (c : Int) : Prop where
  strchr : ∃ r, strchr c s.object = some r ∧ FirstAt (CharAt s (toChar c)) r
  strrchr : ∃ r, strrchr c s.object = some r ∧ LastAt (CharAt s (toChar c)) r

theorem FirstAt.last_zero {s : CString} {r : Option ℕ} (h : FirstAt (CharAt s 0) r) : LastAt (CharAt s 0) r := by
  -- the terminator is the only zero
  have hat : ∀ i, CharAt s 0 i → i = s.chars.length := by
    intro i hi
    obtain ⟨hlt, hget⟩ := List.getElem?_eq_some_iff.1 hi
    rw [List.length_append, List.length_singleton] at hlt
    by_contra hne
    rw [List.getElem_append_left (by omega)] at hget
    exact s.nonzero (hget ▸ List.getElem_mem _)
  cases r with
  | none => exact h
  | some i =>
    refine ⟨h.1, fun j hj hz => ?_⟩
    have := hat i h.1
    have := hat j hz
    omega

theorem findsChar_iff (s : CString) (c : Int) :
    FindsChar s c ↔ IsChar c ∨ toChar c ∉ s.chars ++ [0] := by
  constructor
  · rintro ⟨⟨r, hr, hfirst⟩, -⟩
    by_cases hc : IsChar c
    · exact .inl hc
    · refine .inr fun hmem => ?_
      rw [CString.object, strchr_not_isChar hc s.nonzero] at hr
      obtain rfl := Option.some.inj hr
      obtain ⟨i, hi⟩ := List.mem_iff_getElem?.1 hmem
      exact hfirst i hi
  · intro h
    by_cases hc : IsChar c
    · obtain ⟨r, hr, hfirst⟩ := strchr_isChar hc s.nonzero s.rest
      refine ⟨⟨r, hr, hfirst⟩, ?_⟩
      by_cases hzero : c = 0
      · subst hzero
        refine ⟨r, ?_, FirstAt.last_zero hfirst⟩
        rw [StringSearch.strrchr, if_pos rfl]
        exact hr
      · have hc0 : toChar c ≠ 0 := by
          intro h0
          have hint : (toChar c).toInt = c := hc
          rw [h0] at hint
          exact hzero hint.symm
        obtain ⟨r', hlast, hloop⟩ :=
          strrchrLoop_isChar hc hc0 s.rest s.chars.length s.chars (Nat.le_refl _) s.nonzero 0 none
        refine ⟨r', ?_, hlast⟩
        rw [StringSearch.strrchr, if_neg hzero, CString.object, hloop]
        cases r' with
        | none => rfl
        | some i => exact congrArg (fun k => some (some k)) (Nat.zero_add i)
    · have hno : ∀ i, ¬ CharAt s (toChar c) i := by
        intro i hi
        exact (h.resolve_left hc) (List.mem_of_getElem? hi)
      have hr := strchr_not_isChar hc s.nonzero s.rest
      refine ⟨⟨none, hr, hno⟩, none, ?_, hno⟩
      have hzero : c ≠ 0 := by
        rintro rfl
        exact hc rfl
      rw [StringSearch.strrchr, if_neg hzero, strrchrLoop, CString.object, hr]

theorem strstr_object (s needle : CString) :
    ∃ r, strstr s.object needle.object = some r ∧ FirstAt (OccursAt s needle) r := by
  rw [CString.object, CString.object]
  match hn : needle.chars, hy : needle.nonzero with
  | [], _ =>
    refine ⟨some 0, by simp [strstr], ⟨Nat.zero_le _, ?_⟩, fun j hj => absurd hj (Nat.not_lt_zero j)⟩
    rw [hn]
    exact List.nil_prefix
  | y :: t, _ =>
    have hyt : 0 ∉ y :: t := hn ▸ needle.nonzero
    obtain ⟨r, hr, hfirst⟩ := @strstrLoop_spec y t (0 :: needle.rest) hyt s.rest s.chars.length s.chars
      (Nat.le_refl _) s.nonzero
    have hocc : OccursAt s needle = fun i => (y :: t) <+: s.chars.drop i := by
      funext i
      rw [OccursAt, hn, eq_iff_iff]
      refine ⟨fun h => h.2, fun h => ⟨?_, h⟩⟩
      by_contra hgt
      rw [List.drop_eq_nil_of_le (by omega), List.prefix_nil] at h
      exact List.cons_ne_nil _ _ h
    rw [hocc]
    refine ⟨r, ?_, hfirst⟩
    rw [List.cons_append, strstr, if_neg (nonzero_cons hyt).1, ← List.cons_append, strlen_object hyt]
    exact hr

/-- **String search.**  `strchr` and `strrchr` are right exactly where `c` is a value of `char`, or the
    character it is converted to is not there; `strstr` and `strtok_r` always are. -/
theorem string_search (s needle : CString) (c : Int) (ds : List CString) (lasts : Ptr) :
    (FindsChar s c ↔ IsChar c ∨ toChar c ∉ s.chars ++ [0]) ∧
    (∃ r, strstr s.object needle.object = some r ∧ FirstAt (OccursAt s needle) r) ∧
    ∃ rs, strtokCalls s.object (some (.buf 0)) lasts (ds.map CString.object) = some rs ∧
      Tokens s.chars 0 ds rs :=
  ⟨findsChar_iff s c, strstr_object s needle,
    @strtokCalls_spec _ s.rest s.nonzero ds s.object (some (.buf 0)) lasts 0 (.buf (Nat.zero_le _) rfl)⟩

/-- The string of the byte 200, and 200, which is no value of `char`. -/
theorem strchr_200 : ¬ FindsChar ⟨[200], [], by decide⟩ 200 := by
  rw [findsChar_iff]
  rintro (h | h)
  · exact absurd (show (200 : CChar).toInt = 200 from h) (by decide)
  · exact h (List.mem_append_left _ List.mem_cons_self)

end CSemantics.StringSearch
