/-
  Labels in Kore.

  A special character is printed as a code of letters between quotes.  Where two of them follow each
  other, the second deletes the quote that closes the first: `<=` is `'-LT-Eqls'`.

  So what is printed alternates between plain text and runs of codes, and is read back from the left:

      plainly s    what is printed for `s` outside of quotes
      quotedly s   what is printed for `s` inside of them, the closing quote still to come

  No code is the beginning of another one, although `And` is shorter than the others, and none begins
  with a quote.
-/
import Mathlib.Data.List.Basic

namespace CSemantics.Parser

/-! ## The printer -/

/-- What `klabel_char_escape_kore` writes for each special character, with the closing quote. -/
def labelCharEscapes : List (Char × String) := [
  (' ', "Spce'"), ('!', "Bang'"), ('"', "Quot'"), ('#', "Hash'"), ('$', "Dolr'"), ('%', "Perc'"),
  ('&', "And'"), ('\'', "Apos'"), ('(', "LPar'"), (')', "RPar'"), ('*', "Star'"), ('+', "Plus'"),
  (',', "Comm'"), ('.', "Stop'"), ('/', "Slsh'"), (':', "Coln'"), (';', "SCln'"), ('<', "-LT-'"),
  ('=', "Eqls'"), ('>', "-GT-'"), ('?', "Ques'"), ('@', "-AT-'"), ('[', "LSqB'"), ('\\', "Bash'"),
  (']', "RSqB'"), ('^', "Xor-'"), ('_', "Unds'"), (Char.ofNat 96, "BQuo'"), (Char.ofNat 123, "LBra'"),
  ('|', "Pipe'"), (Char.ofNat 125, "RBra'"), ('~', "Tild'")]

/-- The last quote of the buffer is deleted, or a quote is opened. -/
def apost (buf : List Char) (s : String) : List Char :=
  if buf.getLast? = some '\'' then buf.dropLast ++ s.toList else buf ++ '\'' :: s.toList

def klabelCharEscapeKore (buf : List Char) (c : Char) : List Char :=
  match labelCharEscapes.lookup c with
  | some s => apost buf s
  | none => buf ++ [c]

def klabelEscapeKore (str : String) : String :=
  .ofList (str.toList.foldl klabelCharEscapeKore [])

/-- The symbol of a constructor. -/
def klabelKore (label : String) : String := "Lbl" ++ klabelEscapeKore label ++ "\x7b\x7d"

/-! ## The codes -/

/-- The code of a special character, without the closing quote. -/
def labelCode (c : Char) : Option (List Char) :=
  (labelCharEscapes.lookup c).map fun s => s.toList.dropLast

theorem labelCharEscapes_closed : ∀ p ∈ labelCharEscapes, p.2.toList = p.2.toList.dropLast ++ ['\''] := by
  decide +kernel

theorem labelCharEscapes_prefixFree : ∀ p ∈ labelCharEscapes, ∀ q ∈ labelCharEscapes,
    p.2.toList.dropLast <+: q.2.toList.dropLast → p.1 = q.1 := by
  decide +kernel

theorem labelCharEscapes_head : ∀ p ∈ labelCharEscapes, ∃ c ∈ p.2.toList.dropLast.head?, c ≠ '\'' := by
  intro p hp
  have hall : ∀ p ∈ labelCharEscapes, (p.2.toList.dropLast.head?.any fun c => c ≠ '\'') = true := by decide +kernel
  obtain ⟨c, hc, hne⟩ := (Option.any_eq_true _ _).1 (hall p hp)
  exact ⟨c, hc, of_decide_eq_true hne⟩

theorem mem_of_lookup {c : Char} {s : String} (h : labelCharEscapes.lookup c = some s) :
    (c, s) ∈ labelCharEscapes := by
  obtain ⟨l, l', hl, -⟩ := List.lookup_eq_some_iff.1 h
  rw [hl]
  exact List.mem_append_right _ List.mem_cons_self

theorem exists_of_labelCode {c : Char} {w : List Char} (h : labelCode c = some w) :
    ∃ s, (c, s) ∈ labelCharEscapes ∧ s.toList.dropLast = w := by
  obtain ⟨s, hs, hw⟩ := Option.map_eq_some_iff.1 h
  exact ⟨s, mem_of_lookup hs, hw⟩

/-- What follows a code does not matter for which code it is. -/
theorem labelCode_cancel {c d : Char} {v w x y : List Char} (hc : labelCode c = some v)
    (hd : labelCode d = some w) (h : v ++ x = w ++ y) : c = d ∧ x = y := by
  obtain ⟨s, hs, rfl⟩ := exists_of_labelCode hc
  obtain ⟨t, ht, rfl⟩ := exists_of_labelCode hd
  have hcd : c = d := by
    have hx := List.prefix_append s.toList.dropLast x
    rw [h] at hx
    rcases List.prefix_or_prefix_of_prefix hx (List.prefix_append _ y) with hp | hp
    · exact labelCharEscapes_prefixFree _ hs _ ht hp
    · exact (labelCharEscapes_prefixFree _ ht _ hs hp).symm
  subst hcd
  have hvw : some s.toList.dropLast = some t.toList.dropLast := hc.symm.trans hd
  rw [Option.some.inj hvw] at h
  exact ⟨rfl, List.append_cancel_left h⟩

/-- A code does not begin with a quote. -/
theorem labelCode_ne_quote {c : Char} {w x y : List Char} (hc : labelCode c = some w) :
    w ++ x ≠ '\'' :: y := by
  obtain ⟨s, hs, rfl⟩ := exists_of_labelCode hc
  obtain ⟨a, ha, hne⟩ := labelCharEscapes_head _ hs
  intro h
  have hhead : (s.toList.dropLast ++ x).head? = some a := by
    rw [List.head?_append, Option.mem_def.1 ha, Option.some_or]
  rw [h, List.head?_cons] at hhead
  exact hne (Option.some.inj hhead).symm

/-- A plain character is not a quote. -/
theorem ne_quote_of_labelCode {c : Char} (hc : labelCode c = none) : c ≠ '\'' := by
  rintro rfl
  revert hc
  decide +kernel

/-! ## What is printed, from the left -/

mutual
/-- Outside of quotes. -/
def plainly : List Char → List Char
  | [] => []
  | c :: cs =>
    match labelCode c with
    | some w => '\'' :: (w ++ quotedly cs)
    | none => c :: plainly cs

/-- Inside of quotes. -/
def quotedly : List Char → List Char
  | [] => ['\'']
  | c :: cs =>
    match labelCode c with
    | some w => w ++ quotedly cs
    | none => '\'' :: c :: plainly cs
end

theorem klabelCharEscapeKore_plain {c : Char} (hc : labelCode c = none) (buf : List Char) :
    klabelCharEscapeKore buf c = buf ++ [c] := by
  rw [klabelCharEscapeKore, Option.map_eq_none_iff.1 hc]

theorem klabelCharEscapeKore_open {c : Char} {w : List Char} (hc : labelCode c = some w) {buf : List Char}
    (hbuf : buf.getLast? ≠ some '\'') : klabelCharEscapeKore buf c = buf ++ '\'' :: w ++ ['\''] := by
  obtain ⟨s, hs, rfl⟩ := Option.map_eq_some_iff.1 hc
  have hs' : s.toList = s.toList.dropLast ++ ['\''] := labelCharEscapes_closed _ (mem_of_lookup hs)
  rw [klabelCharEscapeKore, hs]
  show apost buf s = _
  rw [apost, if_neg hbuf, List.append_assoc, List.cons_append, ← hs']

theorem klabelCharEscapeKore_merge {c : Char} {w : List Char} (hc : labelCode c = some w) (buf : List Char) :
    klabelCharEscapeKore (buf ++ ['\'']) c = buf ++ w ++ ['\''] := by
  obtain ⟨s, hs, rfl⟩ := Option.map_eq_some_iff.1 hc
  have hs' : s.toList = s.toList.dropLast ++ ['\''] := labelCharEscapes_closed _ (mem_of_lookup hs)
  rw [klabelCharEscapeKore, hs]
  show apost (buf ++ ['\'']) s = _
  rw [apost, if_pos List.getLast?_concat, List.dropLast_concat, List.append_assoc, ← hs']

/-- **The buffer.**  What it ends with tells whether a run of codes is open. -/
theorem foldl_klabelCharEscapeKore (cs : List Char) : ∀ buf,
    (buf.getLast? ≠ some '\'' → cs.foldl klabelCharEscapeKore buf = buf ++ plainly cs) ∧
    cs.foldl klabelCharEscapeKore (buf ++ ['\'']) = buf ++ quotedly cs := by
  induction cs with
  | nil =>
    intro buf
    refine ⟨fun _ => ?_, ?_⟩
    · rw [List.foldl_nil, plainly, List.append_nil]
    · rw [List.foldl_nil, quotedly]
  | cons c cs ih =>
    intro buf
    match hc : labelCode c with
    | some w =>
      refine ⟨fun hbuf => ?_, ?_⟩
      · rw [List.foldl_cons, klabelCharEscapeKore_open hc hbuf, (ih (buf ++ '\'' :: w)).2, plainly, hc,
          List.append_assoc, List.cons_append]
      · rw [List.foldl_cons, klabelCharEscapeKore_merge hc, (ih (buf ++ w)).2, quotedly, hc,
          List.append_assoc]
    | none =>
      have hlast : ∀ b : List Char, (b ++ [c]).getLast? ≠ some '\'' := by
        intro b h
        rw [List.getLast?_concat] at h
        exact ne_quote_of_labelCode hc (Option.some.inj h)
      refine ⟨fun _ => ?_, ?_⟩
      · rw [List.foldl_cons, klabelCharEscapeKore_plain hc, (ih _).1 (hlast buf), plainly, hc,
          List.append_assoc, List.singleton_append]
      · rw [List.foldl_cons, klabelCharEscapeKore_plain hc, (ih _).1 (hlast _), quotedly, hc]
        simp only [List.append_assoc, List.cons_append, List.nil_append]

theorem klabelEscapeKore_eq (str : String) : klabelEscapeKore str = .ofList (plainly str.toList) := by
  rw [klabelEscapeKore, (foldl_klabelCharEscapeKore str.toList []).1 (by simp), List.nil_append]

/-! ## Reading it back -/

/-- **Unique reading.**  By the first character of each label; both states at once, since a special
    character opens a run and a plain one closes it. -/
theorem plainly_quotedly_injective (cs : List Char) : ∀ ds,
    (plainly cs = plainly ds → cs = ds) ∧ (quotedly cs = quotedly ds → cs = ds) := by
  induction cs with
  | nil =>
    intro ds
    match ds with
    | [] => exact ⟨fun _ => rfl, fun _ => rfl⟩
    | d :: ds =>
      rw [plainly, plainly, quotedly, quotedly]
      match hd : labelCode d with
      | some w => exact ⟨fun h => by simp at h, fun h => (labelCode_ne_quote hd h.symm).elim⟩
      | none => exact ⟨fun h => by simp at h, fun h => by simp at h⟩
  | cons c cs ih =>
    intro ds
    match ds with
    | [] =>
      rw [plainly, plainly, quotedly, quotedly]
      match hc : labelCode c with
      | some w => exact ⟨fun h => by simp at h, fun h => (labelCode_ne_quote hc h).elim⟩
      | none => exact ⟨fun h => by simp at h, fun h => by simp at h⟩
    | d :: ds =>
      rw [plainly, plainly, quotedly, quotedly]
      match hc : labelCode c, hd : labelCode d with
      | some v, some w =>
        have key : v ++ quotedly cs = w ++ quotedly ds → c :: cs = d :: ds := by
          intro h
          obtain ⟨rfl, hrest⟩ := labelCode_cancel hc hd h
          rw [(ih ds).2 hrest]
        exact ⟨fun h => key (List.cons.inj h).2, key⟩
      | some v, none =>
        refine ⟨fun h => ?_, fun h => (labelCode_ne_quote hc h).elim⟩
        exact (ne_quote_of_labelCode hd (List.cons.inj h).1.symm).elim
      | none, some w =>
        refine ⟨fun h => ?_, fun h => (labelCode_ne_quote hd h.symm).elim⟩
        exact (ne_quote_of_labelCode hc (List.cons.inj h).1).elim
      | none, none =>
        have key : c :: plainly cs = d :: plainly ds → c :: cs = d :: ds := by
          intro h
          obtain ⟨rfl, hrest⟩ := List.cons.inj h
          rw [(ih ds).1 hrest]
        exact ⟨key, fun h => key (List.cons.inj h).2⟩

theorem klabelEscapeKore_injective : Function.Injective klabelEscapeKore := by
  intro s t h
  rw [klabelEscapeKore_eq, klabelEscapeKore_eq, String.ofList_inj] at h
  exact String.toList_inj.1 ((plainly_quotedly_injective _ _).1 h)

/-- **No two constructors share a symbol.** -/
theorem klabelKore_distinct (s t : String) :
    (klabelEscapeKore s = klabelEscapeKore t ↔ s = t) ∧ (klabelKore s = klabelKore t ↔ s = t) := by
  have hinj := @klabelEscapeKore_injective s t
  refine ⟨⟨fun h => hinj h, fun h => h ▸ rfl⟩, ⟨fun h => hinj ?_, fun h => h ▸ rfl⟩⟩
  rw [klabelKore, klabelKore, String.append_left_inj, String.append_right_inj] at h
  exact h

example : klabelEscapeKore "_<=&&_a-b" = "'Unds-LT-EqlsAndAndUnds'a-b" := by decide +kernel

end CSemantics.Parser
