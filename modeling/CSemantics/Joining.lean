/-
  The algebra of `bit::`.

  Up to `explodeToBits` the operation is what it looks like: it appends, so it is associative.  And the chunks
  that `splitToBytes` makes of a piece join to the piece again, if the piece has a whole number of bytes.

  As a LIST OF PIECES the result of `bit::` should be canonical: no two neighbours in it that `piecesJoinable`
  would join.  `joinAllPieces` merges at the head only and stops, so what happens where two lists meet
  depends on the first of them:

      one piece                 it takes the first piece of the second list, if it can
      several pieces            nothing is joined; an integer behind `[int, trap]` joins, a trap does not

  The condition is on the operands, before anything is joined: `BitExpr.JoinsInOrder`.

      normal_eval_iff   when the list is canonical
      splitsBack_iff    when the chunks give back the piece
      bits_algebra_iff  both, with the laws that always hold
-/
import CSemantics.Bits
import CSemantics.Lib.RunMerge

namespace CSemantics

open IntBits RunMerge

/-! ## Which pieces join -/

/-- `piecesJoinable` -/
def piecesJoinable : Piece → Piece → Bool
  | (.int _, _), (.int _, _) => true
  | (.unknown _, _), (.unknown _, _) => true
  | (.trap, _), (.trap, _) => true
  | (.encodedPtr p _ hi, _), (.encodedPtr p' lo' _, _) => p = p' ∧ hi = lo'
  | (.encodedValue v _ hi, _), (.encodedValue v' lo' _, _) => v = v' ∧ hi = lo'
  | _, _ => false

/-- `joinPieces` has a rule where `piecesJoinable`. -/
theorem joinPieces_eq_none_iff (x y : Piece) : joinPieces x y = none ↔ piecesJoinable x y = false := by
  obtain ⟨a, l⟩ := x
  obtain ⟨b, l'⟩ := y
  cases a <;> cases b <;> simp [joinPieces, piecesJoinable]

/-- **A joined piece joins with what its ends join with**: the kind stays, and a range has the start of the
    first and the end of the second. -/
theorem endsKept_joinPieces : EndsKept joinPieces where
  left := by
    rintro ⟨a, l⟩ ⟨b, l'⟩ z h ⟨c, n⟩
    rw [joinPieces_eq_none_iff, joinPieces_eq_none_iff]
    cases a <;> cases b <;> simp only [joinPieces, reduceCtorEq] at h
    case encodedPtr.encodedPtr p lo hi p' lo' hi' =>
      split at h
      · cases h
        cases c <;> rfl
      · cases h
    case encodedValue.encodedValue v lo hi v' lo' hi' =>
      split at h
      · cases h
        cases c <;> rfl
      · cases h
    all_goals
      cases h
      cases c <;> rfl
  right := by
    rintro ⟨a, l⟩ ⟨b, l'⟩ z h ⟨c, n⟩
    rw [joinPieces_eq_none_iff, joinPieces_eq_none_iff]
    cases a <;> cases b <;> simp only [joinPieces, reduceCtorEq] at h
    case encodedPtr.encodedPtr p lo hi p' lo' hi' =>
      split at h
      · rename_i hjoin
        obtain ⟨rfl, -⟩ := hjoin
        cases h
        cases c <;> rfl
      · cases h
    case encodedValue.encodedValue v lo hi v' lo' hi' =>
      split at h
      · rename_i hjoin
        obtain ⟨rfl, -⟩ := hjoin
        cases h
        cases c <;> rfl
      · cases h
    all_goals
      cases h
      cases c <;> rfl

theorem joinHead_eq (x : Piece) (L : List Piece) : joinHead x L = mergeHead joinPieces x L := by
  induction L generalizing x with
  | nil => rfl
  | cons y L ih =>
    rw [joinHead, mergeHead]
    cases joinPieces x y with
    | none => rfl
    | some z => exact ih z

theorem joinAllPieces_eq (L : List Piece) : joinAllPieces L = mergeAll joinPieces L := by
  cases L with
  | nil => rfl
  | cons x L => exact joinHead_eq x L

/-! ## The pieces of a run -/

/-- The pieces side by side; an atom is one. -/
def Bits.runs (b : Bits) : List Piece :=
  match b.val with
  | .atom a => [(a, b.len)]
  | .pieces ps => ps

/-- The list inside the run has no two neighbours that could be joined. -/
def Bits.Canonical (b : Bits) : Prop :=
  match b.val with
  | .atom _ => True
  | .pieces ps => ps.IsChain fun x y => piecesJoinable x y = false

theorem canonical_iff (b : Bits) : b.Canonical ↔ RunMerge.Normal joinPieces b.runs := by
  obtain ⟨val, len⟩ := b
  unfold RunMerge.Normal
  simp only [joinPieces_eq_none_iff]
  cases val with
  | atom a => exact ⟨fun _ => List.isChain_singleton _, fun _ => trivial⟩
  | pieces ps => exact Iff.rfl

/-- **`bit::` on the pieces**: one list behind the other, merged at the head. -/
theorem join_runs (x y : Bits) : (x.join y).runs = mergeAll joinPieces (x.runs ++ y.runs) := by
  obtain ⟨xv, xl⟩ := x
  obtain ⟨yv, yl⟩ := y
  rw [← joinAllPieces_eq]
  cases xv with
  | pieces ps =>
    cases yv with
    | pieces ps' => rfl
    | atom b => rfl
  | atom a =>
    cases yv with
    | pieces ps' => rfl
    | atom b =>
      show (Bits.join ⟨.atom a, xl⟩ ⟨.atom b, yl⟩).runs = joinHead (a, xl) [(b, yl)]
      rw [joinHead]
      unfold Bits.join
      cases hj : joinPieces (a, xl) (b, yl) with
      | none => simp only [hj]; rfl
      | some z => simp only [hj]; rfl

theorem join_len (x y : Bits) : (x.join y).len = x.len + y.len := by
  obtain ⟨xv, xl⟩ := x
  obtain ⟨yv, yl⟩ := y
  cases xv with
  | pieces ps => cases yv <;> rfl
  | atom a =>
    cases yv with
    | pieces ps' => rfl
    | atom b =>
      unfold Bits.join
      cases hj : joinPieces (a, xl) (b, yl) with
      | none => simp only [hj]
      | some z =>
        simp only [hj]
        cases a <;> cases b <;> simp only [joinPieces, reduceCtorEq, Option.some.injEq] at hj
        case encodedPtr.encodedPtr =>
          split at hj
          · cases hj
            rfl
          · cases hj
        case encodedValue.encodedValue =>
          split at hj
          · cases hj
            rfl
          · cases hj
        all_goals
          cases hj
          rfl

/-! ## A sequence of operations -/

/-- Pieces put together with `bit::`, in any order. -/
inductive BitExpr
  | piece (a : BitAtom) (len : Nat)
  | join (l r : BitExpr)

namespace BitExpr

def eval : BitExpr → Bits
  | piece a len => ⟨.atom a, len⟩
  | join l r => l.eval.join r.eval

/-- The pieces, from the left. -/
def leaves : BitExpr → List Piece
  | piece a len => [(a, len)]
  | join l r => l.leaves ++ r.leaves

def first : BitExpr → Piece
  | piece a len => (a, len)
  | join l _ => l.first

def last : BitExpr → Piece
  | piece a len => (a, len)
  | join _ r => r.last

/-- Each piece joins with the next, all the way. -/
def OneRun (t : BitExpr) : Prop := t.leaves.IsChain fun x y => piecesJoinable x y = true

/-- Where two pieces meet that could be joined, what is on the left is one run from its start. -/
def JoinsInOrder : BitExpr → Prop
  | piece _ _ => True
  | join l r => l.JoinsInOrder ∧ r.JoinsInOrder ∧ (piecesJoinable l.last r.first = true → l.OneRun)

theorem leaves_head (t : BitExpr) : ∃ L, t.leaves = t.first :: L := by
  induction t with
  | piece a len => exact ⟨[], rfl⟩
  | join l r ihl _ =>
    obtain ⟨L, hL⟩ := ihl
    exact ⟨L ++ r.leaves, by rw [leaves, hL]; rfl⟩

theorem leaves_getLast (t : BitExpr) : t.leaves.getLast? = some t.last := by
  induction t with
  | piece a len => rfl
  | join l r _ ihr =>
    rw [leaves, List.getLast?_append, ihr]
    rfl

/-- One run on both sides, and the two join. -/
theorem oneRun_join {l r : BitExpr} :
    (join l r).OneRun ↔ l.OneRun ∧ r.OneRun ∧ piecesJoinable l.last r.first = true := by
  obtain ⟨L, hL⟩ := r.leaves_head
  unfold OneRun
  rw [leaves, List.isChain_append, l.leaves_getLast, hL]
  simp

/-- What is known of the pieces of a result: they are there, the first is stuck, the ends join with what the
    first and the last operand join with, and there is one piece exactly when the operands are one run. -/
structure Runs (t : BitExpr) (x : Piece) (L : List Piece) : Prop where
  eq : t.eval.runs = x :: L
  stuck : Stuck joinPieces (x :: L)
  head : ∀ w, joinPieces w x = none ↔ joinPieces w t.first = none
  last : ∀ e ∈ (x :: L).getLast?, ∀ w, joinPieces e w = none ↔ joinPieces t.last w = none
  single : L = [] ↔ t.OneRun

/-- **The pieces of a result**, whatever the order of the operations. -/
theorem exists_runs (t : BitExpr) : ∃ x L, t.Runs x L := by
  induction t with
  | piece a len =>
    refine ⟨(a, len), [], rfl, trivial, fun _ => Iff.rfl, fun e he w => ?_, ?_⟩
    · cases he
      exact Iff.rfl
    · exact ⟨fun _ => List.isChain_singleton _, fun _ => rfl⟩
  | join l r ihl ihr =>
    obtain ⟨x, L, hl⟩ := ihl
    obtain ⟨y, L', hr⟩ := ihr
    have heq : (join l r).eval.runs = mergeAll joinPieces (x :: L ++ y :: L') := by
      rw [eval, join_runs, hl.eq, hr.eq]
    cases L with
    | cons x' L =>
      rw [mergeAll_append_stuck hl.stuck] at heq
      refine ⟨x, x' :: L ++ y :: L', heq, hl.stuck, hl.head, fun e he w => ?_, ?_⟩
      · rw [← List.cons_append, List.getLast?_append_of_ne_nil _ (List.cons_ne_nil _ _)] at he
        exact hr.last e he w
      · rw [oneRun_join, ← hl.single]
        simp
    | nil =>
      have hjoin : ∀ w, joinPieces x w = none ↔ joinPieces l.last w = none := hl.last x rfl
      have hl' : l.OneRun := hl.single.mp rfl
      rcases mergeHead_cons_stuck (x := x) endsKept_joinPieces hr.stuck with ⟨hnone, hmerge⟩ | ⟨z, hsome, hmerge⟩
      · refine ⟨x, y :: L', heq.trans hmerge, hnone, hl.head, fun e he w => ?_, ?_⟩
        · rw [List.getLast?_cons_cons] at he
          exact hr.last e he w
        · have hnot : piecesJoinable l.last r.first = false := by
            rw [← joinPieces_eq_none_iff, ← hr.head, ← hjoin]
            exact hnone
          rw [oneRun_join, hnot]
          simp
      · have hyes : piecesJoinable l.last r.first = true := by
          rw [← Bool.not_eq_false, ← joinPieces_eq_none_iff, ← hr.head, ← hjoin, hsome]
          simp
        refine ⟨z, L', heq.trans hmerge, endsKept_joinPieces.stuck_cons hsome hr.stuck, fun w => ?_, fun e he w => ?_, ?_⟩
        · rw [endsKept_joinPieces.left x y z hsome w]
          exact hl.head w
        · cases L' with
          | nil =>
            cases he
            show joinPieces z w = none ↔ joinPieces r.last w = none
            rw [endsKept_joinPieces.right x y z hsome w]
            exact hr.last y rfl w
          | cons y' L' =>
            rw [List.getLast?_cons_cons] at he
            refine hr.last e ?_ w
            rw [List.getLast?_cons_cons]
            exact he
        · rw [oneRun_join, hr.single]
          exact ⟨fun h => ⟨hl', h, hyes⟩, fun h => h.2.1⟩

/-- **When the result is canonical.** -/
theorem canonical_eval_iff (t : BitExpr) : t.eval.Canonical ↔ t.JoinsInOrder := by
  induction t with
  | piece a len => exact ⟨fun _ => trivial, fun _ => trivial⟩
  | join l r ihl ihr =>
    obtain ⟨x, L, hl⟩ := l.exists_runs
    obtain ⟨y, L', hr⟩ := r.exists_runs
    rw [JoinsInOrder, ← ihl, ← ihr, canonical_iff, canonical_iff, canonical_iff, eval, join_runs, hl.eq, hr.eq,
      normal_mergeAll_append endsKept_joinPieces hl.stuck hr.stuck, hl.single]
    have hlink : (∀ e ∈ (x :: L).getLast?, joinPieces e y = none) ↔ piecesJoinable l.last r.first = false := by
      rw [← joinPieces_eq_none_iff, ← hr.head]
      obtain ⟨e, he⟩ : ∃ e, (x :: L).getLast? = some e := ⟨_, List.getLast?_cons⟩
      rw [he]
      constructor
      · exact fun h => (hl.last e he y).mp (h e rfl)
      · intro h e' he'
        cases he'
        exact (hl.last e he y).mpr h
    rw [hlink, or_comm, or_iff_not_imp_left, Bool.not_eq_false]

end BitExpr

/-! ## Splitting and joining again -/

/-- An atom of a whole number of bytes, and at least one. -/
def Bits.WholeBytes (cfg : Settings) (b : Bits) : Prop :=
  (∃ a, b.val = .atom a) ∧ 0 < b.len ∧ (cfg.bitsPerByte : Nat) ∣ b.len

/-- The chunks of `splitToBytes`, joined from the left, are the piece again. -/
def SplitsBack (cfg : Settings) (b : Bits) : Prop :=
  ∃ c L, splitToBytes cfg b = .ok (c :: L) ∧ L.foldl Bits.join c = b

/-- Two neighbouring chunks make one. -/
theorem sub_join (a : BitAtom) (d m n : Nat) :
    Bits.join ⟨.atom (a.sub d m), m⟩ ⟨.atom (a.sub (d + m) n), n⟩ = ⟨.atom (a.sub d (m + n)), m + n⟩ := by
  cases a with
  | int v =>
    have hadd := slice_add v d m n
    rw [mul_comm, add_comm] at hadd
    simp only [BitAtom.sub, BitAtom.chunkFrom, Nat.zero_add]
    rw [join_int n (slice_nonneg _ _ _) (slice_lt _ _ _), hadd]
  | unknown v =>
    have hadd := slice_add v d m n
    rw [mul_comm, add_comm] at hadd
    simp only [BitAtom.sub, BitAtom.chunkFrom, Nat.zero_add, Bits.join, joinPieces]
    rw [lor_shiftLeft_eq (slice_nonneg _ _ _) (slice_lt _ _ _), hadd]
  | trap => rfl
  | encodedPtr p lo hi => simp [BitAtom.sub, BitAtom.chunkFrom, Bits.join, joinPieces, Nat.add_assoc]
  | encodedValue v lo hi => simp [BitAtom.sub, BitAtom.chunkFrom, Bits.join, joinPieces, Nat.add_assoc]

/-- All bits of a well-formed atom. -/
theorem sub_self {a : BitAtom} {len : Nat} (h : a.WF len) : a.sub 0 len = a := by
  cases a with
  | int n => simpa [BitAtom.sub, BitAtom.chunkFrom] using slice_eq_self n len h.1 h.2
  | unknown n => simpa [BitAtom.sub, BitAtom.chunkFrom] using slice_eq_self n len h.1 h.2
  | trap => rfl
  | encodedPtr p lo hi =>
    have hhi : hi = lo + len := h
    simp [BitAtom.sub, BitAtom.chunkFrom, hhi]
  | encodedValue v lo hi =>
    have hhi : hi = lo + len := h
    simp [BitAtom.sub, BitAtom.chunkFrom, hhi]

/-- The first `k + 1` chunks make the first `chunk * (k + 1)` bits. -/
theorem foldl_chunks (a : BitAtom) (chunk k : Nat) :
    ((List.range k).map fun j => (⟨.atom (a.sub (chunk * (j + 1)) chunk), chunk⟩ : Bits)).foldl Bits.join
      ⟨.atom (a.sub 0 chunk), chunk⟩ = ⟨.atom (a.sub 0 (chunk * (k + 1))), chunk * (k + 1)⟩ := by
  induction k with
  | zero => simp
  | succ k ih =>
    have hjoin := sub_join a 0 (chunk * (k + 1)) chunk
    rw [Nat.zero_add] at hjoin
    rw [List.range_succ, List.map_append, List.foldl_append, ih, List.map_singleton, List.foldl_cons, List.foldl_nil,
      hjoin, Nat.mul_succ chunk (k + 1)]

/-- Every chunk has the length asked for. -/
theorem len_of_mem_splinter {a : BitAtom} {pos len chunk : Nat} {b : Bits} (h : b ∈ splinter a pos len chunk) :
    b.len = chunk := by
  have hencode : ∀ v, (encode v pos (pos + chunk)).len = chunk := by
    intro v
    cases v <;> simp [encode]
  rw [splinter.eq_def] at h
  split at h
  case isFalse => cases h
  cases a with
  | int n =>
    rcases List.mem_cons.mp h with rfl | h
    · exact hencode _
    · exact len_of_mem_splinter h
  | unknown n =>
    rcases List.mem_cons.mp h with rfl | h
    · exact hencode _
    · exact len_of_mem_splinter h
  | trap =>
    rcases List.mem_cons.mp h with rfl | h
    · exact hencode _
    · exact len_of_mem_splinter h
  | encodedPtr p lo hi =>
    simp only at h
    split at h
    · rcases List.mem_cons.mp h with rfl | h
      · rfl
      · exact len_of_mem_splinter h
    · cases h
  | encodedValue v lo hi =>
    simp only at h
    split at h
    · rcases List.mem_cons.mp h with rfl | h
      · rfl
      · exact len_of_mem_splinter h
    · cases h
termination_by len - pos
decreasing_by all_goals omega

/-- Chunks of one length join to a multiple of it. -/
theorem dvd_len_foldl {chunk : Nat} {c : Bits} {L : List Bits} (hc : chunk ∣ c.len) (hL : ∀ b ∈ L, b.len = chunk) :
    chunk ∣ (L.foldl Bits.join c).len := by
  induction L generalizing c with
  | nil => exact hc
  | cons b L ih =>
    obtain ⟨hb, hL⟩ := List.forall_mem_cons.mp hL
    rw [List.foldl_cons]
    refine ih ?_ hL
    rw [join_len, hb]
    exact dvd_add hc (dvd_refl chunk)

/-- **When the chunks give back the piece.** -/
theorem splitsBack_iff {cfg : Settings} {b : Bits} (hb : b.WF) : SplitsBack cfg b ↔ b.WholeBytes cfg := by
  have hpos : 0 < (cfg.bitsPerByte : Nat) := cfg.bitsPerByte.pos
  obtain ⟨val, len⟩ := b
  cases val with
  | pieces ps =>
    constructor
    · rintro ⟨c, L, hsplit, -⟩
      cases hsplit
    · rintro ⟨⟨a, ha⟩, -⟩
      cases ha
  | atom a =>
    have ha : a.WF len := hb
    have hsplit : splitToBytes cfg ⟨.atom a, len⟩ = .ok (splinter a 0 len cfg.bitsPerByte) := rfl
    constructor
    · rintro ⟨c, L, hcL, hback⟩
      rw [hsplit] at hcL
      have hchunks : splinter a 0 len cfg.bitsPerByte = c :: L := Except.ok.inj hcL
      have hmem : ∀ b ∈ c :: L, b.len = cfg.bitsPerByte := fun b hb => len_of_mem_splinter (hchunks ▸ hb)
      have hdvd : (cfg.bitsPerByte : Nat) ∣ len := by
        have hc : (cfg.bitsPerByte : Nat) ∣ c.len := by rw [hmem c List.mem_cons_self]
        have hfold := dvd_len_foldl hc fun b hb => hmem b (List.mem_cons_of_mem c hb)
        rw [hback] at hfold
        exact hfold
      refine ⟨⟨a, rfl⟩, ?_, hdvd⟩
      rcases Nat.eq_zero_or_pos len with rfl | h
      · rw [splinter.eq_def, dif_neg (by omega)] at hchunks
        cases hchunks
      · exact h
    · rintro ⟨-, hlen, ⟨k, rfl⟩⟩
      have hk : 0 < k := Nat.pos_of_mul_pos_left hlen
      obtain ⟨k, rfl⟩ : ∃ n, k = n + 1 := ⟨k - 1, by omega⟩
      rw [splinter_wf hpos ha, List.range_succ_eq_map, List.map_cons, List.map_map, Nat.mul_zero] at hsplit
      refine ⟨_, _, hsplit, ?_⟩
      have hall := foldl_chunks a cfg.bitsPerByte k
      rw [sub_self ha] at hall
      exact hall

/-! ## The algebra -/

/-- **The algebra of partial bits**: for the runs `x`, `y` and `z`, and for the result of the operations in `t`. -/
structure BitAlgebra (cfg : Settings) (x y z : Bits) (t : BitExpr) : Prop where
  append : explodeToBits [x.join y] = explodeToBits [x] ++ explodeToBits [y]
  assoc : explodeToBits [(x.join y).join z] = explodeToBits [x.join (y.join z)]
  split : SplitsBack cfg x
  canonical : t.eval.Canonical

/-- **Partial bits.**  The laws hold exactly when the piece that is split has a whole number of bytes, and wherever
    two pieces meet that could be joined, what is on the left is one run from its start. -/
theorem bits_algebra_iff (cfg : Settings) (x y z : Bits) (t : BitExpr) (hx : x.WF) (hy : y.WF) (hz : z.WF) :
    BitAlgebra cfg x y z t ↔ x.WholeBytes cfg ∧ t.JoinsInOrder := by
  have hexplode : ∀ b : Bits, explodeToBits [b] = explode b := by
    intro b
    simp [explodeToBits]
  obtain ⟨hxy, -, hjoin⟩ := join_spec hx hy
  obtain ⟨hyz, -, hjoin'⟩ := join_spec hy hz
  constructor
  · intro h
    exact ⟨(splitsBack_iff hx).mp h.split, t.canonical_eval_iff.mp h.canonical⟩
  · rintro ⟨hwhole, horder⟩
    refine ⟨?_, ?_, (splitsBack_iff hx).mpr hwhole, t.canonical_eval_iff.mpr horder⟩
    · rw [hexplode, hexplode, hexplode, hjoin]
    · rw [hexplode, hexplode, (join_spec hxy hz).2.2, (join_spec hx hyz).2.2, hjoin, hjoin', List.append_assoc]

/-- A byte, two bits of a trap, and an integer between traps. -/
theorem bits_algebra_byte :
    BitAlgebra x86GccLimitedLibc ⟨.atom (.int 5), 8⟩ ⟨.atom .trap, 2⟩ ⟨.atom .trap, 1⟩
      (.join (.join (.piece .trap 1) (.piece .trap 1)) (.piece (.int 1) 1)) := by
  have hbyte : Bits.WF ⟨.atom (.int 5), 8⟩ := show (0 : Int) ≤ 5 ∧ (5 : Int) < 2 ^ 8 by decide
  have htrap : ∀ len, Bits.WF ⟨.atom .trap, len⟩ := fun _ => trivial
  refine (bits_algebra_iff _ _ _ _ _ hbyte (htrap 2) (htrap 1)).mpr ⟨⟨⟨_, rfl⟩, by decide, by decide⟩, ?_⟩
  refine ⟨⟨trivial, trivial, fun _ => List.isChain_singleton _⟩, trivial, fun h => absurd h (by decide)⟩

/-- **A trap behind an integer and a trap is not joined**, although the two traps could be. -/
theorem bits_not_canonical :
    let t : BitExpr := .join (.join (.piece (.int 1) 1) (.piece .trap 1)) (.piece .trap 1)
    t.eval = ⟨.pieces [(.int 1, 1), (.trap, 1), (.trap, 1)], 3⟩ ∧ ¬ t.eval.Canonical := by
  refine ⟨rfl, fun h => ?_⟩
  have hchain : List.IsChain (fun x y => piecesJoinable x y = false) [(.int 1, 1), (.trap, 1), (.trap, 1)] := h
  simp [piecesJoinable] at hchain

end CSemantics
