/-
  The places of a body.

  The calculator writes down at a label what it has walked through so far; the machine gets to the label
  by entering blocks, unfolding loops and taking back what it saved on the loop stack.  Both have the same blocks,
  continuation and loops at the label since every state of the machine is a PLACE in the tree of statements.

  `On f K ls bh ds` says that the sequence `K` is what is left at such a place, inside the blocks `bh` and
  the loops `ls`, after the declarations `ds` of these blocks.  It is given by what can stand at the front of
  `K`: a statement whose records are records of the body, the end of a block, the mark of a loop that is
  about to go round, and so on; `LoopsOn` says the same of what the loops have saved.  Only what comes
  before the first `popLoop` counts, since `popLoop` throws away the rest (`upto`).

  Two things need care.  A loop goes round through states the calculator never sees, with the declarations of
  the last round undone; so `On` drops the declarations of a block where the block ends.  And `continue`
  skips declarations without executing them; so behind a `continue` the place has declarations that have
  not been made, in blocks that the `continue` leaves (`SameBelow`).

      Stmt.map_live_records   the records, with the declarations of the blocks around the label only
      on_all                  statements that fit lead to what comes after them
      Stmt.normal_of_record   what a label records is a place
-/
import CSemantics.Translation.ProcessLabel
import CSemantics.Execution.Stmt

namespace CSemantics

variable {E : Type}

/-! ## Up to the next `popLoop` -/

def KItem.isPopLoop : KItem E → Bool
  | .popLoop => true
  | _ => false

/-- A sequence without what comes after its first `popLoop`. -/
def upto : KSeq E → KSeq E
  | [] => []
  | i :: K => if i.isPopLoop then [i] else i :: upto K

/-- The loop stack with each saved sequence up to its first `popLoop`. -/
def uptoLoops (ls : LoopStack E) : LoopStack E := ls.map fun p => (p.1, upto p.2)

/-- A goto object with the continuations up to the first `popLoop`. -/
def GotoObject.upto (o : GotoObject E) : GotoObject E :=
  { o with k := CSemantics.upto o.k, loopStack := uptoLoops o.loopStack }

def uptoRecords (M : GotoMap E) : GotoMap E := M.map fun r => (r.1, r.2.upto)

@[simp] theorem upto_popLoop (K : KSeq E) : upto (.popLoop :: K) = [.popLoop] := rfl

theorem upto_append_congr {K K' : KSeq E} (S : KSeq E) (h : upto K = upto K') : upto (S ++ K) = upto (S ++ K') := by
  induction S with
  | nil => exact h
  | cons i S ih =>
    rw [List.cons_append, List.cons_append, upto, upto, ih]

theorem upto_cons_congr {K K' : KSeq E} (i : KItem E) (h : upto K = upto K') : upto (i :: K) = upto (i :: K') :=
  upto_append_congr [i] h

theorem uptoLoops_cons_congr {ls ls' : LoopStack E} {K K' : KSeq E} (n : Int) (hK : upto K = upto K')
    (hls : uptoLoops ls = uptoLoops ls') : uptoLoops ((n, K) :: ls) = uptoLoops ((n, K') :: ls') := by
  unfold uptoLoops at hls ⊢
  rw [List.map_cons, List.map_cons, hls, hK]

section Congr

variable (after : Int → Stmt E → List (FrozenDeclaration E))

mutual

/-- The records depend on what follows, and on what the loops have saved, up to the next `popLoop`. -/
theorem Stmt.records_congr {rest rest' : KSeq E} {ls ls' : LoopStack E} (bh : List Int) (ds : List (FrozenDeclaration E))
    (hrest : upto rest = upto rest') (hls : uptoLoops ls = uptoLoops ls') : ∀ s : Stmt E,
    uptoRecords (s.records after bh rest ls ds) = uptoRecords (s.records after bh rest' ls' ds)
  | .simple _ => by rw [Stmt.records, Stmt.records]
  | .decl _ => by rw [Stmt.records, Stmt.records]
  | .block tag ss => by
    rw [Stmt.records, Stmt.records]
    exact recordsAll_congr _ ds (upto_cons_congr _ hrest) hls ss
  | .IfThenElse _ tagT t tagF f => by
    have hT := recordsAll_congr (tagT :: bh) ds (upto_cons_congr .popBlock hrest) hls t
    have hF := recordsAll_congr (tagF :: bh) ds (upto_cons_congr .popBlock hrest) hls f
    unfold uptoRecords at hT hF ⊢
    rw [Stmt.records, Stmt.records, List.map_append, List.map_append, hT, hF]
  | .loop h tag ss => by
    rw [Stmt.records, Stmt.records]
    refine recordsAll_congr _ ds (upto_cons_congr _ ?_) (uptoLoops_cons_congr _ hrest hls) ss
    exact upto_append_congr _ rfl
  | .Switch _ _ tag ss => by
    rw [Stmt.records, Stmt.records]
    refine recordsAll_congr _ ds (upto_cons_congr _ ?_) (uptoLoops_cons_congr _ hrest hls) ss
    rfl
  | .labeled m ss => by
    have hss := recordsAll_congr bh ds hrest hls ss
    unfold uptoRecords at hss ⊢
    rw [Stmt.records, Stmt.records, List.map_cons, List.map_cons, hss]
    unfold GotoObject.upto
    simp only [upto_append_congr _ hrest, hls]

theorem recordsAll_congr {rest rest' : KSeq E} {ls ls' : LoopStack E} (bh : List Int) (ds : List (FrozenDeclaration E))
    (hrest : upto rest = upto rest') (hls : uptoLoops ls = uptoLoops ls') : ∀ ss : List (Stmt E),
    uptoRecords (recordsAll after bh rest ls ds ss) = uptoRecords (recordsAll after bh rest' ls' ds ss)
  | [] => by rw [recordsAll, recordsAll]
  | s :: ss => by
    have hs := Stmt.records_congr bh ds (upto_append_congr (elaborateAll ss) hrest) hls s
    have hss := recordsAll_congr bh (ds ++ after (bh.headD 0) s) hrest hls ss
    unfold uptoRecords at hs hss ⊢
    rw [recordsAll, recordsAll, List.map_append, List.map_append, hs, hss]

end

end Congr

/-! ## The declarations of the blocks around a place -/

/-- The declarations of some of the blocks. -/
def under (bh : List Int) (ds : List (FrozenDeclaration E)) : List (FrozenDeclaration E) :=
  ds.filter fun d => d.blockNum ∈ bh

/-- The declarations a statement adds to the block `b` it is in. -/
def place (b : Int) (s : Stmt E) : List (FrozenDeclaration E) := s.own.map fun d => ⟨b, d⟩

def placeAll (b : Int) (ss : List (Stmt E)) : List (FrozenDeclaration E) := (ownAll ss).map fun d => ⟨b, d⟩

theorem placeAll_cons (b : Int) (s : Stmt E) (ss : List (Stmt E)) : placeAll b (s :: ss) = place b s ++ placeAll b ss := by
  rw [placeAll, ownAll, List.map_append]
  rfl

/-- A record with the declarations of the blocks around the label only. -/
def live (r : LabelId E × GotoObject E) : LabelId E × GotoObject E :=
  (r.1, { r.2 with declStack := under r.2.blockHistory r.2.declStack })

theorem under_append (bh : List Int) (ds ds' : List (FrozenDeclaration E)) :
    under bh (ds ++ ds') = under bh ds ++ under bh ds' := List.filter_append ..

theorem under_eq_self {bh : List Int} {ds : List (FrozenDeclaration E)} (h : ∀ d ∈ ds, d.blockNum ∈ bh) :
    under bh ds = ds := by
  refine List.filter_eq_self.mpr fun d hd => ?_
  simpa using h d hd

theorem under_eq_nil {bh : List Int} {ds : List (FrozenDeclaration E)} (h : ∀ d ∈ ds, d.blockNum ∉ bh) :
    under bh ds = [] := by
  refine List.filter_eq_nil_iff.mpr fun d hd => ?_
  simpa using h d hd

theorem under_cons_of_fresh {bh : List Int} {ds : List (FrozenDeclaration E)} {tag : Int}
    (h : ∀ d ∈ ds, d.blockNum ≠ tag) : under (tag :: bh) ds = under bh ds := by
  refine List.filter_congr fun d hd => ?_
  simp [h d hd]

mutual

/-- What a calculation adds is in the block the statement is in or in a block of the statement. -/
theorem Stmt.blockNum_frozen (b : Int) : ∀ (s : Stmt E), ∀ d ∈ s.frozen b, d.blockNum = b ∨ d.blockNum ∈ s.tags
  | .simple _ => by simp [Stmt.frozen]
  | .decl _ => by simp [Stmt.frozen]
  | .block tag ss => by
    intro d hd
    rw [Stmt.frozen] at hd
    have := blockNum_frozenAll tag ss d hd
    rw [Stmt.tags, List.mem_cons]
    exact .inr this
  | .IfThenElse _ _ _ _ _ => by simp [Stmt.frozen]
  | .loop h tag ss => by
    intro d hd
    cases h with
    | While b =>
      rw [Stmt.frozen] at hd
      have := blockNum_frozenAll tag ss d hd
      rw [Stmt.tags, List.mem_cons]
      exact .inr this
    | For _ _ => simp [Stmt.frozen] at hd
    | DoWhile _ => simp [Stmt.frozen] at hd
  | .Switch _ _ tag ss => by
    intro d hd
    rw [Stmt.frozen] at hd
    have := blockNum_frozenAll tag ss d hd
    rw [Stmt.tags, List.mem_cons]
    exact .inr this
  | .labeled _ ss => by
    intro d hd
    rw [Stmt.frozen] at hd
    rw [Stmt.tags]
    exact blockNum_frozenAll b ss d hd

theorem blockNum_frozenAll (b : Int) : ∀ (ss : List (Stmt E)), ∀ d ∈ frozenAll b ss, d.blockNum = b ∨ d.blockNum ∈ tagsAll ss
  | [] => by simp [frozenAll]
  | s :: ss => by
    intro d hd
    rw [frozenAll, List.mem_append] at hd
    rw [tagsAll, List.mem_append]
    rcases hd with hd | hd
    · exact (Stmt.blockNum_frozen b s d hd).imp_right .inl
    · exact (blockNum_frozenAll b ss d hd).imp_right .inr

end

/-- The declarations of a block inside are not in the blocks around. -/
theorem under_frozenAll_inner {bh : List Int} {tag : Int} (ss : List (Stmt E)) (h : ∀ t ∈ tag :: tagsAll ss, t ∉ bh) :
    under bh (frozenAll tag ss) = [] := by
  refine under_eq_nil fun d hd => h _ ?_
  rw [List.mem_cons]
  exact blockNum_frozenAll tag ss d hd

mutual

/-- What can stand outside of all blocks has its declarations in blocks of its own. -/
theorem Stmt.blockNum_frozen_of_free (b : Int) : ∀ s : Stmt E, s.free → ∀ d ∈ s.frozen b, d.blockNum ∈ s.tags
  | .simple _, _ => by simp [Stmt.frozen]
  | .block tag ss, _ => by
    intro d hd
    rw [Stmt.frozen] at hd
    rw [Stmt.tags, List.mem_cons]
    exact blockNum_frozenAll tag ss d hd
  | .IfThenElse _ _ _ _ _, _ => by simp [Stmt.frozen]
  | .labeled _ ss, h => by
    intro d hd
    rw [Stmt.frozen] at hd
    rw [Stmt.tags]
    exact blockNum_frozenAll_of_free b ss h d hd
  | .decl _, h => absurd h id
  | .loop _ _ _, h => absurd h id
  | .Switch _ _ _ _, h => absurd h id

theorem blockNum_frozenAll_of_free (b : Int) :
    ∀ ss : List (Stmt E), freeAll ss → ∀ d ∈ frozenAll b ss, d.blockNum ∈ tagsAll ss
  | [], _ => by simp [frozenAll]
  | s :: ss, h => by
    intro d hd
    rw [frozenAll, List.mem_append] at hd
    rw [tagsAll, List.mem_append]
    exact hd.imp (Stmt.blockNum_frozen_of_free b s h.1 d) (blockNum_frozenAll_of_free b ss h.2 d)

end

mutual

/-- Of what a calculation adds, only the statement's own declarations are in the blocks around it. -/
theorem Stmt.under_frozen {bh : List Int} {b : Int} (hb : b ∈ bh) :
    ∀ s : Stmt E, (∀ t ∈ s.tags, t ∉ bh) → under bh (s.frozen b) = place b s
  | .simple _, _ => by simp [Stmt.frozen, place, Stmt.own, under]
  | .decl d, _ => by simp [Stmt.frozen, place, Stmt.own, under, hb]
  | .block tag ss, h => by
    rw [place, Stmt.own, Stmt.frozen, List.map_nil]
    exact under_frozenAll_inner ss h
  | .IfThenElse _ _ _ _ _, _ => by simp [Stmt.frozen, place, Stmt.own, under]
  | .loop head tag ss, h => by
    rw [place, Stmt.own, List.map_nil]
    cases head with
    | While b => exact under_frozenAll_inner ss h
    | For _ _ => rfl
    | DoWhile _ => rfl
  | .Switch _ _ tag ss, h => by
    rw [place, Stmt.own, Stmt.frozen, List.map_nil]
    exact under_frozenAll_inner ss h
  | .labeled _ ss, h => by
    rw [Stmt.tags] at h
    rw [place, Stmt.own, Stmt.frozen]
    exact under_frozenAll hb ss h

theorem under_frozenAll {bh : List Int} {b : Int} (hb : b ∈ bh) :
    ∀ ss : List (Stmt E), (∀ t ∈ tagsAll ss, t ∉ bh) → under bh (frozenAll b ss) = placeAll b ss
  | [], _ => by rw [frozenAll]; rfl
  | s :: ss, h => by
    rw [tagsAll] at h
    rw [frozenAll, under_append, placeAll_cons,
      Stmt.under_frozen hb s fun t ht => h t (List.mem_append_left _ ht),
      under_frozenAll hb ss fun t ht => h t (List.mem_append_right _ ht)]

end

mutual

theorem Stmt.own_of_free : ∀ s : Stmt E, s.free → s.own = []
  | .simple _, _ => by rw [Stmt.own]
  | .block _ _, _ => by rw [Stmt.own]
  | .IfThenElse _ _ _ _ _, _ => by rw [Stmt.own]
  | .labeled _ ss, h => by rw [Stmt.own]; exact ownAll_of_free ss h
  | .decl _, h => absurd h id
  | .loop _ _ _, h => absurd h id
  | .Switch _ _ _ _, h => absurd h id

theorem ownAll_of_free : ∀ ss : List (Stmt E), freeAll ss → ownAll ss = []
  | [], _ => by rw [ownAll]
  | s :: ss, h => by rw [ownAll, Stmt.own_of_free s h.1, ownAll_of_free ss h.2]; rfl

end

/-- Behind a statement, what the calculation has seen and the declarations of the place still agree. -/
theorem under_after {bh : List Int} {ds da : List (FrozenDeclaration E)} {s : Stmt E} (hds : under bh ds = da)
    (htags : ∀ t ∈ s.tags, t ∉ bh) (hin : bh ≠ [] ∨ s.free) :
    under bh (ds ++ s.frozen (bh.headD 0)) = da ++ place (bh.headD 0) s := by
  rw [under_append, hds]
  cases bh with
  | nil =>
    have hown := Stmt.own_of_free s (hin.resolve_left fun h => h rfl)
    rw [place, hown]
    simp [under]
  | cons b bh => rw [List.headD_cons, Stmt.under_frozen List.mem_cons_self s htags]

/-- What is known of a list of statements in a block of its own. -/
theorem inner_facts {bh : List Int} {ds da : List (FrozenDeclaration E)} {tag : Int} {ts : List Int}
    (hds : under bh ds = da) (hfresh : ∀ d ∈ ds, d.blockNum ∉ tag :: ts) (htags : (tag :: ts ++ bh).Nodup) :
    under (tag :: bh) ds = da ∧ (∀ d ∈ ds, d.blockNum ∉ ts) ∧ (ts ++ tag :: bh).Nodup := by
  refine ⟨?_, fun d hd hd' => hfresh d hd (List.mem_cons_of_mem _ hd'), List.perm_middle.nodup_iff.mpr htags⟩
  rw [under_cons_of_fresh fun d hd hd' => hfresh d hd (by rw [hd']; exact List.mem_cons_self), hds]

/-- Behind a statement, what the calculation has seen is in no block of the statements that follow. -/
theorem fresh_after {bh ts : List Int} {ds : List (FrozenDeclaration E)} {s : Stmt E}
    (hfresh : ∀ d ∈ ds, d.blockNum ∉ s.tags ++ ts) (htags : (s.tags ++ (ts ++ bh)).Nodup) (hin : bh ≠ [] ∨ s.free) :
    ∀ d ∈ ds ++ s.frozen (bh.headD 0), d.blockNum ∉ ts := by
  obtain ⟨-, hnodup, hdisj⟩ := List.nodup_append.mp htags
  intro d hd hd'
  rcases List.mem_append.mp hd with hd | hd
  · exact hfresh d hd (List.mem_append_right _ hd')
  · have hblock : d.blockNum ∈ s.tags ∨ d.blockNum ∈ bh := by
      cases bh with
      | nil => exact .inl (Stmt.blockNum_frozen_of_free _ s (hin.resolve_left fun h => h rfl) d hd)
      | cons b bh =>
        rcases Stmt.blockNum_frozen _ s d hd with hb | hb
        · rw [hb]
          exact .inr List.mem_cons_self
        · exact .inl hb
    rcases hblock with hb | hb
    · exact hdisj _ hb _ (List.mem_append_left _ hd') rfl
    · exact (List.nodup_append.mp hnodup).2.2 _ hd' _ hb rfl

mutual

/-- **The records of the calculation**, with the declarations of the blocks around each label, are the
    records that have these only. -/
theorem Stmt.map_live_records {bh : List Int} {rest : KSeq E} {ls : LoopStack E}
    {ds da : List (FrozenDeclaration E)} (hds : under bh ds = da) :
    ∀ s : Stmt E, (∀ d ∈ ds, d.blockNum ∉ s.tags) → (s.tags ++ bh).Nodup → (bh ≠ [] ∨ s.free) →
      (s.records Stmt.frozen bh rest ls ds).map live = s.records place bh rest ls da
  | .simple _, _, _, _ => by rw [Stmt.records, Stmt.records, List.map_nil]
  | .decl _, _, _, _ => by rw [Stmt.records, Stmt.records, List.map_nil]
  | .block tag ss, hfresh, htags, _ => by
    obtain ⟨hds', hfresh', htags'⟩ := inner_facts hds hfresh htags
    rw [Stmt.records, Stmt.records]
    exact map_live_recordsAll hds' ss hfresh' htags' (.inl (by simp))
  | .IfThenElse _ tagT t tagF f, hfresh, htags, _ => by
    rw [Stmt.tags] at hfresh htags
    rw [List.append_assoc] at htags
    obtain ⟨hdsT, hfreshT, htagsT⟩ := inner_facts hds
      (fun d hd hd' => hfresh d hd (List.mem_append_left _ hd'))
      (List.Nodup.sublist (List.Sublist.append_left (List.sublist_append_right _ _) _) htags)
    obtain ⟨hdsF, hfreshF, htagsF⟩ := inner_facts hds
      (fun d hd hd' => hfresh d hd (List.mem_append_right _ hd'))
      (List.Nodup.sublist (List.sublist_append_right _ _) htags)
    rw [Stmt.records, Stmt.records, List.map_append, map_live_recordsAll hdsT t hfreshT htagsT (.inl (by simp)),
      map_live_recordsAll hdsF f hfreshF htagsF (.inl (by simp))]
  | .loop h tag ss, hfresh, htags, _ => by
    obtain ⟨hds', hfresh', htags'⟩ := inner_facts hds hfresh htags
    rw [Stmt.records, Stmt.records]
    exact map_live_recordsAll hds' ss hfresh' htags' (.inl (by simp))
  | .Switch _ _ tag ss, hfresh, htags, _ => by
    obtain ⟨hds', hfresh', htags'⟩ := inner_facts hds hfresh htags
    rw [Stmt.records, Stmt.records]
    exact map_live_recordsAll hds' ss hfresh' htags' (.inl (by simp))
  | .labeled m ss, hfresh, htags, hin => by
    rw [Stmt.tags] at hfresh htags
    rw [Stmt.records, Stmt.records, List.map_cons, map_live_recordsAll hds ss hfresh htags hin, live]
    simp only [hds]

theorem map_live_recordsAll {bh : List Int} {rest : KSeq E} {ls : LoopStack E}
    {ds da : List (FrozenDeclaration E)} (hds : under bh ds = da) :
    ∀ ss : List (Stmt E), (∀ d ∈ ds, d.blockNum ∉ tagsAll ss) → (tagsAll ss ++ bh).Nodup → (bh ≠ [] ∨ freeAll ss) →
      (recordsAll Stmt.frozen bh rest ls ds ss).map live = recordsAll place bh rest ls da ss
  | [], _, _, _ => by rw [recordsAll, recordsAll, List.map_nil]
  | s :: ss, hfresh, htags, hin => by
    rw [tagsAll] at hfresh htags
    rw [List.append_assoc] at htags
    obtain ⟨-, hnodup, hdisj⟩ := List.nodup_append.mp htags
    have hhead : (s.tags ++ bh).Nodup :=
      List.Nodup.sublist (List.Sublist.append_left (List.sublist_append_right _ _) _) htags
    have hafter := under_after hds
      (fun t ht ht' => hdisj t ht t (List.mem_append_right _ ht') rfl) (hin.imp id And.left)
    have hfresh' := fresh_after hfresh htags (hin.imp id And.left)
    rw [recordsAll, recordsAll, List.map_append, map_live_recordsAll hafter ss hfresh' hnodup (hin.imp id And.right),
      Stmt.map_live_records hds s (fun d hd hd' => hfresh d hd (List.mem_append_left _ hd')) hhead (hin.imp id And.left)]

end

/-! ## Places -/

mutual

/-- All declarations of a statement in the block `b`, in the order of the text. -/
def Stmt.decls (b : Int) : Stmt E → List (FrozenDeclaration E)
  | .simple _ => []
  | .decl d => [⟨b, d⟩]
  | .block tag ss => declsAll tag ss
  | .IfThenElse _ tagT t tagF f => declsAll tagT t ++ declsAll tagF f
  | .loop _ tag ss => declsAll tag ss
  | .Switch _ _ tag ss => declsAll tag ss
  | .labeled _ ss => declsAll b ss

def declsAll (b : Int) : List (Stmt E) → List (FrozenDeclaration E)
  | [] => []
  | s :: ss => s.decls b ++ declsAll b ss

end

/-- The records of a body, with the declarations of the blocks around each label only. -/
def FunctionBody.places (f : FunctionBody E) : GotoMap E := f.stmt.records place [] [] [] []

/-- The declarations of a body. -/
def FunctionBody.decls (f : FunctionBody E) : List (FrozenDeclaration E) := f.stmt.decls 0

/-- The innermost loop is not in the innermost block but further out. -/
def LoopOutside (ls : LoopStack E) (bh : List Int) : Prop := ∀ p ∈ ls.head?, p.1 ≠ bh.headD 0

/-- The innermost loop is in the innermost block. -/
def AtLoop (ls : LoopStack E) (bh : List Int) : Prop := ∃ p, ls.head? = some p ∧ bh.head? = some p.1

/-- The statements `ss` of the body are next, before `K`, inside `bh` and `ls` and after `ds`. -/
structure Fits (f : FunctionBody E) (K : KSeq E) (ls : LoopStack E) (bh : List Int)
    (ds : List (FrozenDeclaration E)) (ss : List (Stmt E)) : Prop where
  records : ∀ r ∈ uptoRecords (recordsAll place bh K ls ds ss), r ∈ uptoRecords f.places
  tags : (tagsAll ss ++ bh).Nodup
  decls : (ds ++ declsAll (bh.headD 0) ss).Sublist f.decls
  inBlock : bh ≠ [] ∨ freeAll ss
  inLoop : ownAll ss = [] ∨ LoopOutside ls bh

/-- The block `n` and those around it. -/
def below (n : Int) (bh : List Int) : List Int := bh.dropWhile (· ≠ n)

/-- Two lists of declarations that agree on the blocks the innermost loop is in. -/
def SameBelow (ls : LoopStack E) (bh : List Int) (ds ds' : List (FrozenDeclaration E)) : Prop :=
  ∀ p ∈ ls.head?, under (below p.1 bh) ds = under (below p.1 bh) ds'

/-- The terms that only go away, as far as blocks and loops are concerned. -/
def KItem.plain : KItem E → Bool
  | .simple _ => true
  | .sequencePoint => true
  | .init _ => true
  | _ => false

/-- `K` is what is left at a place inside `bh` and `ls`, after `ds`. -/
inductive On (f : FunctionBody E) : KSeq E → LoopStack E → List Int → List (FrozenDeclaration E) → Prop
  | nil {ls bh ds} : On f [] ls bh ds
  | stmt {s K ls bh ds} (hs : Fits f K ls bh ds [s]) (h : On f K ls bh (ds ++ place (bh.headD 0) s)) :
      On f (s.elaborate ++ K) ls bh ds
  | plain {i K ls bh ds} (hi : i.plain) (h : On f K ls bh ds) : On f (i :: K) ls bh ds
  | popBlock {K ls b bh ds} (hls : ∀ p ∈ ls, p.1 ∈ bh) (h : On f K ls bh (ds.filter (·.blockNum ≠ b))) :
      On f (.popBlock :: K) ls (b :: bh) ds
  | popLoop {K ls bh ds} : On f (.popLoop :: K) ls bh ds
  /-- a loop that is about to go round -/
  | marked {h tag ss K ls bh ds} (hh : h.marked = h)
      (hs : Fits f (h.again (blockSeq tag (elaborateAll ss)) ++ K) ls bh ds [.block tag ss])
      (hat : AtLoop ls bh) (hK : On f K ls bh ds) :
      On f (.loopMarked :: .loop h (blockSeq tag (elaborateAll ss)) :: K) ls bh ds
  /-- the test of a loop -/
  | test {e t u K ls bh ds} (hat : AtLoop ls bh) (ht : On f (t ++ K) ls bh ds) (hu : On f (u ++ K) ls bh ds)
      (h : On f K ls bh ds) : On f (.IfThenElse e t u :: K) ls bh ds
  /-- behind a `continue`, the place may have declarations in the blocks that are left -/
  | skip {K ls bh ds ds'} (hsame : SameBelow ls bh ds ds') (hds' : ∀ d ∈ ds', d.blockNum ∈ bh)
      (h : On f K ls bh ds') : On f (.simple .Continue :: K) ls bh ds
  | pushSkip {tag K ls bh ds} (htag : tag ∉ bh) (h : On f (.simple .Continue :: K) ls (tag :: bh) ds) :
      On f (.pushBlock tag :: .simple .Continue :: K) ls bh ds

/-- What the loops have saved are places too, in the block of each. -/
def LoopsOn (f : FunctionBody E) : LoopStack E → List Int → List (FrozenDeclaration E) → Prop
  | [], _, _ => True
  | (n, K) :: ls, bh, ds =>
    n ∈ bh ∧ On f K ls (below n bh) (under (below n bh) ds) ∧ LoopsOn f ls (below n bh) (under (below n bh) ds)

/-- A state of the machine between two gotos. -/
structure Normal (f : FunctionBody E) (K : KSeq E) (ls : LoopStack E) (bh : List Int)
    (ds : List (FrozenDeclaration E)) : Prop where
  on : On f K ls bh ds
  loops : LoopsOn f ls bh ds
  nodup : bh.Nodup
  blocks : ∀ d ∈ ds, d.blockNum ∈ bh

/-! ## Statements that fit -/

section Fits

variable {f : FunctionBody E} {K : KSeq E} {ls : LoopStack E} {bh : List Int} {ds : List (FrozenDeclaration E)}

@[simp] theorem elaborateAll_single (s : Stmt E) : elaborateAll [s] = s.elaborate := by simp [elaborateAll]

@[simp] theorem tagsAll_single (s : Stmt E) : tagsAll [s] = s.tags := by simp [tagsAll]

@[simp] theorem declsAll_single (b : Int) (s : Stmt E) : declsAll b [s] = s.decls b := by simp [declsAll]

@[simp] theorem ownAll_single (s : Stmt E) : ownAll [s] = s.own := by simp [ownAll]

@[simp] theorem recordsAll_single (after : Int → Stmt E → List (FrozenDeclaration E)) (s : Stmt E) :
    recordsAll after bh K ls ds [s] = s.records after bh K ls ds := by simp [recordsAll, elaborateAll]

mutual

/-- The own declarations of a statement come among all its declarations. -/
theorem Stmt.place_sublist (b : Int) : ∀ s : Stmt E, (place b s).Sublist (s.decls b)
  | .decl _ => by simp [place, Stmt.own, Stmt.decls]
  | .labeled _ ss => by
    rw [place, Stmt.own, Stmt.decls]
    exact placeAll_sublist b ss
  | .simple _ => by simp [place, Stmt.own]
  | .block _ _ => by simp [place, Stmt.own]
  | .IfThenElse _ _ _ _ _ => by simp [place, Stmt.own]
  | .loop _ _ _ => by simp [place, Stmt.own]
  | .Switch _ _ _ _ => by simp [place, Stmt.own]

theorem placeAll_sublist (b : Int) : ∀ ss : List (Stmt E), (placeAll b ss).Sublist (declsAll b ss)
  | [] => by simp [placeAll, ownAll]
  | s :: ss => by
    rw [placeAll_cons, declsAll]
    exact (Stmt.place_sublist b s).append (placeAll_sublist b ss)

end

namespace Fits

/-- Only what comes before the next `popLoop` counts, and the loops as far as they are compared. -/
theorem congr {K' : KSeq E} {ls' : LoopStack E} {ss : List (Stmt E)} (h : Fits f K ls bh ds ss)
    (hK : upto K = upto K') (hls : uptoLoops ls = uptoLoops ls') (hin : ownAll ss = [] ∨ LoopOutside ls' bh) :
    Fits f K' ls' bh ds ss where
  records := by
    rw [← recordsAll_congr place bh ds hK hls ss]
    exact h.records
  tags := h.tags
  decls := h.decls
  inBlock := h.inBlock
  inLoop := hin

/-- The first statement of a list, before the others. -/
theorem head {s : Stmt E} {ss : List (Stmt E)} (h : Fits f K ls bh ds (s :: ss)) :
    Fits f (elaborateAll ss ++ K) ls bh ds [s] where
  records := by
    intro r hr
    refine h.records r ?_
    rw [recordsAll_single] at hr
    rw [recordsAll]
    unfold uptoRecords at hr ⊢
    rw [List.map_append]
    exact List.mem_append_left _ hr
  tags := by
    have := h.tags
    rw [tagsAll, List.append_assoc] at this
    rw [tagsAll_single]
    exact List.Nodup.sublist (List.Sublist.append_left (List.sublist_append_right _ _) _) this
  decls := by
    have := h.decls
    rw [declsAll] at this
    rw [declsAll_single]
    exact (List.Sublist.append_left (List.sublist_append_left _ _) ds).trans this
  inBlock := h.inBlock.imp id fun hs => ⟨hs.1, trivial⟩
  inLoop := by
    rw [ownAll_single]
    refine h.inLoop.imp (fun hs => ?_) id
    rw [ownAll, List.append_eq_nil_iff] at hs
    exact hs.1

/-- The others, after the declarations of the first. -/
theorem tail {s : Stmt E} {ss : List (Stmt E)} (h : Fits f K ls bh ds (s :: ss)) :
    Fits f K ls bh (ds ++ place (bh.headD 0) s) ss where
  records := by
    intro r hr
    refine h.records r ?_
    rw [recordsAll]
    unfold uptoRecords at hr ⊢
    rw [List.map_append]
    exact List.mem_append_right _ hr
  tags := by
    have := h.tags
    rw [tagsAll, List.append_assoc] at this
    exact List.Nodup.sublist (List.sublist_append_right _ _) this
  decls := by
    have := h.decls
    rw [declsAll] at this
    refine List.Sublist.trans ?_ this
    rw [List.append_assoc]
    exact List.Sublist.append_left ((Stmt.place_sublist _ s).append_right _) ds
  inBlock := h.inBlock.imp id And.right
  inLoop := by
    refine h.inLoop.imp (fun hs => ?_) id
    rw [ownAll, List.append_eq_nil_iff] at hs
    exact hs.2

/-- What is in a block. -/
theorem inside {tag : Int} {ss : List (Stmt E)} (h : Fits f K ls bh ds [.block tag ss])
    (hls : ∀ p ∈ ls, p.1 ∈ bh) : Fits f (.popBlock :: K) ls (tag :: bh) ds ss where
  records := by
    have := h.records
    rw [recordsAll_single, Stmt.records] at this
    exact this
  tags := by
    have := h.tags
    rw [tagsAll_single, Stmt.tags] at this
    exact List.perm_middle.nodup_iff.mpr this
  decls := by
    have := h.decls
    rw [declsAll_single, Stmt.decls] at this
    exact this
  inBlock := .inl (by simp)
  inLoop := by
    right
    intro p hp hp'
    have htag := h.tags
    rw [tagsAll_single, Stmt.tags, List.cons_append, List.nodup_cons] at htag
    rw [List.headD_cons] at hp'
    exact htag.1 (List.mem_append_right _ (hp' ▸ hls p (List.mem_of_mem_head? hp)))

/-- Statements that are blocks as far as records, numbers and declarations go. -/
theorem asBlock {s : Stmt E} {tag : Int} {ss : List (Stmt E)} {K' : KSeq E} {ls' : LoopStack E}
    (h : Fits f K ls bh ds [s])
    (hrecords : ∀ r ∈ uptoRecords ((Stmt.block tag ss).records place bh K' ls' ds),
      r ∈ uptoRecords (s.records place bh K ls ds))
    (htags : (tag :: tagsAll ss).Sublist s.tags) (hdecls : (declsAll tag ss).Sublist (s.decls (bh.headD 0))) :
    Fits f K' ls' bh ds [.block tag ss] where
  records := by
    intro r hr
    rw [recordsAll_single] at hr
    refine h.records r ?_
    rw [recordsAll_single]
    exact hrecords r hr
  tags := by
    have := h.tags
    rw [tagsAll_single] at this ⊢
    rw [Stmt.tags]
    exact List.Nodup.sublist (htags.append_right _) this
  decls := by
    have := h.decls
    rw [declsAll_single] at this ⊢
    rw [Stmt.decls]
    exact (List.Sublist.append_left hdecls ds).trans this
  inBlock := .inr ⟨trivial, trivial⟩
  inLoop := .inl (by simp [Stmt.own])

/-- The branches of an `if`. -/
theorem branches {e : Expr E} {tagT tagF : Int} {t u : List (Stmt E)} (h : Fits f K ls bh ds [.IfThenElse e tagT t tagF u]) :
    Fits f K ls bh ds [.block tagT t] ∧ Fits f K ls bh ds [.block tagF u] := by
  constructor
  · refine h.asBlock (fun r hr => ?_) (by simp [Stmt.tags]) (by simp [Stmt.decls])
    rw [Stmt.records] at hr
    rw [Stmt.records]
    unfold uptoRecords at hr ⊢
    rw [List.map_append]
    exact List.mem_append_left _ hr
  · refine h.asBlock (fun r hr => ?_) (by simp [Stmt.tags]) (by simp [Stmt.decls])
    rw [Stmt.records] at hr
    rw [Stmt.records]
    unfold uptoRecords at hr ⊢
    rw [List.map_append]
    exact List.mem_append_right _ hr

/-- The body of a loop, once the loop has been entered. -/
theorem loopBody {head : LoopHead E} {tag n : Int} {ss : List (Stmt E)} (h : Fits f K ls (n :: bh) ds [.loop head tag ss]) :
    Fits f (head.marked.again (blockSeq tag (elaborateAll ss)) ++ .popLoop :: K) ((n, K) :: ls) (n :: bh) ds
      [.block tag ss] := by
  refine h.asBlock (fun r hr => ?_) (by simp [Stmt.tags]) (by simp [Stmt.decls])
  rw [Stmt.records] at hr
  rw [Stmt.records]
  exact hr

/-- The body of a switch. -/
theorem switchBody {sn tag n : Int} {v : Expr E} {ss : List (Stmt E)} (h : Fits f K ls (n :: bh) ds [.Switch sn v tag ss]) :
    Fits f (.popLoop :: K) ((n, K) :: ls) (n :: bh) ds [.block tag ss] := by
  refine h.asBlock (fun r hr => ?_) (by simp [Stmt.tags]) (by simp [Stmt.decls])
  rw [Stmt.records] at hr
  rw [Stmt.records]
  exact hr

/-- What a label stands before. -/
theorem afterLabel {m : Mark E} {ss : List (Stmt E)} (h : Fits f K ls bh ds [.labeled m ss]) : Fits f K ls bh ds ss where
  records := by
    intro r hr
    refine h.records r ?_
    rw [recordsAll_single, Stmt.records]
    exact List.mem_cons_of_mem _ hr
  tags := by simpa [Stmt.tags] using h.tags
  decls := by simpa [Stmt.decls] using h.decls
  inBlock := h.inBlock.imp id And.left
  inLoop := by simpa [Stmt.own] using h.inLoop

/-- The record of a label. -/
theorem record {m : Mark E} {ss : List (Stmt E)} (h : Fits f K ls bh ds [.labeled m ss]) :
    (m.labelId, GotoObject.upto ⟨bh, elaborateAll ss ++ K, ls, ds⟩) ∈ uptoRecords f.places := by
  refine h.records _ ?_
  rw [recordsAll_single, Stmt.records]
  exact List.mem_cons_self

end Fits

/-- **A list of statements** that fits leads to what comes after it. -/
theorem on_all {ss : List (Stmt E)} (hss : Fits f K ls bh ds ss)
    (h : On f K ls bh (ds ++ placeAll (bh.headD 0) ss)) : On f (elaborateAll ss ++ K) ls bh ds := by
  induction ss generalizing ds with
  | nil => simpa [elaborateAll, placeAll, ownAll] using h
  | cons s ss ih =>
    rw [placeAll_cons, ← List.append_assoc] at h
    rw [elaborateAll, List.append_assoc]
    exact .stmt hss.head (ih hss.tail h)

/-- What is in a block, and then its end. -/
theorem on_inside {tag : Int} {ss : List (Stmt E)} (hs : Fits f K ls bh ds [.block tag ss])
    (hls : ∀ p ∈ ls, p.1 ∈ bh) (hblocks : ∀ d ∈ ds, d.blockNum ∈ bh) (h : On f K ls bh ds) :
    On f (.popBlock :: K) ls (tag :: bh) (ds ++ placeAll tag ss) ∧
      On f (elaborateAll ss ++ .popBlock :: K) ls (tag :: bh) ds := by
  have htag : tag ∉ bh := by
    have := hs.tags
    rw [tagsAll_single, Stmt.tags, List.cons_append, List.nodup_cons] at this
    exact fun h => this.1 (List.mem_append_right _ h)
  have hend : On f (.popBlock :: K) ls (tag :: bh) (ds ++ placeAll tag ss) := by
    refine .popBlock hls ?_
    have hds : ds.filter (·.blockNum ≠ tag) = ds := by
      refine List.filter_eq_self.mpr fun d hd => ?_
      have : d.blockNum ≠ tag := fun hd' => htag (hd' ▸ hblocks d hd)
      simpa using this
    have hin : (placeAll tag ss).filter (·.blockNum ≠ tag) = [] := by
      refine List.filter_eq_nil_iff.mpr fun d hd => ?_
      obtain ⟨d', -, rfl⟩ := List.mem_map.mp hd
      simp
    rw [List.filter_append, hds, hin, List.append_nil]
    exact h
  exact ⟨hend, on_all (hs.inside hls) hend⟩

end Fits

/-! ## What the loops have saved -/

section Loops

variable {f : FunctionBody E} {ls : LoopStack E} {bh : List Int} {ds ds' : List (FrozenDeclaration E)}

theorem mem_of_mem_below {n b : Int} (h : b ∈ below n bh) : b ∈ bh := (List.dropWhile_sublist _).subset h

@[simp] theorem below_self (n : Int) (bh : List Int) : below n (n :: bh) = n :: bh := by simp [below]

theorem below_cons_of_ne {n b : Int} (h : n ≠ b) (bh : List Int) : below n (b :: bh) = below n bh := by
  unfold below
  rw [List.dropWhile_cons_of_pos]
  simpa using Ne.symm h

/-- The innermost block is not below a loop that is further out. -/
theorem notMem_below {n b : Int} (h : n ≠ b) (hnodup : (b :: bh).Nodup) : b ∉ below n (b :: bh) := by
  rw [below_cons_of_ne h]
  exact fun hb => (List.nodup_cons.mp hnodup).1 (mem_of_mem_below hb)

/-- Every loop is in a block there is. -/
theorem LoopsOn.blocks (h : LoopsOn f ls bh ds) : ∀ p ∈ ls, p.1 ∈ bh := by
  induction ls generalizing bh ds with
  | nil => simp
  | cons l ls ih =>
    obtain ⟨hl, -, h⟩ := h
    intro p hp
    rcases List.mem_cons.mp hp with rfl | hp
    · exact hl
    · exact mem_of_mem_below (ih h p hp)

/-- It depends on the blocks and declarations of the innermost loop only. -/
theorem LoopsOn.congr {bh' : List Int} (h : LoopsOn f ls bh ds)
    (hbh : ∀ p ∈ ls.head?, p.1 ∈ bh' ∧ below p.1 bh' = below p.1 bh) (hds : SameBelow ls bh ds' ds) :
    LoopsOn f ls bh' ds' := by
  cases ls with
  | nil => trivial
  | cons l ls =>
    obtain ⟨-, hon, hloops⟩ := h
    obtain ⟨hmem, hbelow⟩ := hbh l rfl
    refine ⟨hmem, ?_, ?_⟩
    · rw [hbelow, hds l rfl]
      exact hon
    · rw [hbelow, hds l rfl]
      exact hloops

/-- Entering a block. -/
theorem LoopsOn.push {tag : Int} (h : LoopsOn f ls bh ds) (htag : tag ∉ bh) : LoopsOn f ls (tag :: bh) ds := by
  refine h.congr (fun p hp => ?_) fun p _ => rfl
  have hmem := h.blocks p (List.mem_of_mem_head? hp)
  exact ⟨List.mem_cons_of_mem _ hmem, below_cons_of_ne (fun hp' : p.1 = tag => htag (hp' ▸ hmem)) bh⟩

/-- The declarations of a block further in do not matter. -/
theorem sameBelow_filter {b : Int} (hnodup : (b :: bh).Nodup) (hls : ∀ p ∈ ls.head?, p.1 ≠ b) :
    SameBelow ls (b :: bh) (ds.filter (·.blockNum ≠ b)) ds := by
  intro p hp
  unfold under
  rw [List.filter_filter]
  refine List.filter_congr fun d _ => ?_
  by_cases hd : d.blockNum = b
  · simp [hd, notMem_below (hls p hp) hnodup]
  · simp [hd]

/-- Leaving a block. -/
theorem LoopsOn.pop {b : Int} (h : LoopsOn f ls (b :: bh) ds) (hnodup : (b :: bh).Nodup)
    (hls : ∀ p ∈ ls.head?, p.1 ≠ b) : LoopsOn f ls bh (ds.filter (·.blockNum ≠ b)) := by
  refine h.congr (fun p hp => ⟨?_, ?_⟩) (sameBelow_filter hnodup hls)
  · have := h.blocks p (List.mem_of_mem_head? hp)
    exact (List.mem_cons.mp this).resolve_left (hls p hp)
  · rw [below_cons_of_ne (hls p hp)]

/-- Declarations of a statement in the innermost block. -/
theorem sameBelow_place {s : Stmt E} (hnodup : bh.Nodup) (hin : bh ≠ [] ∨ s.free)
    (hs : s.own = [] ∨ LoopOutside ls bh) : SameBelow ls bh (ds ++ place (bh.headD 0) s) ds := by
  intro p hp
  rw [under_append]
  suffices h : under (below p.1 bh) (place (bh.headD 0) s) = [] by rw [h, List.append_nil]
  rcases hs with hs | hs
  · rw [place, hs]
    rfl
  · cases bh with
    | nil =>
      rw [place, Stmt.own_of_free s (hin.resolve_left fun h => h rfl)]
      rfl
    | cons b bh =>
      refine under_eq_nil fun d hd => ?_
      obtain ⟨d', -, rfl⟩ := List.mem_map.mp hd
      exact notMem_below (hs p hp) hnodup

end Loops

/-! ## What is recorded is a place -/

section Records

variable {f : FunctionBody E} {K : KSeq E} {ls : LoopStack E} {bh : List Int} {ds : List (FrozenDeclaration E)}

theorem Fits.nodup {ss : List (Stmt E)} (h : Fits f K ls bh ds ss) : bh.Nodup :=
  (List.nodup_append.mp h.tags).2.1

/-- The declarations of a statement are in the block it is in. -/
theorem blockNum_place {s : Stmt E} (hin : bh ≠ [] ∨ s.free) (hds : ∀ d ∈ ds, d.blockNum ∈ bh) :
    ∀ d ∈ ds ++ place (bh.headD 0) s, d.blockNum ∈ bh := by
  intro d hd
  rcases List.mem_append.mp hd with hd | hd
  · exact hds d hd
  · cases bh with
    | nil =>
      rw [place, Stmt.own_of_free s (hin.resolve_left fun h => h rfl)] at hd
      cases hd
    | cons b bh =>
      obtain ⟨d', -, rfl⟩ := List.mem_map.mp hd
      exact List.mem_cons_self

/-- A loop that has been entered: its block, and what it has saved. -/
theorem LoopsOn.enter {n : Int} (hK : On f K ls (n :: bh) ds) (h : LoopsOn f ls (n :: bh) ds)
    (hds : ∀ d ∈ ds, d.blockNum ∈ n :: bh) : LoopsOn f ((n, K) :: ls) (n :: bh) ds := by
  refine ⟨List.mem_cons_self, ?_, ?_⟩
  · rw [below_self, under_eq_self hds]
    exact hK
  · rw [below_self, under_eq_self hds]
    exact h

/-- What comes after the body of a loop. -/
theorem on_again {head : LoopHead E} {tag : Int} {ss : List (Stmt E)} (hh : head.marked = head)
    (hs : Fits f (head.again (blockSeq tag (elaborateAll ss)) ++ K) ls bh ds [.block tag ss])
    (hat : AtLoop ls bh) (hK : On f K ls bh ds) : On f (head.again (blockSeq tag (elaborateAll ss)) ++ K) ls bh ds := by
  have hmarked := On.marked hh hs hat hK
  cases head with
  | For control post => exact .plain rfl hmarked
  | While b => exact hmarked
  | DoWhile b => exact .test hat hmarked (.plain rfl hK) hK

/-- Statements inside a block. -/
theorem block_inside {tag : Int} {ss : List (Stmt E)} (hs : Fits f K ls bh ds [.block tag ss]) (hK : On f K ls bh ds)
    (hls : LoopsOn f ls bh ds) (hds : ∀ d ∈ ds, d.blockNum ∈ bh) :
    Fits f (.popBlock :: K) ls (tag :: bh) ds ss ∧ On f (.popBlock :: K) ls (tag :: bh) (ds ++ placeAll tag ss) ∧
      LoopsOn f ls (tag :: bh) ds ∧ ∀ d ∈ ds, d.blockNum ∈ tag :: bh := by
  have htag : tag ∉ bh := by
    have := hs.tags
    rw [tagsAll_single, Stmt.tags, List.cons_append, List.nodup_cons] at this
    exact fun h => this.1 (List.mem_append_right _ h)
  exact ⟨hs.inside hls.blocks, (on_inside hs hls.blocks hds hK).1, hls.push htag,
    fun d hd => List.mem_cons_of_mem _ (hds d hd)⟩

mutual

/-- **The record of a label** in a statement that fits is a place. -/
theorem Stmt.normal_of_record {K : KSeq E} {ls : LoopStack E} {bh : List Int} {ds : List (FrozenDeclaration E)} :
    ∀ s : Stmt E, Fits f K ls bh ds [s] → On f K ls bh (ds ++ place (bh.headD 0) s) → LoopsOn f ls bh ds →
      (∀ d ∈ ds, d.blockNum ∈ bh) →
      ∀ r ∈ s.records place bh K ls ds, Normal f r.2.k r.2.loopStack r.2.blockHistory r.2.declStack
  | .simple _, _, _, _, _ => by simp [Stmt.records]
  | .decl _, _, _, _, _ => by simp [Stmt.records]
  | .block tag ss, hs, hK, hls, hds => by
    rw [show place (bh.headD 0) (Stmt.block tag ss) = [] from rfl, List.append_nil] at hK
    obtain ⟨hs', hK', hls', hds'⟩ := block_inside hs hK hls hds
    rw [Stmt.records]
    exact normal_of_recordsAll ss hs' hK' hls' hds'
  | .IfThenElse e tagT t tagF u, hs, hK, hls, hds => by
    rw [show place (bh.headD 0) (Stmt.IfThenElse e tagT t tagF u) = [] from rfl, List.append_nil] at hK
    obtain ⟨hsT, hKT, hlsT, hdsT⟩ := block_inside hs.branches.1 hK hls hds
    obtain ⟨hsF, hKF, hlsF, hdsF⟩ := block_inside hs.branches.2 hK hls hds
    rw [Stmt.records]
    intro r hr
    rcases List.mem_append.mp hr with hr | hr
    · exact normal_of_recordsAll t hsT hKT hlsT hdsT r hr
    · exact normal_of_recordsAll u hsF hKF hlsF hdsF r hr
  | .loop head tag ss, hs, hK, hls, hds => by
    rw [show place (bh.headD 0) (Stmt.loop head tag ss) = [] from rfl, List.append_nil] at hK
    obtain ⟨n, bh, rfl⟩ := List.exists_cons_of_ne_nil (hs.inBlock.resolve_right fun h => h.1)
    have hbody := hs.loopBody
    have hagain := on_again (LoopHead.marked_marked head) hbody ⟨(n, K), rfl, rfl⟩ .popLoop
    obtain ⟨hs', hK', hls', hds'⟩ := block_inside hbody hagain (hls.enter hK hds) hds
    rw [Stmt.records]
    exact normal_of_recordsAll ss hs' hK' hls' hds'
  | .Switch sn v tag ss, hs, hK, hls, hds => by
    rw [show place (bh.headD 0) (Stmt.Switch sn v tag ss) = [] from rfl, List.append_nil] at hK
    obtain ⟨n, bh, rfl⟩ := List.exists_cons_of_ne_nil (hs.inBlock.resolve_right fun h => h.1)
    obtain ⟨hs', hK', hls', hds'⟩ := block_inside hs.switchBody .popLoop (hls.enter hK hds) hds
    rw [Stmt.records]
    exact normal_of_recordsAll ss hs' hK' hls' hds'
  | .labeled m ss, hs, hK, hls, hds => by
    rw [place, Stmt.own] at hK
    rw [Stmt.records]
    intro r hr
    rcases List.mem_cons.mp hr with rfl | hr
    · exact ⟨on_all hs.afterLabel hK, hls, hs.nodup, hds⟩
    · exact normal_of_recordsAll ss hs.afterLabel hK hls hds r hr

theorem normal_of_recordsAll {K : KSeq E} {ls : LoopStack E} {bh : List Int} {ds : List (FrozenDeclaration E)} :
    ∀ ss : List (Stmt E), Fits f K ls bh ds ss → On f K ls bh (ds ++ placeAll (bh.headD 0) ss) → LoopsOn f ls bh ds →
      (∀ d ∈ ds, d.blockNum ∈ bh) →
      ∀ r ∈ recordsAll place bh K ls ds ss, Normal f r.2.k r.2.loopStack r.2.blockHistory r.2.declStack
  | [], _, _, _, _ => by simp [recordsAll]
  | s :: ss, hs, hK, hls, hds => by
    rw [placeAll_cons, ← List.append_assoc] at hK
    have hin := hs.head.inBlock.imp id And.left
    have hls' := hls.congr (fun p hp => ⟨hls.blocks p (List.mem_of_mem_head? hp), rfl⟩)
      (sameBelow_place hs.nodup hin (hs.head.inLoop.imp (fun h => by simpa using h) id))
    rw [recordsAll]
    intro r hr
    rcases List.mem_append.mp hr with hr | hr
    · exact Stmt.normal_of_record s hs.head (on_all hs.tail hK) hls hds r hr
    · exact normal_of_recordsAll ss hs.tail hK hls' (blockNum_place hin hds) r hr

end

end Records

end CSemantics
