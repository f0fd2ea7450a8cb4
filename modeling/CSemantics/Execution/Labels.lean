/-
  The map of labels and the machine.

  Every state of the machine between two gotos is a place of the body (`Normal`), and a goto goes to one: its
  target is what the calculation wrote down at the label.  While a goto is under way the machine leaves blocks,
  makes and undoes declarations and enters blocks (`Underway`), and at its end it has the blocks of the target.

      step_normal           one step from a place, a goto aside, leads to a place
      step_underway         a goto under way stays under way, or ends at the place it goes to
      reaches_inv           so every state of a run is a place or on the way to one
      goto_map_agrees       the map has the labels of the body, and at each label what the machine has there
-/
import CSemantics.Execution.Place

namespace CSemantics

variable {E : Type}

/-! ## What is at the front of a place -/

/-- `On`, where declarations of blocks that a `continue` leaves may be missing. -/
def Skipped (f : FunctionBody E) (K : KSeq E) (ls : LoopStack E) (bh : List Int) (ds : List (FrozenDeclaration E)) :
    Prop :=
  ∃ ds', SameBelow ls bh ds ds' ∧ (∀ d ∈ ds', d.blockNum ∈ bh) ∧ On f K ls bh ds'

/-- The first term of a place, with what is known of the others: `On`, term by term. -/
inductive Front (f : FunctionBody E) (ls : LoopStack E) (bh : List Int) (ds : List (FrozenDeclaration E)) :
    KItem E → KSeq E → Prop
  | simple {j K} (h : On f K ls bh ds) : Front f ls bh ds (.simple j) K
  | decl {d K} (hs : Fits f K ls bh ds [.decl d]) (h : On f K ls bh (ds ++ place (bh.headD 0) (.decl d))) :
    Front f ls bh ds (.decl d) K
  | block {tag ss K} (hs : Fits f K ls bh ds [.block tag ss]) (h : On f K ls bh ds) :
    Front f ls bh ds (.pushBlock tag) (elaborateAll ss ++ .popBlock :: K)
  | branches {e tagT t tagF u K} (hs : Fits f K ls bh ds [.IfThenElse e tagT t tagF u]) (h : On f K ls bh ds) :
    Front f ls bh ds (.IfThenElse e (blockSeq tagT (elaborateAll t)) (blockSeq tagF (elaborateAll u))) K
  | loop {head tag ss K} (hs : Fits f K ls bh ds [.loop head tag ss]) (h : On f K ls bh ds) :
    Front f ls bh ds (.loop head (blockSeq tag (elaborateAll ss))) K
  | switch {sn v t K} (h : On f K ls bh ds) : Front f ls bh ds (.Switch sn v t) K
  | labeled {m ss K} (hs : Fits f K ls bh ds [.labeled m ss])
    (h : On f K ls bh (ds ++ placeAll (bh.headD 0) ss)) : Front f ls bh ds (.labeled m (elaborateAll ss)) K
  | sequencePoint {K} (h : On f K ls bh ds) : Front f ls bh ds .sequencePoint K
  | init {e K} (h : On f K ls bh ds) : Front f ls bh ds (.init e) K
  | popBlock {b bh' K} (hbh : bh = b :: bh') (hls : ∀ p ∈ ls, p.1 ∈ bh')
    (h : On f K ls bh' (ds.filter (·.blockNum ≠ b))) :
    Front f ls bh ds .popBlock K
  | popLoop {K} : Front f ls bh ds .popLoop K
  | marked {head tag ss K} (hh : head.marked = head)
    (hs : Fits f (head.again (blockSeq tag (elaborateAll ss)) ++ K) ls bh ds [.block tag ss]) (hat : AtLoop ls bh)
    (h : On f K ls bh ds) : Front f ls bh ds .loopMarked (.loop head (blockSeq tag (elaborateAll ss)) :: K)
  | test {e t u K} (ht : On f (t ++ K) ls bh ds) (hu : On f (u ++ K) ls bh ds) (h : On f K ls bh ds) :
    Front f ls bh ds (.IfThenElse e t u) K
  | skip {K} (h : Skipped f K ls bh ds) : Front f ls bh ds (.simple .Continue) K
  | pushSkip {tag K} (htag : tag ∉ bh) (h : On f (.simple .Continue :: K) ls (tag :: bh) ds) :
    Front f ls bh ds (.pushBlock tag) (.simple .Continue :: K)

section Places

variable {f : FunctionBody E} {K : KSeq E} {ls : LoopStack E} {bh : List Int} {ds : List (FrozenDeclaration E)}

theorem On.front {i : KItem E} (h : On f (i :: K) ls bh ds) : Front f ls bh ds i K := by
  generalize hk : i :: K = k at h
  cases h with
  | nil => cases hk
  | @stmt s K' _ _ _ hs h =>
    have hown : s.own = [] → On f K' ls bh ds := by
      intro hown
      rwa [place, hown, List.map_nil, List.append_nil] at h
    cases s with
    | simple j =>
      cases hk
      exact .simple (hown rfl)
    | decl d =>
      cases hk
      exact .decl hs h
    | block tag ss =>
      simp only [Stmt.elaborate, blockSeq, List.cons_append, List.append_assoc, List.nil_append, List.cons.injEq] at hk
      obtain ⟨rfl, rfl⟩ := hk
      exact .block hs (hown rfl)
    | IfThenElse e tagT t tagF u =>
      cases hk
      exact .branches hs (hown rfl)
    | loop head tag ss =>
      cases hk
      exact .loop hs (hown rfl)
    | Switch sn v tag ss =>
      cases hk
      exact .switch (hown rfl)
    | labeled m ss =>
      cases hk
      exact .labeled hs h
  | plain hi h =>
    cases hk
    cases i with
    | simple j => exact .simple h
    | sequencePoint => exact .sequencePoint h
    | init e => exact .init h
    | _ => cases hi
  | popBlock hls h =>
    cases hk
    exact .popBlock rfl hls h
  | popLoop =>
    cases hk
    exact .popLoop
  | marked hh hs hat hK =>
    cases hk
    exact .marked hh hs hat hK
  | test hat ht hu h =>
    cases hk
    exact .test ht hu h
  | skip hsame hds' h =>
    cases hk
    exact .skip ⟨_, hsame, hds', h⟩
  | pushSkip htag h =>
    cases hk
    exact .pushSkip htag h

end Places

/-! ## Blocks that wait -/

/-- The blocks around the current one wait on the block stack. -/
def Stacked : List Int → List BlockControl → Prop
  | [], _ => True
  | _ :: bh, c :: cs => c.blockHistory = bh ∧ Stacked bh cs
  | _ :: _, [] => False

/-- The blocks of a thread. -/
def Store.Nested (s : Store) : Prop := Stacked s.blockControl.blockHistory s.blockStack

/-- `s'` is in the same blocks as `s`. -/
def Store.SameBlocks (s s' : Store) : Prop :=
  s'.blockControl.blockHistory = s.blockControl.blockHistory ∧ s'.blockStack = s.blockStack

/-- The code of an initialiser. -/
def KItem.isCode : KItem E → Bool
  | .init _ => true
  | .sequencePoint => true
  | _ => false

section Blocks

variable {c : Cells} {s s' : Store}

theorem Store.SameBlocks.nested (h : s.SameBlocks s') (hs : s.Nested) : s'.Nested := by
  rw [Store.Nested, h.1, h.2]
  exact hs

theorem isCode_initCode (init : Option (Expr E)) : ∀ i ∈ Store.initCode init, i.isCode = true := by
  cases init with
  | none => exact fun i hi => absurd hi List.not_mem_nil
  | some e => simp [Store.initCode, KItem.isCode]

/-- A declaration stays in its block, and leaves the code of an initialiser. -/
theorem declare_sameBlocks {d : Decl E} {code : KSeq E} (h : s.declare c d = .ok (s', code)) :
    s.SameBlocks s' ∧ ∀ i ∈ code, i.isCode = true := by
  have hnil : ∀ i ∈ ([] : KSeq E), i.isCode = true := fun i hi => absurd hi List.not_mem_nil
  cases d with
  | typedef x T =>
    cases h
    exact ⟨⟨rfl, rfl⟩, hnil⟩
  | declareInternalVariable x T init =>
    cases init with
    | NoInit =>
      rw [Store.declare] at h
      split at h
      · split at h
        · cases h
          exact ⟨⟨rfl, rfl⟩, hnil⟩
        · cases h
          exact ⟨⟨rfl, rfl⟩, hnil⟩
        · cases h
      · split at h
        · split at h
          · cases h
            exact ⟨⟨rfl, rfl⟩, hnil⟩
          · cases h
        · cases h
    | initValue T' init =>
      unfold Store.declare at h
      simp only at h
      split at h
      · split at h
        · cases h
          exact ⟨⟨rfl, rfl⟩, hnil⟩
        · cases h
      · split at h
        · cases h
        · split at h
          · cases h
            refine ⟨⟨rfl, rfl⟩, ?_⟩
            cases init <;> simp [KItem.isCode]
          · obtain ⟨n, -, rfl, rfl⟩ := declareAndDefine_eq_ok h
            refine ⟨⟨rfl, rfl⟩, ?_⟩
            split
            · exact isCode_initCode init
            · exact hnil

theorem declareUninit_sameBlocks {d : Decl E} {code : KSeq E} (h : s.declareUninit c d = .ok (s', code)) :
    s.SameBlocks s' ∧ ∀ i ∈ code, i.isCode = true := by
  obtain ⟨⟨s₁, code'⟩, h₁, h⟩ := Eval.bind_eq_ok.mp h
  cases h
  obtain ⟨hsame, hcode⟩ := declare_sameBlocks h₁
  exact ⟨⟨hsame.1, hsame.2⟩, hcode⟩

theorem revertLocal_sameBlocks {x : VarId} (h : s.revertLocal c x = .ok s') : s.SameBlocks s' := by
  rw [Store.revertLocal] at h
  split at h
  · split at h
    · cases h
      exact ⟨rfl, rfl⟩
    · split at h
      · cases h
        exact ⟨rfl, rfl⟩
      · cases h
  · cases h

theorem rewind_sameBlocks {x : VarId} (h : s.rewind c x = .ok s') : s.SameBlocks s' := by
  rw [Store.rewind] at h
  split at h
  · cases h
    exact ⟨rfl, rfl⟩
  · split at h
    · split at h
      · cases h
      · split at h
        · have hrevert := revertLocal_sameBlocks h
          exact ⟨hrevert.1, hrevert.2⟩
        · cases h
    · split at h
      · exact revertLocal_sameBlocks h
      · cases h

/-- Leaving a block. -/
theorem popBlock_nested {b : Int} {bh : List Int} (hbh : s.blockControl.blockHistory = b :: bh) (hs : s.Nested)
    (h : s.popBlock = .ok s') : s'.blockControl.blockHistory = bh ∧ s'.Nested := by
  rw [Store.Nested, hbh] at hs
  rw [Store.popBlock] at h
  split at h
  · cases h
  · next c cs hstack =>
    cases h
    rw [hstack] at hs
    obtain ⟨hc, hs⟩ := hs
    refine ⟨hc, ?_⟩
    show Stacked c.blockHistory cs
    rw [hc]
    exact hs

theorem pushBlock_nested (tag : Int) (hs : s.Nested) : (s.pushBlock tag).Nested := ⟨rfl, hs⟩

end Blocks

/-! ## One step from a place -/

section Step

variable {f : FunctionBody E} {K : KSeq E} {ls : LoopStack E} {bh : List Int} {ds : List (FrozenDeclaration E)}

/-- The same blocks and loops, with something else to do. -/
theorem Normal.on_to {K' : KSeq E} (h : Normal f K ls bh ds) (hon : On f K' ls bh ds) : Normal f K' ls bh ds :=
  ⟨hon, h.loops, h.nodup, h.blocks⟩

theorem SameBelow.refl : SameBelow ls bh ds ds := fun _ _ => rfl

theorem SameBelow.symm {ds' : List (FrozenDeclaration E)} (h : SameBelow ls bh ds ds') : SameBelow ls bh ds' ds :=
  fun p hp => (h p hp).symm

theorem SameBelow.trans {ds' ds'' : List (FrozenDeclaration E)} (h : SameBelow ls bh ds ds')
    (h' : SameBelow ls bh ds' ds'') :
    SameBelow ls bh ds ds'' :=
  fun p hp => (h p hp).trans (h' p hp)

/-- Where a `continue` stops, the place is one again: with the declarations it has in the text. -/
theorem Normal.of_skipped {K' : KSeq E} (h : Normal f K ls bh ds) (hskip : Skipped f K' ls bh ds) :
    ∃ ds', Normal f K' ls bh ds' := by
  obtain ⟨ds', hsame, hds', hon⟩ := hskip
  have hloops : LoopsOn f ls bh ds' :=
    h.loops.congr (fun p hp => ⟨h.loops.blocks p (List.mem_of_mem_head? hp), rfl⟩) hsame.symm
  exact ⟨ds', hon, hloops, h.nodup, hds'⟩

theorem Skipped.continue (h : Skipped f K ls bh ds) : On f (.simple .Continue :: K) ls bh ds := by
  obtain ⟨ds', hsame, hds', hon⟩ := h
  exact .skip hsame hds' hon

theorem Skipped.trans {ds' : List (FrozenDeclaration E)} (hsame : SameBelow ls bh ds ds') (h : Skipped f K ls bh ds') :
    Skipped f K ls bh ds := by
  obtain ⟨ds'', hsame', hds'', hon⟩ := h
  exact ⟨ds'', hsame.trans hsame', hds'', hon⟩

/-- Behind a `continue`. -/
theorem On.behind_continue (h : On f (.simple .Continue :: K) ls bh ds) (hds : ∀ d ∈ ds, d.blockNum ∈ bh) :
    Skipped f K ls bh ds := by
  cases h.front with
  | simple h => exact ⟨ds, .refl, hds, h⟩
  | skip h => exact h

theorem On.simple {j : Simple E} (h : On f (.simple j :: K) ls bh ds) (hj : j ≠ .Continue) : On f K ls bh ds := by
  cases h.front with
  | simple h => exact h
  | skip h => exact absurd rfl hj

theorem On.branches {e : Expr E} {t u : KSeq E} (h : On f (.IfThenElse e t u :: K) ls bh ds) :
    On f (t ++ K) ls bh ds ∧ On f (u ++ K) ls bh ds ∧ On f K ls bh ds := by
  cases h.front with
  | @branches _ tagT t tagF u _ hs h =>
    have hplace : ∀ tag ss, place (bh.headD 0) (.block tag ss : Stmt E) = [] := fun _ _ => rfl
    refine ⟨?_, ?_, h⟩
    · exact .stmt (s := .block tagT t) hs.branches.1 (by rwa [hplace, List.append_nil])
    · exact .stmt (s := .block tagF u) hs.branches.2 (by rwa [hplace, List.append_nil])
  | test ht hu h => exact ⟨ht, hu, h⟩

/-- A `continue` drops a term. -/
theorem Skipped.drop {i : KItem E} (hnodup : bh.Nodup) (hi : i.stopsContinue = false ∨ ∃ e t u, i = .IfThenElse e t u)
    (h : Skipped f (i :: K) ls bh ds) : Skipped f K ls bh ds := by
  obtain ⟨ds', hsame, hds', hon⟩ := h
  refine Skipped.trans hsame ?_
  cases hon.front with
  | simple h => exact ⟨ds', .refl, hds', h⟩
  | decl hs h =>
    have hin := hs.inBlock.imp id And.left
    have hown := hs.inLoop.imp (fun h => by simpa using h) id
    exact ⟨_, (sameBelow_place hnodup hin hown).symm, blockNum_place hin hds', h⟩
  | branches hs h => exact ⟨ds', .refl, hds', h⟩
  | loop hs h => exact ⟨ds', .refl, hds', h⟩
  | switch h => exact ⟨ds', .refl, hds', h⟩
  | labeled hs h =>
    have hin := hs.inBlock.imp id And.left
    have hown := hs.inLoop.imp (fun h => by simpa using h) id
    exact ⟨_, (sameBelow_place hnodup hin hown).symm, blockNum_place hin hds', h⟩
  | sequencePoint h => exact ⟨ds', .refl, hds', h⟩
  | init h => exact ⟨ds', .refl, hds', h⟩
  | test ht hu h => exact ⟨ds', .refl, hds', h⟩
  | skip h => exact h
  | block | popBlock | popLoop | marked | pushSkip =>
    rcases hi with hi | ⟨_, _, _, hi⟩ <;> cases hi

/-- A loop that has been entered, and its first round. -/
theorem Normal.enter {head : LoopHead E} {t : KSeq E} {n : Int} {bh' : List Int} (hbh : bh = n :: bh')
    (h : Normal f (.loop head t :: K) ls bh ds) :
    Normal f [.loopMarked, .loop head.marked t, .popLoop] ((n, K) :: ls) bh ds := by
  subst hbh
  cases h.on.front with
  | @loop _ tag ss _ hs hon =>
    have hbody : Fits f (head.marked.again (blockSeq tag (elaborateAll ss)) ++ [.popLoop]) ((n, K) :: ls) (n :: bh') ds
        [.block tag ss] := hs.loopBody.congr (upto_append_congr _ rfl) rfl (.inl rfl)
    have hmarked := On.marked (LoopHead.marked_marked head) hbody ⟨(n, K), rfl, rfl⟩ .popLoop
    exact ⟨hmarked, h.loops.enter hon h.blocks, h.nodup, h.blocks⟩

/-- Once around. -/
theorem On.unfold {head : LoopHead E} {t : KSeq E} (h : On f (.loopMarked :: .loop head t :: K) ls bh ds) :
    On f (head.unfold t ++ K) ls bh ds := by
  cases h.front with
  | @marked _ tag ss _ hh hs hat hK =>
    have hagain := on_again hh hs hat hK
    have hbody : On f (blockSeq tag (elaborateAll ss) ++ (head.again (blockSeq tag (elaborateAll ss)) ++ K)) ls bh ds :=
      .stmt (s := .block tag ss) hs
        (by rwa [show place (bh.headD 0) (.block tag ss : Stmt E) = [] from rfl, List.append_nil])
    rw [← List.append_assoc] at hbody
    cases head with
    | For control post => exact .test hat hbody (.plain rfl hK) hK
    | While b => exact .test hat hbody (.plain rfl hK) hK
    | DoWhile b => exact hbody

/-- The end of a loop: what it has saved. -/
theorem Normal.popLoop {K' : KSeq E} {n : Int} {bh' : List Int} (hbh : bh = n :: bh')
    (h : Normal f (.popLoop :: K) ((n, K') :: ls) bh ds) : Normal f K' ls bh ds := by
  subst hbh
  obtain ⟨-, hon, hloops⟩ := h.loops
  rw [below_self, under_eq_self h.blocks] at hon hloops
  exact ⟨hon, hloops, h.nodup, h.blocks⟩

/-- A block inside a loop that is left. -/
theorem Normal.leave {K' : KSeq E} {n m : Int} {bh' : List Int} (hbh : bh = n :: bh') (hne : m ≠ n)
    (h : Normal f (.popLoop :: K) ((m, K') :: ls) bh ds) :
    Normal f (.popBlock :: .popLoop :: K) ((m, K') :: ls) bh ds := by
  subst hbh
  refine h.on_to (.popBlock ?_ .popLoop)
  have hbelow : ∀ b ∈ below m (n :: bh'), b ∈ bh' := by
    rw [below_cons_of_ne hne]
    exact fun b hb => mem_of_mem_below hb
  intro p hp
  rcases List.mem_cons.mp hp with rfl | hp
  · exact (List.mem_cons.mp h.loops.1).resolve_left hne
  · exact hbelow _ (h.loops.2.2.blocks p hp)

/-- A block that is entered. -/
theorem Normal.push {tag : Int} (h : Normal f (.pushBlock tag :: K) ls bh ds) : Normal f K ls (tag :: bh) ds := by
  cases h.on.front with
  | block hs hon =>
    have htag : tag ∉ bh := by
      have := hs.tags
      rw [tagsAll_single, Stmt.tags, List.cons_append, List.nodup_cons] at this
      exact fun h => this.1 (List.mem_append_right _ h)
    exact ⟨(on_inside hs h.loops.blocks h.blocks hon).2, h.loops.push htag, List.nodup_cons.mpr ⟨htag, h.nodup⟩,
      fun d hd => List.mem_cons_of_mem _ (h.blocks d hd)⟩
  | pushSkip htag hon =>
    exact ⟨hon, h.loops.push htag, List.nodup_cons.mpr ⟨htag, h.nodup⟩,
      fun d hd => List.mem_cons_of_mem _ (h.blocks d hd)⟩

/-- A block that is left. -/
theorem Normal.pop (h : Normal f (.popBlock :: K) ls bh ds) :
    ∃ b bh', bh = b :: bh' ∧ Normal f K ls bh' (ds.filter (·.blockNum ≠ b)) := by
  cases h.on.front with
  | @popBlock b bh' _ hbh hls hon =>
    subst hbh
    have hb : b ∉ bh' := (List.nodup_cons.mp h.nodup).1
    have hhead : ∀ p ∈ ls.head?, p.1 ≠ b := by
      intro p hp heq
      exact hb (heq ▸ hls p (List.mem_of_mem_head? hp))
    refine ⟨b, bh', rfl, hon, h.loops.pop h.nodup hhead, (List.nodup_cons.mp h.nodup).2, ?_⟩
    intro d hd
    obtain ⟨hd, hne⟩ := List.mem_filter.mp hd
    exact (List.mem_cons.mp (h.blocks d hd)).resolve_left (by simpa using hne)

/-- A declaration that is made. -/
theorem Normal.declared {d : Decl E} {code : KSeq E} (h : Normal f (.decl d :: K) ls bh ds)
    (hcode : ∀ i ∈ code, i.isCode = true) : ∃ ds', Normal f (code ++ K) ls bh ds' := by
  cases h.on.front with
  | decl hs hon =>
    have hin := hs.inBlock.imp id And.left
    have hown := hs.inLoop.imp (fun h => by simpa using h) id
    have hloops : LoopsOn f ls bh (ds ++ place (bh.headD 0) (.decl d)) :=
      h.loops.congr (fun p hp => ⟨h.loops.blocks p (List.mem_of_mem_head? hp), rfl⟩) (sameBelow_place h.nodup hin hown)
    refine ⟨_, ?_, hloops, h.nodup, blockNum_place hin h.blocks⟩
    clear hs hown hin hloops h
    induction code with
    | nil => exact hon
    | cons i code ih =>
      have hi : i.plain = true := by
        have := hcode i List.mem_cons_self
        cases i <;> first | rfl | cases this
      exact .plain hi (ih fun j hj => hcode j (List.mem_cons_of_mem i hj))

/-- A `continue` at the end of a block. -/
theorem Normal.continue_popBlock (h : Normal f (.simple .Continue :: .popBlock :: K) ls bh ds) :
    Normal f (.popBlock :: .simple .Continue :: K) ls bh ds := by
  obtain ⟨ds', hsame, hds', hon⟩ := h.on.behind_continue h.blocks
  cases hon.front with
  | @popBlock b bh' _ hbh hls hK =>
    subst hbh
    have hb : b ∉ bh' := (List.nodup_cons.mp h.nodup).1
    have hhead : ∀ p ∈ ls.head?, p.1 ≠ b := by
      intro p hp heq
      exact hb (heq ▸ hls p (List.mem_of_mem_head? hp))
    have hfilter : SameBelow ls bh' (ds.filter (·.blockNum ≠ b)) (ds'.filter (·.blockNum ≠ b)) := by
      have hcons : SameBelow ls (b :: bh') (ds.filter (·.blockNum ≠ b)) (ds'.filter (·.blockNum ≠ b)) :=
        ((sameBelow_filter h.nodup hhead).trans hsame).trans (sameBelow_filter h.nodup hhead).symm
      intro p hp
      have := hcons p hp
      rwa [below_cons_of_ne (hhead p hp)] at this
    refine h.on_to (.popBlock hls (.skip hfilter ?_ hK))
    intro d hd
    obtain ⟨hd, hne⟩ := List.mem_filter.mp hd
    exact (List.mem_cons.mp (hds' d hd)).resolve_left (by simpa using hne)

/-- A `continue` before a block. -/
theorem Normal.continue_pushBlock {tag : Int} (h : Normal f (.simple .Continue :: .pushBlock tag :: K) ls bh ds) :
    Normal f (.pushBlock tag :: .simple .Continue :: K) ls bh ds := by
  obtain ⟨ds', hsame, hds', hon⟩ := h.on.behind_continue h.blocks
  have hinside : tag ∉ bh ∧ On f K ls (tag :: bh) ds' := by
    cases hon.front with
    | block hs hK =>
      have htag : tag ∉ bh := by
        have := hs.tags
        rw [tagsAll_single, Stmt.tags, List.cons_append, List.nodup_cons] at this
        exact fun h => this.1 (List.mem_append_right _ h)
      exact ⟨htag, (on_inside hs h.loops.blocks hds' hK).2⟩
    | pushSkip htag hK => exact ⟨htag, hK⟩
  have hbelow : SameBelow ls (tag :: bh) ds ds' := by
    intro p hp
    have hmem := h.loops.blocks p (List.mem_of_mem_head? hp)
    rw [below_cons_of_ne fun heq : p.1 = tag => hinside.1 (heq ▸ hmem)]
    exact hsame p hp
  refine h.on_to (.pushSkip hinside.1 (.skip hbelow ?_ hinside.2))
  exact fun d hd => List.mem_cons_of_mem _ (hds' d hd)

/-- **The target of a goto**, a place of the body. -/
def IsTarget (f : FunctionBody E) (o : GotoObject E) : Prop :=
  ∃ ds, Normal f o.k o.loopStack o.blockHistory ds

/-- A state that is a place. -/
def Exec.AtPlace (f : FunctionBody E) (s : Exec E) : Prop :=
  s.store.Nested ∧ ∃ ds, Normal f s.k s.loopStack s.blockHistory ds

/-- The terms that a goto leaves behind it while it makes and undoes declarations. -/
def KItem.isRewinding : KItem E → Bool
  | .declVariables _ => true
  | .rewindEnv _ => true
  | i => i.isCode

/-- **A goto that is under way** to `o`: it leaves blocks, or has only blocks of the target left and enters the others. -/
inductive Underway (o : GotoObject E) : KSeq E → List Int → Prop
  | up {d K bh} : Underway o (.gotoUp o.blockHistory o.k o.loopStack d :: K) bh
  | leave {d K bh} (hbh : bh ≠ []) : Underway o (.popBlock :: .gotoUp o.blockHistory o.k o.loopStack d :: K) bh
  | down {pre down d K bh} (hpre : ∀ i ∈ pre, i.isRewinding = true) (hbh : down.reverse ++ bh = o.blockHistory) :
    Underway o (pre ++ .gotoDown down o.k o.loopStack d :: K) bh
  | enter {num pre down d K bh} (hpre : ∀ i ∈ pre, i.isRewinding = true)
    (hbh : (num :: down).reverse ++ bh = o.blockHistory) :
    Underway o (.pushBlock num :: (pre ++ .gotoDown down o.k o.loopStack d :: K)) bh

/-- A state on the way to a place. -/
def Exec.OnWay (f : FunctionBody E) (s : Exec E) : Prop :=
  s.store.Nested ∧ ∃ o, IsTarget f o ∧ Underway o s.k s.blockHistory

/-- **One step from a place** leads to a place, or starts a goto. -/
theorem step_normal [DecidableEq E] {c : Cells} {G : GotoMap E} {s s' : Exec E}
    (hG : ∀ o ∈ G.map Prod.snd, IsTarget f o)
    (h : s.AtPlace f) (hstep : Step c G s s') (hcall : s.k.head? ≠ some (.simple (.Goto .funLabel))) :
    s'.AtPlace f ∨ s'.OnWay f := by
  obtain ⟨hnested, ds, hn⟩ := h
  have hplain : ∀ {K K' : KSeq E} {ls s}, Store.Nested s → Normal f K ls s.blockControl.blockHistory ds →
      On f K' ls s.blockControl.blockHistory ds → Exec.AtPlace f ⟨K', ls, s⟩ :=
    fun hnested hn hon => ⟨hnested, ds, hn.on_to hon⟩
  cases hstep with
  | evaluate hi hM => exact .inl ⟨hnested, ds, hn⟩
  | @pass i K ls s hi =>
    refine .inl (hplain hnested hn ?_)
    cases hn.on.front with
    | simple h => exact h
    | sequencePoint h => exact h
    | init h => exact h
    | skip => cases hi
    | _ => cases hi
  | computation => exact .inl (hplain hnested hn (.plain rfl (hn.on.simple (by simp))))
  | labeled =>
    cases hn.on.front with
    | labeled hs h => exact .inl (hplain hnested hn (on_all hs.afterLabel h))
  | pushBlock => exact .inl ⟨pushBlock_nested _ hnested, ds, hn.push⟩
  | popBlock h =>
    obtain ⟨b, bh', hbh, hn'⟩ := hn.pop
    obtain ⟨hbh', hnested'⟩ := popBlock_nested hbh hnested h
    rw [← hbh'] at hn'
    exact .inl ⟨hnested', _, hn'⟩
  | decl T₁ hT₁ h =>
    obtain ⟨hsame, hcode⟩ := declare_sameBlocks h
    obtain ⟨ds', hn'⟩ := hn.declared hcode
    refine .inl ⟨hsame.nested hnested, ds', ?_⟩
    rw [Exec.blockHistory, hsame.1]
    exact hn'
  | ifTrue => exact .inl (hplain hnested hn (.plain rfl hn.on.branches.1))
  | ifFalse => exact .inl (hplain hnested hn (.plain rfl hn.on.branches.2.1))
  | switchPast =>
    cases hn.on.front with
    | switch h => exact .inl (hplain hnested hn (.plain rfl h))
  | switchTo hl hlG =>
    cases hn.on.front with
    | switch h => exact .inl (hplain hnested hn (.plain rfl (.plain rfl h)))
  | mark hbh => exact .inl ⟨hnested, ds, hn.enter hbh⟩
  | unfold => exact .inl (hplain hnested hn hn.on.unfold)
  | break_ => exact .inl (hplain hnested hn .popLoop)
  | popLoop hbh => exact .inl ⟨hnested, ds, hn.popLoop hbh⟩
  | popLoopPopBlock hbh hne => exact .inl ⟨hnested, ds, hn.leave hbh hne⟩
  | continueDrop hi =>
    have hskip := (hn.on.behind_continue hn.blocks).drop hn.nodup (.inl hi)
    exact .inl (hplain hnested hn hskip.continue)
  | continueIf ht ht' =>
    have hskip := (hn.on.behind_continue hn.blocks).drop hn.nodup (.inr ⟨_, _, _, rfl⟩)
    exact .inl (hplain hnested hn hskip.continue)
  | continuePopBlock => exact .inl ⟨hnested, ds, hn.continue_popBlock⟩
  | continuePopLoop => exact .inl (hplain hnested hn .popLoop)
  | continuePushBlock => exact .inl ⟨hnested, ds, hn.continue_pushBlock⟩
  | continueFor =>
    obtain ⟨ds', hn'⟩ := hn.of_skipped (hn.on.behind_continue hn.blocks)
    exact .inl ⟨hnested, ds', hn'.on_to (.plain rfl hn'.on)⟩
  | continueDone hi =>
    obtain ⟨ds', hn'⟩ := hn.of_skipped (hn.on.behind_continue hn.blocks)
    exact .inl ⟨hnested, ds', hn'⟩
  | continueDo ht =>
    obtain ⟨ds', hn'⟩ := hn.of_skipped (hn.on.behind_continue hn.blocks)
    exact .inl ⟨hnested, ds', hn'⟩
  | gotoFun hl => exact absurd rfl hcall
  | @goto l K ls s o hl hlookup =>
    have ho : o ∈ G.map Prod.snd := List.mem_map.mpr ⟨(l, o), AssocMap.mem_of_lookup hlookup, rfl⟩
    exact .inr ⟨hnested, o, hG o ho, .up⟩
  | gotoUpPop | gotoUp | declVariables | declVariablesDone | rewindEnv | rewindEnvDone | gotoDown | gotoDownDone =>
    cases hn.on.front

/-- The blocks that `gotoDown` enters are those of the target that are not there yet. -/
theorem reverse_take_append {target bh : List Int} (h : bh.isSuffixOf target) :
    (target.take (target.length - bh.length)).reverse.reverse ++ bh = target := by
  obtain ⟨pre, rfl⟩ := List.isSuffixOf_iff_suffix.mp h
  simp

/-- The terms in front of `gotoDown` stay in the block. -/
theorem step_rewinding [DecidableEq E] {c : Cells} {G : GotoMap E} {o : GotoObject E} {i : KItem E} {pre K : KSeq E}
    {down : List Int} {d : List (FrozenDeclaration E)} {store : Store} {s' : Exec E} (ho : IsTarget f o)
    (hnested : store.Nested) (hdown : down.reverse ++ store.blockControl.blockHistory = o.blockHistory)
    (hi : i.isRewinding = true) (hpre : ∀ j ∈ pre, j.isRewinding = true)
    (hstep : Step c G ⟨i :: (pre ++ .gotoDown down o.k o.loopStack d :: K), ls, store⟩ s') : s'.OnWay f := by
  have hsame : ∀ {store' : Store} {pre' : KSeq E}, store.SameBlocks store' → (∀ j ∈ pre', j.isRewinding = true) →
      Exec.OnWay f ⟨pre' ++ .gotoDown down o.k o.loopStack d :: K, ls, store'⟩ := by
    intro store' pre' hsame hpre'
    refine ⟨hsame.nested hnested, o, ho, .down hpre' ?_⟩
    rw [Exec.blockHistory, hsame.1]
    exact hdown
  have hall : ∀ j ∈ i :: pre, j.isRewinding = true := List.forall_mem_cons.mpr ⟨hi, hpre⟩
  cases i with
  | declVariables ds =>
    cases hstep with
    | evaluate hi => cases hi
    | pass hi => cases hi
    | @declVariables _ d' _ _ _ s'' code hd T₁ hT₁ hdecl =>
      obtain ⟨hblocks, hcode⟩ := declareUninit_sameBlocks hdecl
      have hrest : ∀ j ∈ code ++ KItem.declVariables (ds.erase d') :: pre, j.isRewinding = true := by
        intro j hj
        rcases List.mem_append.mp hj with hj | hj
        · have := hcode j hj
          cases j <;> first | rfl | cases this
        · rcases List.mem_cons.mp hj with rfl | hj
          · rfl
          · exact hpre j hj
      have := hsame hblocks hrest
      rwa [List.append_assoc] at this
    | declVariablesDone => exact hsame ⟨rfl, rfl⟩ hpre
  | rewindEnv xs =>
    cases hstep with
    | evaluate hi => cases hi
    | pass hi => cases hi
    | @rewindEnv _ x _ _ _ _ hx hrewind =>
      have hrest : ∀ j ∈ KItem.rewindEnv (xs.erase x) :: pre, j.isRewinding = true :=
        List.forall_mem_cons.mpr ⟨rfl, hpre⟩
      exact hsame (rewind_sameBlocks hrewind) hrest
    | rewindEnvDone => exact hsame ⟨rfl, rfl⟩ hpre
  | init e =>
    cases hstep with
    | evaluate hi hM =>
      have hblocks : ∀ M n, store.SameBlocks { store with mem := M, next := n } := fun _ _ => ⟨rfl, rfl⟩
      exact hsame (hblocks _ _) hall
    | pass hi => exact hsame ⟨rfl, rfl⟩ hpre
  | sequencePoint =>
    cases hstep with
    | evaluate hi => cases hi
    | pass hi => exact hsame ⟨rfl, rfl⟩ hpre
  | _ => cases hi

/-- **A goto that is under way** stays under way, or is at the place it goes to. -/
theorem step_underway [DecidableEq E] {c : Cells} {G : GotoMap E} {s s' : Exec E} (h : s.OnWay f)
    (hstep : Step c G s s') :
    s'.AtPlace f ∨ s'.OnWay f := by
  obtain ⟨hnested, o, ho, hu⟩ := h
  obtain ⟨K, ls, store⟩ := s
  change Underway o K store.blockControl.blockHistory at hu
  generalize hbh : store.blockControl.blockHistory = bh at hu
  cases hu with
  | up =>
    cases hstep with
    | evaluate hi => cases hi
    | pass hi => cases hi
    | gotoUpPop hnot =>
      refine .inr ⟨hnested, o, ho, .leave ?_⟩
      intro hnil
      rw [Exec.blockHistory] at hnil
      rw [hnil] at hnot
      exact hnot (by simp)
    | gotoUp hbh' hsuffix =>
      refine .inr ⟨hnested, o, ho, ?_⟩
      rw [Exec.blockHistory, hbh']
      have hrewinding : ∀ {ds : Finset (Decl E)} {xs : Finset VarId},
          ∀ i ∈ [KItem.declVariables ds, .rewindEnv xs], i.isRewinding = true := by
        simp [KItem.isRewinding]
      exact .down hrewinding (reverse_take_append hsuffix.1)
  | leave hne =>
    cases hstep with
    | evaluate hi => cases hi
    | pass hi => cases hi
    | popBlock hpop =>
      obtain ⟨b, bh', rfl⟩ := List.exists_cons_of_ne_nil hne
      exact .inr ⟨(popBlock_nested hbh hnested hpop).2, o, ho, .up⟩
  | @down pre down d K bh hpre hdown =>
    cases pre with
    | nil =>
      cases hstep with
      | evaluate hi => cases hi
      | pass hi => cases hi
      | gotoDown =>
        refine .inr ⟨hnested, o, ho, ?_⟩
        rw [Exec.blockHistory, hbh]
        have hrewinding : ∀ {ds : Finset (Decl E)}, ∀ i ∈ [KItem.declVariables ds], i.isRewinding = true := by
          simp [KItem.isRewinding]
        exact .enter hrewinding hdown
      | gotoDownDone =>
        obtain ⟨ds, hn⟩ := ho
        refine .inl ⟨hnested, ds, ?_⟩
        rw [Exec.blockHistory, hbh, ← List.nil_append bh, ← List.reverse_nil, hdown]
        exact hn
    | cons i pre =>
      have hpre' : ∀ j ∈ pre, j.isRewinding = true := fun j hj => hpre j (List.mem_cons_of_mem i hj)
      exact .inr (step_rewinding ho hnested (by rw [hbh]; exact hdown) (hpre i List.mem_cons_self) hpre' hstep)
  | @enter num pre down d K bh hpre hdown =>
    cases hstep with
    | evaluate hi => cases hi
    | pass hi => cases hi
    | pushBlock =>
      refine .inr ⟨pushBlock_nested _ hnested, o, ho, ?_⟩
      refine .down hpre ?_
      rw [← hdown, List.reverse_cons, List.append_assoc, ← hbh]
      rfl

end Step

/-! ## The records of the body -/

section Body

variable {f : FunctionBody E}

theorem FunctionBody.stmt_free (f : FunctionBody E) : f.stmt.free := ⟨trivial, trivial, trivial⟩

theorem FunctionBody.nodup_tags (f : FunctionBody E) : f.stmt.tags.Nodup := by
  simpa [FunctionBody.stmt, Stmt.tags, tagsAll] using f.tags_nodup

/-- The body as a whole fits. -/
theorem FunctionBody.fits (f : FunctionBody E) : Fits f [] [] [] [] [f.stmt] where
  records := by
    intro r hr
    rwa [recordsAll_single] at hr
  tags := by
    rw [tagsAll_single, List.append_nil]
    exact f.nodup_tags
  decls := by
    rw [declsAll_single]
    exact List.Sublist.refl _
  inBlock := .inr ⟨f.stmt_free, trivial⟩
  inLoop := .inl (by rw [ownAll_single, Stmt.own_of_free _ f.stmt_free])

theorem FunctionBody.places_eq (f : FunctionBody E) : f.places = f.records.map live := by
  have htags : (f.stmt.tags ++ []).Nodup := by
    rw [List.append_nil]
    exact f.nodup_tags
  exact (Stmt.map_live_records rfl f.stmt (fun _ h => absurd h List.not_mem_nil) htags (.inr f.stmt_free)).symm

/-- Every object of the map is a place. -/
theorem isTarget_of_mem {r : LabelId E × GotoObject E} (hr : r ∈ f.records) : IsTarget f r.2 := by
  have hlive : live r ∈ f.places := by
    rw [f.places_eq]
    exact List.mem_map_of_mem hr
  exact ⟨_, Stmt.normal_of_record f.stmt f.fits .nil trivial (fun _ h => absurd h List.not_mem_nil) (live r) hlive⟩

/-- No label comes up while a goto is under way. -/
theorem Exec.OnWay.not_labeled {s : Exec E} {m : Mark E} {t K : KSeq E} (h : s.OnWay f) : s.k ≠ .labeled m t :: K := by
  obtain ⟨-, o, -, hu⟩ := h
  intro hk
  rw [hk] at hu
  generalize hk' : KItem.labeled m t :: K = k at hu
  cases hu with
  | up | leave | enter => cases hk'
  | @down pre _ _ _ _ hpre hbh =>
    cases pre with
    | nil => cases hk'
    | cons i pre =>
      cases hk'
      exact absurd (hpre _ List.mem_cons_self) (by simp [KItem.isRewinding, KItem.isCode])

variable [DecidableEq E] {c : Cells} {G : GotoMap E}

/-- The map has the objects of the records, under their labels. -/
theorem lookup_of_mem_records (hG : G.Perm f.records) {r : LabelId E × GotoObject E} (hr : r ∈ f.records) :
    G.lookup r.1 = some r.2 :=
  AssocMap.lookup_of_mem ((hG.map Prod.fst).nodup_iff.mpr f.nodup_records) (hG.mem_iff.mpr hr)

/-! ## Runs -/

/-- **The states of a call.**  It starts with the `Goto(funLabel)` of `application`, outside of all blocks and
    loops; no statement of a program is another one. -/
inductive Exec.Reaches (c : Cells) (G : GotoMap E) : Exec E → Prop
  | call {K : KSeq E} {store : Store} {s : Exec E} (hbh : store.blockControl.blockHistory = [])
    (h : Step c G ⟨.simple (.Goto .funLabel) :: K, [], store⟩ s) : Reaches c G s
  | step {s s' : Exec E} (h : Reaches c G s) (hs : Step c G s s') (hcall : s.k.head? ≠ some (.simple (.Goto .funLabel))) :
    Reaches c G s'

/-- **Every state of a call** is a place, or on the way to one. -/
theorem reaches_inv (hG : G.Perm f.records) {s : Exec E} (h : Exec.Reaches c G s) : s.AtPlace f ∨ s.OnWay f := by
  have htargets : ∀ o ∈ G.map Prod.snd, IsTarget f o := by
    intro o ho
    obtain ⟨r, hr, rfl⟩ := List.mem_map.mp ho
    exact isTarget_of_mem (hG.mem_iff.mp hr)
  induction h with
  | @call K store s hbh h =>
    cases h with
    | evaluate hi => cases hi
    | pass hi => cases hi
    | @gotoFun _ _ _ o hlookup =>
      obtain ⟨r, hr, hlabel, hhistory, hloops⟩ :
          ∃ r ∈ f.records, r.1 = .funLabel ∧ r.2.blockHistory = [] ∧ r.2.loopStack = [] :=
        ⟨_, List.mem_cons_self, rfl, rfl, rfl⟩
      have hr' := lookup_of_mem_records hG hr
      rw [hlabel, hlookup] at hr'
      obtain ⟨ds, hn⟩ := isTarget_of_mem hr
      rw [← Option.some.inj hr'] at hn hhistory hloops
      rw [hhistory, hloops] at hn
      have hblocks : store.Nested := by
        rw [Store.Nested, hbh]
        trivial
      refine .inl ⟨hblocks, ds, ?_⟩
      rw [Exec.blockHistory, hbh]
      exact hn
    | goto hl => exact absurd rfl hl
  | step h hs hcall ih =>
    rcases ih with hplace | hway
    · exact step_normal htargets hplace hs hcall
    · exact step_underway hway hs

/-! ## The map agrees -/

/-- **The map of a body agrees with the machine**: it has one object for each label, under the blocks around the
    label, and at a label the machine has the object's blocks, continuation and loops, up to what a `popLoop` throws away. -/
structure GotoMap.Agrees (f : FunctionBody E) (G : GotoMap E) : Prop where
  nodup : (G.map Prod.fst).Nodup
  history : (G.map fun r => (r.1, r.2.blockHistory)).Perm (f.stmt.enclosing [])
  continuation : ∀ (c : Cells) (s : Exec E), Exec.Reaches c G s → ∀ m t K, s.k = .labeled m t :: K →
    ∃ o, G.lookup m.labelId = some o ∧ o.blockHistory = s.blockHistory ∧ upto o.k = upto (t ++ K) ∧
      uptoLoops o.loopStack = uptoLoops s.loopStack

theorem agrees_of_perm (hG : G.Perm f.records) : G.Agrees f where
  nodup := (hG.map Prod.fst).nodup_iff.mpr f.nodup_records
  history := by
    have := hG.map fun r => (r.1, r.2.blockHistory)
    rwa [FunctionBody.records, Stmt.map_history_records] at this
  continuation := by
    intro c s hs m t K hk
    rcases reaches_inv hG hs with ⟨-, ds, hn⟩ | hway
    · rw [hk] at hn
      cases hn.on.front with
      | labeled hfits h =>
        obtain ⟨r, hr, hrec⟩ := List.mem_map.mp hfits.record
        rw [f.places_eq] at hr
        obtain ⟨r, hmem, rfl⟩ := List.mem_map.mp hr
        obtain ⟨hlabel, hobject⟩ := Prod.mk.inj hrec
        have hlookup := lookup_of_mem_records hG hmem
        change r.1 = m.labelId at hlabel
        rw [hlabel] at hlookup
        unfold GotoObject.upto at hobject
        obtain ⟨hhistory, hcont, hloops, -⟩ := GotoObject.mk.inj hobject
        exact ⟨r.2, hlookup, hhistory, hcont, hloops⟩
    · exact absurd hk hway.not_labeled

/-- **The map of labels and the machine agree**: in every order of its steps the calculation ends, with a map
    that agrees with the machine. -/
theorem goto_map_agrees (f : FunctionBody E) :
    Inevitably CalcStep (fun t => t.calcs = [] ∧ t.gotoMap.Agrees f) (calculateGotoMap f.stmt.elaborate) :=
  (calculateGotoMap_ends f).mono fun _ ht => ⟨ht.1, agrees_of_perm ht.2⟩

end Body

end CSemantics
