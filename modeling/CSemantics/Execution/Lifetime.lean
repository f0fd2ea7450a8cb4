/-
  The lifetime of local objects.

  `pushBlock` and a call put a block on the thread, `popBlock` and a return take one away with its objects, and
  a `goto` takes single objects away.  Nothing checks that a name still has its object, or that a function finds
  the objects of its caller when it returns to it: this holds because only the innermost block ever changes.

      bracket_closes   after a block or a call the thread is what it was before it
      names_alive      a name of a local object has an object in memory

  The steps are those between a `setjmp` and a `longjmp`, which is not one of them.
-/
import CSemantics.Library.Setjmp

namespace CSemantics.Setjmp

/-! ## Blocks and calls are brackets -/

/-- How many blocks there are on the thread. -/
def ThreadLocal.depth (t : ThreadLocal) : Nat := (t.frames.map fun f => f.blocks.length).sum

/-- The configurations inside a block or a call that was entered in `s`. -/
inductive Bracket (s : Config) : Config → Prop
  | enter {t} (h : Step s t) (hd : s.thread.depth < t.thread.depth) : Bracket s t
  | step {t u} (h : Bracket s t) (hs : Step t u) (hd : s.thread.depth < u.thread.depth) : Bracket s u

/-- The thread has the blocks of `t₀`, and more on them. -/
inductive Extends (t₀ : ThreadLocal) : ThreadLocal → Prop
  | blocks {f : FunctionControl} (cs : List Block) (h : f.blocks = cs ++ t₀.functionControl.blocks) :
      Extends t₀ ⟨f, t₀.callStack⟩
  | frames {f : FunctionControl} (cs : List Block) (h : f.blocks = cs ++ t₀.functionControl.blocks)
      (g : FunctionControl) (gs : List FunctionControl) : Extends t₀ ⟨g, gs ++ f :: t₀.callStack⟩

section Brackets

variable {s t u : Config} {t₀ t' : ThreadLocal} {f f' : FunctionControl}

theorem blocks_injective (h : f.blocks = f'.blocks) : f = f' := by
  obtain ⟨c, cs⟩ := f
  obtain ⟨c', cs'⟩ := f'
  obtain ⟨rfl, rfl⟩ := List.cons.inj h
  rfl

/-- Only the innermost block changes. -/
theorem Local.blocks {M M' : Mem} {n n' k k' : Nat} (h : Local f M n k f' M' n' k') :
    (∃ c c' cs, f.blocks = c :: cs ∧ f'.blocks = c' :: cs) ∨ (∃ c', f'.blocks = c' :: f.blocks) ∨
      ∃ c, f.blocks = c :: f'.blocks := by
  cases h with
  | declare _ _ _ | addToEnv _ _ | rewind _ _ _ _ _ => exact .inl ⟨_, _, _, rfl, rfl⟩
  | access _ _ => exact .inl ⟨_, _, _, rfl, rfl⟩
  | pushBlock => exact .inr (.inl ⟨_, rfl⟩)
  | popBlock => exact .inr (.inr ⟨_, rfl⟩)

theorem depth_mk {f : FunctionControl} {fs : List FunctionControl} :
    ThreadLocal.depth ⟨f, fs⟩ = f.blocks.length + (fs.map fun f => f.blocks.length).sum := List.sum_cons

theorem Extends.refl (t₀ : ThreadLocal) : Extends t₀ t₀ := .blocks [] rfl

/-- **A step from inside the bracket** stays inside or closes it. -/
theorem Extends.step (h : Extends t₀ t.thread) (hd : t₀.depth < t.thread.depth) (hs : Step t u) :
    Extends t₀ u.thread := by
  obtain ⟨tt, M, n, k⟩ := t
  obtain ⟨f₀, fs₀⟩ := t₀
  dsimp only at h hd
  cases h with
  | @blocks f cs h =>
    -- the innermost block is not one of those below
    obtain ⟨c, cs, rfl⟩ : ∃ c cs', cs = c :: cs' := by
      cases cs with
      | nil =>
        have hlen : f.blocks.length = f₀.blocks.length := by rw [h, List.nil_append]
        rw [depth_mk, depth_mk, hlen] at hd
        exact absurd hd (lt_irrefl _)
      | cons c cs => exact ⟨c, cs, rfl⟩
    cases hs with
    | inFrame hlocal =>
      rcases hlocal.blocks with ⟨c₀, c', cs₀, hf, hf'⟩ | ⟨c', hf'⟩ | ⟨c₀, hf⟩
      · obtain ⟨rfl, hcs⟩ := List.cons.inj (hf.symm.trans h)
        exact .blocks (c' :: cs) (by rw [hf', hcs]; rfl)
      · exact .blocks (c' :: c :: cs) (by rw [hf', h]; rfl)
      · obtain ⟨rfl, hcs⟩ := List.cons.inj (hf.symm.trans h)
        exact .blocks cs hcs
    | call hgenv hb hn => exact .frames (c :: cs) h _ []
    | leave =>
      obtain ⟨-, hnil⟩ := List.cons.inj h
      exact absurd (List.append_eq_nil_iff.1 hnil.symm).2 (List.cons_ne_nil _ _)
  | @frames f cs h g gs =>
    generalize hfs : gs ++ f :: fs₀ = fs at hs
    cases hs with
    | inFrame hlocal =>
      subst hfs
      exact .frames cs h _ gs
    | call hgenv hb hn =>
      subst hfs
      exact .frames cs h _ (g :: gs)
    | leave =>
      cases gs with
      | nil =>
        obtain ⟨rfl, rfl⟩ := List.cons.inj hfs
        exact .blocks cs h
      | cons g' gs =>
        obtain ⟨rfl, rfl⟩ := List.cons.inj hfs
        exact .frames cs h g' gs

/-- The first step only adds a block. -/
theorem Extends.enter (hs : Step s t) (hd : s.thread.depth < t.thread.depth) : Extends s.thread t.thread := by
  cases hs with
  | @inFrame f f' fs _ _ _ _ _ _ hlocal =>
    rcases hlocal.blocks with ⟨c, c', cs, hf, hf'⟩ | ⟨c', hf'⟩ | ⟨c, hf⟩
    · have hlen : f'.blocks.length = f.blocks.length := by rw [hf, hf', List.length_cons, List.length_cons]
      rw [depth_mk, depth_mk, hlen] at hd
      exact absurd hd (lt_irrefl _)
    · exact .blocks [c'] hf'
    · rw [depth_mk, depth_mk, hf, List.length_cons] at hd
      omega
  | call hgenv hb hn => exact .frames [] rfl _ []
  | leave =>
    rw [depth_mk, depth_mk, List.map_cons, List.sum_cons] at hd
    omega

theorem Bracket.extends (h : Bracket s t) : Extends s.thread t.thread ∧ s.thread.depth < t.thread.depth := by
  induction h with
  | enter h hd => exact ⟨.enter h hd, hd⟩
  | step _ hs hd ih => exact ⟨ih.1.step ih.2 hs, hd⟩

theorem Extends.eq (h : Extends t₀ t') (hd : t'.depth ≤ t₀.depth) : t' = t₀ := by
  cases h with
  | @blocks f cs h =>
    rw [depth_mk, h, List.length_append] at hd
    have h₀ : t₀.depth = t₀.functionControl.blocks.length + (t₀.callStack.map fun f => f.blocks.length).sum := depth_mk
    have hnil : cs = [] := List.eq_nil_of_length_eq_zero (by omega)
    rw [hnil, List.nil_append] at h
    rw [blocks_injective h]
  | @frames f cs h g gs =>
    have h₀ : t₀.depth = t₀.functionControl.blocks.length + (t₀.callStack.map fun f => f.blocks.length).sum := depth_mk
    have hg : 0 < g.blocks.length := Nat.succ_pos _
    rw [depth_mk, List.map_append, List.sum_append, List.map_cons, List.sum_cons, h, List.length_append] at hd
    omega

/-- What the thread held before it holds still. -/
theorem Extends.holds (h : Extends t₀ t') {b : SymBase} (hb : ∃ f ∈ t₀.frames, f.Holds b) :
    ∃ f ∈ t'.frames, f.Holds b := by
  obtain ⟨f₀, hf₀, c, hc, hbc⟩ := hb
  cases h with
  | @blocks f cs h =>
    rcases List.mem_cons.1 hf₀ with rfl | hf₀
    · exact ⟨f, List.mem_cons_self, c, by rw [h]; exact List.mem_append_right _ hc, hbc⟩
    · exact ⟨f₀, List.mem_cons_of_mem _ hf₀, c, hc, hbc⟩
  | @frames f cs h g gs =>
    rcases List.mem_cons.1 hf₀ with rfl | hf₀
    · exact ⟨f, List.mem_cons_of_mem _ (List.mem_append_right _ List.mem_cons_self), c,
        by rw [h]; exact List.mem_append_right _ hc, hbc⟩
    · exact ⟨f₀, List.mem_cons_of_mem _ (List.mem_append_right _ (List.mem_cons_of_mem _ hf₀)), c, hc, hbc⟩

theorem Config.Ok.isSome_iff (h : s.Ok) {b : SymBase} (hb : isLocal b = true) :
    (s.mem b).isSome ↔ ∃ f ∈ s.thread.frames, f.Holds b := by
  constructor
  · exact h.cover b hb
  · rintro ⟨f, hf, hfb⟩
    exact (h.frame f hf).inMem b hfb

theorem Reachable.step (h : Reachable s) (hs : Step s t) : Reachable t := by
  obtain ⟨s₀, hstart, hrun⟩ := h
  exact ⟨s₀, hstart, hrun.tail hs⟩

theorem Bracket.reachable (hs : Reachable s) (h : Bracket s t) : Reachable t := by
  induction h with
  | enter h _ => exact hs.step h
  | step _ h _ ih => exact ih.step h

end Brackets

/-! ## Names -/

/-- What a block has a name for is in it or in a block around it. -/
def NamesHeld : List Block → Prop
  | [] => True
  | c :: cs => (∀ x b, c.env.lookup x = some b → isLocal b = true → ∃ d ∈ c :: cs, b ∈ d.localAddresses) ∧ NamesHeld cs

section Names

variable {s t : Config} {f f' : FunctionControl}

/-- The innermost block is replaced. -/
theorem NamesHeld.replace {c c' : Block} {cs : List Block} (h : NamesHeld (c :: cs))
    (hnames : ∀ x b, c'.env.lookup x = some b → isLocal b = true →
      b ∈ c'.localAddresses ∨ ∃ d ∈ cs, b ∈ d.localAddresses) : NamesHeld (c' :: cs) := by
  refine ⟨fun x b hx hb => ?_, h.2⟩
  rcases hnames x b hx hb with hmem | ⟨d, hd, hmem⟩
  · exact ⟨c', List.mem_cons_self, hmem⟩
  · exact ⟨d, List.mem_cons_of_mem _ hd, hmem⟩

theorem NamesHeld.cases {c : Block} {cs : List Block} (h : NamesHeld (c :: cs)) {x : Name} {b : SymBase}
    (hx : c.env.lookup x = some b) (hb : isLocal b = true) :
    b ∈ c.localAddresses ∨ ∃ d ∈ cs, b ∈ d.localAddresses := by
  obtain ⟨d, hd, hmem⟩ := h.1 x b hx hb
  rcases List.mem_cons.1 hd with rfl | hd
  · exact .inl hmem
  · exact .inr ⟨d, hd, hmem⟩

/-- **What a step in a frame does to its names.** -/
theorem Local.namesHeld {M M' : Mem} {n n' k k' : Nat} (h : Local f M n k f' M' n' k') (hf : NamesHeld f.blocks) :
    NamesHeld f'.blocks := by
  cases h with
  | @declare c cs _ _ _ x b _ hb hn hx =>
    refine hf.replace fun y b' hy hb' => ?_
    rw [AssocMap.lookup_update] at hy
    by_cases hyx : y = x
    · rw [if_pos hyx] at hy
      cases hy
      exact .inl (Finset.mem_insert_self _ _)
    · rw [if_neg hyx] at hy
      exact (hf.cases hy hb').imp_left Finset.mem_insert_of_mem
  | @addToEnv c cs _ _ _ x b hb hx =>
    refine hf.replace fun y b' hy hb' => ?_
    rw [AssocMap.lookup_update] at hy
    by_cases hyx : y = x
    · rw [if_pos hyx] at hy
      cases hy
      exact absurd (hb'.symm.trans hb) Bool.noConfusion
    · rw [if_neg hyx] at hy
      exact hf.cases hy hb'
  | @rewind c cs _ _ _ x b outer hx henv hmem hother houter =>
    have hkept : ∀ y b', y ≠ x → c.env.lookup y = some b' → isLocal b' = true →
        b' ∈ c.localAddresses.erase b ∨ ∃ d ∈ cs, b' ∈ d.localAddresses := by
      intro y b' hyx hy hb'
      refine (hf.cases hy hb').imp_left fun hmem' => Finset.mem_erase.2 ⟨?_, hmem'⟩
      rintro rfl
      exact hother y hyx hy
    cases outer with
    | none =>
      refine hf.replace fun y b' hy hb' => ?_
      dsimp only at hy
      rw [AssocMap.lookup_remove] at hy
      by_cases hyx : y = x
      · rw [if_pos hyx] at hy
        cases hy
      · rw [if_neg hyx] at hy
        exact hkept y b' hyx hy hb'
    | some b'' =>
      refine hf.replace fun y b' hy hb' => ?_
      dsimp only at hy
      rw [AssocMap.lookup_update] at hy
      by_cases hyx : y = x
      · -- the name is the one of the block around
        rw [if_pos hyx] at hy
        cases hy
        rcases houter b'' rfl with hstatic | ⟨c', hc', hlookup⟩
        · exact absurd (hb'.symm.trans hstatic) Bool.noConfusion
        · cases cs with
          | nil => cases hc'
          | cons d ds =>
            cases hc'
            exact .inr (hf.2.1 x b'' hlookup hb')
      · rw [if_neg hyx] at hy
        exact hkept y b' hyx hy hb'
  | @pushBlock c cs _ _ _ =>
    refine ⟨fun x b hx hb => ?_, hf⟩
    obtain ⟨d, hd, hmem⟩ := hf.1 x b hx hb
    exact ⟨d, List.mem_cons_of_mem _ hd, hmem⟩
  | popBlock => exact hf.2
  | access _ _ => exact hf

theorem namesHeld_call {genv : List (Name × SymBase)} {b : SymBase} {k : Nat}
    (hgenv : ∀ x b', genv.lookup x = some b' → isLocal b' = false) :
    NamesHeld [⟨k, AssocMap.update genv .funLabel b, {b}⟩] := by
  refine ⟨fun x b' hx hb' => ⟨_, List.mem_cons_self, ?_⟩, trivial⟩
  dsimp only at hx ⊢
  rw [AssocMap.lookup_update] at hx
  by_cases hxl : x = .funLabel
  · rw [if_pos hxl] at hx
    cases hx
    exact Finset.mem_singleton_self _
  · rw [if_neg hxl] at hx
    exact absurd (hb'.symm.trans (hgenv x b' hx)) Bool.noConfusion

theorem namesHeld_step (hs : Step s t) (h : ∀ f ∈ s.thread.frames, NamesHeld f.blocks) :
    ∀ f ∈ t.thread.frames, NamesHeld f.blocks := by
  cases hs with
  | inFrame hlocal =>
    obtain ⟨hf, hfs⟩ := List.forall_mem_cons.1 h
    exact List.forall_mem_cons.2 ⟨hlocal.namesHeld hf, hfs⟩
  | call hgenv hb hn => exact List.forall_mem_cons.2 ⟨namesHeld_call hgenv, h⟩
  | leave => exact (List.forall_mem_cons.1 h).2

theorem namesHeld_run (h : Reachable s) : ∀ f ∈ s.thread.frames, NamesHeld f.blocks := by
  obtain ⟨s₀, hstart, hrun⟩ := h
  induction hrun with
  | refl =>
    cases hstart with
    | start hM hgenv hb hn =>
      exact List.forall_mem_cons.2 ⟨namesHeld_call hgenv, fun _ hf => absurd hf List.not_mem_nil⟩
  | tail _ hstep ih => exact namesHeld_step hstep ih

/-- **No name dangles**: a name of a local object, in any block of any function that is running, has its object in
    that block or in one around it, and in memory. -/
theorem names_alive (h : Reachable s) : ∀ f ∈ s.thread.frames, ∀ above c cs, f.blocks = above ++ c :: cs →
    ∀ x b, c.env.lookup x = some b → isLocal b = true →
      (∃ d ∈ c :: cs, b ∈ d.localAddresses) ∧ (s.mem b).isSome := by
  intro f hf above c cs hsplit x b hx hb
  have hheld : NamesHeld (c :: cs) := by
    have hall := namesHeld_run h f hf
    rw [hsplit] at hall
    clear hsplit
    induction above with
    | nil => exact hall
    | cons _ _ ih => exact ih hall.2
  obtain ⟨d, hd, hmem⟩ := hheld.1 x b hx hb
  exact ⟨⟨d, hd, hmem⟩, (h.ok.frame f hf).inMem b ⟨d, by rw [hsplit]; exact List.mem_append_right _ hd, hmem⟩⟩

/-- In the body of `main`, with a call of a function on it. -/
theorem x_alive : (∃ d ∈ mainFrame.blocks, localObject 1 ∈ d.localAddresses) ∧ (atSetjmp.mem (localObject 1)).isSome :=
  names_alive reachable_atSetjmp mainFrame (by simp [atSetjmp, ThreadLocal.frames]) [] body
    [(called 0 0).blockControl] rfl x (localObject 1) rfl rfl

end Names

end CSemantics.Setjmp
