/-
  Questions that are passed on.

  Who knows an answer gives it; who knows none passes the question on to others, and puts together what they say.
  There is NO memory of who has been asked, so there are three ways to have no answer: the question goes in a circle,
  two different sources answer, or one source answers twice and its answer cannot be taken twice.

  What is gathered is a list of sources, as often as they are come upon.  Everything about the result can be read
  off it: whether it exists at all, which sources are in it, and which of them twice.
-/
import Mathlib.Data.Finite.Defs
import Mathlib.Data.List.Forall2
import Mathlib.Logic.Relation
import Mathlib.Order.WellFounded
import Mathlib.Order.RelClasses
import Mathlib.Data.Set.Finite.Basic
import Mathlib.Data.Fintype.Order

namespace Referral

/-! ## Who is asked -/

section Graph

variable {α : Type*} (own next : α → List α)

/-- `a` passes the question on to `c`. -/
def Passes (a c : α) : Prop := own a = [] ∧ c ∈ next a

/-- `b` is a source of the answer to what `a` is asked, whichever way it is come upon. -/
inductive Answers : α → α → Prop
  | own {a b : α} (h : b ∈ own a) : Answers a b
  | next {a b c : α} (h : Passes own next a c) (hc : Answers c b) : Answers a b

/-- The sources of an answer, in at most `n` steps, as often as they are come upon. -/
def Gathers : ℕ → α → List α → Prop
  | 0, _, _ => False
  | n + 1, a, Ms => (own a ≠ [] ∧ Ms = own a) ∨
      (own a = [] ∧ ∃ Mss, List.Forall₂ (Gathers n) (next a) Mss ∧ Ms = Mss.flatten)

/-- On the way from `a` to `b` the question goes two ways. -/
def Forked (a b : α) : Prop :=
  ∃ p c c', Relation.ReflTransGen (Passes own next) a p ∧ Passes own next p c ∧ Passes own next p c' ∧ c ≠ c' ∧
    Answers own next c b ∧ Answers own next c' b

variable {own next}

theorem Answers.exists_own {a b : α} (h : Answers own next a b) : ∃ p, b ∈ own p := by
  induction h with
  | own h => exact ⟨_, h⟩
  | next _ _ ih => exact ih

theorem exists_of_mem_left {β : Type*} {R : α → β → Prop} {l : List α} {l' : List β} (h : List.Forall₂ R l l')
    {a : α} (ha : a ∈ l) : ∃ b ∈ l', R a b := by
  induction h with
  | nil => cases ha
  | cons hab _ ih =>
    rcases List.mem_cons.mp ha with rfl | ha
    · exact ⟨_, List.mem_cons_self, hab⟩
    · obtain ⟨b, hb, hR⟩ := ih ha
      exact ⟨b, List.mem_cons_of_mem _ hb, hR⟩

theorem exists_of_mem_right {β : Type*} {R : α → β → Prop} {l : List α} {l' : List β} (h : List.Forall₂ R l l')
    {b : β} (hb : b ∈ l') : ∃ a ∈ l, R a b :=
  exists_of_mem_left h.flip hb

theorem Gathers.succ {n : ℕ} {a : α} {Ms : List α} (h : Gathers own next n a Ms) :
    Gathers own next (n + 1) a Ms := by
  induction n generalizing a Ms with
  | zero => cases h
  | succ n ih =>
    rcases h with h | ⟨h, Mss, hall, rfl⟩
    · exact .inl h
    · exact .inr ⟨h, Mss, hall.imp fun _ _ => ih, rfl⟩

theorem Gathers.mono {n m : ℕ} {a : α} {Ms : List α} (h : Gathers own next n a Ms) (hnm : n ≤ m) :
    Gathers own next m a Ms := by
  induction hnm with
  | refl => exact h
  | step _ ih => exact ih.succ

/-- There is an end of asking exactly where there is an end of passing on. -/
theorem exists_gathers_iff {a : α} :
    (∃ n Ms, Gathers own next n a Ms) ↔ Acc (fun c a => Passes own next a c) a := by
  constructor
  · rintro ⟨n, Ms, h⟩
    induction n generalizing a Ms with
    | zero => cases h
    | succ n ih =>
      refine .intro a fun c hc => ?_
      rcases h with ⟨h, -⟩ | ⟨-, Mss, hall, -⟩
      · exact absurd hc.1 h
      · obtain ⟨Ns, -, hN⟩ := exists_of_mem_left hall hc.2
        exact ih Ns hN
  · intro h
    induction h with
    | intro a _ ih =>
      by_cases hown : own a = []
      · have hall : ∀ l : List α, (∀ c ∈ l, c ∈ next a) →
            ∃ n Mss, List.Forall₂ (Gathers own next n) l Mss := by
          intro l
          induction l with
          | nil => exact fun _ => ⟨0, [], .nil⟩
          | cons c l ihl =>
            intro hl
            obtain ⟨n, Mss, hMss⟩ := ihl fun d hd => hl d (List.mem_cons_of_mem _ hd)
            obtain ⟨m, Ms, hMs⟩ := ih c ⟨hown, hl c List.mem_cons_self⟩
            exact ⟨max m n, Ms :: Mss, .cons (hMs.mono (le_max_left m n))
              (hMss.imp fun _ _ h => h.mono (le_max_right m n))⟩
        obtain ⟨n, Mss, h⟩ := hall (next a) fun _ hc => hc
        exact ⟨n + 1, _, .inr ⟨hown, Mss, h, rfl⟩⟩
      · exact ⟨1, own a, .inl ⟨hown, rfl⟩⟩

theorem Gathers.mem_iff {n : ℕ} {a b : α} {Ms : List α} (h : Gathers own next n a Ms) :
    b ∈ Ms ↔ Answers own next a b := by
  induction n generalizing a Ms with
  | zero => cases h
  | succ n ih =>
    rcases h with ⟨hown, rfl⟩ | ⟨hown, Mss, hall, rfl⟩
    · constructor
      · exact .own
      · rintro (h | ⟨h, -⟩)
        · exact h
        · exact absurd h.1 hown
    · constructor
      · intro hb
        obtain ⟨Ns, hNs, hb⟩ := List.mem_flatten.mp hb
        obtain ⟨c, hc, hN⟩ := exists_of_mem_right hall hNs
        exact .next ⟨hown, hc⟩ ((ih hN).mp hb)
      · rintro (h | ⟨h, hc⟩)
        · rw [hown] at h
          cases h
        · obtain ⟨Ns, hNs, hN⟩ := exists_of_mem_left hall h.2
          exact List.mem_flatten.mpr ⟨Ns, hNs, (ih hN).mpr hc⟩

/-- Those asked one after the other come upon a source twice when one of them does, or two do once. -/
theorem two_le_count_flatten [DecidableEq α] {n : ℕ} {b : α} {l : List α} {Mss : List (List α)}
    (h : List.Forall₂ (Gathers own next n) l Mss) (hl : l.Nodup)
    (hforked : ∀ c ∈ l, ∀ Ms, Gathers own next n c Ms → (2 ≤ Ms.count b ↔ Forked own next c b)) :
    2 ≤ Mss.flatten.count b ↔ (∃ c ∈ l, Forked own next c b) ∨
      ∃ c ∈ l, ∃ c' ∈ l, c ≠ c' ∧ Answers own next c b ∧ Answers own next c' b := by
  induction h with
  | nil => simp
  | @cons c Ms l Mss hc hall ih =>
    obtain ⟨hcl, hl⟩ := List.nodup_cons.mp hl
    have hcount : 2 ≤ Ms.count b + Mss.flatten.count b ↔
        2 ≤ Ms.count b ∨ 2 ≤ Mss.flatten.count b ∨ (0 < Ms.count b ∧ 0 < Mss.flatten.count b) := by omega
    have hfirst : 0 < Ms.count b ↔ Answers own next c b := by rw [List.count_pos_iff, hc.mem_iff]
    have hrest : 0 < Mss.flatten.count b ↔ ∃ c' ∈ l, Answers own next c' b := by
      rw [List.count_pos_iff, List.mem_flatten]
      constructor
      · rintro ⟨Ns, hNs, hb⟩
        obtain ⟨c', hc', hN⟩ := exists_of_mem_right hall hNs
        exact ⟨c', hc', hN.mem_iff.mp hb⟩
      · rintro ⟨c', hc', hb⟩
        obtain ⟨Ns, hNs, hN⟩ := exists_of_mem_left hall hc'
        exact ⟨Ns, hNs, hN.mem_iff.mpr hb⟩
    rw [List.flatten_cons, List.count_append, hcount, hfirst, hrest, hforked c List.mem_cons_self Ms hc,
      ih hl fun d hd => hforked d (List.mem_cons_of_mem _ hd)]
    constructor
    · rintro (h | (⟨d, hd, h⟩ | ⟨d, hd, d', hd', hne, hb, hb'⟩) | ⟨hb, d, hd, hb'⟩)
      · exact .inl ⟨c, List.mem_cons_self, h⟩
      · exact .inl ⟨d, List.mem_cons_of_mem _ hd, h⟩
      · exact .inr ⟨d, List.mem_cons_of_mem _ hd, d', List.mem_cons_of_mem _ hd', hne, hb, hb'⟩
      · exact .inr ⟨c, List.mem_cons_self, d, List.mem_cons_of_mem _ hd, fun e => hcl (e ▸ hd), hb, hb'⟩
    · rintro (⟨d, hd, h⟩ | ⟨d, hd, d', hd', hne, hb, hb'⟩)
      · rcases List.mem_cons.mp hd with rfl | hd
        · exact .inl h
        · exact .inr (.inl (.inl ⟨d, hd, h⟩))
      · rcases List.mem_cons.mp hd with rfl | hdl
        · rcases List.mem_cons.mp hd' with rfl | hdl'
          · exact absurd rfl hne
          · exact .inr (.inr ⟨hb, d', hdl', hb'⟩)
        · rcases List.mem_cons.mp hd' with rfl | hdl'
          · exact .inr (.inr ⟨hb', d, hdl, hb⟩)
          · exact .inr (.inl (.inr ⟨d, hdl, d', hdl', hne, hb, hb'⟩))

/-- A source is come upon twice exactly where the question goes two ways to it. -/
theorem Gathers.two_le_count_iff [DecidableEq α] (hown : ∀ a, (own a).Nodup) (hnext : ∀ a, (next a).Nodup) {n : ℕ}
    {a b : α} {Ms : List α} (h : Gathers own next n a Ms) : 2 ≤ Ms.count b ↔ Forked own next a b := by
  induction n generalizing a Ms with
  | zero => cases h
  | succ n ih =>
    rcases h with ⟨ha, rfl⟩ | ⟨ha, Mss, hall, rfl⟩
    · refine iff_of_false ?_ ?_
      · have := List.nodup_iff_count_le_one.mp (hown a) b
        omega
      · rintro ⟨p, c, c', hp, hc, -⟩
        rcases Relation.ReflTransGen.cases_head hp with rfl | ⟨d, hd, -⟩
        · exact ha hc.1
        · exact ha hd.1
    · rw [two_le_count_flatten hall (hnext a) fun c _ Ms hc => ih hc]
      constructor
      · rintro (⟨c, hc, p, d, d', hp, h⟩ | ⟨c, hc, c', hc', h⟩)
        · exact ⟨p, d, d', .head ⟨ha, hc⟩ hp, h⟩
        · exact ⟨a, c, c', .refl, ⟨ha, hc⟩, ⟨ha, hc'⟩, h⟩
      · rintro ⟨p, d, d', hp, hd, hd', h⟩
        rcases Relation.ReflTransGen.cases_head hp with rfl | ⟨c, hc, hcp⟩
        · exact .inr ⟨d, hd.2, d', hd'.2, h⟩
        · exact .inl ⟨c, hc.2, p, d, d', hcp, hd, hd', h⟩

end Graph

/-- Where only finitely many can pass on, passing on ends if it does not come back. -/
theorem acc_iff_of_finite {α : Type*} {r : α → α → Prop} (hfin : {a | ∃ c, r a c}.Finite) {a : α} :
    Acc (fun c a => r a c) a ↔ ∀ b, Relation.ReflTransGen r a b → ¬ Relation.TransGen r b b := by
  constructor
  · intro h
    have hb : ∀ b, Acc (fun c a => r a c) b → ¬ Relation.TransGen r b b := by
      intro b hb
      have htrans := hb.transGen
      induction htrans with
      | intro b _ ih =>
        intro hcyc
        exact ih b (Relation.transGen_swap.mp hcyc) hb hcyc
    intro b hab
    refine hb b ?_
    induction hab with
    | refl => exact h
    | tail _ hstep ih => exact ih.inv hstep
  · intro h
    let V := {b | (∃ c, r b c) ∧ Relation.ReflTransGen r a b}
    have : Finite V := (hfin.subset fun _ hb => hb.1).to_subtype
    let R : V → V → Prop := fun x y => Relation.TransGen r y.1 x.1
    have : IsTrans V R := ⟨fun _ _ _ hxy hyz => hyz.trans hxy⟩
    have : Std.Irrefl R := ⟨fun x hx => h x.1 x.2.2 hx⟩
    have hwf : WellFounded R := Finite.wellFounded_of_trans_of_irrefl R
    have hacc : ∀ x : V, Acc (fun c a => r a c) x.1 := by
      intro x
      induction x using hwf.induction with
      | _ x ih =>
        refine .intro x.1 fun c hc => ?_
        by_cases hout : ∃ d, r c d
        · exact ih ⟨c, hout, x.2.2.tail hc⟩ (.single hc)
        · exact .intro c fun d hd => absurd ⟨d, hd⟩ hout
    by_cases hout : ∃ c, r a c
    · exact hacc ⟨a, hout, .refl⟩
    · exact .intro a fun c hc => absurd ⟨c, hc⟩ hout

/-! ## What is said -/

section Union

variable {α υ : Type*} (look : α → υ) (nothing : υ) (union : υ → υ → Option υ) (repeatable : α → Prop)

/-- Two answers cannot be put together, unless one of them is nothing, or they are from one source that may be
    repeated. -/
structure LawfulUnion : Prop where
  nothing_union : ∀ v, union nothing v = some v
  union_nothing : ∀ v, union v nothing = some v
  union_look : ∀ {a b : α}, look a ≠ nothing → look b ≠ nothing → ∀ w,
    union (look a) (look b) = some w ↔ a = b ∧ repeatable a ∧ w = look a

/-- `r` is what the sources say together. -/
def Agree (Ms : List α) (r : υ) : Prop :=
  (Ms = [] ∧ r = nothing) ∨
    ∃ M k, Ms = List.replicate (k + 1) M ∧ look M ≠ nothing ∧ (k ≠ 0 → repeatable M) ∧ r = look M

variable {look nothing union repeatable}

theorem agree_nil : Agree look nothing repeatable [] nothing := .inl ⟨rfl, rfl⟩

theorem agree_singleton {M : α} (h : look M ≠ nothing) : Agree look nothing repeatable [M] (look M) :=
  .inr ⟨M, 0, rfl, h, fun h => absurd rfl h, rfl⟩

theorem Agree.exists_left {Ms Ns : List α} {r : υ} (h : Agree look nothing repeatable (Ms ++ Ns) r) :
    ∃ x, Agree look nothing repeatable Ms x := by
  rcases h with ⟨h, -⟩ | ⟨M, k, h, hM, hrep, -⟩
  · rw [(List.append_eq_nil_iff.mp h).1]
    exact ⟨nothing, agree_nil⟩
  · obtain ⟨hlen, hMs, -⟩ := List.append_eq_replicate_iff.mp h
    cases hk : Ms.length with
    | zero =>
      rw [List.length_eq_zero_iff.mp hk]
      exact ⟨nothing, agree_nil⟩
    | succ j =>
      rw [hk] at hMs
      exact ⟨look M, .inr ⟨M, j, hMs, hM, fun hj => hrep (by omega), rfl⟩⟩

theorem Agree.exists_right {Ms Ns : List α} {r : υ} (h : Agree look nothing repeatable (Ms ++ Ns) r) :
    ∃ x, Agree look nothing repeatable Ns x := by
  rcases h with ⟨h, -⟩ | ⟨M, k, h, hM, hrep, -⟩
  · rw [(List.append_eq_nil_iff.mp h).2]
    exact ⟨nothing, agree_nil⟩
  · obtain ⟨hlen, -, hNs⟩ := List.append_eq_replicate_iff.mp h
    cases hk : Ns.length with
    | zero =>
      rw [List.length_eq_zero_iff.mp hk]
      exact ⟨nothing, agree_nil⟩
    | succ j =>
      rw [hk] at hNs
      exact ⟨look M, .inr ⟨M, j, hNs, hM, fun hj => hrep (by omega), rfl⟩⟩

theorem Agree.unique {Ms : List α} {r r' : υ} (h : Agree look nothing repeatable Ms r)
    (h' : Agree look nothing repeatable Ms r') : r = r' := by
  rcases h with ⟨rfl, rfl⟩ | ⟨M, k, rfl, -, -, rfl⟩
  · rcases h' with ⟨-, rfl⟩ | ⟨M, k, h, -⟩
    · rfl
    · cases h
  · rcases h' with ⟨h, -⟩ | ⟨N, j, h, -, -, rfl⟩
    · cases h
    · rw [List.replicate_succ, List.replicate_succ] at h
      rw [(List.cons.inj h).1]

/-- Sources do not say nothing. -/
theorem Agree.eq_nothing_iff {Ms : List α} {r : υ} (h : Agree look nothing repeatable Ms r) :
    r = nothing ↔ Ms = [] := by
  rcases h with ⟨hMs, hr⟩ | ⟨M, k, rfl, hM, -, rfl⟩
  · exact iff_of_true hr hMs
  · exact iff_of_false hM (fun h => nomatch h)

theorem agree_iff_of_nodup {Ms : List α} {r : υ} (h : Ms.Nodup) :
    Agree look nothing repeatable Ms r ↔
      (Ms = [] ∧ r = nothing) ∨ ∃ M, Ms = [M] ∧ look M ≠ nothing ∧ r = look M := by
  refine or_congr_right ⟨?_, ?_⟩
  · rintro ⟨M, k, rfl, hM, -, rfl⟩
    have hk := List.nodup_replicate.mp h
    obtain rfl : k = 0 := by omega
    exact ⟨M, rfl, hM, rfl⟩
  · rintro ⟨M, rfl, hM, rfl⟩
    exact ⟨M, 0, rfl, hM, fun h => absurd rfl h, rfl⟩

theorem LawfulUnion.union_iff (hu : LawfulUnion look nothing union repeatable) {Ms Ns : List α} {x y z : υ}
    (hx : Agree look nothing repeatable Ms x) (hy : Agree look nothing repeatable Ns y) :
    union y x = some z ↔ Agree look nothing repeatable (Ms ++ Ns) z := by
  rcases hx with ⟨rfl, hx⟩ | ⟨M, k, rfl, hM, hk, rfl⟩
  · rw [hx, hu.union_nothing, Option.some_inj, List.nil_append]
    exact ⟨fun h => h ▸ hy, hy.unique⟩
  · rcases hy with ⟨rfl, hy⟩ | ⟨N, j, rfl, hN, hj, rfl⟩
    · have hagree : Agree look nothing repeatable (List.replicate (k + 1) M) (look M) :=
        .inr ⟨M, k, rfl, hM, hk, rfl⟩
      rw [hy, hu.nothing_union, Option.some_inj, List.append_nil]
      exact ⟨fun h => h ▸ hagree, hagree.unique⟩
    · rw [hu.union_look hN hM]
      constructor
      · rintro ⟨rfl, hrep, rfl⟩
        have hlen : List.replicate (k + 1) N ++ List.replicate (j + 1) N = List.replicate (k + j + 1 + 1) N := by
          rw [List.replicate_append_replicate]
          congr 1
          omega
        exact .inr ⟨N, k + j + 1, hlen, hN, fun _ => hrep, rfl⟩
      · rintro (⟨h, -⟩ | ⟨P, i, h, -, hrep, rfl⟩)
        · cases h
        · obtain ⟨hlen, hMs, hNs⟩ := List.append_eq_replicate_iff.mp h
          rw [List.length_replicate, List.length_replicate] at hlen
          rw [List.length_replicate, List.replicate_succ, List.replicate_succ] at hMs hNs
          obtain rfl := (List.cons.inj hMs).1
          obtain rfl := (List.cons.inj hNs).1
          exact ⟨rfl, hrep (by omega), rfl⟩

/-- **Asking one after the other** gives what all sources say together. -/
theorem LawfulUnion.foldlM_iff {γ : Type*} (hu : LawfulUnion look nothing union repeatable) {f : γ → Option υ}
    {G : γ → List α → Prop} {l : List γ}
    (hf : ∀ c ∈ l, ∀ x, f c = some x ↔ ∃ Ms, G c Ms ∧ Agree look nothing repeatable Ms x) {S : List α} {r z : υ}
    (hr : Agree look nothing repeatable S r) :
    l.foldlM (fun r c => do union (← f c) r) r = some z ↔
      ∃ Mss, List.Forall₂ G l Mss ∧ Agree look nothing repeatable (S ++ Mss.flatten) z := by
  induction l generalizing S r with
  | nil =>
    constructor
    · intro h
      obtain rfl := Option.some.inj h
      exact ⟨[], .nil, by simpa using hr⟩
    · rintro ⟨Mss, hMss, hz⟩
      cases hMss
      rw [List.flatten_nil, List.append_nil] at hz
      exact congrArg some (hr.unique hz)
  | cons c l ih =>
    obtain ⟨hc, hl⟩ := List.forall_mem_cons.mp hf
    rw [List.foldlM_cons]
    constructor
    · intro h
      obtain ⟨r', hr', h⟩ := Option.bind_eq_some_iff.mp h
      obtain ⟨x, hx, hr'⟩ := Option.bind_eq_some_iff.mp hr'
      obtain ⟨Ms, hMs, hagree⟩ := (hc x).mp hx
      obtain ⟨Mss, hMss, hz⟩ := (ih hl ((hu.union_iff hr hagree).mp hr')).mp h
      exact ⟨Ms :: Mss, .cons hMs hMss, by rwa [List.flatten_cons, ← List.append_assoc]⟩
    · rintro ⟨_, hMss, hz⟩
      cases hMss with
      | @cons _ Ms _ Mss hMs hMss =>
        rw [List.flatten_cons, ← List.append_assoc] at hz
        obtain ⟨r', hr'⟩ := hz.exists_left
        obtain ⟨x, hx⟩ := hr'.exists_right
        refine Option.bind_eq_some_iff.mpr ⟨r', ?_, (ih hl hr').mpr ⟨Mss, hMss, hz⟩⟩
        exact Option.bind_eq_some_iff.mpr ⟨x, (hc x).mpr ⟨Ms, hMs, hx⟩, (hu.union_iff hr hx).mpr hr'⟩

/-- What some say is what those of them say together who say anything. -/
theorem LawfulUnion.foldlM_look_iff (hu : LawfulUnion look nothing union repeatable) {p : α → Bool}
    (hp : ∀ a, p a = true ↔ look a ≠ nothing) {l : List α} {z : υ} :
    l.foldlM (fun r a => union (look a) r) nothing = some z ↔ Agree look nothing repeatable (l.filter p) z := by
  have hflatten : ∀ {l Mss}, List.Forall₂ (fun a Ms => Ms = [a].filter p) l Mss → Mss.flatten = l.filter p := by
    intro l Mss h
    induction h with
    | nil => rfl
    | @cons a Ms l Mss ha _ ih =>
      rw [List.flatten_cons, ha, ih, ← List.filter_append]
      rfl
  have hall : List.Forall₂ (fun a Ms => Ms = [a].filter p) l (l.map fun a => [a].filter p) := by
    rw [List.forall₂_map_right_iff]
    exact List.forall₂_same.mpr fun _ _ => rfl
  have hask : ∀ a ∈ l, ∀ x, some (look a) = some x ↔
      ∃ Ms, Ms = [a].filter p ∧ Agree look nothing repeatable Ms x := by
    intro a _ x
    rw [Option.some_inj, exists_eq_left]
    cases hpa : p a with
    | false =>
      have hnone : look a = nothing := by
        by_contra h
        rw [(hp a).mpr h] at hpa
        cases hpa
      rw [List.filter_singleton, hpa, hnone]
      exact ⟨fun h => h ▸ agree_nil, agree_nil.unique⟩
    | true =>
      rw [List.filter_singleton, hpa]
      have hsome : Agree look nothing repeatable [a] (look a) := agree_singleton ((hp a).mp hpa)
      exact ⟨fun h => h ▸ hsome, hsome.unique⟩
  refine (hu.foldlM_iff hask agree_nil).trans ⟨?_, fun h => ⟨_, hall, ?_⟩⟩
  · rintro ⟨Mss, hMss, h⟩
    rwa [List.nil_append, hflatten hMss] at h
  · rwa [List.nil_append, hflatten hall]

/-- **There is an answer** exactly where passing on ends, and one source at most is come upon, twice only if it may be
    repeated. -/
theorem exists_gathers_agree_iff {own next : α → List α} (hown : ∀ a, (own a).Nodup) (hnext : ∀ a, (next a).Nodup)
    (hlook : ∀ a, ∀ b ∈ own a, look b ≠ nothing) {a : α} {r : υ} :
    (∃ n Ms, Gathers own next n a Ms ∧ Agree look nothing repeatable Ms r) ↔
      Acc (fun c a => Passes own next a c) a ∧
        (((∀ b, ¬ Answers own next a b) ∧ r = nothing) ∨
          ∃ b, (∀ c, Answers own next a c ↔ c = b) ∧ (Forked own next a b → repeatable b) ∧ r = look b) := by
  classical
  constructor
  · rintro ⟨n, Ms, h, hagree⟩
    refine ⟨exists_gathers_iff.mp ⟨n, Ms, h⟩, ?_⟩
    rcases hagree with ⟨rfl, hr⟩ | ⟨M, k, rfl, hM, hk, rfl⟩
    · refine .inl ⟨fun b hb => ?_, hr⟩
      cases h.mem_iff.mpr hb
    · refine .inr ⟨M, fun c => ?_, fun hf => hk ?_, rfl⟩
      · rw [← h.mem_iff, List.mem_replicate]
        exact and_iff_right (Nat.succ_ne_zero k)
      · have hcount := (h.two_le_count_iff hown hnext).mpr hf
        rw [List.count_replicate_self] at hcount
        omega
  · rintro ⟨hacc, hr⟩
    obtain ⟨n, Ms, h⟩ := exists_gathers_iff.mpr hacc
    refine ⟨n, Ms, h, ?_⟩
    rcases hr with ⟨hnone, hr⟩ | ⟨b, hb, hrep, rfl⟩
    · exact .inl ⟨List.eq_nil_iff_forall_not_mem.mpr fun c hc => hnone c (h.mem_iff.mp hc), hr⟩
    · have hall : ∀ c ∈ Ms, c = b := fun c hc => (hb c).mp (h.mem_iff.mp hc)
      have hmem : b ∈ Ms := h.mem_iff.mpr ((hb b).mpr rfl)
      have hMs : Ms = List.replicate Ms.length b := List.eq_replicate_iff.mpr ⟨rfl, hall⟩
      obtain ⟨k, hk⟩ := Nat.exists_eq_succ_of_ne_zero (List.length_pos_of_mem hmem).ne'
      rw [hk] at hMs
      refine .inr ⟨b, k, hMs, ?_, fun hk0 => hrep ?_, rfl⟩
      · obtain ⟨p, hp⟩ := ((hb b).mpr rfl).exists_own
        exact hlook p b hp
      · refine (h.two_le_count_iff hown hnext).mp ?_
        rw [hMs, List.count_replicate_self]
        omega

end Union

end Referral
