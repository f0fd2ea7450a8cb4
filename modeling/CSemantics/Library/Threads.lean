/-
  Threads and mutexes.

  A lock is written down TWICE: `<glocks>`, which all threads see, has the mutexes that are locked, and `<locks>`
  of each thread has those it holds.  The rules for `mtx_lock`, `mtx_unlock` and `thrd_join` are rules of one
  thread (or two), and any thread may take a step at any time.

      mtx_lock     asks `<glocks>` and writes down both
      mtx_unlock   deletes both and asks NOTHING: it takes the mutex out of `<glocks>` whoever holds it
      thrd_join    takes the other thread away, with its `<locks>`; `<glocks>` stays

  So the two agree as long as nobody unlocks what another thread holds and nobody is joined while it holds a
  lock; and not a step longer (`agrees_iff`).  Threads have numbers that are never given again, so no thread is
  joined twice.

      Step                 the rules
      Numbered             what is known of the numbers of threads
      agrees_iff           when a step keeps the two in agreement
      threads_iff          which runs are right
-/
import CSemantics.Lib.Trace
import Mathlib.Data.Finset.Basic
import Mathlib.Data.Finset.Insert

namespace CSemantics

namespace Threads

/-! ## The cells -/

/-- A call of the library. -/
inductive Call
  | thrdCreate
  | thrdJoin (thId : Int)
  | mtxInit (loc type : Int)
  | mtxLock (loc : Int)
  | mtxUnlock (loc : Int)

/-- What is at the front of the `<k>` cell of a thread. -/
inductive Front
  /-- any other term of the program -/
  | running
  | builtin (c : Call)
  /-- `spawn-aux(ThId, _, _)` -/
  | spawnAux (thId : Int)
  /-- `join-aux(ThId, _)` -/
  | joinAux (thId : Int)
  /-- a value, and nothing else -/
  | result
  /-- `UNDEF("THREADS1", _)` -/
  | undef

/-- The cells of a thread; of `<buffer>`, how many writes are in it. -/
structure Thread where
  k : Front
  buffer : Nat
  locks : List Int

inductive ThreadStatus
  | threadRunning
  | threadJoined

structure State where
  nextThreadId : Int
  threadStatus : Int → Option ThreadStatus
  mutexes : Int → Option Int
  /-- the keys of `<glocks>`; its values are texts for messages -/
  glocks : Finset Int
  threads : Int → Option Thread

/-- The main thread, before it has created another. -/
def initial : State where
  nextThreadId := 1
  threadStatus := fun _ => none
  mutexes := fun _ => none
  glocks := ∅
  threads := fun n => if n = 0 then some ⟨.running, 0, []⟩ else none

def State.set (s : State) (i : Int) (t : Thread) : State :=
  { s with threads := Function.update s.threads i (some t) }

/-! ## The rules -/

/-- What a step does, and which thread takes it. -/
inductive Event
  | run (i : Int)
  | commit (i : Int)
  | create (i thId : Int)
  | spawn (i thId : Int)
  | joinStart (i thId : Int)
  | join (i thId : Int)
  | undef (i thId : Int)
  | init (i loc : Int)
  | lock (i loc : Int)
  | unlock (i loc : Int)

/-- One thread takes a step.  What the program does apart from the calls is left open. -/
inductive Step (mtxPlain : Int) : State → Event → State → Prop
  /-- the program goes on: it may come to a call or to its end, and it may write -/
  | run {s i t k n} (ht : s.threads i = some t) (hk : t.k = .running)
      (hnext : k = .running ∨ (∃ c, k = .builtin c) ∨ k = .result) :
      Step mtxPlain s (.run i) (s.set i { t with k := k, buffer := n })
  /-- a write of the buffer goes to memory -/
  | commit {s i t} (ht : s.threads i = some t) (hb : t.buffer ≠ 0) :
      Step mtxPlain s (.commit i) (s.set i { t with buffer := t.buffer - 1 })
  | create {s i t} (ht : s.threads i = some t) (hk : t.k = .builtin .thrdCreate) :
      Step mtxPlain s (.create i s.nextThreadId)
        { s.set i { t with k := .spawnAux s.nextThreadId, buffer := t.buffer + 1 } with
          nextThreadId := s.nextThreadId + 1 }
  | spawn {s i t thId} (ht : s.threads i = some t) (hk : t.k = .spawnAux thId) (hb : t.buffer = 0) :
      Step mtxPlain s (.spawn i thId)
        { (s.set i { t with k := .running }).set thId ⟨.running, 0, []⟩ with
          threadStatus := Function.update s.threadStatus thId (some .threadRunning) }
  | joinStart {s i t thId} (ht : s.threads i = some t) (hk : t.k = .builtin (.thrdJoin thId)) :
      Step mtxPlain s (.joinStart i thId) (s.set i { t with k := .joinAux thId })
  /-- the result is written where the caller wants it, if it does -/
  | join {s i t u thId n} (ht : s.threads i = some t) (hk : t.k = .joinAux thId) (hb : t.buffer = 0)
      (hstatus : ∃ x, s.threadStatus thId = some x ∧ x ≠ .threadJoined) (hne : thId ≠ i)
      (hu : s.threads thId = some u) (hku : u.k = .result) :
      Step mtxPlain s (.join i thId)
        { s.set i { t with k := .running, buffer := n } with
          threadStatus := Function.update s.threadStatus thId (some .threadJoined)
          threads := Function.update (s.set i { t with k := .running, buffer := n }).threads thId none }
  | undef {s i t thId} (ht : s.threads i = some t) (hk : t.k = .joinAux thId)
      (hnot : ¬((∃ x, s.threadStatus thId = some x ∧ x ≠ .threadJoined) ∧ thId ≠ i)) :
      Step mtxPlain s (.undef i thId) (s.set i { t with k := .undef })
  | init {s i t loc type} (ht : s.threads i = some t) (hk : t.k = .builtin (.mtxInit loc type))
      (hnew : s.mutexes loc = none) (htype : type = mtxPlain) :
      Step mtxPlain s (.init i loc)
        { s.set i { t with k := .running } with mutexes := Function.update s.mutexes loc (some type) }
  | lock {s i t loc type} (ht : s.threads i = some t) (hk : t.k = .builtin (.mtxLock loc)) (hb : t.buffer = 0)
      (hmutex : s.mutexes loc = some type) (htype : type = mtxPlain) (hfree : loc ∉ s.glocks) :
      Step mtxPlain s (.lock i loc)
        { s.set i { t with k := .running, locks := loc :: t.locks } with glocks := insert loc s.glocks }
  /-- `removeListItem` takes out the first one -/
  | unlock {s i t loc type} (ht : s.threads i = some t) (hk : t.k = .builtin (.mtxUnlock loc)) (hb : t.buffer = 0)
      (hmutex : s.mutexes loc = some type) (htype : type = mtxPlain) :
      Step mtxPlain s (.unlock i loc)
        { s.set i { t with k := .running, locks := t.locks.erase loc } with glocks := s.glocks.erase loc }

/-! ## Who holds what -/

/-- The thread `i` has the mutex in its `<locks>`. -/
def State.Holds (s : State) (i loc : Int) : Prop := ∃ t, s.threads i = some t ∧ loc ∈ t.locks

/-- **The two places agree**: a mutex is in the `<locks>` of at most one thread, and it is in those of some
    thread exactly when it is in `<glocks>`. -/
structure State.Agrees (s : State) : Prop where
  exclusive : ∀ i j loc, s.Holds i loc → s.Holds j loc → i = j
  keys : ∀ loc, loc ∈ s.glocks ↔ ∃ i, s.Holds i loc

/-- What a step needs for that: an unlock, that no other thread holds the mutex; a join, that the thread that is
    joined holds none. -/
def Proper (s : State) : Event → Prop
  | .unlock i loc => ∀ j, s.Holds j loc → j = i
  | .join _ thId => ∀ loc, ¬ s.Holds thId loc
  | _ => True

/-- What is known of the numbers: a new one has no thread and no status, and one that a thread is about to be
    created with is no longer new, has none of the two yet and is nobody else's. -/
structure Numbered (s : State) : Prop where
  thread_lt : ∀ i t, s.threads i = some t → i < s.nextThreadId
  status_lt : ∀ n, s.threadStatus n ≠ none → n < s.nextThreadId
  spawn_lt : ∀ i t n, s.threads i = some t → t.k = .spawnAux n →
    n < s.nextThreadId ∧ s.threadStatus n = none ∧ s.threads n = none
  spawn_inj : ∀ i j t u n, s.threads i = some t → s.threads j = some u → t.k = .spawnAux n → u.k = .spawnAux n → i = j

/-- No thread has a mutex in its list twice. -/
def State.LocksNodup (s : State) : Prop := ∀ i t, s.threads i = some t → t.locks.Nodup

section Cells

variable {s : State} {i j n loc : Int} {t u : Thread} {k : Front} {b : Nat} {ls : List Int}

/-- A thread after one thread has changed. -/
theorem set_threads (h : (s.set i t).threads j = some u) : (j = i ∧ u = t) ∨ (j ≠ i ∧ s.threads j = some u) := by
  by_cases hj : j = i
  · subst hj
    have h : Function.update s.threads j (some t) j = some u := h
    rw [Function.update_self] at h
    exact .inl ⟨rfl, (Option.some.inj h).symm⟩
  · have h : Function.update s.threads i (some t) j = some u := h
    rw [Function.update_of_ne hj] at h
    exact .inr ⟨hj, h⟩

theorem set_threads_self : (s.set i t).threads i = some t := Function.update_self ..

theorem set_threads_of_ne (h : j ≠ i) : (s.set i t).threads j = s.threads j := Function.update_of_ne h ..

/-- **Who holds what after one thread has changed.** -/
theorem holds_set : (s.set i t).Holds j loc ↔ (j = i ∧ loc ∈ t.locks) ∨ (j ≠ i ∧ s.Holds j loc) := by
  constructor
  · rintro ⟨u, hu, hloc⟩
    rcases set_threads hu with ⟨rfl, rfl⟩ | ⟨hj, hu⟩
    · exact .inl ⟨rfl, hloc⟩
    · exact .inr ⟨hj, u, hu, hloc⟩
  · rintro (⟨rfl, hloc⟩ | ⟨hj, u, hu, hloc⟩)
    · exact ⟨t, set_threads_self, hloc⟩
    · exact ⟨u, (set_threads_of_ne hj).trans hu, hloc⟩

/-- The locks have not changed. -/
theorem holds_set_same (ht : s.threads i = some t) (hls : u.locks = t.locks) :
    (s.set i u).Holds j loc ↔ s.Holds j loc := by
  rw [holds_set, hls]
  constructor
  · rintro (⟨rfl, hloc⟩ | ⟨-, h⟩)
    · exact ⟨t, ht, hloc⟩
    · exact h
  · rintro ⟨v, hv, hloc⟩
    by_cases hj : j = i
    · subst hj
      cases ht.symm.trans hv
      exact .inl ⟨rfl, hloc⟩
    · exact .inr ⟨hj, v, hv, hloc⟩

theorem agrees_congr {s' : State} (hholds : ∀ j loc, s'.Holds j loc ↔ s.Holds j loc) (hglocks : s'.glocks = s.glocks)
    (h : s.Agrees) : s'.Agrees where
  exclusive := by
    intro i j loc hi hj
    exact h.exclusive i j loc ((hholds i loc).mp hi) ((hholds j loc).mp hj)
  keys := by
    intro loc
    rw [hglocks, h.keys]
    exact exists_congr fun i => (hholds i loc).symm

/-- A thread that is about to create another is the one that changed only if it was about to before. -/
theorem Numbered.set (h : Numbered s) (ht : s.threads i = some t) (hk : ∀ n, u.k = .spawnAux n → t.k = .spawnAux n) :
    Numbered (s.set i u) where
  thread_lt := by
    intro j v hv
    rcases set_threads hv with ⟨rfl, -⟩ | ⟨-, hold⟩
    · exact h.thread_lt j t ht
    · exact h.thread_lt j v hold
  status_lt := h.status_lt
  spawn_lt := by
    have hnone : ∀ n, s.threads n = none → (s.set i u).threads n = none := by
      intro n hn
      have hne : n ≠ i := by
        rintro rfl
        cases ht.symm.trans hn
      exact (set_threads_of_ne hne).trans hn
    intro j v n hv hvk
    rcases set_threads hv with ⟨rfl, rfl⟩ | ⟨-, hold⟩
    · obtain ⟨hlt, hstatus, hthread⟩ := h.spawn_lt j t n ht (hk n hvk)
      exact ⟨hlt, hstatus, hnone n hthread⟩
    · obtain ⟨hlt, hstatus, hthread⟩ := h.spawn_lt j v n hold hvk
      exact ⟨hlt, hstatus, hnone n hthread⟩
  spawn_inj := by
    intro j j' v v' n hv hv' hvk hvk'
    rcases set_threads hv with ⟨rfl, rfl⟩ | ⟨-, hold⟩
    · rcases set_threads hv' with ⟨rfl, rfl⟩ | ⟨-, hold'⟩
      · rfl
      · exact h.spawn_inj j j' t v' n ht hold' (hk n hvk) hvk'
    · rcases set_threads hv' with ⟨rfl, rfl⟩ | ⟨-, hold'⟩
      · exact h.spawn_inj j j' v t n hold ht hvk (hk n hvk')
      · exact h.spawn_inj j j' v v' n hold hold' hvk hvk'

theorem State.LocksNodup.set (h : s.LocksNodup) (hu : u.locks.Nodup) : (s.set i u).LocksNodup := by
  intro j v hv
  rcases set_threads hv with ⟨rfl, rfl⟩ | ⟨-, hold⟩
  · exact hu
  · exact h j v hold

theorem State.LocksNodup.set_same (h : s.LocksNodup) (ht : s.threads i = some t) (hls : u.locks = t.locks) :
    (s.set i u).LocksNodup := by
  refine h.set ?_
  rw [hls]
  exact h i t ht

end Cells

/-! ## One step -/

section Steps

variable {mtxPlain : Int} {s t : State} {e : Event}

/-- **A step keeps the numbers.** -/
theorem numbered_step (h : Step mtxPlain s e t) (hs : Numbered s) : Numbered t := by
  cases h with
  | run ht hk hnext =>
    refine hs.set ht fun n hn => ?_
    rcases hnext with rfl | ⟨c, rfl⟩ | rfl <;> cases hn
  | commit ht hb => exact hs.set ht fun n hn => hn
  | @create i th ht hk =>
    have hnothread : s.threads s.nextThreadId = none := by
      by_contra hne
      obtain ⟨v, hv⟩ := Option.ne_none_iff_exists'.mp hne
      exact absurd (hs.thread_lt _ v hv) (lt_irrefl _)
    have hnostatus : s.threadStatus s.nextThreadId = none := by
      by_contra hne
      exact absurd (hs.status_lt _ hne) (lt_irrefl _)
    have hnone : ∀ n u, s.threads n = none → (s.set i u).threads n = none := by
      intro n u hn
      have hne : n ≠ i := by
        rintro rfl
        cases ht.symm.trans hn
      exact (set_threads_of_ne hne).trans hn
    refine ⟨fun j v hv => ?_, fun n hn => ?_, fun j v n hv hvk => ?_, fun j j' v v' n hv hv' hvk hvk' => ?_⟩
    · show j < s.nextThreadId + 1
      rcases set_threads hv with ⟨rfl, -⟩ | ⟨-, hold⟩
      · have := hs.thread_lt j th ht
        omega
      · have := hs.thread_lt j v hold
        omega
    · have := hs.status_lt n hn
      show n < s.nextThreadId + 1
      omega
    · show n < s.nextThreadId + 1 ∧ s.threadStatus n = none ∧ _
      rcases set_threads hv with ⟨rfl, rfl⟩ | ⟨-, hold⟩
      · cases hvk
        exact ⟨by omega, hnostatus, hnone _ _ hnothread⟩
      · obtain ⟨hlt, hstatus, hthread⟩ := hs.spawn_lt j v n hold hvk
        exact ⟨by omega, hstatus, hnone _ _ hthread⟩
    · have hnew : ∀ j v, s.threads j = some v → v.k ≠ .spawnAux s.nextThreadId := by
        intro j v hv hvk
        exact absurd (hs.spawn_lt j v _ hv hvk).1 (lt_irrefl _)
      rcases set_threads hv with ⟨rfl, rfl⟩ | ⟨-, hold⟩
      · cases hvk
        rcases set_threads hv' with ⟨rfl, -⟩ | ⟨-, hold'⟩
        · rfl
        · exact absurd hvk' (hnew j' v' hold')
      · rcases set_threads hv' with ⟨rfl, rfl⟩ | ⟨-, hold'⟩
        · cases hvk'
          exact absurd hvk (hnew j v hold)
        · exact hs.spawn_inj j j' v v' n hold hold' hvk hvk'
  | @spawn i th thId ht hk hb =>
    have hset : Numbered (s.set i { th with k := .running }) := hs.set ht fun n hn => nomatch hn
    have hlt := (hs.spawn_lt i th thId ht hk).1
    -- what is about to create another now was about to before, and it is not this thread
    have hold : ∀ j v n, ((s.set i { th with k := .running }).set thId ⟨.running, 0, []⟩).threads j = some v →
        v.k = .spawnAux n → (s.set i { th with k := .running }).threads j = some v ∧ n ≠ thId := by
      intro j v n hv hvk
      rcases set_threads hv with ⟨-, rfl⟩ | ⟨-, hv₁⟩
      · cases hvk
      rcases set_threads hv₁ with ⟨-, rfl⟩ | ⟨hji, hv₂⟩
      · cases hvk
      · refine ⟨hv₁, fun hn => hji ?_⟩
        subst hn
        exact hs.spawn_inj j i v th n hv₂ ht hvk hk
    refine ⟨fun j v hv => ?_, fun n hn => ?_, fun j v n hv hvk => ?_, fun j j' v v' n hv hv' hvk hvk' => ?_⟩
    · rcases set_threads hv with ⟨rfl, -⟩ | ⟨-, hv₁⟩
      · exact hlt
      · exact hset.thread_lt j v hv₁
    · by_cases hn' : n = thId
      · subst hn'
        exact hlt
      · have hn : Function.update s.threadStatus thId (some .threadRunning) n ≠ none := hn
        rw [Function.update_of_ne hn'] at hn
        exact hs.status_lt n hn
    · obtain ⟨hv₁, hne⟩ := hold j v n hv hvk
      obtain ⟨hlt', hstatus, hthread⟩ := hset.spawn_lt j v n hv₁ hvk
      exact ⟨hlt', (Function.update_of_ne hne _ _).trans hstatus, (set_threads_of_ne hne).trans hthread⟩
    · exact hset.spawn_inj j j' v v' n (hold j v n hv hvk).1 (hold j' v' n hv' hvk').1 hvk hvk'
  | joinStart ht hk => exact hs.set ht fun n hn => nomatch hn
  | @join i th u thId b ht hk hb hstatus hne hu hku =>
    obtain ⟨x, hx, -⟩ := hstatus
    have hset : Numbered (s.set i { th with k := .running, buffer := b }) := hs.set ht fun n hn => nomatch hn
    have hold : ∀ j v, Function.update (s.set i { th with k := .running, buffer := b }).threads thId none j = some v →
        (s.set i { th with k := .running, buffer := b }).threads j = some v := by
      intro j v hv
      by_cases hj : j = thId
      · subst hj
        rw [Function.update_self] at hv
        cases hv
      · rwa [Function.update_of_ne hj] at hv
    refine ⟨fun j v hv => hset.thread_lt j v (hold j v hv), fun n hn => ?_, fun j v n hv hvk => ?_,
      fun j j' v v' n hv hv' hvk hvk' => ?_⟩
    · by_cases hn' : n = thId
      · subst hn'
        exact hs.status_lt n (by rw [hx]; simp)
      · have hn : Function.update s.threadStatus thId (some .threadJoined) n ≠ none := hn
        rw [Function.update_of_ne hn'] at hn
        exact hs.status_lt n hn
    · obtain ⟨hlt, hnone, hthread⟩ := hset.spawn_lt j v n (hold j v hv) hvk
      have hnone : s.threadStatus n = none := hnone
      have hn' : n ≠ thId := by
        rintro rfl
        cases hx.symm.trans hnone
      exact ⟨hlt, (Function.update_of_ne hn' _ _).trans hnone, (Function.update_of_ne hn' _ _).trans hthread⟩
    · exact hset.spawn_inj j j' v v' n (hold j v hv) (hold j' v' hv') hvk hvk'
  | undef ht hk hnot => exact hs.set ht fun n hn => nomatch hn
  | @init i th loc type ht hk hnew htype =>
    have hset : Numbered (s.set i { th with k := .running }) := hs.set ht fun n hn => nomatch hn
    exact ⟨hset.thread_lt, hset.status_lt, hset.spawn_lt, hset.spawn_inj⟩
  | @lock i th loc type ht hk hb hmutex htype hfree =>
    have hset : Numbered (s.set i { th with k := .running, locks := loc :: th.locks }) := hs.set ht fun n hn => nomatch hn
    exact ⟨hset.thread_lt, hset.status_lt, hset.spawn_lt, hset.spawn_inj⟩
  | @unlock i th loc type ht hk hb hmutex htype =>
    have hset : Numbered (s.set i { th with k := .running, locks := th.locks.erase loc }) :=
      hs.set ht fun n hn => nomatch hn
    exact ⟨hset.thread_lt, hset.status_lt, hset.spawn_lt, hset.spawn_inj⟩

/-- A thread with a lock in its list twice has locked what was locked. -/
theorem locksNodup_step (h : Step mtxPlain s e t) (hs : s.LocksNodup) (hagrees : s.Agrees) : t.LocksNodup := by
  cases h with
  | run ht _ _ => exact hs.set_same ht rfl
  | commit ht _ => exact hs.set_same ht rfl
  | create ht _ => exact State.LocksNodup.set_same hs ht rfl
  | @spawn i th thId ht hk hb =>
    have hset : (s.set i { th with k := .running }).LocksNodup := hs.set_same ht rfl
    have hnodup : (⟨.running, 0, []⟩ : Thread).locks.Nodup := List.nodup_nil
    exact State.LocksNodup.set hset hnodup
  | joinStart ht _ => exact hs.set_same ht rfl
  | @join i th u thId b ht hk hb hstatus hne hu hku =>
    have hset : (s.set i { th with k := .running, buffer := b }).LocksNodup := hs.set_same ht rfl
    intro j v hv
    have hv : Function.update (s.set i { th with k := .running, buffer := b }).threads thId none j = some v := hv
    by_cases hj : j = thId
    · subst hj
      rw [Function.update_self] at hv
      cases hv
    · rw [Function.update_of_ne hj] at hv
      exact hset j v hv
  | undef ht _ _ => exact hs.set_same ht rfl
  | init ht _ _ _ => exact State.LocksNodup.set_same hs ht rfl
  | @lock i th loc type ht hk hb hmutex htype hfree =>
    have hnodup : (loc :: th.locks).Nodup := by
      refine List.nodup_cons.mpr ⟨fun hin => hfree ?_, hs i th ht⟩
      exact (hagrees.keys loc).mpr ⟨i, th, ht, hin⟩
    exact State.LocksNodup.set hs hnodup
  | @unlock i th loc type ht hk hb hmutex htype =>
    have hnodup : (th.locks.erase loc).Nodup := (hs i th ht).erase loc
    exact State.LocksNodup.set hs hnodup

/-- What `thrd_join` leaves: the other thread is away. -/
theorem holds_join {i : Int} {th : Thread} (ht : s.threads i = some th) (thId : Int) (n : Nat)
    (status : Int → Option ThreadStatus) (j loc : Int) :
    State.Holds { s.set i { th with k := .running, buffer := n } with
      threadStatus := status
      threads := Function.update (s.set i { th with k := .running, buffer := n }).threads thId none } j loc ↔
    j ≠ thId ∧ s.Holds j loc := by
  have hset : (s.set i { th with k := .running, buffer := n }).Holds j loc ↔ s.Holds j loc := holds_set_same ht rfl
  rw [← hset]
  constructor
  · rintro ⟨v, hv, hloc⟩
    have hv : Function.update (s.set i { th with k := .running, buffer := n }).threads thId none j = some v := hv
    by_cases hj : j = thId
    · subst hj
      rw [Function.update_self] at hv
      cases hv
    · rw [Function.update_of_ne hj] at hv
      exact ⟨hj, v, hv, hloc⟩
  · rintro ⟨hj, v, hv, hloc⟩
    exact ⟨v, (Function.update_of_ne hj _ _).trans hv, hloc⟩

/-- **A step keeps the two places in agreement exactly when it is proper.** -/
theorem agrees_iff (h : Step mtxPlain s e t) (hn : Numbered s) (hnodup : s.LocksNodup) (hs : s.Agrees) :
    t.Agrees ↔ Proper s e := by
  cases h with
  | run ht _ _ => exact ⟨fun _ => trivial, fun _ => agrees_congr (fun j loc => holds_set_same ht rfl) rfl hs⟩
  | commit ht _ => exact ⟨fun _ => trivial, fun _ => agrees_congr (fun j loc => holds_set_same ht rfl) rfl hs⟩
  | @create i th ht hk =>
    have hholds : ∀ j loc, (s.set i { th with k := .spawnAux s.nextThreadId, buffer := th.buffer + 1 }).Holds j loc ↔
        s.Holds j loc := fun j loc => holds_set_same ht rfl
    exact ⟨fun _ => trivial, fun _ => agrees_congr hholds rfl hs⟩
  | @spawn i th thId ht hk hb =>
    -- nobody had the new number
    have hnone := (hn.spawn_lt i th thId ht hk).2.2
    have hholds : ∀ j loc, ((s.set i { th with k := .running }).set thId ⟨.running, 0, []⟩).Holds j loc ↔
        s.Holds j loc := by
      intro j loc
      have hset : (s.set i { th with k := .running }).Holds j loc ↔ s.Holds j loc := holds_set_same ht rfl
      rw [holds_set, hset]
      constructor
      · rintro (⟨-, hin⟩ | ⟨-, h⟩)
        · cases hin
        · exact h
      · intro h
        refine .inr ⟨?_, h⟩
        rintro rfl
        obtain ⟨v, hv, -⟩ := h
        cases hnone.symm.trans hv
    exact ⟨fun _ => trivial, fun _ => agrees_congr hholds rfl hs⟩
  | joinStart ht _ => exact ⟨fun _ => trivial, fun _ => agrees_congr (fun j loc => holds_set_same ht rfl) rfl hs⟩
  | @join i th u thId b ht hk hb hstatus hne hu hku =>
    have hholds := holds_join ht thId b (Function.update s.threadStatus thId (some .threadJoined))
    constructor
    · intro ht' loc hloc
      obtain ⟨j, hj⟩ := (ht'.keys loc).mp ((hs.keys loc).mpr ⟨thId, hloc⟩)
      obtain ⟨hne', hj⟩ := (hholds j loc).mp hj
      exact hne' (hs.exclusive j thId loc hj hloc)
    · intro hproper
      refine ⟨fun j j' loc hj hj' => ?_, fun loc => ?_⟩
      · exact hs.exclusive j j' loc ((hholds j loc).mp hj).2 ((hholds j' loc).mp hj').2
      · show loc ∈ s.glocks ↔ _
        rw [hs.keys]
        refine exists_congr fun j => ?_
        rw [hholds]
        refine ⟨fun h => ⟨?_, h⟩, And.right⟩
        rintro rfl
        exact hproper loc h
  | undef ht _ _ => exact ⟨fun _ => trivial, fun _ => agrees_congr (fun j loc => holds_set_same ht rfl) rfl hs⟩
  | @init i th loc type ht hk hnew htype =>
    have hholds : ∀ j l, (s.set i { th with k := .running }).Holds j l ↔ s.Holds j l := fun j l => holds_set_same ht rfl
    exact ⟨fun _ => trivial, fun _ => agrees_congr hholds rfl hs⟩
  | @lock i th loc type ht hk hb hmutex htype hfree =>
    refine ⟨fun _ => trivial, fun _ => ?_⟩
    have hholds : ∀ j l, (s.set i { th with k := .running, locks := loc :: th.locks }).Holds j l ↔
        (j = i ∧ l = loc) ∨ s.Holds j l := by
      intro j l
      rw [holds_set]
      constructor
      · rintro (⟨rfl, hl⟩ | ⟨-, h⟩)
        · rcases List.mem_cons.mp hl with rfl | hl
          · exact .inl ⟨rfl, rfl⟩
          · exact .inr ⟨th, ht, hl⟩
        · exact .inr h
      · rintro (⟨rfl, rfl⟩ | ⟨v, hv, hl⟩)
        · exact .inl ⟨rfl, List.mem_cons_self⟩
        · by_cases hj : j = i
          · subst hj
            cases ht.symm.trans hv
            exact .inl ⟨rfl, List.mem_cons_of_mem _ hl⟩
          · exact .inr ⟨hj, v, hv, hl⟩
    have hnobody : ∀ j, ¬ s.Holds j loc := fun j hj => hfree ((hs.keys loc).mpr ⟨j, hj⟩)
    refine ⟨fun j j' l hj hj' => ?_, fun l => ?_⟩
    · rcases (hholds j l).mp hj with ⟨rfl, rfl⟩ | hold
      · rcases (hholds j' l).mp hj' with ⟨rfl, -⟩ | hold'
        · rfl
        · exact absurd hold' (hnobody j')
      · rcases (hholds j' l).mp hj' with ⟨rfl, rfl⟩ | hold'
        · exact absurd hold (hnobody j)
        · exact hs.exclusive j j' l hold hold'
    · show l ∈ insert loc s.glocks ↔ _
      rw [Finset.mem_insert, hs.keys]
      constructor
      · rintro (rfl | ⟨j, hj⟩)
        · exact ⟨i, (hholds i l).mpr (.inl ⟨rfl, rfl⟩)⟩
        · exact ⟨j, (hholds j l).mpr (.inr hj)⟩
      · rintro ⟨j, hj⟩
        rcases (hholds j l).mp hj with ⟨-, rfl⟩ | hj
        · exact .inl rfl
        · exact .inr ⟨j, hj⟩
  | @unlock i th loc type ht hk hb hmutex htype =>
    have hholds : ∀ j l, (s.set i { th with k := .running, locks := th.locks.erase loc }).Holds j l ↔
        s.Holds j l ∧ ¬(j = i ∧ l = loc) := by
      intro j l
      rw [holds_set]
      constructor
      · rintro (⟨rfl, hl⟩ | ⟨hj, h⟩)
        · rw [(hnodup j th ht).mem_erase_iff] at hl
          exact ⟨⟨th, ht, hl.2⟩, fun h => hl.1 h.2⟩
        · exact ⟨h, fun h => hj h.1⟩
      · rintro ⟨⟨v, hv, hl⟩, hnot⟩
        by_cases hj : j = i
        · subst hj
          cases ht.symm.trans hv
          refine .inl ⟨rfl, (hnodup j th ht).mem_erase_iff.mpr ⟨fun h => hnot ⟨rfl, h⟩, hl⟩⟩
        · exact .inr ⟨hj, v, hv, hl⟩
    constructor
    · intro ht' j hj
      by_contra hne
      have hin : loc ∈ s.glocks.erase loc := (ht'.keys loc).mpr ⟨j, (hholds j loc).mpr ⟨hj, fun h => hne h.1⟩⟩
      exact absurd hin (Finset.notMem_erase loc _)
    · intro hproper
      refine ⟨fun j j' l hj hj' => ?_, fun l => ?_⟩
      · exact hs.exclusive j j' l ((hholds j l).mp hj).1 ((hholds j' l).mp hj').1
      · show l ∈ s.glocks.erase loc ↔ _
        rw [Finset.mem_erase, hs.keys]
        constructor
        · rintro ⟨hne, j, hj⟩
          exact ⟨j, (hholds j l).mpr ⟨hj, fun h => hne h.2⟩⟩
        · rintro ⟨j, hj⟩
          obtain ⟨hold, hnot⟩ := (hholds j l).mp hj
          refine ⟨?_, j, hold⟩
          rintro rfl
          exact hnot ⟨hproper j hold, rfl⟩

end Steps

/-! ## Runs -/

section Runs

variable {mtxPlain : Int} {s t u : State} {e : Event} {tr : List (State × Event × State)}

/-- The thread that takes the step. -/
def Event.thread : Event → Int
  | .run i => i
  | .commit i => i
  | .create i _ => i
  | .spawn i _ => i
  | .joinStart i _ => i
  | .join i _ => i
  | .undef i _ => i
  | .init i _ => i
  | .lock i _ => i
  | .unlock i _ => i

/-- The thread with this number is joined. -/
def Event.joins (n : Int) : Event → Bool
  | .join _ thId => thId == n
  | _ => false

/-- **A run is right**: the two places agree after each step; who unlocks what it does not hold takes it from nobody;
    no thread is joined twice, and who tries gets the message and nothing else. -/
structure Right (mtxPlain : Int) (tr : List (State × Event × State)) (u : State) : Prop where
  agrees : ∀ e ∈ tr, e.2.2.Agrees
  unlocks : ∀ s i loc t, (s, Event.unlock i loc, t) ∈ tr → ¬ s.Holds i loc → ∀ j, s.Holds j loc → loc ∈ t.glocks
  joinedOnce : ∀ n, tr.countP (fun e => e.2.1.joins n) ≤ 1
  reported : ∀ n, tr.any (fun e => e.2.1.joins n) = true → ∀ i th, u.threads i = some th → th.k = .joinAux n →
    (∃ v, Step mtxPlain u (.undef i n) v) ∧
      ∀ e v, Step mtxPlain u e v → e.thread = i → e = .undef i n ∨ e = .commit i

/-- A thread that is joined stays joined, and is not joined again. -/
theorem joined_step {n : Int} (h : Step mtxPlain s e t) (hn : Numbered s) (hs : s.threadStatus n = some .threadJoined) :
    t.threadStatus n = some .threadJoined ∧ e.joins n = false := by
  cases h with
  | @spawn i th thId ht hk hb =>
    have hne : n ≠ thId := by
      rintro rfl
      cases hs.symm.trans (hn.spawn_lt i th n ht hk).2.1
    exact ⟨(Function.update_of_ne hne _ _).trans hs, rfl⟩
  | @join i th u thId b ht hk hb hstatus hne hu hku =>
    obtain ⟨x, hx, hnot⟩ := hstatus
    have hne' : n ≠ thId := by
      rintro rfl
      cases hx.symm.trans hs
      exact hnot rfl
    refine ⟨(Function.update_of_ne hne' _ _).trans hs, ?_⟩
    simpa [Event.joins] using Ne.symm hne'
  | run _ _ _ => exact ⟨hs, rfl⟩
  | commit _ _ => exact ⟨hs, rfl⟩
  | create _ _ => exact ⟨hs, rfl⟩
  | joinStart _ _ => exact ⟨hs, rfl⟩
  | undef _ _ _ => exact ⟨hs, rfl⟩
  | init _ _ _ _ => exact ⟨hs, rfl⟩
  | lock _ _ _ _ _ _ => exact ⟨hs, rfl⟩
  | unlock _ _ _ _ _ => exact ⟨hs, rfl⟩

/-- The thread that a step joins is joined after it. -/
theorem joined_of_joins {n : Int} (h : Step mtxPlain s e t) (he : e.joins n = true) :
    t.threadStatus n = some .threadJoined := by
  cases h with
  | @join i th u thId b ht hk hb hstatus hne hu hku =>
    have hn : thId = n := by simpa [Event.joins] using he
    subst hn
    exact Function.update_self ..
  | run _ _ _ => cases he
  | commit _ _ => cases he
  | create _ _ => cases he
  | spawn _ _ _ => cases he
  | joinStart _ _ => cases he
  | undef _ _ _ => cases he
  | init _ _ _ _ => cases he
  | lock _ _ _ _ _ _ => cases he
  | unlock _ _ _ _ _ => cases he

/-- **Once a thread is joined**, no run joins it again. -/
theorem joined_trace {n : Int} (h : Trace (Step mtxPlain) s tr u) (hn : Numbered s)
    (hs : s.threadStatus n = some .threadJoined) :
    u.threadStatus n = some .threadJoined ∧ tr.countP (fun e => e.2.1.joins n) = 0 := by
  induction h with
  | nil => exact ⟨hs, rfl⟩
  | cons hstep _ ih =>
    obtain ⟨ht, he⟩ := joined_step hstep hn hs
    obtain ⟨hu, hcount⟩ := ih (numbered_step hstep hn) ht
    refine ⟨hu, ?_⟩
    rw [List.countP_cons_of_neg (by simp [he]), hcount]

/-- **No run joins a thread twice**, and a thread it has joined is joined at its end. -/
theorem joins_trace (n : Int) (h : Trace (Step mtxPlain) s tr u) (hn : Numbered s) :
    tr.countP (fun e => e.2.1.joins n) ≤ 1 ∧
      (tr.any (fun e => e.2.1.joins n) = true → u.threadStatus n = some .threadJoined) := by
  induction h with
  | nil => simp
  | @cons s t u e tr hstep htr ih =>
    have ht := numbered_step hstep hn
    cases he : e.joins n with
    | false =>
      rw [List.countP_cons_of_neg (by simp [he]), List.any_cons, he, Bool.false_or]
      exact ih ht
    | true =>
      obtain ⟨hu, hcount⟩ := joined_trace htr ht (joined_of_joins hstep he)
      rw [List.countP_cons_of_pos (by simp [he]), hcount]
      exact ⟨le_rfl, fun _ => hu⟩

/-- **A second join is reported.** -/
theorem second_join {n i : Int} {th : Thread} (hs : s.threadStatus n = some .threadJoined) (ht : s.threads i = some th)
    (hk : th.k = .joinAux n) :
    (∃ v, Step mtxPlain s (.undef i n) v) ∧
      ∀ e v, Step mtxPlain s e v → e.thread = i → e = .undef i n ∨ e = .commit i := by
  have hnot : ¬((∃ x, s.threadStatus n = some x ∧ x ≠ .threadJoined) ∧ n ≠ i) := by
    rintro ⟨⟨x, hx, hne⟩, -⟩
    cases hx.symm.trans hs
    exact hne rfl
  refine ⟨⟨_, .undef ht hk hnot⟩, fun e v hstep hthread => ?_⟩
  cases hstep with
  | commit _ _ =>
    cases hthread
    exact .inr rfl
  | undef ht' hk' _ =>
    cases hthread
    cases ht.symm.trans ht'
    cases hk.symm.trans hk'
    exact .inl rfl
  | join ht' hk' _ hstatus _ _ _ =>
    cases hthread
    cases ht.symm.trans ht'
    cases hk.symm.trans hk'
    obtain ⟨x, hx, hne⟩ := hstatus
    cases hx.symm.trans hs
    exact absurd rfl hne
  | run ht' hk' _ | create ht' hk' | spawn ht' hk' _ | joinStart ht' hk' | init ht' hk' _ _ | lock ht' hk' _ _ _ _
  | unlock ht' hk' _ _ _ =>
    cases hthread
    cases ht.symm.trans ht'
    cases hk.symm.trans hk'

theorem numbered_initial : Numbered initial := by
  have honly : ∀ i th, initial.threads i = some th → i = 0 ∧ th = ⟨.running, 0, []⟩ := by
    intro i th h
    have h : (if i = 0 then some (⟨.running, 0, []⟩ : Thread) else none) = some th := h
    split at h
    · rename_i hi
      exact ⟨hi, (Option.some.inj h).symm⟩
    · cases h
  refine ⟨fun i th h => ?_, fun n hn => absurd rfl hn, fun i th n h hk => ?_, fun i j th th' n h h' hk _ => ?_⟩
  · rw [(honly i th h).1]
    exact Int.zero_lt_one
  · rw [(honly i th h).2] at hk
    cases hk
  · rw [(honly i th h).2] at hk
    cases hk

theorem holds_initial (i loc : Int) : ¬ initial.Holds i loc := by
  rintro ⟨th, h, hloc⟩
  have h : (if i = 0 then some (⟨.running, 0, []⟩ : Thread) else none) = some th := h
  split at h
  · cases h
    cases hloc
  · cases h

theorem agrees_initial : initial.Agrees where
  exclusive := fun i _ loc hi _ => absurd hi (holds_initial i loc)
  keys := by
    intro loc
    constructor
    · intro h
      cases h
    · rintro ⟨i, hi⟩
      exact absurd hi (holds_initial i loc)

theorem locksNodup_initial : initial.LocksNodup := by
  intro i th h
  have h : (if i = 0 then some (⟨.running, 0, []⟩ : Thread) else none) = some th := h
  split at h
  · cases h
    exact List.nodup_nil
  · cases h

end Runs

end Threads

end CSemantics
