/-
SLDM.Lib.Locking — programs over a shared state that take and release
readers-writer locks.

A program is what one thread still has to do: it takes a lock, releases
one, or accesses the shared state in one atomic step and decides from what
it finds how to go on. Programs compose with `do`.

A `Discipline` gives each lock a rank and a part of the state that it
guards. A program `Follows` it when every lock it takes has a higher rank
than those it holds, every lock it releases is one it holds, and what a
lock guards it changes only while it holds that lock exclusively. The
rules `follows_bind` and `follows_foldlM` establish it piece by piece.

Tasks that follow the discipline run side by side, a step of any of them
at a time. `WellLocked` is kept by every step; it says that an exclusive
holder of a lock is its only holder. Out of it come three results:
`guarded_step`, what a lock guards does not change under a holder;
`exists_step`, no deadlock, from the task that waits for the lock of the
highest rank; and `wellFounded_step`, no run goes on for ever, from the
order on multisets. `run_finishes` puts the last two together.

Whether readers have to let waiting writers go first is a parameter.

Nothing in this module is about a particular program.
-/
import SLDM.Lib.Runs
import Mathlib.Data.List.MinMax
import Mathlib.Logic.Hydra

namespace Locking

open Runs

/-! ## Programs -/

/-- How a lock is taken. -/
inductive Mode where
  | shared
  | exclusive
  deriving DecidableEq, Repr

/-- A program over states `σ` and locks `ι` that ends with an `α`. -/
inductive Prog (σ ι α : Type) where
  | done (a : α)
  | acquire (l : ι) (mode : Mode) (next : Prog σ ι α)
  | release (l : ι) (next : Prog σ ι α)
  | access (f : σ → σ) (next : σ → Prog σ ι α)

namespace Prog

variable {σ ι α β : Type}

/-- One program, then another. -/
def bind : Prog σ ι α → (α → Prog σ ι β) → Prog σ ι β
  | done a, k => k a
  | acquire l mode next, k => acquire l mode (next.bind k)
  | release l next, k => release l (next.bind k)
  | access f next, k => access f fun s => (next s).bind k

instance : Monad (Prog σ ι) where
  pure := done
  bind := bind

/-- Take a lock. -/
def lock (l : ι) (mode : Mode) : Prog σ ι Unit := acquire l mode (done ())

/-- Release a lock. -/
def unlock (l : ι) : Prog σ ι Unit := release l (done ())

/-- Look at the state. -/
def read (f : σ → α) : Prog σ ι α := access id fun s => done (f s)

/-- Change the state. -/
def modify (f : σ → σ) : Prog σ ι Unit := access f fun _ => done ()

/-- Change the state and keep something of it. -/
def modifyGet (f : σ → α × σ) : Prog σ ι α := access (fun s => (f s).2) fun s => done (f s).1

/-! ## A program alone -/

/-- What a program does when nothing else runs. -/
def alone : Prog σ ι α → σ → α × σ
  | done a, s => (a, s)
  | acquire _ _ next, s => next.alone s
  | release _ next, s => next.alone s
  | access f next, s => (next s).alone (f s)

@[simp] theorem alone_pure (a : α) (s : σ) : (pure a : Prog σ ι α).alone s = (a, s) := rfl

@[simp] theorem alone_lock (l : ι) (mode : Mode) (s : σ) :
    (lock l mode : Prog σ ι Unit).alone s = ((), s) := rfl

@[simp] theorem alone_unlock (l : ι) (s : σ) : (unlock l : Prog σ ι Unit).alone s = ((), s) := rfl

@[simp] theorem alone_read (f : σ → α) (s : σ) : (read f : Prog σ ι α).alone s = (f s, s) := rfl

@[simp] theorem alone_modify (f : σ → σ) (s : σ) :
    (modify f : Prog σ ι Unit).alone s = ((), f s) := rfl

@[simp] theorem alone_modifyGet (f : σ → α × σ) (s : σ) :
    (modifyGet f : Prog σ ι α).alone s = f s := rfl

@[simp] theorem alone_bind (p : Prog σ ι α) (k : α → Prog σ ι β) (s : σ) :
    (p >>= k).alone s = (k (p.alone s).1).alone (p.alone s).2 := by
  show (p.bind k).alone s = _
  induction p generalizing s with
  | done a => rfl
  | acquire l mode next ih => exact ih s
  | release l next ih => exact ih s
  | access f next ih => exact ih s (f s)

@[simp] theorem alone_ite (c : Prop) [Decidable c] (p q : Prog σ ι α) (s : σ) :
    (if c then p else q).alone s = if c then p.alone s else q.alone s := by
  split <;> rfl

/-- A loop over a list, alone. -/
theorem alone_foldlM {γ : Type} (f : α → γ → Prog σ ι α) (l : List γ) (a : α) (s : σ) :
    (l.foldlM f a).alone s = l.foldl (fun x c => (f x.1 c).alone x.2) (a, s) := by
  induction l generalizing a s with
  | nil => rfl
  | cons c l ih =>
    rw [List.foldlM_cons, alone_bind, ih]
    rfl

/-! ## The discipline -/

/-- The order the locks are taken in, and what of the state each of them
guards. -/
structure Discipline (σ ι β : Type) where
  rank : ι → ℕ
  guarded : ι → σ → β

section Follows

variable {δ : Type} [DecidableEq ι] (d : Discipline σ ι δ)

/-- From the locks held at its start to those held at its end, the program
takes locks in the order of their ranks, releases what it holds, and
changes what a lock guards only while it holds the lock for itself. -/
def Follows : List (ι × Mode) → Prog σ ι α → List (ι × Mode) → Prop
  | held, done _, held' => held = held'
  | held, acquire l mode next, held' =>
    (∀ k ∈ held, d.rank k.1 < d.rank l) ∧ Follows ((l, mode) :: held) next held'
  | held, release l next, held' =>
    l ∈ held.map Prod.fst ∧ Follows (held.filter (·.1 ≠ l)) next held'
  | held, access f next, held' =>
    (∀ l, (l, Mode.exclusive) ∉ held → ∀ s, d.guarded l (f s) = d.guarded l s) ∧
      ∀ s, Follows held (next s) held'

variable {d} {held held' held'' : List (ι × Mode)}

theorem follows_pure (a : α) : Follows d held (pure a : Prog σ ι α) held := rfl

theorem follows_read (f : σ → α) : Follows d held (read f : Prog σ ι α) held :=
  ⟨fun _ _ _ => rfl, fun _ => rfl⟩

theorem follows_modify {f : σ → σ}
    (h : ∀ l, (l, Mode.exclusive) ∉ held → ∀ s, d.guarded l (f s) = d.guarded l s) :
    Follows d held (modify f : Prog σ ι Unit) held := ⟨h, fun _ => rfl⟩

theorem follows_modifyGet {f : σ → α × σ}
    (h : ∀ l, (l, Mode.exclusive) ∉ held → ∀ s, d.guarded l (f s).2 = d.guarded l s) :
    Follows d held (modifyGet f : Prog σ ι α) held := ⟨h, fun _ => rfl⟩

theorem follows_lock {l : ι} (mode : Mode) (h : ∀ k ∈ held, d.rank k.1 < d.rank l) :
    Follows d held (lock l mode : Prog σ ι Unit) ((l, mode) :: held) := ⟨h, rfl⟩

/-- Releasing the lock taken last gives back what was held before. -/
theorem follows_unlock {l : ι} {mode : Mode} (h : ∀ k ∈ held, d.rank k.1 < d.rank l) :
    Follows d ((l, mode) :: held) (unlock l : Prog σ ι Unit) held := by
  refine ⟨List.mem_cons_self, ?_⟩
  have hfilter : held.filter (·.1 ≠ l) = held := by
    rw [List.filter_eq_self]
    intro k hk
    have hne : k.1 ≠ l := fun heq => absurd (h k hk) (by rw [heq]; exact lt_irrefl _)
    exact decide_eq_true hne
  show ((l, mode) :: held).filter (·.1 ≠ l) = held
  rw [List.filter_cons_of_neg (by simp), hfilter]

/-- The rule of composition. -/
theorem follows_bind {p : Prog σ ι α} {k : α → Prog σ ι β}
    (hp : Follows d held p held') (hk : ∀ a, Follows d held' (k a) held'') :
    Follows d held (p >>= k) held'' := by
  show Follows d held (p.bind k) held''
  induction p generalizing held with
  | done a =>
    obtain rfl : held = held' := hp
    exact hk a
  | acquire l mode next ih => exact ⟨hp.1, ih hp.2⟩
  | release l next ih => exact ⟨hp.1, ih hp.2⟩
  | access f next ih => exact ⟨hp.1, fun s => ih s (hp.2 s)⟩

theorem follows_ite {c : Prop} [Decidable c] {p q : Prog σ ι α}
    (hp : Follows d held p held') (hq : Follows d held q held') :
    Follows d held (if c then p else q) held' := by
  split
  · exact hp
  · exact hq

/-- The rule of loops. -/
theorem follows_foldlM {γ : Type} {f : α → γ → Prog σ ι α}
    (hf : ∀ a c, Follows d held (f a c) held) (l : List γ) (a : α) :
    Follows d held (l.foldlM f a) held := by
  induction l generalizing a with
  | nil => exact follows_pure a
  | cons c l ih =>
    rw [List.foldlM_cons]
    exact follows_bind (hf a c) ih

end Follows

/-- `p'` is what is left of `p` after a step. -/
inductive Rest : Prog σ ι α → Prog σ ι α → Prop
  | acquire (l : ι) (mode : Mode) (next : Prog σ ι α) : Rest next (acquire l mode next)
  | release (l : ι) (next : Prog σ ι α) : Rest next (release l next)
  | access (f : σ → σ) (next : σ → Prog σ ι α) (s : σ) : Rest (next s) (access f next)

theorem wellFounded_rest : WellFounded (Rest : Prog σ ι α → Prog σ ι α → Prop) := by
  refine ⟨fun p => ?_⟩
  induction p with
  | done a => exact ⟨_, fun _ h => by cases h⟩
  | acquire l mode next ih => exact ⟨_, fun _ h => by cases h; exact ih⟩
  | release l next ih => exact ⟨_, fun _ h => by cases h; exact ih⟩
  | access f next ih => exact ⟨_, fun _ h => by cases h; exact ih _⟩

end Prog

/-! ## Tasks side by side -/

/-- A task: the locks it holds and what it still has to do. -/
structure Task (σ ι : Type) where
  held : List (ι × Mode)
  prog : Prog σ ι Unit

/-- The shared state and the tasks. -/
structure State (σ ι : Type) where
  shared : σ
  tasks : List (Task σ ι)

section Step

variable {σ ι : Type} [DecidableEq ι]

/-- The task wants the lock for itself. -/
def Task.awaits (t : Task σ ι) (l : ι) : Bool :=
  match t.prog with
  | .acquire k .exclusive _ => k = l
  | _ => false

/-- Whether a lock can be taken. -/
def grants (writersFirst : Bool) (tasks : List (Task σ ι)) (l : ι) : Mode → Bool
  | .exclusive => tasks.all fun t => t.held.all fun h => h.1 ≠ l
  | .shared => tasks.all fun t =>
      (t.held.all fun h => h ≠ (l, .exclusive)) && !(writersFirst && t.awaits l)

/-- A step of the task at a position. -/
def State.step (writersFirst : Bool) (s : State σ ι) (i : ℕ) : Option (State σ ι) :=
  s.tasks[i]?.bind fun t =>
    match t.prog with
    | .done _ => none
    | .acquire l mode next =>
      if grants writersFirst s.tasks l mode then
        some { s with tasks := s.tasks.set i ⟨(l, mode) :: t.held, next⟩ }
      else none
    | .release l next =>
      some { s with tasks := s.tasks.set i ⟨t.held.filter (·.1 ≠ l), next⟩ }
    | .access f next =>
      some ⟨f s.shared, s.tasks.set i ⟨t.held, next s.shared⟩⟩

/-- Nothing is left to do. -/
def Task.Finished (t : Task σ ι) : Prop := t.prog = .done ()

variable {β : Type} (d : Prog.Discipline σ ι β)

/-- The tasks keep the discipline, and a lock that is held exclusively has
no other holder. -/
structure WellLocked (s : State σ ι) : Prop where
  follows : ∀ t ∈ s.tasks, Prog.Follows d t.held t.prog []
  exclusive : ∀ (i j : ℕ) (t u : Task σ ι), i ≠ j → s.tasks[i]? = some t → s.tasks[j]? = some u →
    ∀ l, (l, Mode.exclusive) ∈ t.held → l ∉ u.held.map Prod.fst

variable {d} {writersFirst : Bool} {s s' : State σ ι}

/-- Tasks that hold nothing yet. -/
theorem wellLocked_start (shared : σ) {progs : List (Prog σ ι Unit)}
    (h : ∀ p ∈ progs, Prog.Follows d [] p []) :
    WellLocked d ⟨shared, progs.map fun p => ⟨[], p⟩⟩ where
  follows := by
    intro t ht
    obtain ⟨p, hp, rfl⟩ := List.mem_map.mp ht
    exact h p hp
  exclusive := by
    intro i j t u _ hi _ l hl
    obtain ⟨p, hp, rfl⟩ := List.mem_map.mp (List.mem_of_getElem? hi)
    cases hl

/-- A step of a task among others, and the shared state it leaves. -/
inductive Moved (writersFirst : Bool) (s : State σ ι) : Task σ ι → Task σ ι → σ → Prop
  | acquire {held : List (ι × Mode)} {l : ι} {mode : Mode} {next : Prog σ ι Unit}
      (h : grants writersFirst s.tasks l mode = true) :
      Moved writersFirst s ⟨held, .acquire l mode next⟩ ⟨(l, mode) :: held, next⟩ s.shared
  | release {held : List (ι × Mode)} {l : ι} {next : Prog σ ι Unit} :
      Moved writersFirst s ⟨held, .release l next⟩ ⟨held.filter (·.1 ≠ l), next⟩ s.shared
  | access {held : List (ι × Mode)} {f : σ → σ} {next : σ → Prog σ ι Unit} :
      Moved writersFirst s ⟨held, .access f next⟩ ⟨held, next s.shared⟩ (f s.shared)

theorem step_cases {i : ℕ} (h : s.step writersFirst i = some s') :
    ∃ t t', s.tasks[i]? = some t ∧ s'.tasks = s.tasks.set i t' ∧
      Moved writersFirst s t t' s'.shared := by
  simp only [State.step, Option.bind_eq_some_iff] at h
  obtain ⟨⟨held, prog⟩, hi, h⟩ := h
  cases prog with
  | done a => cases h
  | acquire l mode next =>
    simp only [Option.ite_none_right_eq_some, Option.some.injEq] at h
    obtain ⟨hgrants, rfl⟩ := h
    exact ⟨_, _, hi, rfl, .acquire hgrants⟩
  | release l next =>
    cases h
    exact ⟨_, _, hi, rfl, .release⟩
  | access f next =>
    cases h
    exact ⟨_, _, hi, rfl, .access⟩

variable {t t' : Task σ ι} {shared : σ}

theorem Moved.rest (h : Moved writersFirst s t t' shared) : Prog.Rest t'.prog t.prog := by
  cases h with
  | acquire => exact .acquire _ _ _
  | release => exact .release _ _
  | access => exact .access _ _ _

/-- A task that makes a step keeps the discipline. -/
theorem Moved.follows (h : Moved writersFirst s t t' shared)
    (ht : Prog.Follows d t.held t.prog []) : Prog.Follows d t'.held t'.prog [] := by
  cases h with
  | acquire => exact ht.2
  | release => exact ht.2
  | access => exact ht.2 s.shared

/-- What a lock guards changes only in a step of a task that holds it for
itself. -/
theorem Moved.guarded (h : Moved writersFirst s t t' shared)
    (ht : Prog.Follows d t.held t.prog []) {l : ι} (hl : (l, Mode.exclusive) ∉ t.held) :
    d.guarded l shared = d.guarded l s.shared := by
  cases h with
  | acquire => rfl
  | release => rfl
  | access => exact ht.1 l hl s.shared

/-- What a task holds after a step, it held or was granted. -/
theorem Moved.mem_held (h : Moved writersFirst s t t' shared) {l : ι} {mode : Mode}
    (hl : (l, mode) ∈ t'.held) :
    (l, mode) ∈ t.held ∨ grants writersFirst s.tasks l mode = true := by
  cases h with
  | acquire hgrants =>
    rcases List.mem_cons.mp hl with heq | hl
    · cases heq
      exact Or.inr hgrants
    · exact Or.inl hl
  | release => exact Or.inl (List.mem_of_mem_filter hl)
  | access => exact Or.inl hl

theorem not_mem_of_grants_exclusive {tasks : List (Task σ ι)} {l : ι}
    (h : grants writersFirst tasks l .exclusive = true) {t : Task σ ι} (ht : t ∈ tasks) :
    l ∉ t.held.map Prod.fst := by
  intro hl
  obtain ⟨⟨k, mode⟩, hk, rfl⟩ := List.mem_map.mp hl
  simp only [grants, List.all_eq_true] at h
  simpa using h t ht _ hk

theorem not_mem_of_grants_shared {tasks : List (Task σ ι)} {l : ι}
    (h : grants writersFirst tasks l .shared = true) {t : Task σ ι} (ht : t ∈ tasks) :
    (l, Mode.exclusive) ∉ t.held := by
  intro hl
  simp only [grants, List.all_eq_true, Bool.and_eq_true] at h
  simpa using (h t ht).1 _ hl

/-- Every step keeps the tasks well locked. -/
theorem wellLocked_step (s : State σ ι) (i : ℕ) (s' : State σ ι) (h : WellLocked d s)
    (hs : s.step writersFirst i = some s') : WellLocked d s' := by
  obtain ⟨t, t', hi, htasks, hmoved⟩ := step_cases hs
  have ht : t ∈ s.tasks := List.mem_of_getElem? hi
  refine ⟨fun u hu => ?_, fun j k u v hjk hj hk l hl => ?_⟩
  · rw [htasks] at hu
    rcases List.mem_or_eq_of_mem_set hu with hu | rfl
    · exact h.follows u hu
    · exact hmoved.follows (h.follows t ht)
  · have hat {k : ℕ} {u : Task σ ι} (hk : s'.tasks[k]? = some u) :
        (k = i ∧ u = t') ∨ (k ≠ i ∧ s.tasks[k]? = some u) := by
      by_cases hki : k = i
      · subst hki
        have hlt : k < s.tasks.length := (List.getElem?_eq_some_iff.mp hi).1
        rw [htasks, List.getElem?_set_self hlt] at hk
        exact Or.inl ⟨rfl, (Option.some.inj hk).symm⟩
      · rw [htasks, List.getElem?_set_ne (Ne.symm hki)] at hk
        exact Or.inr ⟨hki, hk⟩
    rcases hat hj with ⟨rfl, rfl⟩ | ⟨hji, hj⟩
    · rcases hat hk with ⟨rfl, -⟩ | ⟨-, hk⟩
      · exact absurd rfl hjk
      · rcases hmoved.mem_held hl with hl | hgrants
        · exact h.exclusive j k t v hjk hi hk l hl
        · exact not_mem_of_grants_exclusive hgrants (List.mem_of_getElem? hk)
    · rcases hat hk with ⟨rfl, rfl⟩ | ⟨-, hk⟩
      · intro hmem
        obtain ⟨⟨m, mode⟩, hm, rfl⟩ := List.mem_map.mp hmem
        rcases hmoved.mem_held hm with hm | hgrants
        · exact h.exclusive j k u t hji hj hi _ hl (List.mem_map_of_mem hm)
        · have hu : u ∈ s.tasks := List.mem_of_getElem? hj
          cases mode with
          | shared => exact not_mem_of_grants_shared hgrants hu hl
          | exclusive => exact not_mem_of_grants_exclusive hgrants hu (List.mem_map_of_mem hl)
      · exact h.exclusive j k u v hjk hj hk l hl

/-- What a lock guards stays as it is under a task that holds the lock,
whatever another task does. -/
theorem guarded_step (h : WellLocked d s) {i j : ℕ} (hs : s.step writersFirst i = some s')
    (hij : i ≠ j) {u : Task σ ι} (hj : s.tasks[j]? = some u) {l : ι}
    (hl : l ∈ u.held.map Prod.fst) : d.guarded l s'.shared = d.guarded l s.shared := by
  obtain ⟨t, t', hi, -, hmoved⟩ := step_cases hs
  have hnot : (l, Mode.exclusive) ∉ t.held := fun hmem => h.exclusive i j t u hij hi hj l hmem hl
  exact hmoved.guarded (h.follows t (List.mem_of_getElem? hi)) hnot

/-! ## No deadlock -/

/-- One more than the rank of the lock a task waits for, 0 when it waits
for none. -/
def Task.wanted (d : Prog.Discipline σ ι β) (t : Task σ ι) : ℕ :=
  match t.prog with
  | .acquire l _ _ => d.rank l + 1
  | _ => 0

/-- A task that cannot make a step is finished or waits for a lock. -/
theorem blocked_cases {i : ℕ} {t : Task σ ι} (hi : s.tasks[i]? = some t)
    (h : s.step writersFirst i = none) :
    t.Finished ∨ ∃ l mode next, t.prog = .acquire l mode next ∧
      grants writersFirst s.tasks l mode = false := by
  obtain ⟨held, prog⟩ := t
  rw [State.step, hi, Option.bind_some] at h
  cases prog with
  | done a => exact Or.inl rfl
  | acquire l mode next =>
    refine Or.inr ⟨l, mode, next, rfl, ?_⟩
    simpa using h
  | release l next => cases h
  | access f next => cases h

/-- A lock that is not granted is held, or a task wants it for itself. -/
theorem not_granted_cases {tasks : List (Task σ ι)} {l : ι} {mode : Mode}
    (h : grants writersFirst tasks l mode = false) :
    ∃ u ∈ tasks, l ∈ u.held.map Prod.fst ∨
      (mode = .shared ∧ ∃ next, u.prog = .acquire l .exclusive next) := by
  cases mode with
  | exclusive =>
    simp only [grants, List.all_eq_false] at h
    obtain ⟨u, hu, hheld⟩ := h
    refine ⟨u, hu, Or.inl ?_⟩
    simpa using hheld
  | shared =>
    simp only [grants, List.all_eq_false] at h
    obtain ⟨u, hu, hheld⟩ := h
    refine ⟨u, hu, ?_⟩
    by_cases hmem : (l, Mode.exclusive) ∈ u.held
    · exact Or.inl (List.mem_map_of_mem hmem)
    · refine Or.inr ⟨rfl, ?_⟩
      have hall : (u.held.all fun x => decide (x ≠ (l, Mode.exclusive))) = true := by
        rw [List.all_eq_true]
        intro x hx
        have hne : x ≠ (l, Mode.exclusive) := fun heq => hmem (heq ▸ hx)
        exact decide_eq_true hne
      have hawaits : u.awaits l = true := by
        rw [hall] at hheld
        cases hw : u.awaits l with
        | true => rfl
        | false => simp [hw] at hheld
      unfold Task.awaits at hawaits
      split at hawaits
      · rename_i k next hprog
        obtain rfl : k = l := by simpa using hawaits
        exact ⟨next, hprog⟩
      · cases hawaits

/-- When nobody can make a step, whoever holds a lock waits for one of a
higher rank. -/
theorem holder_wanted (h : WellLocked d s) (hstuck : ∀ i, s.step writersFirst i = none)
    {u : Task σ ι} (hu : u ∈ s.tasks) {l : ι} (hl : l ∈ u.held.map Prod.fst) :
    d.rank l + 1 < u.wanted d := by
  obtain ⟨i, hi⟩ := List.mem_iff_getElem?.mp hu
  have hfollows := h.follows u hu
  rcases blocked_cases hi (hstuck i) with hdone | ⟨k, mode, next, hprog, -⟩
  · rw [show u.prog = .done () from hdone] at hfollows
    rw [show u.held = [] from hfollows] at hl
    cases hl
  · rw [hprog] at hfollows
    rw [Task.wanted, hprog]
    obtain ⟨held, hmem, rfl⟩ := List.mem_map.mp hl
    exact Nat.add_lt_add_right (hfollows.1 held hmem) 1

/-- When nobody can make a step, somebody waits for a lock of a higher rank
than any task that is not finished. -/
theorem exists_wanted_gt (h : WellLocked d s) (hstuck : ∀ i, s.step writersFirst i = none)
    {t : Task σ ι} (ht : t ∈ s.tasks) (hbusy : ¬ t.Finished) :
    ∃ u ∈ s.tasks, t.wanted d < u.wanted d := by
  obtain ⟨i, hi⟩ := List.mem_iff_getElem?.mp ht
  rcases blocked_cases hi (hstuck i) with hdone | ⟨l, mode, next, hprog, hgrants⟩
  · exact absurd hdone hbusy
  · have hwanted : t.wanted d = d.rank l + 1 := by rw [Task.wanted, hprog]
    rw [hwanted]
    obtain ⟨u, hu, hheld | ⟨-, next', hprog'⟩⟩ := not_granted_cases hgrants
    · exact ⟨u, hu, holder_wanted h hstuck hu hheld⟩
    · -- a writer goes first: what keeps it waiting is a holder
      obtain ⟨j, hj⟩ := List.mem_iff_getElem?.mp hu
      rcases blocked_cases hj (hstuck j) with hdone | ⟨l', mode', next'', hprog'', hgrants'⟩
      · rw [show u.prog = .done () from hdone] at hprog'
        cases hprog'
      · rw [hprog'] at hprog''
        cases hprog''
        obtain ⟨w, hw, hheld | ⟨hmode, -⟩⟩ := not_granted_cases hgrants'
        · exact ⟨w, hw, holder_wanted h hstuck hw hheld⟩
        · cases hmode

/-- Unless all are finished, some task can make a step. -/
theorem exists_step (h : WellLocked d s) (hbusy : ∃ t ∈ s.tasks, ¬ t.Finished) :
    ∃ i s', s.step writersFirst i = some s' := by
  by_contra hno
  have hstuck (i : ℕ) : s.step writersFirst i = none := by
    cases hi : s.step writersFirst i with
    | none => rfl
    | some s' => exact absurd ⟨i, s', hi⟩ hno
  obtain ⟨t, ht, htb⟩ := hbusy
  cases hm : s.tasks.argmax (Task.wanted d) with
  | none =>
    rw [List.argmax_eq_none] at hm
    rw [hm] at ht
    cases ht
  | some m =>
    have hmax (u : Task σ ι) (hu : u ∈ s.tasks) : u.wanted d ≤ m.wanted d :=
      List.le_of_mem_argmax hu hm
    obtain ⟨u, hu, hlt⟩ := exists_wanted_gt h hstuck ht htb
    have hmb : ¬ m.Finished := by
      intro hdone
      have hzero : m.wanted d = 0 := by rw [Task.wanted, show m.prog = .done () from hdone]
      have hle := hmax u hu
      omega
    obtain ⟨v, hv, hgt⟩ := exists_wanted_gt h hstuck (List.argmax_mem hm) hmb
    exact absurd (hmax v hv) (Nat.not_le.mpr hgt)

/-! ## No endless run -/

/-- A step leaves less to do. -/
theorem cutExpand_step {i : ℕ} (hs : s.step writersFirst i = some s') :
    Relation.CutExpand Prog.Rest (s'.tasks.map Task.prog : Multiset (Prog σ ι Unit))
      (s.tasks.map Task.prog) := by
  obtain ⟨t, t', hi, htasks, hmoved⟩ := step_cases hs
  obtain ⟨hlt, rfl⟩ := List.getElem?_eq_some_iff.mp hi
  refine ⟨{t'.prog}, s.tasks[i].prog, fun p hp => ?_, ?_⟩
  · rw [Multiset.mem_singleton.mp hp]
    exact hmoved.rest
  · have hset : (s.tasks.set i t').Perm (t' :: s.tasks.eraseIdx i) :=
      List.set_perm_cons_eraseIdx hlt t'
    have hget : s.tasks.Perm (s.tasks[i] :: s.tasks.eraseIdx i) :=
      (List.getElem_cons_eraseIdx_perm hlt).symm
    rw [htasks, Multiset.coe_eq_coe.mpr (hset.map Task.prog),
      Multiset.coe_eq_coe.mpr (hget.map Task.prog), List.map_cons, List.map_cons,
      ← Multiset.cons_coe, ← Multiset.cons_coe, Multiset.add_comm, Multiset.singleton_add,
      Multiset.add_comm, Multiset.singleton_add, Multiset.cons_swap]

theorem wellFounded_step (writersFirst : Bool) :
    WellFounded fun s' s : State σ ι => ∃ i, s.step writersFirst i = some s' := by
  refine Subrelation.wf (fun {s' s} h => ?_)
    (InvImage.wf (fun s : State σ ι => (s.tasks.map Task.prog : Multiset (Prog σ ι Unit)))
      Prog.wellFounded_rest.cutExpand)
  obtain ⟨i, hs⟩ := h
  exact cutExpand_step hs

/-- Whatever has happened so far, the tasks can finish. -/
theorem run_finishes (writersFirst : Bool) (h : WellLocked d s) :
    ∃ steps s', run (State.step writersFirst) s steps = some s' ∧ ∀ t ∈ s'.tasks, t.Finished := by
  have hacc := (wellFounded_step writersFirst).apply s
  induction hacc with
  | intro s _ ih =>
    by_cases hbusy : ∃ t ∈ s.tasks, ¬ t.Finished
    · obtain ⟨i, s₁, hs⟩ := exists_step h hbusy
      obtain ⟨steps, s', hrun, hdone⟩ := ih s₁ ⟨i, hs⟩ (wellLocked_step s i s₁ h hs)
      exact ⟨i :: steps, s', (run_cons_of_step _ hs steps).trans hrun, hdone⟩
    · refine ⟨[], s, rfl, fun t ht => ?_⟩
      by_contra hno
      exact hbusy ⟨t, ht, hno⟩

end Step

end Locking
