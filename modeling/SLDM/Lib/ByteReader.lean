/-
SLDM.Lib.ByteReader — reading bytes from memory, with the indices read.

A buffer handed to a C function is a pointer; nothing stops the function
from reading past the length it was told. `Reader α` is a computation
over such a pointer: memory is a total function from indices to bytes,
and the computation returns its value together with the list of indices
it read, in order. `value` and `reads` are the two components, and the
`simp` lemmas below push them through `pure`, `bind` and the one-byte
read, so a proof about values never meets a trace and a proof about
bounds never meets a value it does not need.

Nothing in this module is about a particular program.
-/
import Mathlib.Data.List.Basic

namespace ByteReader

/-- The bytes behind a pointer, by index. -/
abbrev Memory := ℕ → UInt8

/-- A computation over memory with the indices it reads. -/
def Reader (α : Type) := Memory → α × List ℕ

namespace Reader

variable {α β : Type}

instance : Monad Reader where
  pure a := fun _ => (a, [])
  bind x f := fun mem => ((f (x mem).1 mem).1, (x mem).2 ++ (f (x mem).1 mem).2)

/-- What the computation returns. -/
def value (x : Reader α) (mem : Memory) : α := (x mem).1

/-- The indices the computation reads, in order. -/
def reads (x : Reader α) (mem : Memory) : List ℕ := (x mem).2

/-- Read one byte. -/
def u8 (i : ℕ) : Reader UInt8 := fun mem => (mem i, [i])

/-- Copy `n` bytes, as `memcpy` does. -/
def bytes (i n : ℕ) : Reader (List UInt8) :=
  fun mem => ((List.range n).map fun k => mem (i + k), (List.range n).map (i + ·))

@[simp] theorem value_pure (a : α) (mem : Memory) : value (pure a) mem = a := rfl

@[simp] theorem value_bind (x : Reader α) (f : α → Reader β) (mem : Memory) :
    value (x >>= f) mem = value (f (value x mem)) mem := rfl

@[simp] theorem value_u8 (i : ℕ) (mem : Memory) : value (u8 i) mem = mem i := rfl

@[simp] theorem value_ite (c : Prop) [Decidable c] (x y : Reader α) (mem : Memory) :
    value (if c then x else y) mem = if c then value x mem else value y mem := by
  split <;> rfl

/-! ## Staying inside a buffer -/

/-- Every index read is below `n`. -/
def ReadsWithin (x : Reader α) (mem : Memory) (n : ℕ) : Prop := ∀ i ∈ reads x mem, i < n

variable {mem : Memory} {n : ℕ}

@[simp] theorem readsWithin_pure (a : α) : ReadsWithin (pure a) mem n := by
  intro i hi
  exact absurd hi List.not_mem_nil

@[simp] theorem readsWithin_bind (x : Reader α) (f : α → Reader β) :
    ReadsWithin (x >>= f) mem n ↔
      ReadsWithin x mem n ∧ ReadsWithin (f (value x mem)) mem n := by
  have happend : reads (x >>= f) mem = reads x mem ++ reads (f (value x mem)) mem := rfl
  simp [ReadsWithin, happend, or_imp, forall_and]

@[simp] theorem readsWithin_u8 (i : ℕ) : ReadsWithin (u8 i) mem n ↔ i < n := by
  have hreads : reads (u8 i) mem = [i] := rfl
  simp [ReadsWithin, hreads]

@[simp] theorem readsWithin_bytes (i k : ℕ) :
    ReadsWithin (bytes i k) mem n ↔ k = 0 ∨ i + k ≤ n := by
  have hreads : reads (bytes i k) mem = (List.range k).map (i + ·) := rfl
  simp only [ReadsWithin, hreads, List.mem_map, List.mem_range, forall_exists_index, and_imp,
    forall_apply_eq_imp_iff₂]
  constructor
  · intro h
    by_cases hk : k = 0
    · exact Or.inl hk
    · have hlast := h (k - 1) (by omega)
      omega
  · intro h j hj
    omega

theorem readsWithin_ite (c : Prop) [Decidable c] (x y : Reader α) :
    ReadsWithin (if c then x else y) mem n ↔
      if c then ReadsWithin x mem n else ReadsWithin y mem n := by
  split <;> rfl

/-! ## Reading nothing else -/

/-- The bytes the computation reads are all that it depends on. -/
def Traced (x : Reader α) : Prop :=
  ∀ mem mem' : Memory, (∀ i ∈ reads x mem, mem' i = mem i) → x mem' = x mem

theorem traced_pure (a : α) : Traced (pure a : Reader α) := fun _ _ _ => rfl

theorem traced_u8 (i : ℕ) : Traced (u8 i) := fun _ _ h =>
  congrArg (·, [i]) (h i List.mem_cons_self)

theorem traced_bytes (i n : ℕ) : Traced (bytes i n) := by
  intro mem mem' h
  refine Prod.ext ?_ rfl
  refine List.map_congr_left fun k hk => h (i + k) ?_
  exact List.mem_map.mpr ⟨k, hk, rfl⟩

theorem Traced.bind {x : Reader α} {f : α → Reader β} (hx : Traced x) (hf : ∀ a, Traced (f a)) :
    Traced (x >>= f) := by
  intro mem mem' h
  have hreads : reads (x >>= f) mem = reads x mem ++ reads (f (value x mem)) mem := rfl
  rw [hreads] at h
  have hfirst : x mem' = x mem := hx mem mem' fun i hi => h i (List.mem_append_left _ hi)
  have hrest : f (x mem).1 mem' = f (x mem).1 mem :=
    hf _ mem mem' fun i hi => h i (List.mem_append_right _ hi)
  show ((f (x mem').1 mem').1, (x mem').2 ++ (f (x mem').1 mem').2) =
    ((f (x mem).1 mem).1, (x mem).2 ++ (f (x mem).1 mem).2)
  rw [hfirst, hrest]

/-- Memory outside of what is read does not matter. -/
theorem Traced.value_eq {x : Reader α} (hx : Traced x) {mem' : Memory}
    (hwithin : ReadsWithin x mem n) (hagree : ∀ i < n, mem' i = mem i) :
    value x mem' = value x mem :=
  congrArg Prod.fst (hx mem mem' fun i hi => hagree i (hwithin i hi))

end Reader

end ByteReader
