/-
SLDM.Lib.Ring — memory written in a circle.

`mem : ℤ → α` is memory of which the slots `0, …, c - 1` are used. Each
write goes to slot `next`, which then moves on modulo `c`. The log of a
ring lists what was written, newest first, each entry with the slot it
went to.

* `Recent` — the newest `c` entries of the log are still in memory, at
  the slots `next - 1, next - 2, …` modulo `c`; `Recent.write` carries it
  over a write;
* `windowSum` — the sum of a measure over `n` slots from `start` on;
  `windowSum_succ` takes the first slot off, `windowSum_write` adds one
  at the end.

Nothing in this module is about a particular program.
-/
import Mathlib.Algebra.BigOperators.Intervals
import Mathlib.Data.Int.ModEq
import Mathlib.Tactic.Ring

namespace Ring

variable {α : Type*} {c next : ℤ} {mem : ℤ → α}

/-! ## Slots -/

/-- The slot of the write `j` writes before the last one. -/
def slotBack (c next : ℤ) (j : ℕ) : ℤ := (next - 1 - j) % c

theorem slotBack_zero (h0 : 0 < next) (h : next < c) : slotBack c next 0 = next - 1 := by
  unfold slotBack
  rw [Int.emod_eq_of_lt] <;> omega

theorem slotBack_of_zero (hc : 0 < c) : slotBack c 0 0 = c - 1 := by
  unfold slotBack
  rw [← Int.add_emod_right, Int.emod_eq_of_lt] <;> omega

/-- One slot further back. -/
theorem slotBack_succ (j : ℕ) (hc : 0 < c) :
    slotBack c next (j + 1) =
      if slotBack c next j = 0 then c - 1 else slotBack c next j - 1 := by
  have hstep : slotBack c next (j + 1) = (slotBack c next j - 1) % c := by
    unfold slotBack
    rw [Int.emod_sub_emod]
    congr 1
    push_cast
    ring
  have h0 : 0 ≤ slotBack c next j := Int.emod_nonneg _ (by omega)
  have h1 : slotBack c next j < c := Int.emod_lt_of_pos _ hc
  rw [hstep]
  split
  · rename_i hzero
    rw [hzero, ← Int.add_emod_right, Int.emod_eq_of_lt] <;> omega
  · rw [Int.emod_eq_of_lt] <;> omega

/-- Positions less than a round apart are different slots. -/
theorem emod_ne_of_lt {a b : ℤ} (hab : a < b) (hlt : b < a + c) : a % c ≠ b % c := by
  intro heq
  have hdvd : c ∣ b - a := Int.ModEq.dvd heq
  exact absurd (Int.le_of_dvd (by omega) hdvd) (by omega)

/-- After a write, the last slot is the one written to. -/
theorem slotBack_write_zero (h0 : 0 ≤ next) (h : next < c) :
    slotBack c ((next + 1) % c) 0 = next := by
  unfold slotBack
  rw [Nat.cast_zero, sub_zero, Int.emod_sub_emod, add_sub_cancel_right, Int.emod_eq_of_lt h0 h]

theorem slotBack_write_succ (j : ℕ) :
    slotBack c ((next + 1) % c) (j + 1) = slotBack c next j := by
  unfold slotBack
  rw [sub_sub, Int.emod_sub_emod]
  congr 1
  push_cast
  ring

/-- The slots of the other `c - 1` newest writes are not written to. -/
theorem slotBack_ne {j : ℕ} (h0 : 0 ≤ next) (h : next < c) (hj : (j : ℤ) + 1 < c) :
    slotBack c next j ≠ next := by
  have hnext : next % c = next := Int.emod_eq_of_lt h0 h
  have hne := emod_ne_of_lt (c := c) (a := next - 1 - j) (b := next) (by omega) (by omega)
  rwa [hnext] at hne

/-! ## The newest entries -/

/-- The `c` newest entries of the log are in memory, at the slots the log
names. -/
structure Recent (c : ℤ) (mem : ℤ → α) (next : ℤ) (log : List (ℤ × α)) : Prop where
  next_nonneg : 0 ≤ next
  next_lt : next < c
  held : ∀ (j : ℕ) e, (j : ℤ) < c → log[j]? = some e → e = (slotBack c next j, mem e.1)

theorem recent_nil (hc : 0 < c) : Recent c mem 0 [] where
  next_nonneg := Int.le_refl 0
  next_lt := hc
  held := by
    intro j e _ he
    cases he

/-- A write, to whatever slot it goes. -/
theorem Recent.write {log : List (ℤ × α)} (h : Recent c mem next log) (x : α) :
    Recent c (Function.update mem next x) ((next + 1) % c) ((next, x) :: log) where
  next_nonneg := Int.emod_nonneg _ (by have := h.next_nonneg; have := h.next_lt; omega)
  next_lt := Int.emod_lt_of_pos _ (by have := h.next_nonneg; have := h.next_lt; omega)
  held := by
    intro j e hj he
    cases j with
    | zero =>
      cases he
      rw [slotBack_write_zero h.next_nonneg h.next_lt, Function.update_self]
    | succ j =>
      have hold := h.held j e (by push_cast at hj; omega) he
      have hslot : e.1 = slotBack c next j := congrArg Prod.fst hold
      have hne : e.1 ≠ next := by
        rw [hslot]
        exact slotBack_ne h.next_nonneg h.next_lt (by push_cast at hj; omega)
      rw [slotBack_write_succ, Function.update_of_ne hne]
      exact hold

/-! ## Sums over a window -/

section Sums

variable {M : Type*} [AddCommMonoid M] (f : α → M)

/-- The sum of `f` over the `n` slots from `start` on. -/
def windowSum (c : ℤ) (mem : ℤ → α) (start : ℤ) (n : ℕ) : M :=
  ∑ i ∈ Finset.range n, f (mem ((start + i) % c))

@[simp] theorem windowSum_zero (start : ℤ) : windowSum f c mem start 0 = 0 := rfl

/-- The first slot of the window and the rest. -/
theorem windowSum_succ {start : ℤ} (h0 : 0 ≤ start) (h : start < c) (n : ℕ) :
    windowSum f c mem start (n + 1) = windowSum f c mem ((start + 1) % c) n + f (mem start) := by
  unfold windowSum
  rw [Finset.sum_range_succ', Nat.cast_zero, add_zero, Int.emod_eq_of_lt h0 h]
  congr 1
  refine Finset.sum_congr rfl fun i _ => ?_
  rw [Int.emod_add_emod]
  congr 3
  push_cast
  ring

/-- A write to the slot after the window, which is not one of its own. -/
theorem windowSum_write {start : ℤ} {n : ℕ} (hn : (n : ℤ) < c) (x : α) :
    windowSum f c (Function.update mem ((start + n) % c) x) start (n + 1) =
      windowSum f c mem start n + f x := by
  unfold windowSum
  rw [Finset.sum_range_succ, Function.update_self]
  congr 1
  refine Finset.sum_congr rfl fun i hi => ?_
  have hlt := Finset.mem_range.mp hi
  rw [Function.update_of_ne]
  exact emod_ne_of_lt (by omega) (by omega)

end Sums

end Ring
