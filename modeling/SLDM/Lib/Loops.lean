/-
SLDM.Lib.Loops — loops that may not terminate.

A loop is a partial step on its state: `step s = none` means the loop
condition fails in `s` and the loop is left there. `exec step fuel s`
takes at most `fuel` turns and answers `none` when that was not enough,
so `Terminates step s` (some fuel is enough) is a statement about the
loop and not about the fuel chosen.

* `exec_of_invariant` — what holds on entry and is kept by each turn
  holds where the loop is left, together with the exit condition;
* `endsIn_drive` — a number every turn makes smaller is enough fuel;
* `not_terminates_of_invariant` — a set of states no turn leaves and in
  which the loop condition never fails.

Nothing in this module is about a particular program.
-/
import Mathlib.Data.List.Basic

namespace Loops

variable {σ : Type*} (step : σ → Option σ)

/-- Up to `fuel` turns of the loop; the state it is left in. -/
def exec : ℕ → σ → Option σ
  | 0, _ => none
  | fuel + 1, s =>
    match step s with
    | none => some s
    | some s' => exec fuel s'

/-- The loop is left after finitely many turns, in state `s'`. -/
def EndsIn (s s' : σ) : Prop := ∃ fuel, exec step fuel s = some s'

/-- The loop is left after finitely many turns. -/
def Terminates (s : σ) : Prop := ∃ s', EndsIn step s s'

variable {step}

theorem exec_of_done {s : σ} (h : step s = none) (fuel : ℕ) :
    exec step (fuel + 1) s = some s := by
  simp only [exec, h]

theorem exec_of_turn {s s' : σ} (h : step s = some s') (fuel : ℕ) :
    exec step (fuel + 1) s = exec step fuel s' := by
  simp only [exec, h]

theorem endsIn_of_done {s : σ} (h : step s = none) : EndsIn step s s :=
  ⟨1, exec_of_done h 0⟩

theorem endsIn_of_turn {s s' t : σ} (h : step s = some s') (ht : EndsIn step s' t) :
    EndsIn step s t := by
  obtain ⟨fuel, hfuel⟩ := ht
  exact ⟨fuel + 1, by rw [exec_of_turn h, hfuel]⟩

/-- The invariant rule. -/
theorem exec_of_invariant {I : σ → Prop}
    (hstep : ∀ s s', I s → step s = some s' → I s') :
    ∀ {fuel : ℕ} {s t : σ}, I s → exec step fuel s = some t → I t ∧ step t = none
  | 0, _, _, _, h => by cases h
  | fuel + 1, s, t, hI, h => by
      cases hs : step s with
      | none => rw [exec_of_done hs] at h; cases h; exact ⟨hI, hs⟩
      | some s' => rw [exec_of_turn hs] at h; exact exec_of_invariant hstep (hstep s s' hI hs) h

/-- The state after at most `fuel` turns, whether the loop is left there
or not. -/
def drive (step : σ → Option σ) : ℕ → σ → σ
  | 0, s => s
  | fuel + 1, s =>
    match step s with
    | none => s
    | some s' => drive step fuel s'

theorem drive_of_done {s : σ} (h : step s = none) (fuel : ℕ) : drive step fuel s = s := by
  cases fuel with
  | zero => rfl
  | succ fuel => simp only [drive, h]

theorem drive_of_turn {s s' : σ} (h : step s = some s') (fuel : ℕ) :
    drive step (fuel + 1) s = drive step fuel s' := by
  simp only [drive, h]

/-- Where a loop is left it stays. -/
theorem EndsIn.drive_eq {s t : σ} (h : EndsIn step s t) {turns : ℕ}
    (hdone : step (drive step turns s) = none) : drive step turns s = t := by
  obtain ⟨fuel, hfuel⟩ := h
  induction turns generalizing fuel s with
  | zero =>
    cases fuel with
    | zero => cases hfuel
    | succ fuel =>
      rw [exec_of_done (s := s) hdone] at hfuel
      exact Option.some.inj hfuel
  | succ turns ih =>
    cases fuel with
    | zero => cases hfuel
    | succ fuel =>
      cases hs : step s with
      | none =>
        rw [exec_of_done hs] at hfuel
        rw [drive_of_done hs]
        exact Option.some.inj hfuel
      | some s' =>
        rw [drive_of_turn hs] at hdone ⊢
        rw [exec_of_turn hs] at hfuel
        exact ih hdone fuel hfuel

/-- As much fuel as a number every turn makes smaller is enough. -/
theorem endsIn_drive {μ : σ → ℕ} (hstep : ∀ s s', step s = some s' → μ s' < μ s) :
    ∀ {fuel : ℕ} {s : σ}, μ s ≤ fuel → EndsIn step s (drive step fuel s)
  | 0, s, h => by
      cases hs : step s with
      | none => exact endsIn_of_done hs
      | some s' =>
        have hlt := hstep s s' hs
        omega
  | fuel + 1, s, h => by
      cases hs : step s with
      | none => rw [drive_of_done hs]; exact endsIn_of_done hs
      | some s' =>
        have hlt := hstep s s' hs
        rw [drive_of_turn hs]
        exact endsIn_of_turn hs (endsIn_drive hstep (by omega))

/-- The invariant rule for `drive`. -/
theorem drive_of_invariant {I : σ → Prop} (hstep : ∀ s s', I s → step s = some s' → I s') :
    ∀ {fuel : ℕ} {s : σ}, I s → I (drive step fuel s)
  | 0, _, hI => hI
  | fuel + 1, s, hI => by
      cases hs : step s with
      | none => rw [drive_of_done hs]; exact hI
      | some s' => rw [drive_of_turn hs]; exact drive_of_invariant hstep (hstep s s' hI hs)

/-- A loop caught in a set of states that all take another turn is not
left. -/
theorem not_terminates_of_invariant {I : σ → Prop}
    (hstep : ∀ s, I s → ∃ s', step s = some s' ∧ I s') {s : σ} (hI : I s) :
    ¬ Terminates step s := by
  intro hex
  obtain ⟨t, fuel, h⟩ := hex
  have hkeep : ∀ s s', I s → step s = some s' → I s' := by
    intro s s' hI hs
    obtain ⟨s'', hs'', hI''⟩ := hstep s hI
    rw [hs] at hs''
    cases hs''
    exact hI''
  obtain ⟨hIt, hdone⟩ := exec_of_invariant hkeep hI h
  obtain ⟨_, hturn, _⟩ := hstep t hIt
  rw [hdone] at hturn
  cases hturn

end Loops
