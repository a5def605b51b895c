/-
SLDM.Lib.Runs — runs of a labelled step function, and the two ways a
property is carried along them.

A system is a step function `step : σ → ℓ → Option σ`; `none` says the
label is not enabled in the state. A run is a list of labels. Two
properties of a run are named here:

* `AllStates step P s ls` — `P` holds in every state the run visits,
  the first and the last included;
* `AllSteps step C s ls` — `C` holds of every step the run takes, read
  on the state BEFORE the step and its label.

`allStates_of_allSteps` is the induction every safety argument uses: an
invariant kept by each step that meets `C` holds in every state of a
run whose steps all meet `C`. `allSteps_congr` is the same induction for
an exact condition: if in every invariant state `P` and `C` agree, they
agree along the run. `foldlM_invariant` is the induction for a fold that
can fail.

Nothing in this module is about a particular program.
-/
import Mathlib.Data.List.Basic

namespace Runs

variable {σ ℓ : Type*} (step : σ → ℓ → Option σ)

/-! ## Runs -/

/-- The state reached by taking the labels one after the other. -/
def run : σ → List ℓ → Option σ
  | s, [] => some s
  | s, l :: ls => (step s l).bind fun s' => run s' ls

@[simp] theorem run_nil (s : σ) : run step s [] = some s := rfl

theorem run_cons (s : σ) (l : ℓ) (ls : List ℓ) :
    run step s (l :: ls) = (step s l).bind fun s' => run step s' ls := rfl

theorem run_cons_of_step {s s' : σ} {l : ℓ} (h : step s l = some s')
    (ls : List ℓ) : run step s (l :: ls) = run step s' ls := by
  rw [run_cons, h]; rfl

/-- A run in two parts. -/
theorem run_append (s : σ) (pre ls : List ℓ) :
    run step s (pre ++ ls) = (run step s pre).bind fun s' => run step s' ls := by
  induction pre generalizing s with
  | nil => rfl
  | cons l pre ih =>
    rw [List.cons_append, run_cons, run_cons, Option.bind_assoc]
    exact congrArg _ (funext ih)

/-- A state is reachable from `s₀` when some run ends in it. -/
def Reachable (s₀ s : σ) : Prop := ∃ ls, run step s₀ ls = some s

/-- `P` holds in every state the run visits. -/
def AllStates (P : σ → Prop) (s : σ) (ls : List ℓ) : Prop :=
  ∀ pre post s', ls = pre ++ post → run step s pre = some s' → P s'

/-- `C` holds of every step the run takes. -/
def AllSteps (C : σ → ℓ → Prop) (s : σ) (ls : List ℓ) : Prop :=
  ∀ pre l post s', ls = pre ++ l :: post → run step s pre = some s' → C s' l

/-! ## Peeling off the first step -/

variable {step}

theorem allStates_nil {P : σ → Prop} {s : σ} :
    AllStates step P s [] ↔ P s := by
  constructor
  · intro h; exact h [] [] s rfl rfl
  · intro h pre post s' heq hrun
    obtain ⟨rfl, rfl⟩ := List.append_eq_nil_iff.mp heq.symm
    cases hrun; exact h

theorem allStates_cons {P : σ → Prop} {s : σ} {l : ℓ} {ls : List ℓ} :
    AllStates step P s (l :: ls) ↔
      P s ∧ ∀ s', step s l = some s' → AllStates step P s' ls := by
  constructor
  · intro h
    refine ⟨h [] (l :: ls) s rfl rfl, fun s' hs pre post t heq hrun => ?_⟩
    refine h (l :: pre) post t (by rw [heq]; rfl) ?_
    rw [run_cons_of_step step hs]; exact hrun
  · intro hex pre post t heq hrun
    obtain ⟨h0, hrest⟩ := hex
    cases pre with
    | nil => cases hrun; exact h0
    | cons l' pre =>
      simp only [List.cons_append, List.cons.injEq] at heq
      obtain ⟨rfl, rfl⟩ := heq
      rw [run_cons, Option.bind_eq_some_iff] at hrun
      obtain ⟨s', hs, hrun⟩ := hrun
      exact hrest s' hs pre post t rfl hrun

theorem allSteps_nil {C : σ → ℓ → Prop} {s : σ} : AllSteps step C s [] := by
  intro pre l post s' heq
  simp at heq

theorem allSteps_cons {C : σ → ℓ → Prop} {s : σ} {l : ℓ} {ls : List ℓ} :
    AllSteps step C s (l :: ls) ↔
      C s l ∧ ∀ s', step s l = some s' → AllSteps step C s' ls := by
  constructor
  · intro h
    refine ⟨h [] l ls s rfl rfl, fun s' hs pre l' post t heq hrun => ?_⟩
    refine h (l :: pre) l' post t (by rw [heq]; rfl) ?_
    rw [run_cons_of_step step hs]; exact hrun
  · intro hex pre l' post t heq hrun
    obtain ⟨h0, hrest⟩ := hex
    cases pre with
    | nil =>
      simp only [List.nil_append, List.cons.injEq] at heq
      obtain ⟨rfl, rfl⟩ := heq
      cases hrun; exact h0
    | cons l'' pre =>
      simp only [List.cons_append, List.cons.injEq] at heq
      obtain ⟨rfl, rfl⟩ := heq
      rw [run_cons, Option.bind_eq_some_iff] at hrun
      obtain ⟨s', hs, hrun⟩ := hrun
      exact hrest s' hs pre l' post t rfl hrun

/-- The steps of the second part of a run. -/
theorem AllSteps.after {C : σ → ℓ → Prop} {s s' : σ} {pre ls : List ℓ}
    (h : AllSteps step C s (pre ++ ls)) (hrun : run step s pre = some s') :
    AllSteps step C s' ls := by
  intro pre' l post t heq hrun'
  refine h (pre ++ pre') l post t (by rw [heq, List.append_assoc]) ?_
  rw [run_append, hrun]
  exact hrun'

/-- The states of the first part of a run. -/
theorem AllStates.before {P : σ → Prop} {s : σ} {pre ls : List ℓ}
    (h : AllStates step P s (pre ++ ls)) : AllStates step P s pre := by
  intro pre' post t heq hrun
  exact h pre' (post ++ ls) t (by rw [heq, List.append_assoc]) hrun

/-- The states of the second part of a run. -/
theorem AllStates.after {P : σ → Prop} {s s' : σ} {pre ls : List ℓ}
    (h : AllStates step P s (pre ++ ls)) (hrun : run step s pre = some s') :
    AllStates step P s' ls := by
  intro pre' post t heq hrun'
  refine h (pre ++ pre') post t (by rw [heq, List.append_assoc]) ?_
  rw [run_append, hrun]
  exact hrun'

/-! ## Checking a run -/

theorem allStates_cons_of_step {P : σ → Prop} {s s' : σ} {l : ℓ} (h : step s l = some s')
    (ls : List ℓ) : AllStates step P s (l :: ls) ↔ P s ∧ AllStates step P s' ls := by
  rw [allStates_cons, h]
  simp

theorem allSteps_cons_of_step {C : σ → ℓ → Prop} {s s' : σ} {l : ℓ} (h : step s l = some s')
    (ls : List ℓ) : AllSteps step C s (l :: ls) ↔ C s l ∧ AllSteps step C s' ls := by
  rw [allSteps_cons, h]
  simp

/-- A property of states that can be decided can be decided along a run. -/
instance AllStates.decidable {P : σ → Prop} [DecidablePred P] :
    ∀ (s : σ) (ls : List ℓ), Decidable (AllStates step P s ls)
  | _, [] => decidable_of_iff _ allStates_nil.symm
  | s, l :: ls =>
    match h : step s l with
    | none => decidable_of_iff (P s) (by rw [allStates_cons, h]; simp)
    | some s' =>
      have : Decidable (AllStates step P s' ls) := AllStates.decidable s' ls
      decidable_of_iff _ (allStates_cons_of_step h ls).symm

/-- A property of steps that can be decided can be decided along a run. -/
instance AllSteps.decidable {C : σ → ℓ → Prop} [∀ s l, Decidable (C s l)] :
    ∀ (s : σ) (ls : List ℓ), Decidable (AllSteps step C s ls)
  | _, [] => isTrue allSteps_nil
  | s, l :: ls =>
    match h : step s l with
    | none => decidable_of_iff (C s l) (by rw [allSteps_cons, h]; simp)
    | some s' =>
      have : Decidable (AllSteps step C s' ls) := AllSteps.decidable s' ls
      decidable_of_iff _ (allSteps_cons_of_step h ls).symm

/-! ## Induction along a run -/

/-- An invariant kept by every step that meets `C` holds in every state
of a run whose steps all meet `C`. -/
theorem allStates_of_allSteps {I : σ → Prop} {C : σ → ℓ → Prop}
    (hstep : ∀ s l s', I s → C s l → step s l = some s' → I s') :
    ∀ {ls : List ℓ} {s : σ}, I s → AllSteps step C s ls → AllStates step I s ls
  | [], _, h0, _ => allStates_nil.mpr h0
  | _ :: _, s, h0, hC => by
      obtain ⟨hc, hrest⟩ := allSteps_cons.mp hC
      exact allStates_cons.mpr ⟨h0, fun s' hs =>
        allStates_of_allSteps hstep (hstep s _ s' h0 hc hs) (hrest s' hs)⟩

/-- When a step that meets `C` keeps the invariant and any other one leads
to a state without `P`, a run that keeps `P` meets `C` throughout. -/
theorem allSteps_of_allStates {I P : σ → Prop} {C : σ → ℓ → Prop}
    (hgood : ∀ s l s', I s → C s l → step s l = some s' → I s')
    (hbad : ∀ s l, I s → ¬ C s l → ∃ s', step s l = some s' ∧ ¬ P s') :
    ∀ {ls : List ℓ} {s : σ}, I s → AllStates step P s ls → AllSteps step C s ls
  | [], _, _, _ => allSteps_nil
  | l :: ls, s, h0, hall => by
      obtain ⟨-, hrest⟩ := allStates_cons.mp hall
      have hC : C s l := by
        by_contra hno
        obtain ⟨s', hs, hP⟩ := hbad s l h0 hno
        exact hP (hrest s' hs [] ls s' rfl rfl)
      exact allSteps_cons.mpr ⟨hC, fun s' hs =>
        allSteps_of_allStates hgood hbad (hgood s l s' h0 hC hs) (hrest s' hs)⟩

/-- When a step that meets `C` keeps `I` and every other step leaves `I`,
`I` holds throughout a run exactly when all its steps meet `C`. -/
theorem allStates_iff_allSteps {I : σ → Prop} {C : σ → ℓ → Prop}
    (hgood : ∀ s l s', I s → C s l → step s l = some s' → I s')
    (hbad : ∀ s l, I s → ¬ C s l → ∃ s', step s l = some s' ∧ ¬ I s')
    {ls : List ℓ} {s : σ} (h0 : I s) :
    AllStates step I s ls ↔ AllSteps step C s ls :=
  ⟨allSteps_of_allStates hgood hbad h0, allStates_of_allSteps hgood h0⟩

/-- An invariant every step keeps holds in every state of every run. -/
theorem allStates_of_invariant {I : σ → Prop}
    (hstep : ∀ s l s', I s → step s l = some s' → I s')
    {s : σ} (h0 : I s) (ls : List ℓ) : AllStates step I s ls :=
  allStates_of_allSteps (C := fun _ _ => True) (fun s l s' hI _ => hstep s l s' hI)
    h0 (fun _ _ _ _ _ _ => trivial)

/-- A property the invariant gives of each step that meets `C` holds of
every step of a run whose steps all meet `C`. -/
theorem allSteps_of_allSteps {I : σ → Prop} {P C : σ → ℓ → Prop}
    (hstep : ∀ s l s', I s → C s l → step s l = some s' → I s')
    (hP : ∀ s l, I s → C s l → P s l) {s : σ} {ls : List ℓ} (h0 : I s)
    (hC : AllSteps step C s ls) : AllSteps step P s ls := by
  intro pre l post s' heq hrun
  have hI := allStates_of_allSteps hstep h0 hC pre (l :: post) s' heq hrun
  exact hP s' l hI (hC pre l post s' heq hrun)

theorem AllStates.and {P Q : σ → Prop} {s : σ} {ls : List ℓ}
    (hP : AllStates step P s ls) (hQ : AllStates step Q s ls) :
    AllStates step (fun s => P s ∧ Q s) s ls :=
  fun pre post s' heq hrun => ⟨hP pre post s' heq hrun, hQ pre post s' heq hrun⟩

theorem AllStates.mono {P Q : σ → Prop} {s : σ} {ls : List ℓ} (hPQ : ∀ s, P s → Q s)
    (hP : AllStates step P s ls) : AllStates step Q s ls :=
  fun pre post s' heq hrun => hPQ s' (hP pre post s' heq hrun)

/-- The last state of a run is one of the states it visits. -/
theorem AllStates.last {P : σ → Prop} {s s' : σ} {ls : List ℓ}
    (h : AllStates step P s ls) (hrun : run step s ls = some s') : P s' :=
  h ls [] s' (List.append_nil ls).symm hrun

/-- An invariant every step keeps holds in every reachable state. -/
theorem Reachable.invariant {I : σ → Prop}
    (hstep : ∀ s l s', I s → step s l = some s' → I s')
    {s₀ s : σ} (h0 : I s₀) (hr : Reachable step s₀ s) : I s := by
  obtain ⟨ls, hrun⟩ := hr
  exact (allStates_of_invariant hstep h0 ls).last hrun

/-- What holds in every state a run visits holds before each of its steps. -/
theorem AllStates.allSteps {P : σ → Prop} {s : σ} {ls : List ℓ} (h : AllStates step P s ls) :
    AllSteps step (fun s _ => P s) s ls :=
  fun pre l post s' heq hrun => h pre (l :: post) s' heq hrun

/-- Two step properties that agree in the states a run visits agree along
the run. -/
theorem AllStates.allSteps_congr {I : σ → Prop} {P C : σ → ℓ → Prop} {s : σ} {ls : List ℓ}
    (h : AllStates step I s ls) (hPC : ∀ s l, I s → (P s l ↔ C s l)) :
    AllSteps step P s ls ↔ AllSteps step C s ls := by
  have hbefore := h.allSteps
  constructor
  · intro hP pre l post s' heq hrun
    exact (hPC s' l (hbefore pre l post s' heq hrun)).mp (hP pre l post s' heq hrun)
  · intro hC pre l post s' heq hrun
    exact (hPC s' l (hbefore pre l post s' heq hrun)).mpr (hC pre l post s' heq hrun)

/-- Two step properties that agree in every invariant state agree along
every run. -/
theorem allSteps_congr {I : σ → Prop} {P C : σ → ℓ → Prop}
    (hstep : ∀ s l s', I s → step s l = some s' → I s')
    (hPC : ∀ s l, I s → (P s l ↔ C s l)) {ls : List ℓ} {s : σ} (h0 : I s) :
    AllSteps step P s ls ↔ AllSteps step C s ls :=
  (allStates_of_invariant hstep h0 ls).allSteps_congr hPC

/-! ## Folds that can fail

A fold over a list in `Except`: what holds of the part of the list that
was read, and of the state it has led to. -/

section Folds

variable {ε σ α β : Type*} {step : σ → α → Except ε σ}

/-- The invariant speaks of what was read so far. -/
theorem foldlM_invariant (P : List α → σ → Prop)
    (hstep : ∀ pre s a s', P pre s → step s a = .ok s' → P (pre ++ [a]) s') {l : List α}
    {s t : σ} (h0 : P [] s) (h : l.foldlM step s = .ok t) : P l t := by
  have hgoOn : ∀ (l pre : List α) (s : σ), P pre s → l.foldlM step s = .ok t → P (pre ++ l) t := by
    intro l
    induction l with
    | nil =>
      intro pre s hpre h
      cases h
      rw [List.append_nil]
      exact hpre
    | cons a l ih =>
      intro pre s hpre h
      rw [List.foldlM_cons] at h
      cases hs : step s a with
      | error e =>
        rw [hs] at h
        cases h
      | ok s' =>
        rw [hs] at h
        have hrest := ih (pre ++ [a]) s' (hstep pre s a s' hpre hs) h
        rw [List.append_assoc, List.singleton_append] at hrest
        exact hrest
  exact hgoOn l [] s h0 h

/-- Once closed, a state accepts no further element that `f` reads, and
each of these closes it. -/
theorem foldlM_once {f : α → Option β} (closed : σ → Prop)
    (hread : ∀ s a s' b, step s a = .ok s' → f a = some b → ¬ closed s ∧ closed s')
    (hskip : ∀ s a s', step s a = .ok s' → f a = none → closed s → closed s')
    {l : List α} {s t : σ} (h : l.foldlM step s = .ok t) : (l.filterMap f).length ≤ 1 := by
  have hstep : ∀ pre s a s', ((pre.filterMap f).length ≤ 1 ∧
      ((pre.filterMap f).length = 1 → closed s)) → step s a = .ok s' →
      (((pre ++ [a]).filterMap f).length ≤ 1 ∧
        (((pre ++ [a]).filterMap f).length = 1 → closed s')) := by
    intro pre s a s' hpre hs
    rw [List.filterMap_append, List.length_append, List.filterMap_cons]
    cases hf : f a with
    | none =>
      exact ⟨hpre.1, fun hone => hskip s a s' hs hf (hpre.2 hone)⟩
    | some b =>
      obtain ⟨hopen, hclosed⟩ := hread s a s' b hs hf
      have hzero : (pre.filterMap f).length = 0 := by
        have hne := mt hpre.2 hopen
        have hle := hpre.1
        omega
      rw [hzero]
      exact ⟨Nat.le_refl 1, fun _ => hclosed⟩
  have hnone : (([] : List α).filterMap f).length ≤ 1 ∧
      ((([] : List α).filterMap f).length = 1 → closed s) := ⟨Nat.zero_le 1, nofun⟩
  exact (foldlM_invariant _ hstep hnone h).1

end Folds

end Runs
