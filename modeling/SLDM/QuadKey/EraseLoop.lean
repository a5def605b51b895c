/-
SLDM.QuadKey.EraseLoop — the loop that removes duplicates, index by index.

`eraseTurn` takes a turn of the loop over `i` at once. Here every test,
every `at` and both counters of type `size_t` are a step of their own: after
an `erase` the counter `i` is decremented, below 0 if it has to, and the
increment of the `for` brings it back. A run of these steps does what
`removeDuplicates` does (`endsIn_of_exec`), which stands for the loop in the
models of `LatLonToQuadKeyRange`, `checkdim` and `unifyQuadkeys`.
-/
import SLDM.QuadKey.Compression
import SLDM.QuadKey.Duplicates

namespace SLDM.QuadKey

/-! ## The loop -/

/-- Where the loop stands. -/
inductive Erasing
  /-- Before the test of the loop over `i`. -/
  | outer (i : UInt64) (v : List Key)
  /-- Before the test of the loop over `k`. -/
  | inner (i k : UInt64) (v : List Key)
  /-- Before `i++`. -/
  | next (i : UInt64) (v : List Key)
  | thrown (e : StdException)
deriving DecidableEq, Repr

/-- `i!=k && v.at(i) == v.at(k)`. -/
def equalAt (v : List Key) (i k : UInt64) : Except StdException Bool := do
  if i ≠ k then
    let first ← vectorAt v i.toNat
    let second ← vectorAt v k.toNat
    return first == second
  else return false

def eraseStep : Erasing → Option Erasing
  | .outer i v => if i < UInt64.ofNat v.length then some (.inner i 0 v) else none
  | .inner i k v =>
    if k < UInt64.ofNat v.length then
      match equalAt v i k with
      | .error e => some (.thrown e)
      | .ok true => some (.next (i - 1) (v.eraseIdx k.toNat))
      | .ok false => some (.inner i (k + 1) v)
    else some (.next i v)
  | .next i v => some (.outer (i + 1) v)
  | .thrown _ => none

/-! ## Counters -/

section Counters

variable {v : List Key} {i k : UInt64}

theorem lt_size_iff (hsize : v.length < 2 ^ 64) :
    i < UInt64.ofNat v.length ↔ i.toNat < v.length := by
  rw [UInt64.lt_iff_toNat_lt, UInt64.toNat_ofNat_of_lt' hsize]

/-- Below the size the increment does not wrap around. -/
theorem toNat_succ (hsize : v.length < 2 ^ 64) (hi : i.toNat < v.length) :
    (i + 1).toNat = i.toNat + 1 := by
  rw [UInt64.toNat_add, UInt64.toNat_one]
  exact Nat.mod_eq_of_lt (by omega)

/-- Inside the vector nothing is thrown. -/
theorem equalAt_eq (hi : i.toNat < v.length) (hk : k.toNat < v.length) :
    equalAt v i k = .ok (decide (i.toNat ≠ k.toNat ∧ v[i.toNat]? = v[k.toNat]?)) := by
  unfold equalAt vectorAt
  rw [List.getElem?_eq_getElem hi, List.getElem?_eq_getElem hk]
  by_cases hsame : i = k
  · rw [if_neg (not_not.mpr hsame), decide_eq_false fun hboth => hboth.1 (by rw [hsame])]
    rfl
  · rw [if_pos hsame]
    show Except.ok (v[i.toNat] == v[k.toNat]) = _
    have hne : i.toNat ≠ k.toNat := fun heq => hsame (UInt64.toNat_inj.mp heq)
    rw [beq_eq_decide]
    simp only [ne_eq, hne, not_false_eq_true, true_and, Option.some.injEq]

end Counters

/-! ## A turn of the loop over `i` -/

theorem firstDuplicate_of_first {v : List Key} {i d : ℕ} (hd : d < v.length)
    (hequal : i ≠ d ∧ v[i]? = v[d]?) (hbefore : ∀ m < d, ¬ (i ≠ m ∧ v[i]? = v[m]?)) :
    firstDuplicate v i = some d := by
  unfold firstDuplicate
  rw [List.find?_range_eq_some]
  refine ⟨by simpa using hequal, List.mem_range.mpr hd, fun m hm => ?_⟩
  simpa [or_iff_not_imp_left] using hbefore m hm

section Turn

variable {v : List Key} {i : UInt64} {t : Erasing}

/-- The loop over `k` from `k` on, when the keys before `k` are no
duplicates: it erases the first duplicate, or comes to its end. -/
theorem endsIn_inner (hsize : v.length < 2 ^ 64) (hi : i.toNat < v.length)
    (hnone : firstDuplicate v i.toNat = none → Loops.EndsIn eraseStep (.next i v) t)
    (hsome : ∀ d, firstDuplicate v i.toNat = some d →
      Loops.EndsIn eraseStep (.next (i - 1) (v.eraseIdx d)) t) {left : ℕ} {k : UInt64}
    (hk : k.toNat + left = v.length)
    (hbefore : ∀ m < k.toNat, ¬ (i.toNat ≠ m ∧ v[i.toNat]? = v[m]?)) :
    Loops.EndsIn eraseStep (.inner i k v) t := by
  induction left generalizing k with
  | zero =>
    have hdone : eraseStep (.inner i k v) = some (.next i v) :=
      if_neg (by rw [lt_size_iff hsize]; omega)
    refine Loops.endsIn_of_turn hdone (hnone (firstDuplicate_eq_none.mpr fun m hm hne heq => ?_))
    exact hbefore m (by omega) ⟨hne, heq⟩
  | succ left ih =>
    have hlt : k.toNat < v.length := by omega
    have hstep : eraseStep (.inner i k v) =
        if i.toNat ≠ k.toNat ∧ v[i.toNat]? = v[k.toNat]? then
          some (.next (i - 1) (v.eraseIdx k.toNat)) else some (.inner i (k + 1) v) := by
      simp only [eraseStep, if_pos ((lt_size_iff hsize).mpr hlt), equalAt_eq hi hlt]
      split <;> simp_all
    by_cases hequal : i.toNat ≠ k.toNat ∧ v[i.toNat]? = v[k.toNat]?
    · rw [if_pos hequal] at hstep
      exact Loops.endsIn_of_turn hstep
        (hsome _ (firstDuplicate_of_first hlt hequal hbefore))
    · rw [if_neg hequal] at hstep
      refine Loops.endsIn_of_turn hstep (ih ?_ fun m hm => ?_)
      · rw [toNat_succ hsize hlt]
        omega
      · rw [toNat_succ hsize hlt] at hm
        rcases Nat.lt_succ_iff_lt_or_eq.mp hm with hlt' | rfl
        · exact hbefore m hlt'
        · exact hequal

/-- `i--` and `i++` cancel, also below 0. -/
theorem eraseStep_next_pred : eraseStep (.next (i - 1) v) = some (.outer i v) := by
  simp only [eraseStep, UInt64.sub_add_cancel]

end Turn

/-- The steps do what the turns do. -/
theorem endsIn_of_exec {fuel : ℕ} {v : List Key} {i : UInt64} (hsize : v.length < 2 ^ 64) {j : ℕ}
    {w : List Key} (h : Loops.exec eraseTurn fuel (i.toNat, v) = some (j, w)) :
    Loops.EndsIn eraseStep (.outer i v) (.outer (UInt64.ofNat j) w) := by
  induction fuel generalizing i v with
  | zero => cases h
  | succ fuel ih =>
    by_cases hi : i.toNat < v.length
    · refine Loops.endsIn_of_turn (if_pos ((lt_size_iff hsize).mpr hi)) (endsIn_inner hsize hi
        (fun hnone => ?_) (fun d hd => ?_) (k := 0) (Nat.zero_add _) (by simp))
      · have hturn : eraseTurn (i.toNat, v) = some ((i + 1).toNat, v) := by
          simp only [eraseTurn, if_pos hi, hnone, toNat_succ hsize hi]
        rw [Loops.exec_of_turn hturn] at h
        exact Loops.endsIn_of_turn rfl (ih hsize h)
      · have hturn : eraseTurn (i.toNat, v) = some (i.toNat, v.eraseIdx d) := by
          simp only [eraseTurn, if_pos hi, hd]
        rw [Loops.exec_of_turn hturn] at h
        refine Loops.endsIn_of_turn eraseStep_next_pred (ih ?_ h)
        exact lt_of_le_of_lt (List.eraseIdx_sublist v d).length_le hsize
    · have hturn : eraseTurn (i.toNat, v) = none := by simp only [eraseTurn, if_neg hi]
      rw [Loops.exec_of_done hturn] at h
      cases h
      rw [UInt64.ofNat_toNat]
      exact Loops.endsIn_of_done (if_neg (by rw [lt_size_iff hsize]; exact hi))

/-! ## What is left -/

/-- First occurrences in the order of the vector. -/
theorem eraseDups_pairwise_idxOf (v : List Key) :
    v.eraseDups.Pairwise fun a b => v.idxOf a < v.idxOf b := by
  induction v using List.reverseRecOn with
  | nil => exact List.Pairwise.nil
  | append_singleton v key ih =>
    have hold : v.eraseDups.Pairwise fun a b => (v ++ [key]).idxOf a < (v ++ [key]).idxOf b := by
      refine ih.imp_of_mem fun ha hb hlt => ?_
      rw [List.idxOf_append_of_mem (List.mem_eraseDups.mp ha),
        List.idxOf_append_of_mem (List.mem_eraseDups.mp hb)]
      exact hlt
    rw [List.eraseDups_append]
    by_cases hmem : key ∈ v
    · have hnew : ([key].removeAll v).eraseDups = [] := by simp [List.removeAll, hmem]
      rw [hnew, List.append_nil]
      exact hold
    · have hnew : ([key].removeAll v).eraseDups = [key] := by
        simp [List.removeAll, hmem, List.eraseDups_cons]
      rw [hnew]
      refine List.pairwise_append.mpr ⟨hold, List.pairwise_singleton _ key, fun a ha b hb => ?_⟩
      rw [List.mem_eraseDups] at ha
      rw [List.mem_singleton.mp hb, List.idxOf_append_of_mem ha,
        List.idxOf_append_of_notMem hmem]
      exact Nat.lt_add_right _ (List.idxOf_lt_length_iff.mpr ha)

/-- The loop is left, never having thrown. It leaves the keys of the vector,
each once, in the order of their first occurrences. -/
theorem eraseLoop_firstOccurrences (v : List Key) (hsize : v.length < 2 ^ 64) :
    (∃ i w, Loops.EndsIn eraseStep (.outer 0 v) (.outer i w) ∧ w = removeDuplicates v ∧
      w.Nodup ∧ (∀ key, key ∈ w ↔ key ∈ v) ∧ w.Pairwise fun a b => v.idxOf a < v.idxOf b) ∧
    ∀ turns e, Loops.drive eraseStep turns (.outer 0 v) ≠ .thrown e := by
  obtain ⟨fuel, hexec⟩ := removeDuplicates_ends v
  have hends : Loops.EndsIn eraseStep (.outer 0 v)
      (.outer (UInt64.ofNat (Loops.drive eraseTurn (2 * v.length) (0, v)).1)
        (removeDuplicates v)) :=
    endsIn_of_exec hsize hexec
  refine ⟨⟨_, _, hends, rfl, (removeDuplicates_eq v).2, fun _ => mem_removeDuplicates, ?_⟩,
    fun turns e hthrown => ?_⟩
  · rw [(removeDuplicates_eq v).1]
    exact eraseDups_pairwise_idxOf v
  · have hstop : Loops.drive eraseStep turns (.outer 0 v) = .outer _ _ :=
      hends.drive_eq (by rw [hthrown]; rfl)
    rw [hthrown] at hstop
    cases hstop

/-- The first key is there again twice. -/
def threeCopies : List Key := [['0'], ['1'], ['0'], ['0']]

theorem eraseLoop_firstOccurrences_threeCopies :
    (∃ i w, Loops.EndsIn eraseStep (.outer 0 threeCopies) (.outer i w) ∧
      w = removeDuplicates threeCopies ∧ w.Nodup ∧ (∀ key, key ∈ w ↔ key ∈ threeCopies) ∧
      w.Pairwise fun a b => threeCopies.idxOf a < threeCopies.idxOf b) ∧
    ∀ turns e, Loops.drive eraseStep turns (.outer 0 threeCopies) ≠ .thrown e :=
  eraseLoop_firstOccurrences threeCopies (by decide)

end SLDM.QuadKey
