/-
SLDM.QuadKey.Unify — what `unifyQuadkeys2` computes, and when it throws.

A pass over four or more quadkeys is `PrefixCover.merge` over the digits
(`unifyPass_long`). Below four the bound `quadKeys.size()-4` wraps around
and bounds nothing: the pass throws exactly when the vector ends with the
beginning of a family, `X0`, `X0 X1` or `X0 X1 X2` (`unifyPass_short`).

`unifyQuadkeys2_ok_iff` is the condition for a whole call, and
`unifyQuadkeys2_canonical` says that a call that returns computes the
canonical cover of its input.
-/
import SLDM.Lib.PrefixCover
import SLDM.QuadKey.FilterCache

namespace SLDM.QuadKey

open PrefixCover

/-! ## Digits and siblings -/

/-- The digits of quadkeys. -/
def digits : List Char := ['0', '1', '2', '3']

theorem digits_ne_nil : digits ≠ [] := List.cons_ne_nil _ _

theorem digits_sorted : digits.Pairwise (· < ·) := by decide

theorem family_digits (X : Key) :
    family digits X = [X ++ ['0'], X ++ ['1'], X ++ ['2'], X ++ ['3']] := rfl

theorem eq_concat_iff {X key : Key} {d : Char} :
    X ++ [d] = key ↔ X = key.dropLast ∧ key.getLast? = some d := by
  constructor
  · intro heq
    subst heq
    exact ⟨List.dropLast_concat.symm, List.getLast?_concat⟩
  · intro hboth
    obtain ⟨rfl, hlast⟩ := hboth
    exact List.dropLast_append_getLast? d hlast

/-- The comparison with one sibling. -/
theorem siblingAt_eq {v : List Key} {X : Key} {i : ℕ} {d : Char} :
    siblingAt v X i d = (vectorAt v i).map fun key => decide (X ++ [d] = key) := by
  unfold siblingAt
  cases vectorAt v i with
  | error e => rfl
  | ok key =>
    show Except.ok (X == key.dropLast && key.getLast? == some d) = .ok (decide (X ++ [d] = key))
    congr 1
    rw [Bool.eq_iff_iff, decide_eq_true_iff, eq_concat_iff, Bool.and_eq_true, beq_iff_eq,
      beq_iff_eq]

theorem vectorAt_drop (v : List Key) (i k : ℕ) : vectorAt v (i + k) = vectorAt (v.drop i) k := by
  unfold vectorAt
  rw [List.getElem?_drop]

/-- The first of four siblings. -/
theorem getLast_eq_zero (a : Key) :
    (a.getLast? == some '0') = decide (a.dropLast ++ ['0'] = a) := by
  rw [Bool.eq_iff_iff, decide_eq_true_iff, eq_concat_iff, beq_iff_eq]
  simp

/-- With four quadkeys left the condition asks for a family. -/
theorem startsQuad_of_four {v : List Key} {i : ℕ} {a b c d : Key} {rest : List Key}
    (hdrop : v.drop i = a :: b :: c :: d :: rest) :
    startsQuad v i a = .ok (decide (family digits a.dropLast <+: v.drop i)) := by
  have hguard : (decide (v.length < 4) || decide (i ≤ v.length - 4)) = true := by
    have hlen := congrArg List.length hdrop
    simp only [List.length_drop, List.length_cons] at hlen
    simp only [Bool.or_eq_true, decide_eq_true_eq]
    omega
  have hb : vectorAt v (i + 1) = .ok b := by rw [vectorAt_drop, hdrop]; rfl
  have hc : vectorAt v (i + 2) = .ok c := by rw [vectorAt_drop, hdrop]; rfl
  have hd : vectorAt v (i + 3) = .ok d := by rw [vectorAt_drop, hdrop]; rfl
  unfold startsQuad
  rw [hguard, Bool.true_and, getLast_eq_zero, hdrop]
  simp only [siblingAt_eq, hb, hc, hd, family_digits, List.cons_prefix_cons, List.nil_prefix,
    and_true, Except.map]
  by_cases h0 : a.dropLast ++ ['0'] = a
  · by_cases h1 : a.dropLast ++ ['1'] = b
    · by_cases h2 : a.dropLast ++ ['2'] = c
      · simp [h0, h1, h2, bind, Except.bind]
      · simp [h0, h1, h2, bind, Except.bind, pure, Except.pure]
    · simp [h0, h1, bind, Except.bind, pure, Except.pure]
  · simp [h0, pure, Except.pure]

/-- With fewer left in a long vector it is false. -/
theorem startsQuad_of_end {v : List Key} {i : ℕ} (a : Key) (hlong : 4 ≤ v.length)
    (hend : (v.drop i).length < 4) : startsQuad v i a = .ok false := by
  have hguard : (decide (v.length < 4) || decide (i ≤ v.length - 4)) = false := by
    rw [List.length_drop] at hend
    rw [Bool.or_eq_false_iff, decide_eq_false_iff_not, decide_eq_false_iff_not]
    omega
  unfold startsQuad
  rw [hguard, Bool.false_and]
  rfl

/-- In a long vector the condition asks for a family. -/
theorem startsQuad_long {v : List Key} {i : ℕ} {a : Key} {t : List Key} (hlong : 4 ≤ v.length)
    (hdrop : v.drop i = a :: t) :
    startsQuad v i a = .ok (decide (family digits a.dropLast <+: v.drop i)) := by
  by_cases hend : (v.drop i).length < 4
  · rw [startsQuad_of_end a hlong hend, decide_eq_false]
    intro hpre
    have hle := hpre.length_le
    rw [family_digits] at hle
    exact absurd hend (by simpa using hle)
  · match t, hdrop with
    | b :: c :: d :: rest, hdrop => exact startsQuad_of_four hdrop
    | [], hdrop => exact absurd (by rw [hdrop]; simp) hend
    | [b], hdrop => exact absurd (by rw [hdrop]; simp) hend
    | [b, c], hdrop => exact absurd (by rw [hdrop]; simp) hend

/-! ## One pass -/

/-- One turn of a pass. -/
theorem unifyPass_succ {v : List Key} {i : ℕ} (hi : i < v.length) (fuel : ℕ) :
    unifyPass v (fuel + 1) i = (startsQuad v i v[i]).bind fun united =>
      if united then
        (unifyPass v fuel (i + 3 + 1)).map fun rest => (v[i].dropLast :: rest.1, true)
      else (unifyPass v fuel (i + 1)).map fun rest => (v[i] :: rest.1, rest.2) := by
  have hkey : vectorAt v i = .ok v[i] := by
    unfold vectorAt
    rw [List.getElem?_eq_getElem hi]
  rw [unifyPass, if_pos hi, hkey]
  rfl

theorem unifyPass_end {v : List Key} {i : ℕ} (hi : v.length ≤ i) (fuel : ℕ) :
    unifyPass v fuel i = .ok ([], false) := by
  cases fuel with
  | zero => rfl
  | succ fuel => rw [unifyPass, if_neg (not_lt.mpr hi)]

/-- A pass over a long vector merges its families. -/
theorem unifyPass_long {v : List Key} (hlong : 4 ≤ v.length) {fuel i : ℕ}
    (hfuel : v.length ≤ i + fuel) :
    unifyPass v fuel i =
      .ok (merge digits (v.drop i), decide (merge digits (v.drop i) ≠ v.drop i)) := by
  induction fuel generalizing i with
  | zero =>
    rw [Nat.add_zero] at hfuel
    rw [unifyPass_end hfuel, List.drop_eq_nil_of_le hfuel, merge_nil]
    rfl
  | succ fuel ih =>
    by_cases hi : i < v.length
    · have hdrop : v.drop i = v[i] :: v.drop (i + 1) := List.cons_getElem_drop_succ.symm
      rw [unifyPass_succ hi, startsQuad_long hlong hdrop]
      by_cases hfamily : family digits v[i].dropLast <+: v.drop i
      · rw [decide_eq_true hfamily]
        obtain ⟨rest, hrest⟩ := hfamily
        have hlater : v.drop (i + 3 + 1) = rest := by
          rw [Nat.add_assoc, ← List.drop_drop, ← hrest]
          rfl
        have hshorter := length_merge_le digits_ne_nil rest
        have hchanged : v[i].dropLast :: merge digits rest ≠
            family digits v[i].dropLast ++ rest := by
          intro heq
          have hlen := congrArg List.length heq
          rw [family_digits] at hlen
          simp only [List.length_cons, List.length_append, List.length_nil] at hlen
          omega
        rw [← hrest, merge_of_family _ digits_ne_nil, decide_eq_true hchanged]
        show (unifyPass v fuel (i + 3 + 1)).map _ = _
        rw [ih (by omega), hlater]
        rfl
      · rw [decide_eq_false hfamily]
        show (unifyPass v fuel (i + 1)).map _ = _
        rw [hdrop] at hfamily ⊢
        rw [ih (by omega), merge_of_not hfamily]
        simp only [Except.map, ne_eq, List.cons.injEq, true_and]
    · rw [unifyPass_end (not_lt.mp hi), List.drop_eq_nil_of_le (not_lt.mp hi), merge_nil]
      rfl

/-! ## Short vectors -/

/-- The vector ends with the beginning of a family. -/
def EndsOpen (v : List Key) : Prop :=
  ∃ s, s ≠ [] ∧ s <:+ v ∧ ∃ X, s <+: family digits X

theorem not_endsOpen_nil : ¬ EndsOpen [] := by
  intro hopen
  obtain ⟨s, hne, hsuffix, -⟩ := hopen
  exact hne (List.suffix_nil.mp hsuffix)

theorem endsOpen_cons {a : Key} {t : List Key} :
    EndsOpen (a :: t) ↔ a :: t <+: family digits a.dropLast ∨ EndsOpen t := by
  constructor
  · intro hopen
    obtain ⟨s, hne, hsuffix, X, hpre⟩ := hopen
    rcases List.suffix_cons_iff.mp hsuffix with rfl | hsuffix
    · left
      have hfirst : X ++ ['0'] = a := by
        rw [family_digits, List.cons_prefix_cons] at hpre
        exact hpre.1.symm
      rw [← hfirst, List.dropLast_concat, hfirst]
      exact hpre
    · exact Or.inr ⟨s, hne, hsuffix, X, hpre⟩
  · intro hor
    rcases hor with hpre | hopen
    · exact ⟨a :: t, List.cons_ne_nil a t, List.suffix_refl _, _, hpre⟩
    · obtain ⟨s, hne, hsuffix, hX⟩ := hopen
      exact ⟨s, hne, hsuffix.trans (List.suffix_cons a t), hX⟩

/-- In a short vector the condition goes on to the end of the vector while
the siblings are there, and throws behind it. -/
theorem startsQuad_short {v : List Key} {i : ℕ} {a : Key} {t : List Key} (hshort : v.length < 4)
    (hdrop : v.drop i = a :: t) :
    startsQuad v i a =
      if a :: t <+: family digits a.dropLast then .error .outOfRange else .ok false := by
  have hguard : (decide (v.length < 4) || decide (i ≤ v.length - 4)) = true := by
    rw [decide_eq_true hshort, Bool.true_or]
  have hlen := congrArg List.length hdrop
  rw [List.length_drop, List.length_cons] at hlen
  unfold startsQuad
  rw [hguard, Bool.true_and, getLast_eq_zero]
  simp only [siblingAt_eq, vectorAt_drop, hdrop, family_digits, List.cons_prefix_cons]
  by_cases h0 : a.dropLast ++ ['0'] = a
  · match t, hlen with
    | [], _ => simp [h0, vectorAt, Except.map, bind, Except.bind]
    | [b], _ =>
      by_cases h1 : a.dropLast ++ ['1'] = b
      · simp [h0, h1, vectorAt, Except.map, bind, Except.bind]
      · simp [h0, h1, Ne.symm h1, vectorAt, Except.map, bind, Except.bind, pure, Except.pure]
    | [b, c], _ =>
      by_cases h1 : a.dropLast ++ ['1'] = b
      · by_cases h2 : a.dropLast ++ ['2'] = c
        · simp [h0, h1, h2, vectorAt, Except.map, bind, Except.bind]
        · simp [h0, h1, h2, Ne.symm h2, vectorAt, Except.map, bind, Except.bind, pure, Except.pure]
      · simp [h0, h1, Ne.symm h1, vectorAt, Except.map, bind, Except.bind, pure, Except.pure]
    | _ :: _ :: _ :: _, hlen => simp only [List.length_cons] at hlen; omega
  · simp [h0, Ne.symm h0, pure, Except.pure]

/-- A pass over a short vector leaves it as it is, or throws. -/
theorem unifyPass_short {v : List Key} (hshort : v.length < 4) {fuel i : ℕ}
    (hfuel : v.length ≤ i + fuel) :
    (¬ EndsOpen (v.drop i) → unifyPass v fuel i = .ok (v.drop i, false)) ∧
      (EndsOpen (v.drop i) → unifyPass v fuel i = .error .outOfRange) := by
  induction fuel generalizing i with
  | zero =>
    rw [Nat.add_zero] at hfuel
    rw [unifyPass_end hfuel, List.drop_eq_nil_of_le hfuel]
    exact ⟨fun _ => rfl, fun hopen => absurd hopen not_endsOpen_nil⟩
  | succ fuel ih =>
    by_cases hi : i < v.length
    · have hdrop : v.drop i = v[i] :: v.drop (i + 1) := List.cons_getElem_drop_succ.symm
      obtain ⟨hclosed, hopen⟩ := ih (i := i + 1) (by omega)
      rw [unifyPass_succ hi, startsQuad_short hshort hdrop, hdrop, endsOpen_cons, not_or]
      constructor
      · intro hboth
        rw [if_neg hboth.1]
        show (unifyPass v fuel (i + 1)).map _ = _
        rw [hclosed hboth.2]
        rfl
      · intro hor
        by_cases hpre : v[i] :: v.drop (i + 1) <+: family digits v[i].dropLast
        · rw [if_pos hpre]
          rfl
        · rw [if_neg hpre]
          show (unifyPass v fuel (i + 1)).map _ = _
          rw [hopen (hor.resolve_left hpre)]
          rfl
    · rw [unifyPass_end (not_lt.mp hi), List.drop_eq_nil_of_le (not_lt.mp hi)]
      exact ⟨fun _ => rfl, fun hopen => absurd hopen not_endsOpen_nil⟩

/-! ## When a call returns -/

/-- A vector a pass gets through: at least four quadkeys, or an end that
does not begin a family. -/
def Safe (v : List Key) : Prop := 4 ≤ v.length ∨ ¬ EndsOpen v

/-- Whole passes. -/
theorem unifyPass_of_safe {v : List Key} (hsafe : Safe v) :
    unifyPass v v.length 0 = .ok (merge digits v, decide (merge digits v ≠ v)) := by
  have hfuel : v.length ≤ 0 + v.length := by omega
  by_cases hlong : 4 ≤ v.length
  · have hpass := unifyPass_long hlong hfuel
    rw [List.drop_zero] at hpass
    exact hpass
  · have hshort : v.length < 4 := not_le.mp hlong
    have hsame : merge digits v = v := merge_of_short hshort
    have hpass := (unifyPass_short hshort hfuel).1
    rw [List.drop_zero] at hpass
    rw [hpass (hsafe.resolve_left hlong), hsame]
    simp

theorem unifyPass_of_not_safe {v : List Key} (hnot : ¬ Safe v) :
    unifyPass v v.length 0 = .error .outOfRange := by
  rw [Safe, not_or, not_le, not_not] at hnot
  have hfuel : v.length ≤ 0 + v.length := by omega
  have hpass := (unifyPass_short hnot.1 hfuel).2
  rw [List.drop_zero] at hpass
  exact hpass hnot.2

/-- Every vector a pass is run on is safe. -/
def SafePasses : ℕ → List Key → Prop
  | 0, _ => True
  | passes + 1, v => Safe v ∧ (merge digits v ≠ v → SafePasses passes (merge digits v))

/-- One pass of the loop and the rest. -/
theorem unifyPasses_succ {v : List Key} (hsafe : Safe v) (passes : ℕ) :
    unifyPasses (passes + 1) v =
      if merge digits v = v then .ok v else unifyPasses passes (merge digits v) := by
  rw [unifyPasses, unifyPass_of_safe hsafe]
  by_cases hsame : merge digits v = v
  · rw [if_pos hsame, hsame]
    simp [bind, Except.bind, pure, Except.pure]
  · rw [if_neg hsame, decide_eq_true hsame]
    rfl

theorem unifyPasses_ok_iff {passes : ℕ} {v : List Key} :
    (∃ w, unifyPasses passes v = .ok w) ↔ SafePasses passes v := by
  induction passes generalizing v with
  | zero => exact iff_of_true ⟨v, rfl⟩ trivial
  | succ passes ih =>
    by_cases hsafe : Safe v
    · rw [unifyPasses_succ hsafe, SafePasses, ← ih]
      by_cases hsame : merge digits v = v
      · rw [if_pos hsame]
        exact iff_of_true ⟨v, rfl⟩ ⟨hsafe, fun hchanged => absurd hsame hchanged⟩
      · rw [if_neg hsame]
        constructor
        · intro hok
          exact ⟨hsafe, fun _ => hok⟩
        · intro hboth
          exact hboth.2 hsame
    · refine iff_of_false ?_ fun hboth => hsafe hboth.1
      intro hok
      obtain ⟨w, hw⟩ := hok
      rw [unifyPasses, unifyPass_of_not_safe hsafe] at hw
      cases hw

/-- A call returns exactly when no pass is run on one, two or three quadkeys
that end with the beginning of a family. -/
theorem unifyQuadkeys2_ok_iff (p : Platform) (ts : QuadKeyTS) (v : List Key) :
    (∃ w, unifyQuadkeys2 p ts v = .ok w) ↔
      SafePasses ts.levelOfDetail (v.insertionSort (· ≤ ·)) := by
  rw [← unifyPasses_ok_iff]
  constructor
  · intro hok
    obtain ⟨w, hw⟩ := hok
    obtain ⟨united, hunited, -⟩ := bind_eq_ok.mp hw
    exact ⟨united, hunited⟩
  · intro hok
    obtain ⟨united, hunited⟩ := hok
    exact ⟨p.sortByLength united, bind_eq_ok.mpr ⟨united, hunited, rfl⟩⟩

/-- One tile of level 16 whose quadkey ends in `0`. -/
theorem single_tile_throws :
    unifyQuadkeys2 onEquator QuadKeyTS.new [List.replicate 15 '1' ++ ['0']] =
      .error .outOfRange := by
  decide +kernel

/-! ## The canonical cover -/

/-- Passes that return go on until no family is left, or for as many levels
as there are. -/
theorem unifyPasses_stage {n : ℕ} {S : Key → Prop} {passes k : ℕ} {v w : List Key}
    (hstage : Stage digits n S k v) (hn : n ≤ k + passes) (hw : unifyPasses passes v = .ok w) :
    ∃ k', Stage digits n S k' w ∧ ∀ X, ¬ Family digits w X := by
  induction passes generalizing k v with
  | zero =>
    cases hw
    exact ⟨k, hstage, hstage.not_family_of_le hn⟩
  | succ passes ih =>
    have hsafe : Safe v := by
      by_contra hnot
      rw [unifyPasses, unifyPass_of_not_safe hnot] at hw
      cases hw
    rw [unifyPasses_succ hsafe] at hw
    split at hw
    · rename_i hsame
      cases hw
      exact ⟨k, hstage, hstage.code.not_family_of_merge_eq digits_sorted digits_ne_nil hsame⟩
    · exact ih (hstage.merge digits_sorted digits_ne_nil) (by omega) hw

/-- The sorted input is the first stage. -/
theorem stage_insertionSort {n : ℕ} {v : List Key} (hwords : ∀ x ∈ v, ∀ c ∈ x, c ∈ digits)
    (hlen : ∀ x ∈ v, x.length = n) (hnodup : v.Nodup) :
    Stage digits n (· ∈ v) 0 (v.insertionSort (· ≤ ·)) := by
  have hperm := List.perm_insertionSort (· ≤ ·) v
  have hmem : ∀ x, x ∈ v.insertionSort (· ≤ ·) ↔ x ∈ v := fun x => hperm.mem_iff
  have hsorted : (v.insertionSort (· ≤ ·)).Pairwise (· < ·) :=
    ((List.pairwise_insertionSort (· ≤ ·) v).and (hperm.nodup_iff.mpr hnodup)).imp
      fun hboth => lt_of_le_of_ne hboth.1 hboth.2
  have hstage := stage_zero digits_ne_nil (fun x hx => hwords x ((hmem x).mp hx)) hsorted
    fun x hx => hlen x ((hmem x).mp hx)
  simp only [hmem] at hstage
  exact hstage

/-- A call that returns on distinct quadkeys of one length, fewer than all of
them, computes their canonical cover: no key is a prefix of another, the same
quadkeys are covered, no family is left, so that the keys are the shortest
complete ones, shorter keys come first, and no key is empty. -/
theorem unifyQuadkeys2_canonical (p : Platform) (ts : QuadKeyTS) (n : ℕ)
    (hn : n ≤ ts.levelOfDetail) (v : List Key) (hwords : ∀ x ∈ v, ∀ c ∈ x, c ∈ digits)
    (hlen : ∀ x ∈ v, x.length = n) (hnodup : v.Nodup) (hfew : v.length < 4 ^ n) (w : List Key)
    (hw : unifyQuadkeys2 p ts v = .ok w) :
    (w.Pairwise fun x y => ¬ x <+: y ∧ ¬ y <+: x) ∧
    (∀ k, (∀ c ∈ k, c ∈ digits) → k.length = n → (Covers w k ↔ k ∈ v)) ∧
    (∀ X, ¬ Family digits w X) ∧
    (∀ x, x ∈ w ↔ ShortestComplete digits n (· ∈ v) x) ∧
    (w.Pairwise (·.length ≤ ·.length)) ∧
    [] ∉ w := by
  obtain ⟨united, hunited, hw⟩ := bind_eq_ok.mp hw
  cases hw
  have hperm := p.sortByLength_perm united
  have hmem : ∀ x, x ∈ p.sortByLength united ↔ x ∈ united := fun x => hperm.mem_iff
  obtain ⟨k, hstage, hno⟩ :=
    unifyPasses_stage (stage_insertionSort hwords hlen hnodup) (by omega) hunited
  refine ⟨?_, ?_, ?_, ?_, p.sortByLength_sorted united, ?_⟩
  · refine (hperm.pairwise_iff fun hboth => ⟨hboth.2, hboth.1⟩).mpr ?_
    refine hstage.code.sorted.imp_of_mem fun hx hy hlt => ⟨fun hpre => ?_, fun hpre => ?_⟩
    · exact hlt.ne (hstage.code.prefixFree _ hx _ hy hpre)
    · exact hlt.ne' (hstage.code.prefixFree _ hy _ hx hpre)
  · intro x hx hxn
    unfold Covers
    simp only [hmem]
    exact hstage.covers_iff x hx hxn
  · intro X hfam
    exact hno X fun d hd => (hmem _).mp (hfam d hd)
  · intro x
    rw [hmem]
    exact hstage.mem_iff_shortest hwords hno
  · -- the empty key covers all quadkeys of the length
    intro hempty
    rw [hmem] at hempty
    have hall : digits.length ^ n ≤ v.length := pow_le_length digits_sorted fun x hx hxn =>
      (hstage.covers_iff x hx hxn).mp ⟨[], hempty, List.nil_prefix⟩
    exact absurd hfew (not_lt.mpr hall)

/-- Five tiles of level 2, four of them siblings. -/
def fiveTiles : List Key :=
  [['1', '1'], ['0', '1'], ['0', '0'], ['0', '3'], ['0', '2']]

theorem unifyQuadkeys2_fiveTiles :
    (∀ x, x ∈ [['0'], ['1', '1']] ↔ ShortestComplete digits 2 (· ∈ fiveTiles) x) ∧
      [] ∉ [['0'], ['1', '1']] := by
  have hwords : ∀ x ∈ fiveTiles, ∀ c ∈ x, c ∈ digits := by simp [fiveTiles, digits]
  have hcanonical := unifyQuadkeys2_canonical onEquator QuadKeyTS.new 2 (by decide) fiveTiles
    hwords (by decide) (by decide) (by decide) [['0'], ['1', '1']] (by decide +kernel)
  exact ⟨hcanonical.2.2.2.1, hcanonical.2.2.2.2.2⟩

end SLDM.QuadKey
