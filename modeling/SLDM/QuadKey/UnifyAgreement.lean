/-
SLDM.QuadKey.UnifyAgreement — when `unifyQuadkeys` agrees with
`unifyQuadkeys2`.

A finished pass of `unifyQuadkeys` is a merge of the keys it does not leave
out (`SameWords.mem_raised`). As long as none is left out, it goes along
with `PrefixCover.Stage`; a key left out is lost for good, since later
passes cover less and less (`Within.covers_of_loop`). Which keys are left
out depends on the last key of the input only, and `unifyQuadkeys_agrees_iff`
gives the condition: wherever a tile beside an enclosing tile of the last
key is whole, that enclosing tile is whole as well.
-/
import SLDM.QuadKey.PairwiseUnify

namespace SLDM.QuadKey

open PrefixCover

theorem zero_mem_digits : '0' ∈ digits := by decide

/-! ## A pass as a merge -/

section Merge

variable {q v : List Key} {z : Key}

/-- No member of a whole family is left out. -/
theorem SameWords.family_kept (h : SameWords q v) (hz : z ∈ v) {X : Key} :
    Family digits (kept z v) X ↔ Family digits v X := by
  constructor
  · exact fun hfam => hfam.mono fun x hx => (mem_kept.mp hx).1
  · intro hfam d hd
    refine mem_kept.mpr ⟨hfam d hd, fun hskip => ?_⟩
    obtain ⟨hpre, hlen⟩ := skipped_iff.mp hskip
    obtain ⟨c, -, rfl⟩ := mem_family.mp (h.code.mem_family_of_prefix hfam digits_ne_nil hz hpre)
    exact hlen (by simp)

theorem SameWords.family_iff (h : SameWords q v) {X : Key} :
    Family digits q X ↔ Family digits v X := by
  unfold Family
  simp only [h.mem_iff]

theorem SameWords.code_kept (h : SameWords q v) : Code digits (kept z v) :=
  h.code.sublist List.filter_sublist

/-- What a pass writes are the words of the merge. -/
theorem SameWords.mem_raised (h : SameWords q v) (hz : z ∈ v) {x : Key} :
    x ∈ (kept z q).map (raised q) ↔ x ∈ merge digits (kept z v) := by
  rw [h.code_kept.mem_merge_iff digits_sorted digits_ne_nil, List.mem_map, h.family_kept hz]
  constructor
  · rintro ⟨key, hkey, rfl⟩
    obtain ⟨hmem, hskip⟩ := mem_kept.mp hkey
    unfold raised
    rw [h.mem_iff] at hmem
    by_cases hfam : Family digits q key.dropLast
    · rw [if_pos hfam]
      exact Or.inr (h.family_iff.mp hfam)
    · rw [if_neg hfam]
      refine Or.inl ⟨mem_kept.mpr ⟨hmem, hskip⟩, fun X d heq hX => hfam ?_⟩
      rw [heq, List.dropLast_concat, h.family_iff]
      exact (h.family_kept hz).mp hX
  · rintro (⟨hx, halone⟩ | hfam)
    · obtain ⟨hmem, hskip⟩ := mem_kept.mp hx
      rw [← h.mem_iff] at hmem
      refine ⟨x, mem_kept.mpr ⟨hmem, hskip⟩, ?_⟩
      obtain ⟨X, own, rfl, -⟩ := h.exists_concat hmem
      refine if_neg fun hfam => halone X own rfl ?_
      rw [List.dropLast_concat, h.family_iff] at hfam
      exact (h.family_kept hz).mpr hfam
    · have hfirst := (h.family_kept hz).mpr hfam '0' (by decide)
      obtain ⟨hmem, hskip⟩ := mem_kept.mp hfirst
      refine ⟨x ++ ['0'], mem_kept.mpr ⟨(h.mem_iff _).mpr hmem, hskip⟩, ?_⟩
      unfold raised
      rw [List.dropLast_concat, if_pos (h.family_iff.mpr hfam)]

end Merge

/-! ## Nothing is gained -/

/-- A key of the length of the input. -/
def IsTile (n : ℕ) (k : Key) : Prop := (∀ c ∈ k, c ∈ digits) ∧ k.length = n

/-- The vector covers tiles of the set `S` only. -/
structure Within (n : ℕ) (S : Key → Prop) (q v : List Key) : Prop where
  code : Code digits v
  mem_iff : ∀ x, x ∈ q ↔ x ∈ v
  length_le : ∀ x ∈ v, x.length ≤ n
  covers : ∀ k, IsTile n k → Covers v k → S k

section Within

variable {n : ℕ} {S : Key → Prop} {q v w : List Key} {z : Key}

/-- A tile outside the set keeps the empty key out. -/
theorem Within.sameWords (h : Within n S q v) (hfew : ∃ k, IsTile n k ∧ ¬ S k) : SameWords q v where
  code := h.code
  mem_iff := h.mem_iff
  nil_not_mem := by
    intro hnil
    obtain ⟨k, hk, hnot⟩ := hfew
    exact hnot (h.covers k hk ⟨[], hnil, List.nil_prefix⟩)

theorem covers_kept {k : Key} (h : Covers (kept z v) k) : Covers v k := by
  obtain ⟨x, hx, hpre⟩ := h
  exact ⟨x, (mem_kept.mp hx).1, hpre⟩

theorem Within.covers_merge (h : Within n S q v) {k : Key} (hk : IsTile n k) :
    Covers (merge digits (kept z v)) k ↔ Covers (kept z v) k :=
  (h.code.sublist List.filter_sublist).covers_merge_iff digits_sorted digits_ne_nil hk.1
    fun x hx => (h.length_le x (mem_kept.mp hx).1).trans hk.2.ge

/-- A finished pass. -/
theorem Within.pass (h : Within n S q v) (hfew : ∃ k, IsTile n k ∧ ¬ S k)
    (hz : q.getLast? = some z) :
    Within n S ((kept z q).map (raised q)) (merge digits (kept z v)) where
  code := (h.sameWords hfew).code_kept.code_merge digits_sorted digits_ne_nil
  mem_iff := fun _ =>
    (h.sameWords hfew).mem_raised ((h.mem_iff z).mp (List.mem_of_getLast? hz))
  length_le := by
    intro x hx
    rcases (h.sameWords hfew).code_kept.mem_or_family digits_sorted digits_ne_nil hx with
      hmem | hfam
    · exact h.length_le x (mem_kept.mp hmem).1
    · have hchild := h.length_le _ (mem_kept.mp (hfam '0' (by decide))).1
      rw [List.length_append] at hchild
      exact Nat.le_of_add_right_le hchild
  covers := fun k hk hcover => h.covers k hk (covers_kept ((h.covers_merge hk).mp hcover))

theorem covers_congr (h : ∀ x, x ∈ q ↔ x ∈ v) (k : Key) : Covers q k ↔ Covers v k := by
  unfold Covers
  simp only [h]

/-- One pass of the loop and the rest. -/
theorem SameWords.loop_cases (h : SameWords q v) {fuel turns : ℕ}
    (hw : unifyLoop fuel (turns + 1) q [] = some (.ok w)) :
    ∃ (z : Key) (pass : Pass), q.getLast? = some z ∧ pass.vf = (kept z q).map (raised q) ∧
      (pass.loop = true ↔ ∃ key ∈ kept z q, Family digits q key.dropLast) ∧
      (if pass.loop then unifyLoop fuel turns pass.vf [] = some (.ok w) else w = pass.vf) := by
  rw [unifyLoop] at hw
  split at hw
  · cases hw
  · rename_i hnonempty
    rw [List.isEmpty_iff] at hnonempty
    obtain ⟨pass, hrows, hw⟩ := Option.bind_eq_some_iff.mp hw
    have hz := List.getLast?_eq_some_getLast hnonempty
    obtain ⟨hvf, hloop, hvk⟩ := h.unifyRows_some hz List.drop_zero (by simp) hrows
    refine ⟨_, pass, hz, by rw [hvf, List.nil_append], by rw [hloop]; simp, ?_⟩
    rw [hvk hnonempty] at hw
    cases hmore : pass.loop with
    | true =>
      rw [hmore] at hw
      exact hw
    | false =>
      rw [hmore] at hw
      cases hw
      rfl

/-- The result covers no more than the vector. -/
theorem Within.covers_of_loop (h : Within n S q v) (hfew : ∃ k, IsTile n k ∧ ¬ S k)
    {fuel turns : ℕ} (hw : unifyLoop fuel turns q [] = some (.ok w)) {k : Key} (hk : IsTile n k)
    (hcover : Covers w k) : Covers q k := by
  induction turns generalizing q v with
  | zero => cases hw
  | succ turns ih =>
    obtain ⟨z, pass, hz, hvf, -, hrest⟩ := (h.sameWords hfew).loop_cases hw
    have hpass := h.pass hfew hz
    have hvfcover : Covers pass.vf k → Covers q k := by
      intro hafter
      rw [hvf, covers_congr hpass.mem_iff, h.covers_merge hk] at hafter
      exact (covers_congr h.mem_iff k).mpr (covers_kept hafter)
    split at hrest
    · exact hvfcover (ih (by rw [hvf]; exact hpass) hrest)
    · rw [hrest] at hcover
      exact hvfcover hcover

/-- A key that a pass leaves out is lost. -/
theorem Within.not_covers_kept (h : Within n S q v) {x k : Key} (hx : x ∈ v)
    (hskip : Skipped z x) (hpre : x <+: k) : ¬ Covers (kept z v) k := by
  rintro ⟨y, hy, hyk⟩
  obtain ⟨hmem, hnot⟩ := mem_kept.mp hy
  rcases List.prefix_or_prefix_of_prefix hpre hyk with hxy | hyx
  · rw [h.code.prefixFree x hx y hmem hxy] at hskip
    exact hnot hskip
  · rw [← h.code.prefixFree y hmem x hx hyx] at hskip
    exact hnot hskip

end Within

/-! ## The condition -/

theorem within_of_stage {n passes : ℕ} {S : Key → Prop} {q v : List Key}
    (h : Stage digits n S passes v) (hmem : ∀ x, x ∈ q ↔ x ∈ v) : Within n S q v where
  code := h.code
  mem_iff := hmem
  length_le := h.length_le
  covers := fun k hk => (h.covers_iff k hk.1 hk.2).mp

/-- Wherever a tile that has its parent in common with an enclosing tile of
`z` is whole, that enclosing tile is whole. -/
def LastWhole (n : ℕ) (S : Key → Prop) (z : Key) : Prop :=
  ∀ level < n, ∀ d ∈ digits, Complete digits n S (z.take level ++ [d]) →
    Complete digits n S (z.take (level + 1))

section Runs

variable {n : ℕ} {S : Key → Prop} {q v w : List Key} {z z₀ : Key}

/-- When no family is left and no key is left out, the condition holds. -/
theorem lastWhole_of_end {passes : ℕ} (h : Stage digits n S passes v)
    (hS : ∀ x, S x → IsTile n x) (hno : ∀ X, ¬ Family digits v X) (hz : z ∈ v)
    (hz₀ : z <+: z₀) (htile : IsTile n z₀) (hskip : ∀ x ∈ v, ¬ Skipped z x) :
    LastWhole n S z₀ := by
  intro level hlevel d hd hbeside
  by_contra hnot
  have hlong : level + 1 < z.length := by
    by_contra hshort
    refine hnot ((h.complete hz).mono (List.prefix_take_iff.mpr ⟨hz₀, by omega⟩) ?_ ?_)
    · exact fun c hc => htile.1 c (List.take_subset _ _ hc)
    · rw [List.length_take]
      omega
  have hlen : (z₀.take level ++ [d]).length = level + 1 := by
    have hn := htile.2
    simp only [List.length_append, List.length_take, List.length_singleton]
    omega
  rcases complete_cases (fun k hkn hk => (h.covers_iff k (hS k hk).1 hkn).mpr hk)
    (n - (level + 1)) (by omega) hbeside with ⟨x, hx, hpre⟩ | ⟨X, -, hfam⟩
  · have hle := hpre.length_le
    refine hskip x hx ⟨?_, by omega⟩
    have hparent : x.dropLast <+: z₀.take level := by
      rcases List.prefix_concat_iff.mp hpre with rfl | hpre
      · rw [List.dropLast_concat]
      · exact (List.dropLast_prefix x).trans hpre
    refine List.prefix_of_prefix_length_le (hparent.trans (List.take_prefix level z₀)) hz₀ ?_
    rw [List.length_dropLast]
    omega
  · exact hno X hfam

theorem raised_isPrefixOf (q : List Key) (key : Key) : raised q key <+: key := by
  unfold raised
  split
  · exact List.dropLast_prefix key
  · exact List.prefix_refl key

theorem kept_eq_self (hskip : ∀ x ∈ v, ¬ Skipped z x) : kept z v = v :=
  List.filter_eq_self.mpr (by simpa using hskip)

/-- The last key of the next pass. -/
theorem getLast_raised (hskip : ∀ x ∈ q, ¬ Skipped z x) (hz : q.getLast? = some z) :
    ((kept z q).map (raised q)).getLast? = some (raised q z) := by
  rw [kept_eq_self hskip, List.getLast?_map, hz]
  rfl

/-- A run that returns and covers all tiles has left out no key. -/
theorem lastWhole_of_loop {passes fuel turns : ℕ} (h : Stage digits n S passes v)
    (hmem : ∀ x, x ∈ q ↔ x ∈ v) (hfew : ∃ k, IsTile n k ∧ ¬ S k) (hS : ∀ x, S x → IsTile n x)
    (hz : q.getLast? = some z) (hz₀ : z <+: z₀) (htile : IsTile n z₀)
    (hw : unifyLoop fuel turns q [] = some (.ok w)) (hcovers : ∀ k, S k → Covers w k) :
    LastWhole n S z₀ := by
  induction turns generalizing passes q v z with
  | zero => cases hw
  | succ turns ih =>
    have hwithin := within_of_stage h hmem
    have hsame := hwithin.sameWords hfew
    obtain ⟨z', pass, hz', hvf, hloop, hrest⟩ := hsame.loop_cases hw
    obtain rfl : z = z' := Option.some.inj (hz.symm.trans hz')
    have hzv := (hmem z).mp (List.mem_of_getLast? hz)
    have hpass := hwithin.pass hfew hz
    have hskip : ∀ x ∈ v, ¬ Skipped z x := by
      intro x hx hskip
      obtain ⟨k, hpre, hSk⟩ := (h.complete hx).exists_word zero_mem_digits
      have hk := hS k hSk
      have hafter : Covers pass.vf k := by
        split at hrest
        · rw [← hvf] at hpass
          exact hpass.covers_of_loop hfew hrest hk (hcovers k hSk)
        · rw [← hrest]
          exact hcovers k hSk
      rw [hvf, covers_congr hpass.mem_iff, hwithin.covers_merge hk] at hafter
      exact hwithin.not_covers_kept hx hskip hpre hafter
    split at hrest
    · rw [kept_eq_self hskip] at hpass
      rw [hvf] at hrest
      exact ih (h.merge digits_sorted digits_ne_nil) hpass.mem_iff
        (getLast_raised (fun x hx => hskip x ((hmem x).mp hx)) hz)
        ((raised_isPrefixOf q z).trans hz₀) hrest
    · rename_i hdone
      refine lastWhole_of_end h hS (fun X hfam => hdone (hloop.mpr ?_)) hzv hz₀ htile hskip
      have hmember := hfam '0' (by decide)
      refine ⟨X ++ ['0'], mem_kept.mpr ⟨(hmem _).mpr hmember, hskip _ hmember⟩, ?_⟩
      rw [List.dropLast_concat]
      exact hsame.family_iff.mpr hfam

/-- Under the condition no key is left out. -/
theorem not_skipped_of_lastWhole {passes : ℕ} (h : Stage digits n S passes v)
    (hS : ∀ x, S x → IsTile n x) (hlow : ∀ x ∈ v, n ≤ x.length + passes) (hnil : [] ∉ v)
    (hz : z ∈ v) (hz₀ : z <+: z₀) (hwhole : LastWhole n S z₀) : ∀ x ∈ v, ¬ Skipped z x := by
  intro x hx hskip
  rcases List.eq_nil_or_concat' x with rfl | ⟨X, own, rfl⟩
  · exact hnil hx
  · obtain ⟨hpre, hlen⟩ := skipped_iff.mp hskip
    have hlong : X.length + 1 < z.length := by
      by_contra hshort
      have hXz : X = z := hpre.eq_of_length_le (by omega)
      rw [← hXz] at hz
      have heq := h.code.prefixFree X hz _ hx (List.prefix_append X [own])
      exact absurd (congrArg List.length heq) (by simp)
    have hle := h.length_le _ hx
    have hbound := hlow _ hx
    rw [List.length_append, List.length_singleton] at hle hbound
    have hX : z₀.take X.length = X := (List.prefix_iff_eq_take.mp (hpre.trans hz₀)).symm
    have hbeside := hwhole X.length (by omega) own (h.code.words _ hx own (by simp))
    rw [hX] at hbeside
    -- the enclosing tile is whole, but `z` lies properly below it
    have habove : z₀.take (X.length + 1) <+: z :=
      List.prefix_of_prefix_length_le (List.take_prefix _ z₀) hz₀ (by rw [List.length_take]; omega)
    have hlen₀ := hz₀.length_le
    have htake : (z₀.take (X.length + 1)).length = X.length + 1 := by
      rw [List.length_take]
      omega
    rcases complete_cases (fun k hkn hk => (h.covers_iff k (hS k hk).1 hkn).mpr hk)
      (n - (X.length + 1)) (by omega) (hbeside (h.complete hx)) with ⟨u, hu, hupre⟩ | ⟨Y, hY, hfam⟩
    · have heq := h.code.prefixFree u hu z hz (hupre.trans habove)
      have hshort := hupre.length_le
      rw [heq] at hshort
      omega
    · have hfamily := h.family_length Y hfam
      have hdeep := hY.length_le
      omega

/-- Under the condition a run returns and covers the set. -/
theorem loop_of_lastWhole {passes fuel turns : ℕ} (h : Stage digits n S passes v)
    (hmem : ∀ x, x ∈ q ↔ x ∈ v) (hfew : ∃ k, IsTile n k ∧ ¬ S k) (hS : ∀ x, S x → IsTile n x)
    (hlow : ∀ x ∈ v, n ≤ x.length + passes) (hz : q.getLast? = some z) (hz₀ : z <+: z₀)
    (hwhole : LastWhole n S z₀) (hfuel : q.length < fuel) (hpasses : passes ≤ n)
    (hturns : n < passes + turns) :
    ∃ w, unifyLoop fuel turns q [] = some (.ok w) ∧ ∀ k, IsTile n k → (Covers w k ↔ S k) := by
  induction turns generalizing passes q v z with
  | zero => omega
  | succ turns ih =>
    have hwithin := within_of_stage h hmem
    have hsame := hwithin.sameWords hfew
    have hzv := (hmem z).mp (List.mem_of_getLast? hz)
    have hskip := not_skipped_of_lastWhole h hS hlow hsame.nil_not_mem hzv hz₀ hwhole
    have hskip' : ∀ x ∈ q, ¬ Skipped z x := fun x hx => hskip x ((hmem x).mp hx)
    have hmerge := h.merge digits_sorted digits_ne_nil
    have hpass := hwithin.pass hfew hz
    rw [kept_eq_self hskip] at hpass
    obtain ⟨pass, hrows⟩ : ∃ pass, unifyRows fuel q 0 q ⟨[], false, []⟩ = some pass :=
      hsame.unifyRows_ok hz hskip' hfuel List.drop_zero rfl
    obtain ⟨hvf, hloop, hvk⟩ := hsame.unifyRows_some hz List.drop_zero (by simp) hrows
    have hne : q ≠ [] := List.ne_nil_of_mem (List.mem_of_getLast? hz)
    rw [List.nil_append] at hvf
    rw [unifyLoop, if_neg (by rw [List.isEmpty_iff]; exact hne), hrows, Option.bind_some]
    cases hmore : pass.loop with
    | true =>
      obtain ⟨key, hkey, hfam⟩ := (hloop.mp hmore).resolve_left Bool.false_ne_true
      have hlevel := h.family_length _ (hsame.family_iff.mp hfam)
      rw [if_pos rfl, hvk hne, hvf]
      refine ih hmerge hpass.mem_iff (h.le_length_merge digits_sorted digits_ne_nil hlow)
        (getLast_raised hskip' hz) ((raised_isPrefixOf q z).trans hz₀) ?_ (by omega) (by omega)
      rw [kept_eq_self hskip', List.length_map]
      exact hfuel
    | false =>
      rw [if_neg Bool.false_ne_true, hvf]
      refine ⟨_, rfl, fun k hk => ?_⟩
      rw [covers_congr hpass.mem_iff]
      exact hmerge.covers_iff k hk.1 hk.2

end Runs

/-! ## Both functions -/

/-- Fewer keys than tiles leave a tile out. -/
theorem exists_tile_not_mem {n : ℕ} {v : List Key} (hfew : v.length < 4 ^ n) :
    ∃ k, IsTile n k ∧ k ∉ v := by
  by_contra hno
  have hall : digits.length ^ n ≤ v.length := by
    refine pow_le_length digits_sorted fun k hk hkn => ?_
    by_contra hk'
    exact hno ⟨k, ⟨hk, hkn⟩, hk'⟩
  exact absurd hfew (not_lt.mpr hall)

theorem stage_of_tiles {n : ℕ} {v : List Key} (htiles : ∀ x ∈ v, IsTile n x) (hnodup : v.Nodup) :
    Stage digits n (· ∈ v) 0 (v.insertionSort (· ≤ ·)) :=
  stage_insertionSort (fun x hx => (htiles x hx).1) (fun x hx => (htiles x hx).2) hnodup

/-- What `unifyQuadkeys2` returns covers its input. -/
theorem covers_unifyQuadkeys2 {p : Platform} {ts : QuadKeyTS} {n : ℕ} (hn : n ≤ ts.levelOfDetail)
    {v w : List Key} (htiles : ∀ x ∈ v, IsTile n x) (hnodup : v.Nodup)
    (hw : unifyQuadkeys2 p ts v = .ok w) {k : Key} (hk : IsTile n k) : Covers w k ↔ k ∈ v := by
  obtain ⟨united, hunited, hw⟩ := bind_eq_ok.mp hw
  cases hw
  obtain ⟨passes, hend, -⟩ :=
    unifyPasses_stage (stage_of_tiles htiles hnodup) (by omega) hunited
  rw [covers_congr fun x => (p.sortByLength_perm united).mem_iff]
  exact hend.covers_iff k hk.1 hk.2

/-- The sorted input has the tiles of the input. -/
theorem mem_insertionSort (v : List Key) (x : Key) : x ∈ v ↔ x ∈ v.insertionSort (· ≤ ·) :=
  (List.perm_insertionSort (· ≤ ·) v).mem_iff.symm

/-- A call that returns and loses no tile. -/
theorem lastWhole_of_unifyQuadkeys {n fuel : ℕ} {v w : List Key} (htiles : ∀ x ∈ v, IsTile n x)
    (hnodup : v.Nodup) (hfew : v.length < 4 ^ n) (hw : unifyQuadkeys fuel v = some (.ok w))
    (hcovers : ∀ k ∈ v, Covers w k) : ∀ z ∈ v.getLast?, LastWhole n (· ∈ v) z := by
  intro z hz
  obtain ⟨united, hunited, hw⟩ := Option.map_eq_some_iff.mp hw
  cases united with
  | error e => cases hw
  | ok united =>
    cases hw
    refine lastWhole_of_loop (stage_of_tiles htiles hnodup) (mem_insertionSort v)
      (exists_tile_not_mem hfew) htiles hz (List.prefix_refl z)
      (htiles z (List.mem_of_getLast? hz)) hunited fun k hk => ?_
    exact (covers_congr (fun _ => mem_removeDuplicates) k).mp (hcovers k hk)

/-- Under the condition a call returns a cover of the input. -/
theorem unifyQuadkeys_of_lastWhole {n : ℕ} {v : List Key} (hne : v ≠ [])
    (htiles : ∀ x ∈ v, IsTile n x) (hnodup : v.Nodup) (hfew : v.length < 4 ^ n)
    (hwhole : ∀ z ∈ v.getLast?, LastWhole n (· ∈ v) z) :
    ∃ fuel w, unifyQuadkeys fuel v = some (.ok w) ∧ ∀ k, IsTile n k → (Covers w k ↔ k ∈ v) := by
  have hz := List.getLast?_eq_some_getLast hne
  have hlow : ∀ x ∈ v.insertionSort (· ≤ ·), n ≤ x.length + 0 := by
    intro x hx
    rw [(htiles x ((mem_insertionSort v x).mpr hx)).2, Nat.add_zero]
  obtain ⟨w, hw, hcovers⟩ : ∃ w, unifyLoop (v.length + n + 1) (v.length + n + 1) v [] =
      some (.ok w) ∧ ∀ k, IsTile n k → (Covers w k ↔ k ∈ v) :=
    loop_of_lastWhole (stage_of_tiles htiles hnodup) (mem_insertionSort v)
      (exists_tile_not_mem hfew) htiles hlow hz (List.prefix_refl _) (hwhole _ hz) (by omega)
      (Nat.zero_le n) (by omega)
  refine ⟨v.length + n + 1, removeDuplicates w, by rw [unifyQuadkeys, hw]; rfl, fun k hk => ?_⟩
  rw [covers_congr fun _ => mem_removeDuplicates]
  exact hcovers k hk

/-- The two functions agree, and no tile is lost, when and only when the
condition holds for the last key. -/
theorem unifyQuadkeys_agrees_iff (p : Platform) (ts : QuadKeyTS) (n : ℕ)
    (hn : n ≤ ts.levelOfDetail) (v : List Key) (hne : v ≠ []) (htiles : ∀ x ∈ v, IsTile n x)
    (hnodup : v.Nodup) (hfew : v.length < 4 ^ n) (w₂ : List Key)
    (hw₂ : unifyQuadkeys2 p ts v = .ok w₂) :
    (∃ fuel w, unifyQuadkeys fuel v = some (.ok w) ∧
      (∀ k, IsTile n k → (Covers w k ↔ Covers w₂ k)) ∧ ∀ k ∈ v, Covers w k) ↔
      ∀ z ∈ v.getLast?, LastWhole n (· ∈ v) z := by
  constructor
  · rintro ⟨fuel, w, hw, -, hcovers⟩
    exact lastWhole_of_unifyQuadkeys htiles hnodup hfew hw hcovers
  · intro hwhole
    obtain ⟨fuel, w, hw, hcovers⟩ := unifyQuadkeys_of_lastWhole hne htiles hnodup hfew hwhole
    refine ⟨fuel, w, hw, fun k hk => ?_, fun k hk => (hcovers k (htiles k hk)).mpr hk⟩
    rw [hcovers k hk, covers_unifyQuadkeys2 hn htiles hnodup hw₂ hk]

/-- Four siblings, and last a tile beside their parent. -/
def lastBeside : List Key :=
  [['0', '0'], ['0', '1'], ['0', '2'], ['0', '3'], ['1', '1']]

theorem isTile_lastBeside : ∀ x ∈ lastBeside, IsTile 2 x := by
  simp [lastBeside, IsTile, digits]

theorem unifyQuadkeys_agrees_iff_lastBeside :
    (∃ fuel w, unifyQuadkeys fuel lastBeside = some (.ok w) ∧
      (∀ k, IsTile 2 k → (Covers w k ↔ Covers [['0'], ['1', '1']] k)) ∧
      ∀ k ∈ lastBeside, Covers w k) ↔
      ∀ z ∈ lastBeside.getLast?, LastWhole 2 (· ∈ lastBeside) z :=
  unifyQuadkeys_agrees_iff onEquator QuadKeyTS.new 2 (by decide) lastBeside (by decide)
    isTile_lastBeside (by decide) (by decide) [['0'], ['1', '1']] (by decide +kernel)

/-- The second pass leaves out the four copies of the parent: the last key
has another length and the empty key as common prefix. -/
theorem unifyQuadkeys_lastBeside :
    (∀ x ∈ lastBeside, IsTile 2 x) ∧ lastBeside.Nodup ∧ lastBeside.length < 4 ^ 2 ∧
    unifyQuadkeys2 onEquator QuadKeyTS.new lastBeside = .ok [['0'], ['1', '1']] ∧
    unifyQuadkeys 4 lastBeside = some (.ok [['1', '1']]) ∧
    ¬ ∃ fuel w, unifyQuadkeys fuel lastBeside = some (.ok w) ∧
      (∀ k, IsTile 2 k → (Covers w k ↔ Covers [['0'], ['1', '1']] k)) ∧
      ∀ k ∈ lastBeside, Covers w k := by
  refine ⟨isTile_lastBeside, by decide, by decide, by decide +kernel, by decide +kernel, ?_⟩
  rintro ⟨fuel, w, hw, -, hcovers⟩
  have hwhole := lastWhole_of_unifyQuadkeys isTile_lastBeside (by decide) (by decide) hw hcovers
    ['1', '1'] rfl 0 (by decide) '0' (by decide)
  have hbeside : Complete digits 2 (· ∈ lastBeside) ['0'] := by
    refine ⟨by simp [digits], by decide, ?_⟩
    rintro k hk hlen ⟨s, rfl⟩
    obtain ⟨d, rfl⟩ := List.length_eq_one_iff.mp (show s.length = 1 by simpa using hlen)
    have hall : ∀ d ∈ digits, ['0'] ++ [d] ∈ lastBeside := by simp [digits, lastBeside]
    exact hall d (hk d (by simp))
  have hmem := (hwhole hbeside).2.2 ['1', '0'] (by simp [digits]) rfl (by decide)
  revert hmem
  decide

end SLDM.QuadKey
