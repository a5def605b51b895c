/-
SLDM.Lib.Lines — text files read line by line.

`unlines` writes each line with its line break, `getLines` is the
`while(getline(file, line))` loop: a last line without a line break is
read too, and nothing is read after the last line break.

A file cut at some byte holds a prefix of `unlines ls`
(`prefix_unlines_cons`). What such a file reads as is never longer than
`ls`, and is `ls` itself only when nothing was lost but the last line
break (`getLines_eq_or_lighter`, `getLines_prefix_eq_iff`).

Nothing in this module is about a particular program.
-/
import Mathlib.Algebra.GroupWithZero.Nat
import Mathlib.Data.List.Basic
import Mathlib.Data.List.Infix

namespace Lines

abbrev Text := List Char

/-- The lines, each followed by a line break. -/
def unlines (ls : List Text) : Text := ls.flatMap (· ++ ['\n'])

/-- The lines `getline` reads until it fails. -/
def getLines : Text → List Text
  | [] => []
  | c :: cs =>
    if c = '\n' then [] :: getLines cs
    else match getLines cs with
      | [] => [[c]]
      | line :: rest =>
        -- `cs` may start with a line break, which ends this line
        (c :: line) :: rest

@[simp] theorem unlines_nil : unlines [] = [] := rfl

@[simp] theorem unlines_cons (l : Text) (ls : List Text) :
    unlines (l :: ls) = l ++ '\n' :: unlines ls := by
  simp only [unlines, List.flatMap_cons, List.append_assoc, List.singleton_append]

theorem unlines_append (ls ms : List Text) : unlines (ls ++ ms) = unlines ls ++ unlines ms :=
  List.flatMap_append

@[simp] theorem unlines_eq_nil_iff {ls : List Text} : unlines ls = [] ↔ ls = [] := by
  cases ls <;> simp

@[simp] theorem getLines_nil : getLines [] = [] := rfl

theorem getLines_eq_nil_iff {t : Text} : getLines t = [] ↔ t = [] := by
  cases t with
  | nil => simp
  | cons c cs =>
    rw [getLines]
    refine iff_of_false ?_ (List.cons_ne_nil c cs)
    split
    · exact List.cons_ne_nil _ _
    · split <;> exact List.cons_ne_nil _ _

/-! ## Reading what was written -/

/-- A line that is ended by a line break. -/
theorem getLines_line : ∀ {l : Text}, '\n' ∉ l → ∀ t, getLines (l ++ '\n' :: t) = l :: getLines t
  | [], _, t => by simp [getLines]
  | c :: l, h, t => by
      have hc : c ≠ '\n' := fun hc => h (hc ▸ List.mem_cons_self)
      have hl : '\n' ∉ l := fun hl => h (List.mem_cons_of_mem c hl)
      rw [List.cons_append, getLines, if_neg hc, getLines_line hl t]

/-- A last line without a line break. -/
theorem getLines_last : ∀ {l : Text}, '\n' ∉ l → l ≠ [] → getLines l = [l]
  | [], _, h => absurd rfl h
  | [c], h, _ => by
      have hc : c ≠ '\n' := fun hc => h (hc ▸ List.mem_cons_self)
      rw [getLines, if_neg hc, getLines_nil]
  | c :: d :: l, h, _ => by
      have hc : c ≠ '\n' := fun hc => h (hc ▸ List.mem_cons_self)
      have hl : '\n' ∉ d :: l := fun hl => h (List.mem_cons_of_mem c hl)
      rw [getLines, if_neg hc, getLines_last hl (List.cons_ne_nil d l)]

theorem getLines_unlines_append {ls : List Text} (h : ∀ l ∈ ls, '\n' ∉ l) (t : Text) :
    getLines (unlines ls ++ t) = ls ++ getLines t := by
  induction ls with
  | nil => simp
  | cons l ls ih =>
    obtain ⟨hl, hls⟩ := List.forall_mem_cons.mp h
    rw [unlines_cons, List.append_assoc, List.cons_append, getLines_line hl, ih hls,
      List.cons_append]

/-! ## Files cut short -/

/-- Where the cut is: in the first line, or after its line break. -/
theorem prefix_unlines_cons {p l : Text} {ls : List Text} (h : p <+: unlines (l :: ls)) :
    p <+: l ∨ ∃ q, q <+: unlines ls ∧ p = l ++ '\n' :: q := by
  obtain ⟨t, ht⟩ := h
  rw [unlines_cons, List.append_eq_append_iff] at ht
  rcases ht with ⟨s, rfl, -⟩ | ⟨s, rfl, hs⟩
  · exact Or.inl (List.prefix_append p s)
  · cases s with
    | nil => exact Or.inl (by rw [List.append_nil])
    | cons c q =>
      obtain ⟨rfl, hq⟩ := List.cons.inj hs
      exact Or.inr ⟨q, ⟨t, hq.symm⟩, rfl⟩

/-- The same for a cut after the first lines. -/
theorem prefix_unlines_append {p : Text} {ls ms : List Text} (h : p <+: unlines (ls ++ ms)) :
    p <+: unlines ls ∨ ∃ q, q ≠ [] ∧ q <+: unlines ms ∧ p = unlines ls ++ q := by
  rw [unlines_append] at h
  by_cases hlen : p.length ≤ (unlines ls).length
  · exact Or.inl (List.prefix_of_prefix_length_le h (List.prefix_append _ _) hlen)
  · have hle : unlines ls <+: p :=
      List.prefix_of_prefix_length_le (List.prefix_append _ _) h (Nat.le_of_not_le hlen)
    obtain ⟨q, rfl⟩ := hle
    refine Or.inr ⟨q, ?_, (List.prefix_append_right_inj _).mp h, rfl⟩
    intro heq
    subst heq
    exact hlen (by rw [List.append_nil])

theorem not_mem_of_initial {p l : Text} (h : p <+: l) (hl : '\n' ∉ l) : '\n' ∉ p :=
  fun hp => hl (h.subset hp)

theorem length_getLines_le {ls : List Text} (h : ∀ l ∈ ls, '\n' ∉ l) {p : Text}
    (hp : p <+: unlines ls) : (getLines p).length ≤ ls.length := by
  induction ls generalizing p with
  | nil => rw [List.prefix_nil.mp hp, getLines_nil]
  | cons l ls ih =>
    obtain ⟨hl, hls⟩ := List.forall_mem_cons.mp h
    rcases prefix_unlines_cons hp with hpl | ⟨q, hq, rfl⟩
    · by_cases hnil : p = []
      · rw [hnil]
        exact Nat.zero_le _
      · rw [getLines_last (not_mem_of_initial hpl hl) hnil, List.length_singleton,
          List.length_cons]
        omega
    · rw [getLines_line hl, List.length_cons, List.length_cons]
      have hle := ih hls hq
      omega

/-- The characters of a list of lines and `c` more for each of them. -/
def weight (c : ℕ) : List Text → ℕ
  | [] => 0
  | l :: ls => l.length + c + weight c ls

@[simp] theorem weight_nil (c : ℕ) : weight c [] = 0 := rfl

@[simp] theorem weight_cons (c : ℕ) (l : Text) (ls : List Text) :
    weight c (l :: ls) = l.length + c + weight c ls := rfl

theorem weight_eq_sum (c : ℕ) (ls : List Text) : weight c ls = (ls.map (·.length + c)).sum := by
  induction ls with
  | nil => rfl
  | cons l ls ih => rw [weight_cons, ih, List.map_cons, List.sum_cons]

theorem weight_append (c : ℕ) (ls ms : List Text) :
    weight c (ls ++ ms) = weight c ls + weight c ms := by
  rw [weight_eq_sum, weight_eq_sum, weight_eq_sum, List.map_append, List.sum_append]

theorem weight_sublist (c : ℕ) {ls ms : List Text} (h : ls.Sublist ms) :
    weight c ls ≤ weight c ms := by
  induction h with
  | slnil => exact Nat.le_refl _
  | cons l _ ih => exact ih.trans (Nat.le_add_left _ _)
  | cons_cons l _ ih => exact Nat.add_le_add_left ih _

/-- A file cut short reads as what was written, or as something lighter. -/
theorem getLines_eq_or_lighter {c : ℕ} (hc : 0 < c) : ∀ {ls : List Text}, (∀ l ∈ ls, '\n' ∉ l) →
    ∀ {p}, p <+: unlines ls → getLines p = ls ∨ weight c (getLines p) < weight c ls
  | [], _, p, hp => by
      have hnil : p = [] := List.prefix_nil.mp hp
      exact Or.inl (by rw [hnil, getLines_nil])
  | l :: ls, h, p, hp => by
      obtain ⟨hl, hls⟩ := List.forall_mem_cons.mp h
      rw [weight_cons]
      rcases prefix_unlines_cons hp with hpl | ⟨q, hq, rfl⟩
      · by_cases hnil : p = []
        · right
          rw [hnil, getLines_nil, weight_nil]
          omega
        · rw [getLines_last (not_mem_of_initial hpl hl) hnil, weight_cons, weight_nil]
          have hle := hpl.length_le
          by_cases hlt : p.length < l.length
          · right; omega
          · have heq : p = l := hpl.eq_of_length (by omega)
            cases ls with
            | nil => exact Or.inl (by rw [heq])
            | cons m ls => right; rw [weight_cons, heq]; omega
      · rw [getLines_line hl, weight_cons]
        rcases getLines_eq_or_lighter hc hls hq with heq | hlt
        · exact Or.inl (by rw [heq])
        · right; omega

/-- A file cut short reads as what was written exactly when nothing is
missing, or only a line break that does not end an empty line. -/
theorem getLines_prefix_eq_iff : ∀ {ls : List Text}, (∀ l ∈ ls, '\n' ∉ l) →
    ∀ {p}, p <+: unlines ls → p ≠ [] →
      (getLines p = ls ↔ p = unlines ls ∨ p ++ ['\n'] = unlines ls ∧ p.getLast? ≠ some '\n')
  | [], _, p, hp, hne => absurd (List.prefix_nil.mp hp) hne
  | l :: ls, h, p, hp, hne => by
      obtain ⟨hl, hls⟩ := List.forall_mem_cons.mp h
      rcases prefix_unlines_cons hp with hpl | ⟨q, hq, rfl⟩
      · have hp' := not_mem_of_initial hpl hl
        have hlast : p.getLast? ≠ some '\n' := fun hlast => hp' (List.mem_of_getLast? hlast)
        rw [getLines_last hp' hne, unlines_cons]
        constructor
        · intro heq
          cases heq
          exact Or.inr ⟨by simp, hlast⟩
        · intro hor
          rcases hor with heq | ⟨heq, -⟩
          · exact absurd (heq ▸ List.mem_append_right l List.mem_cons_self) hp'
          · -- reading both sides compares the lines
            have hread := congrArg getLines heq
            rw [getLines_line hp', getLines_line hl, getLines_nil] at hread
            obtain ⟨rfl, hrest⟩ := List.cons.inj hread
            have hnil : unlines ls = [] := by
              simpa using heq.symm
            rw [unlines_eq_nil_iff.mp hnil]
      · rw [getLines_line hl, unlines_cons, List.cons_inj_right, List.append_assoc,
          List.cons_append, List.append_cancel_left_eq, List.append_cancel_left_eq,
          List.cons_inj_right, List.cons_inj_right]
        cases q with
        | nil =>
          rw [getLines_nil]
          cases ls <;> simp
        | cons d q =>
          rw [getLines_prefix_eq_iff hls hq (List.cons_ne_nil d q), List.getLast?_append_of_ne_nil _
            (List.cons_ne_nil _ _), List.getLast?_cons_cons]

end Lines
