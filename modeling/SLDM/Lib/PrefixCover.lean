/-
SLDM.Lib.PrefixCover — sets of words that cover the words of one length.

A word covers the words it is a prefix of. Over an alphabet `D` the words
`X ++ [d]` for `d ∈ D` are the family of `X`, and together cover what `X`
covers, so a family may be replaced by its parent. `merge D v` does so in
one pass over a list that is sorted lexicographically.

§1 Order      — words between two with a common prefix have it too
                (`prefix_of_between`); a smaller word that is not a prefix
                stays smaller when the other is cut (`lt_of_lt_append`).
§2 Families   — in a sorted prefix-free list (`Code`) a family stands
                together, in the order of the alphabet (`family_prefix`).
§3 Merging    — `mem_merge_iff` says which words a pass leaves; the result
                is again such a list and covers the same words.
§4 Covers     — a prefix-free list without a whole family consists of the
                shortest complete words of what it covers
                (`mem_iff_shortest`).
§5 Passes     — starting from words of one length, the `k`-th pass makes all
                families of its level, so as many passes as there are levels
                leave none (`Stage`).

Nothing in this module is about a particular program.
-/
import Mathlib.Algebra.GroupWithZero.Nat
import Mathlib.Data.List.Lex
import Mathlib.Data.List.Nodup
import Mathlib.Data.List.Perm.Subperm
import Mathlib.Order.Lattice

namespace PrefixCover

variable {α : Type*} [LinearOrder α]

/-! ## §1 Order -/

/-- A word between two extensions of `p` is an extension of `p`. -/
theorem prefix_of_between : ∀ {p x y z : List α}, p ++ x < z → z < p ++ y → p <+: z
  | [], _, _, z, _, _ => List.nil_prefix
  | a :: p, x, y, [], h, _ => absurd h (List.not_lt_nil _)
  | a :: p, x, y, c :: z, h, h' => by
      rw [List.cons_append, List.cons_lt_cons_iff] at h h'
      have heq : a = c := by
        rcases h with hlt | ⟨heq, -⟩
        · rcases h' with hlt' | ⟨heq', -⟩
          · exact absurd hlt (lt_asymm hlt')
          · exact heq'.symm
        · exact heq
      subst heq
      rw [List.cons_prefix_cons]
      have hx : p ++ x < z := by
        rcases h with hlt | ⟨-, hx⟩
        · exact absurd hlt (lt_irrefl a)
        · exact hx
      have hy : z < p ++ y := by
        rcases h' with hlt | ⟨-, hy⟩
        · exact absurd hlt (lt_irrefl a)
        · exact hy
      exact ⟨rfl, prefix_of_between hx hy⟩

/-- A word that is neither a prefix nor an extension of `p`, and before an
extension of `p`, is before `p`. -/
theorem lt_of_lt_append : ∀ {z p x : List α}, z < p ++ x → ¬ z <+: p → ¬ p <+: z → z < p
  | [], _, _, _, hnot, _ => absurd List.nil_prefix hnot
  | _ :: _, [], _, _, _, hnot => absurd List.nil_prefix hnot
  | c :: z, a :: p, x, h, hnot, hnot' => by
      rw [List.cons_append, List.cons_lt_cons_iff] at h
      rw [List.cons_prefix_cons] at hnot hnot'
      rw [List.cons_lt_cons_iff]
      rcases h with hlt | ⟨rfl, hlt⟩
      · exact Or.inl hlt
      · exact Or.inr ⟨rfl, lt_of_lt_append hlt (fun hp => hnot ⟨rfl, hp⟩)
          fun hp => hnot' ⟨rfl, hp⟩⟩

theorem lt_append_singleton : ∀ (p : List α) (d : α), p < p ++ [d]
  | [], d => List.nil_lt_cons d []
  | a :: p, d => by
      rw [List.cons_append, List.cons_lt_cons_iff]
      exact Or.inr ⟨rfl, lt_append_singleton p d⟩

theorem append_singleton_lt : ∀ {p : List α} {c d : α}, p ++ [c] < p ++ [d] ↔ c < d
  | [], c, d => by simp [List.cons_lt_cons_iff]
  | a :: p, c, d => by
      rw [List.cons_append, List.cons_append, List.cons_lt_cons_iff, append_singleton_lt]
      simp

/-- A part of a sorted list that leaves out nothing in between and contains
the head stands at the head. -/
theorem prefix_of_convex {β : Type*} [LinearOrder β] {s : β} {part : List β} :
    ∀ {v : List β}, (s :: part).Pairwise (· < ·) → v.Pairwise (· < ·) → (s :: part) ⊆ v →
      (∀ z ∈ v, ∀ x ∈ s :: part, ∀ y ∈ s :: part, x < z → z < y → z ∈ s :: part) →
      (∀ a ∈ v.head?, a ∈ s :: part) → s :: part <+: v := by
  induction part generalizing s with
  | nil =>
    intro v _ _ hsub _ hhead
    cases v with
    | nil => exact absurd (hsub List.mem_cons_self) List.not_mem_nil
    | cons a t =>
      rw [List.mem_singleton.mp (hhead a rfl)]
      exact List.prefix_append [s] t
  | cons s' part ih =>
    intro v hpart hv hsub hconvex hhead
    cases v with
    | nil => exact absurd (hsub List.mem_cons_self) List.not_mem_nil
    | cons a t =>
      rw [List.pairwise_cons] at hpart hv
      have hfirst : a = s := by
        rcases List.mem_cons.mp (hsub List.mem_cons_self) with heq | hmem
        · exact heq.symm
        · rcases List.mem_cons.mp (hhead a rfl) with heq | hmem'
          · exact heq
          · exact absurd (hv.1 s hmem) (lt_asymm (hpart.1 a hmem'))
      subst hfirst
      have hrest : s' :: part ⊆ t := by
        intro x hx
        rcases List.mem_cons.mp (hsub (List.mem_cons_of_mem _ hx)) with rfl | hmem
        · exact absurd (hpart.1 x hx) (lt_irrefl x)
        · exact hmem
      rw [List.cons_prefix_cons]
      refine ⟨rfl, ih hpart.2 hv.2 hrest ?_ ?_⟩
      · intro z hz x hx y hy hxz hzy
        rcases List.mem_cons.mp (hconvex z (List.mem_cons_of_mem _ hz) x
          (List.mem_cons_of_mem _ hx) y (List.mem_cons_of_mem _ hy) hxz hzy) with rfl | hmem
        · exact absurd (hv.1 z hz) (lt_irrefl z)
        · exact hmem
      · -- the next element lies between `a` and `s'`, or is `s'` itself
        intro b hb
        have hbt : b ∈ t := List.mem_of_mem_head? hb
        rcases lt_trichotomy b s' with hlt | rfl | hgt
        · rcases List.mem_cons.mp (hconvex b (List.mem_cons_of_mem _ hbt) a List.mem_cons_self s'
            (List.mem_cons_of_mem _ List.mem_cons_self) (hv.1 b hbt) hlt) with rfl | hmem
          · exact absurd (hv.1 b hbt) (lt_irrefl b)
          · exact hmem
        · exact List.mem_cons_self
        · rw [List.eq_cons_of_mem_head? hb] at hrest hv
          rcases List.mem_cons.mp (hrest List.mem_cons_self) with rfl | hmem
          · exact absurd hgt (lt_irrefl s')
          · exact absurd ((List.pairwise_cons.mp hv.2).1 s' hmem) (lt_asymm hgt)

/-! ## §2 Families -/

/-- The family of `X`: its extensions by one letter, in order. -/
def family (D : List α) (X : List α) : List (List α) := D.map fun d => X ++ [d]

/-- The whole family of `X` is there. -/
def Family (D : List α) (v : List (List α)) (X : List α) : Prop := ∀ d ∈ D, X ++ [d] ∈ v

/-- A sorted prefix-free list of words. -/
structure Code (D : List α) (v : List (List α)) : Prop where
  words : ∀ x ∈ v, ∀ c ∈ x, c ∈ D
  sorted : v.Pairwise (· < ·)
  prefixFree : ∀ x ∈ v, ∀ y ∈ v, x <+: y → x = y

variable {D : List α} {v : List (List α)} {X : List α}

omit [LinearOrder α] in
theorem mem_family {x : List α} : x ∈ family D X ↔ ∃ d ∈ D, X ++ [d] = x := List.mem_map

theorem Code.sublist {w : List (List α)} (h : Code D v) (hw : w.Sublist v) : Code D w where
  words := fun x hx => h.words x (hw.subset hx)
  sorted := h.sorted.sublist hw
  prefixFree := fun x hx y hy => h.prefixFree x (hw.subset hx) y (hw.subset hy)

omit [LinearOrder α] in
theorem Family.mono {w : List (List α)} (h : Family D v X) (hsub : v ⊆ w) : Family D w X :=
  fun d hd => hsub (h d hd)

/-- The only words below the parent of a whole family are the family. -/
theorem Code.mem_family_of_prefix (h : Code D v) (hfam : Family D v X) (hD : D ≠ []) {z : List α}
    (hz : z ∈ v) (hpre : X <+: z) : z ∈ family D X := by
  obtain ⟨s, rfl⟩ := hpre
  cases s with
  | nil =>
    obtain ⟨d, hd⟩ := List.exists_mem_of_ne_nil D hD
    rw [List.append_nil] at hz
    have heq := h.prefixFree X hz (X ++ [d]) (hfam d hd) (List.prefix_append X [d])
    exact absurd (congrArg List.length heq) (by simp)
  | cons c s =>
    have hc : c ∈ D := h.words _ hz c (by simp)
    have heq := h.prefixFree (X ++ [c]) (hfam c hc) (X ++ c :: s) hz
      ⟨s, by rw [List.append_assoc, List.singleton_append]⟩
    rw [← heq]
    exact mem_family.mpr ⟨c, hc, rfl⟩

/-- Another word of the list is neither below nor above the parent. -/
theorem Code.lt_parent (h : Code D v) (hfam : Family D v X) (hD : D ≠ []) {z : List α} (hz : z ∈ v)
    (hnot : z ∉ family D X) {d : α} (hd : d ∈ D) (hlt : z < X ++ [d]) : z < X := by
  refine lt_of_lt_append hlt ?_ ?_
  · intro hpre
    have heq := h.prefixFree z hz (X ++ [d]) (hfam d hd) (hpre.trans (List.prefix_append X [d]))
    exact hnot (mem_family.mpr ⟨d, hd, heq.symm⟩)
  · intro hpre
    exact hnot (h.mem_family_of_prefix hfam hD hz hpre)

/-- A whole family stands together. -/
theorem Code.family_prefix (h : Code D v) (hfam : Family D v X) (hsorted : D.Pairwise (· < ·))
    (hD : D ≠ []) (hhead : ∀ a ∈ v.head?, a ∈ family D X) : family D X <+: v := by
  obtain ⟨d, D', rfl⟩ := List.exists_cons_of_ne_nil hD
  show (X ++ [d]) :: family D' X <+: v
  refine prefix_of_convex ?_ h.sorted ?_ ?_ hhead
  · refine (List.pairwise_map (l := d :: D') (f := fun d => X ++ [d])).mpr ?_
    exact hsorted.imp fun hlt => append_singleton_lt.mpr hlt
  · intro x hx
    obtain ⟨c, hc, rfl⟩ := (mem_family (D := d :: D')).mp hx
    exact hfam c hc
  · intro z hz x hx y hy hxz hzy
    obtain ⟨c, -, rfl⟩ := (mem_family (D := d :: D')).mp hx
    obtain ⟨c', -, rfl⟩ := (mem_family (D := d :: D')).mp hy
    exact h.mem_family_of_prefix hfam hD hz (prefix_of_between hxz hzy)

/-! ## §3 Merging -/

/-- One pass: a family that stands together is replaced by its parent. -/
def merge (D : List α) : List (List α) → List (List α)
  | [] => []
  | a :: t =>
    if family D a.dropLast <+: a :: t then a.dropLast :: merge D (t.drop (D.length - 1))
    else a :: merge D t
termination_by v => v.length
decreasing_by
  · simp only [List.length_drop, List.length_cons]
    omega
  · simp

theorem merge_nil : merge D [] = [] := by rw [merge]

theorem merge_of_family (X : List α) (hD : D ≠ []) (rest : List (List α)) :
    merge D (family D X ++ rest) = X :: merge D rest := by
  obtain ⟨d, D', rfl⟩ := List.exists_cons_of_ne_nil hD
  have hcons : family (d :: D') X ++ rest = (X ++ [d]) :: (family D' X ++ rest) := rfl
  have hlen : (family D' X).length = (d :: D').length - 1 := by simp [family]
  rw [hcons, merge, if_pos, List.dropLast_concat, ← hlen, List.drop_left]
  rw [List.dropLast_concat]
  exact List.prefix_append (family (d :: D') X) rest

theorem merge_of_not {a : List α} {t : List (List α)} (h : ¬ family D a.dropLast <+: a :: t) :
    merge D (a :: t) = a :: merge D t := by
  rw [merge, if_neg h]

/-- Induction along a pass. -/
theorem merge_induction {P : List (List α) → Prop} (hD : D ≠ []) (hnil : P [])
    (hfamily : ∀ X rest, P rest → P (family D X ++ rest))
    (hnot : ∀ a t, ¬ family D a.dropLast <+: a :: t → P t → P (a :: t)) (v : List (List α)) :
    P v := by
  induction hlen : v.length using Nat.strong_induction_on generalizing v with
  | _ n ih =>
    cases v with
    | nil => exact hnil
    | cons a t =>
      by_cases hpre : family D a.dropLast <+: a :: t
      · obtain ⟨rest, hrest⟩ := hpre
        have hshort : rest.length < n := by
          have hpos : 0 < D.length := List.length_pos_iff.mpr hD
          have htotal := congrArg List.length hrest
          rw [List.length_append, family, List.length_map] at htotal
          omega
        rw [← hrest]
        exact hfamily _ rest (ih rest.length hshort rest rfl)
      · refine hnot a t hpre (ih t.length ?_ t rfl)
        rw [← hlen, List.length_cons]
        exact Nat.lt_succ_self _

theorem length_merge_le (hD : D ≠ []) (v : List (List α)) : (merge D v).length ≤ v.length := by
  induction v using merge_induction hD with
  | hnil => rw [merge_nil]
  | hfamily X rest ih =>
    have hpos : 0 < D.length := List.length_pos_iff.mpr hD
    rw [merge_of_family X hD rest, List.length_append, family, List.length_map, List.length_cons]
    omega
  | hnot a t hnot ih =>
    rw [merge_of_not hnot, List.length_cons, List.length_cons]
    exact Nat.succ_le_succ ih

/-- A list shorter than a family stays as it is. -/
theorem merge_of_short {v : List (List α)} (hshort : v.length < D.length) :
    merge D v = v := by
  induction v with
  | nil => exact merge_nil
  | cons a t ih =>
    rw [merge_of_not, ih ((Nat.lt_succ_self _).trans hshort)]
    intro hpre
    have hle := hpre.length_le
    rw [family, List.length_map] at hle
    omega

/-- The word is not in a whole family. -/
def Alone (D : List α) (v : List (List α)) (z : List α) : Prop :=
  ∀ X d, z = X ++ [d] → ¬ Family D v X

omit [LinearOrder α] in
theorem family_append_iff {rest : List (List α)} {Y : List α} :
    Family D (family D X ++ rest) Y ↔ Y = X ∨ Family D rest Y := by
  constructor
  · intro hfam
    by_cases heq : Y = X
    · exact Or.inl heq
    · refine Or.inr fun d hd => ?_
      rcases List.mem_append.mp (hfam d hd) with hmem | hmem
      · obtain ⟨c, -, hc⟩ := mem_family.mp hmem
        exact absurd (List.append_inj_left' hc rfl).symm heq
      · exact hmem
  · intro hor
    rcases hor with rfl | hfam
    · exact fun d hd => List.mem_append_left _ (mem_family.mpr ⟨d, hd, rfl⟩)
    · exact hfam.mono (List.subset_append_right _ _)

/-- Behind a whole family nothing belongs to it. -/
theorem Code.alone_append_iff {rest : List (List α)} {z : List α}
    (h : Code D (family D X ++ rest)) (hz : z ∈ rest) :
    Alone D (family D X ++ rest) z ↔ Alone D rest z := by
  constructor
  · intro halone Y d heq hfam
    exact halone Y d heq (family_append_iff.mpr (Or.inr hfam))
  · intro halone Y d heq hfam
    rcases family_append_iff.mp hfam with rfl | hfam
    · have hd : d ∈ D := h.words z (List.mem_append_right _ hz) d (by rw [heq]; simp)
      have hmem : z ∈ family D Y := mem_family.mpr ⟨d, hd, heq.symm⟩
      exact lt_irrefl z ((List.pairwise_append.mp h.sorted).2.2 z hmem z hz)
    · exact halone Y d heq hfam

/-- A word before all others does not belong to a family among them. -/
theorem Family.not_mem_of_lt {rest : List (List α)} {s Y : List α} (hfam : Family D rest Y)
    (hlater : ∀ x ∈ rest, s < x) : s ∉ family D Y := by
  intro hmem
  obtain ⟨d, hd, heq⟩ := mem_family.mp hmem
  have hself := hlater _ (hfam d hd)
  rw [heq] at hself
  exact lt_irrefl s hself

section Merge

variable (hsorted : D.Pairwise (· < ·)) (hD : D ≠ [])
include hsorted hD

/-- A word that does not begin a family in the list is in no whole family. -/
theorem Code.family_cons_iff {a : List α} {t : List (List α)} {Y : List α}
    (h : Code D (a :: t)) (hnot : ¬ family D a.dropLast <+: a :: t) :
    Family D (a :: t) Y ↔ Family D t Y := by
  constructor
  · intro hfam d hd
    rcases List.mem_cons.mp (hfam d hd) with heq | hmem
    · refine absurd ?_ hnot
      rw [← heq, List.dropLast_concat, heq]
      refine h.family_prefix hfam hsorted hD ?_
      intro b hb
      cases hb
      exact mem_family.mpr ⟨d, hd, heq⟩
    · exact hmem
  · intro hfam
    exact hfam.mono (List.subset_cons_self a t)

/-- What a pass leaves: the words outside whole families, and the parents of
whole families. -/
theorem Code.mem_merge_iff (h : Code D v) {z : List α} :
    z ∈ merge D v ↔ (z ∈ v ∧ Alone D v z) ∨ Family D v z := by
  induction v using merge_induction hD with
  | hnil =>
    rw [merge_nil]
    refine iff_of_false List.not_mem_nil ?_
    intro hor
    obtain ⟨d, hd⟩ := List.exists_mem_of_ne_nil D hD
    rcases hor with ⟨hmem, -⟩ | hfam
    · exact List.not_mem_nil hmem
    · exact List.not_mem_nil (hfam d hd)
  | hfamily X rest ih =>
    have hrest := h.sublist (List.sublist_append_right (family D X) rest)
    rw [merge_of_family X hD rest, List.mem_cons, ih hrest, List.mem_append, family_append_iff]
    constructor
    · intro hor
      rcases hor with rfl | ⟨hmem, halone⟩ | hfam
      · exact Or.inr (Or.inl rfl)
      · exact Or.inl ⟨Or.inr hmem, (h.alone_append_iff hmem).mpr halone⟩
      · exact Or.inr (Or.inr hfam)
    · intro hor
      rcases hor with ⟨hmem | hmem, halone⟩ | rfl | hfam
      · obtain ⟨d, -, heq⟩ := mem_family.mp hmem
        exact absurd (family_append_iff.mpr (Or.inl rfl)) (halone X d heq.symm)
      · exact Or.inr (Or.inl ⟨hmem, (h.alone_append_iff hmem).mp halone⟩)
      · exact Or.inl rfl
      · exact Or.inr (Or.inr hfam)
  | hnot a t hnot ih =>
    have ht := h.sublist (List.sublist_cons_self a t)
    have hiff : ∀ Y, Family D (a :: t) Y ↔ Family D t Y :=
      fun Y => h.family_cons_iff hsorted hD hnot
    have hfirst : Alone D (a :: t) a := by
      intro Y d heq hfam
      have hd : d ∈ D := h.words a List.mem_cons_self d (by rw [heq]; simp)
      have hmem := (hiff Y).mp hfam d hd
      rw [← heq] at hmem
      exact absurd ((List.pairwise_cons.mp h.sorted).1 a hmem) (lt_irrefl a)
    rw [merge_of_not hnot, List.mem_cons, ih ht, List.mem_cons, hiff z]
    have halone : Alone D (a :: t) z ↔ Alone D t z := by
      unfold Alone
      simp only [hiff]
    rw [halone, or_and_right, ← or_assoc]
    refine or_congr_left (or_congr_left ?_)
    constructor
    · intro heq
      subst heq
      exact ⟨rfl, halone.mp hfirst⟩
    · intro hboth
      exact hboth.1

/-- A word a pass leaves is in the list or is the parent of a family in it. -/
theorem Code.mem_or_family (h : Code D v) {z : List α} (hz : z ∈ merge D v) :
    z ∈ v ∨ Family D v z := by
  rcases (h.mem_merge_iff hsorted hD).mp hz with ⟨hmem, -⟩ | hfam
  · exact Or.inl hmem
  · exact Or.inr hfam

/-- The words stay sorted. -/
theorem Code.pairwise_merge (h : Code D v) : (merge D v).Pairwise (· < ·) := by
  obtain ⟨d₀, hd₀⟩ := List.exists_mem_of_ne_nil D hD
  induction v using merge_induction hD with
  | hnil =>
    rw [merge_nil]
    exact List.Pairwise.nil
  | hfamily X rest ih =>
    have hrest := h.sublist (List.sublist_append_right (family D X) rest)
    have hlater := (List.pairwise_append.mp h.sorted).2.2
    have hmember : X ++ [d₀] ∈ family D X := mem_family.mpr ⟨d₀, hd₀, rfl⟩
    rw [merge_of_family X hD rest, List.pairwise_cons]
    refine ⟨fun y hy => (lt_append_singleton X d₀).trans ?_, ih hrest⟩
    rcases hrest.mem_or_family hsorted hD hy with hmem | hfam
    · exact hlater _ hmember y hmem
    · exact h.lt_parent (hfam.mono (List.subset_append_right _ _)) hD
        (List.mem_append_left _ hmember) (hfam.not_mem_of_lt (hlater _ hmember)) hd₀
        (hlater _ hmember _ (hfam d₀ hd₀))
  | hnot a t hnot ih =>
    have ht := h.sublist (List.sublist_cons_self a t)
    have hlater := (List.pairwise_cons.mp h.sorted).1
    rw [merge_of_not hnot, List.pairwise_cons]
    refine ⟨fun y hy => ?_, ih ht⟩
    rcases ht.mem_or_family hsorted hD hy with hmem | hfam
    · exact hlater y hmem
    · exact h.lt_parent (hfam.mono (List.subset_cons_self a t)) hD List.mem_cons_self
        (hfam.not_mem_of_lt hlater) hd₀ (hlater _ (hfam d₀ hd₀))

/-- The words stay prefix-free. -/
theorem Code.prefixFree_merge (h : Code D v) :
    ∀ x ∈ merge D v, ∀ y ∈ merge D v, x <+: y → x = y := by
  obtain ⟨d₀, hd₀⟩ := List.exists_mem_of_ne_nil D hD
  intro x hx y hy hpre
  rcases (h.mem_merge_iff hsorted hD).mp hx with ⟨hx, -⟩ | hx
  · rcases (h.mem_merge_iff hsorted hD).mp hy with ⟨hy, -⟩ | hy
    · exact h.prefixFree x hx y hy hpre
    · have heq := h.prefixFree x hx _ (hy d₀ hd₀) (hpre.trans (List.prefix_append y [d₀]))
      have hle := hpre.length_le
      rw [heq] at hle
      exact absurd hle (by simp)
  · rcases (h.mem_merge_iff hsorted hD).mp hy with ⟨hy, halone⟩ | hy
    · obtain ⟨d, -, heq⟩ := mem_family.mp (h.mem_family_of_prefix hx hD hy hpre)
      exact absurd hx (halone x d heq.symm)
    · obtain ⟨d, hd, heq⟩ := mem_family.mp
        (h.mem_family_of_prefix hx hD (hy d₀ hd₀) (hpre.trans (List.prefix_append y [d₀])))
      exact List.append_inj_left' heq rfl

/-- A pass leaves a list of the same kind. -/
theorem Code.code_merge (h : Code D v) : Code D (merge D v) where
  words := by
    obtain ⟨d₀, hd₀⟩ := List.exists_mem_of_ne_nil D hD
    intro x hx c hc
    rcases h.mem_or_family hsorted hD hx with hmem | hfam
    · exact h.words x hmem c hc
    · exact h.words _ (hfam d₀ hd₀) c (List.mem_append_left _ hc)
  sorted := h.pairwise_merge hsorted hD
  prefixFree := h.prefixFree_merge hsorted hD

/-- A pass that changes nothing has met no whole family. -/
theorem Code.not_family_of_merge_eq (h : Code D v) (heq : merge D v = v) (X : List α) :
    ¬ Family D v X := by
  obtain ⟨d₀, hd₀⟩ := List.exists_mem_of_ne_nil D hD
  intro hfam
  have hmem : X ∈ merge D v := (h.mem_merge_iff hsorted hD).mpr (Or.inr hfam)
  rw [heq] at hmem
  have hself := h.prefixFree X hmem _ (hfam d₀ hd₀) (List.prefix_append X [d₀])
  exact absurd (congrArg List.length hself) (by simp)

/-- A whole family after a pass has a member the pass has made. -/
theorem Code.family_merge (h : Code D v) (hfam : Family D (merge D v) X) :
    ∃ d ∈ D, Family D v (X ++ [d]) := by
  by_contra hno
  obtain ⟨d₀, hd₀⟩ := List.exists_mem_of_ne_nil D hD
  have hold : ∀ d ∈ D, X ++ [d] ∈ v ∧ Alone D v (X ++ [d]) := by
    intro d hd
    rcases (h.mem_merge_iff hsorted hD).mp (hfam d hd) with hold | hnew
    · exact hold
    · exact absurd ⟨d, hd, hnew⟩ hno
  exact (hold d₀ hd₀).2 X d₀ rfl fun d hd => (hold d hd).1

end Merge

/-! ## §4 Covers -/

/-- Some word of the list is a prefix of `k`. -/
def Covers (v : List (List α)) (k : List α) : Prop := ∃ x ∈ v, x <+: k

/-- A pass covers the same long words as before. -/
theorem Code.covers_merge_iff (hsorted : D.Pairwise (· < ·)) (hD : D ≠ []) (h : Code D v)
    {k : List α} (hk : ∀ c ∈ k, c ∈ D) (hlen : ∀ x ∈ v, x.length ≤ k.length) :
    Covers (merge D v) k ↔ Covers v k := by
  obtain ⟨d₀, hd₀⟩ := List.exists_mem_of_ne_nil D hD
  constructor
  · intro hcover
    obtain ⟨x, hx, hpre⟩ := hcover
    rcases h.mem_or_family hsorted hD hx with hmem | hfam
    · exact ⟨x, hmem, hpre⟩
    · obtain ⟨s, rfl⟩ := hpre
      have hlong := hlen _ (hfam d₀ hd₀)
      cases s with
      | nil => exact absurd hlong (by simp)
      | cons c s =>
        exact ⟨x ++ [c], hfam c (hk c (by simp)), s, by simp⟩
  · intro hcover
    obtain ⟨x, hx, hpre⟩ := hcover
    by_cases halone : Alone D v x
    · exact ⟨x, (h.mem_merge_iff hsorted hD).mpr (Or.inl ⟨hx, halone⟩), hpre⟩
    · simp only [Alone, not_forall, not_not, exists_prop] at halone
      obtain ⟨X, d, rfl, hfam⟩ := halone
      exact ⟨X, (h.mem_merge_iff hsorted hD).mpr (Or.inr hfam),
        (List.prefix_append X [d]).trans hpre⟩

/-- All words of length `n` below `x` are in the set. -/
def Complete (D : List α) (n : ℕ) (S : List α → Prop) (x : List α) : Prop :=
  (∀ c ∈ x, c ∈ D) ∧ x.length ≤ n ∧ ∀ k, (∀ c ∈ k, c ∈ D) → k.length = n → x <+: k → S k

/-- Complete, and no proper prefix is. -/
def ShortestComplete (D : List α) (n : ℕ) (S : List α → Prop) (x : List α) : Prop :=
  Complete D n S x ∧ ∀ y, y <+: x → Complete D n S y → y = x

omit [LinearOrder α] in
/-- Extensions of a complete word are complete. -/
theorem Complete.mono {n : ℕ} {S : List α → Prop} {x y : List α} (h : Complete D n S x)
    (hxy : x <+: y) (hy : ∀ c ∈ y, c ∈ D) (hlen : y.length ≤ n) : Complete D n S y :=
  ⟨hy, hlen, fun k hk hkn hpre => h.2.2 k hk hkn (hxy.trans hpre)⟩

omit [LinearOrder α] in
/-- There is a word of the set below a complete word. -/
theorem Complete.exists_word {n : ℕ} {S : List α → Prop} {x : List α} (h : Complete D n S x)
    {d : α} (hd : d ∈ D) : ∃ k, x <+: k ∧ S k := by
  have hle := h.2.1
  refine ⟨x ++ List.replicate (n - x.length) d, List.prefix_append x _,
    h.2.2 _ ?_ ?_ (List.prefix_append x _)⟩
  · intro c hc
    rcases List.mem_append.mp hc with hc | hc
    · exact h.1 c hc
    · rw [List.eq_of_mem_replicate hc]
      exact hd
  · rw [List.length_append, List.length_replicate]
    omega

omit [LinearOrder α] in
/-- A complete word lies below a word of the list, or above a whole family. -/
theorem complete_cases {n : ℕ} {S : List α → Prop} (hcover : ∀ k, k.length = n → S k → Covers v k) :
    ∀ (left : ℕ) {y : List α}, y.length + left = n → Complete D n S y →
      (∃ z ∈ v, z <+: y) ∨ ∃ X, y <+: X ∧ Family D v X
  | 0, y, hlen, hy => Or.inl (hcover y hlen (hy.2.2 y hy.1 hlen (List.prefix_refl y)))
  | left + 1, y, hlen, hy => by
      by_cases hbelow : ∃ z ∈ v, z <+: y
      · exact Or.inl hbelow
      · right
        by_contra hno
        refine hno ⟨y, List.prefix_refl y, fun d hd => ?_⟩
        have hchild : Complete D n S (y ++ [d]) := by
          refine ⟨?_, ?_, fun k hk hkn hpre => hy.2.2 k hk hkn
            ((List.prefix_append y [d]).trans hpre)⟩
          · intro c hc
            rcases List.mem_append.mp hc with hc | hc
            · exact hy.1 c hc
            · rw [List.mem_singleton.mp hc]
              exact hd
          · rw [List.length_append, List.length_singleton]
            omega
        rcases complete_cases hcover left (by rw [List.length_append, List.length_singleton]; omega)
          hchild with ⟨z, hz, hpre⟩ | ⟨X, hpre, hfam⟩
        · rcases List.prefix_concat_iff.mp hpre with rfl | hpre
          · exact hz
          · exact absurd ⟨z, hz, hpre⟩ hbelow
        · exact absurd ⟨X, (List.prefix_append y [d]).trans hpre, hfam⟩ hno

/-- A prefix-free list without a whole family consists of the shortest
complete words of the set it covers. -/
theorem Code.mem_iff_shortest (h : Code D v) {n : ℕ} {S : List α → Prop}
    (hlen : ∀ x ∈ v, x.length ≤ n)
    (hcover : ∀ k, (∀ c ∈ k, c ∈ D) → k.length = n → (Covers v k ↔ S k))
    (hS : ∀ k, S k → ∀ c ∈ k, c ∈ D) (hno : ∀ X, ¬ Family D v X) {x : List α} :
    x ∈ v ↔ ShortestComplete D n S x := by
  have hcomplete : ∀ y ∈ v, Complete D n S y := fun y hy =>
    ⟨h.words y hy, hlen y hy, fun k hk hkn hpre => (hcover k hk hkn).mp ⟨y, hy, hpre⟩⟩
  have hbelow : ∀ y, Complete D n S y → ∃ z ∈ v, z <+: y := by
    intro y hy
    have hle := hy.2.1
    rcases complete_cases (fun k hkn hk => (hcover k (hS k hk) hkn).mpr hk) (n - y.length)
      (by omega) hy with hz | ⟨X, -, hfam⟩
    · exact hz
    · exact absurd hfam (hno X)
  constructor
  · intro hx
    refine ⟨hcomplete x hx, fun y hpre hy => ?_⟩
    obtain ⟨z, hz, hzy⟩ := hbelow y hy
    have heq := h.prefixFree z hz x hx (hzy.trans hpre)
    subst heq
    exact hpre.eq_of_length (Nat.le_antisymm hpre.length_le hzy.length_le)
  · intro hx
    obtain ⟨z, hz, hzx⟩ := hbelow x hx.1
    rw [← hx.2 z hzx (hcomplete z hz)]
    exact hz

/-! ## §5 Passes -/

/-- After `k` passes from the words `S` of length `n`: the same words are
covered, and the parents of whole families have the one length that is the
turn of the next pass. -/
structure Stage (D : List α) (n : ℕ) (S : List α → Prop) (k : ℕ) (v : List (List α)) : Prop where
  code : Code D v
  length_le : ∀ x ∈ v, x.length ≤ n
  covers_iff : ∀ x, (∀ c ∈ x, c ∈ D) → x.length = n → (Covers v x ↔ S x)
  family_length : ∀ X, Family D v X → X.length + k + 1 = n

/-- A sorted list of words of one length. -/
theorem stage_zero {n : ℕ} (hD : D ≠ []) (hwords : ∀ x ∈ v, ∀ c ∈ x, c ∈ D)
    (hsorted : v.Pairwise (· < ·)) (hlen : ∀ x ∈ v, x.length = n) :
    Stage D n (· ∈ v) 0 v where
  code := ⟨hwords, hsorted, fun x hx y hy hpre =>
    hpre.eq_of_length (by rw [hlen x hx, hlen y hy])⟩
  length_le := fun x hx => (hlen x hx).le
  covers_iff := by
    intro k _ hk
    constructor
    · intro hcover
      obtain ⟨x, hx, hpre⟩ := hcover
      rw [← hpre.eq_of_length (by rw [hlen x hx, hk])]
      exact hx
    · intro hmem
      exact ⟨k, hmem, List.prefix_refl k⟩
  family_length := by
    intro X hfam
    obtain ⟨d, hd⟩ := List.exists_mem_of_ne_nil D hD
    have hchild := hlen _ (hfam d hd)
    rw [List.length_append, List.length_singleton] at hchild
    exact hchild

section Stage

variable {n k : ℕ} {S : List α → Prop}

theorem Stage.merge (hsorted : D.Pairwise (· < ·)) (hD : D ≠ []) (h : Stage D n S k v) :
    Stage D n S (k + 1) (merge D v) where
  code := h.code.code_merge hsorted hD
  length_le := by
    obtain ⟨d, hd⟩ := List.exists_mem_of_ne_nil D hD
    intro x hx
    rcases h.code.mem_or_family hsorted hD hx with hmem | hfam
    · exact h.length_le x hmem
    · have hchild := h.length_le _ (hfam d hd)
      rw [List.length_append] at hchild
      exact Nat.le_of_add_right_le hchild
  covers_iff := by
    intro x hx hlen
    rw [h.code.covers_merge_iff hsorted hD hx fun y hy => (h.length_le y hy).trans hlen.ge]
    exact h.covers_iff x hx hlen
  family_length := by
    intro X hfam
    obtain ⟨d, -, hmade⟩ := h.code.family_merge hsorted hD hfam
    have hlen := h.family_length _ hmade
    rw [List.length_append, List.length_singleton] at hlen
    omega

/-- A pass takes at most one letter off a word. -/
theorem Stage.le_length_merge (hsorted : D.Pairwise (· < ·)) (hD : D ≠ []) (h : Stage D n S k v)
    (hlow : ∀ x ∈ v, n ≤ x.length + k) :
    ∀ x ∈ PrefixCover.merge D v, n ≤ x.length + (k + 1) := by
  intro x hx
  rcases h.code.mem_or_family hsorted hD hx with hmem | hfam
  · have hle := hlow x hmem
    omega
  · have hlen := h.family_length x hfam
    omega

/-- After as many passes as there are levels no family is left. -/
theorem Stage.not_family_of_le (h : Stage D n S k v) (hk : n ≤ k) (X : List α) :
    ¬ Family D v X := by
  intro hfam
  have hlen := h.family_length X hfam
  omega

theorem Stage.complete (h : Stage D n S k v) {x : List α} (hx : x ∈ v) : Complete D n S x :=
  ⟨h.code.words x hx, h.length_le x hx,
    fun y hy hlen hpre => (h.covers_iff y hy hlen).mp ⟨x, hx, hpre⟩⟩

/-- Without a family, the list is the canonical cover. -/
theorem Stage.mem_iff_shortest (h : Stage D n S k v) (hS : ∀ x, S x → ∀ c ∈ x, c ∈ D)
    (hno : ∀ X, ¬ Family D v X) {x : List α} : x ∈ v ↔ ShortestComplete D n S x :=
  h.code.mem_iff_shortest h.length_le h.covers_iff hS hno

end Stage

/-! ### Counting -/

/-- All words of one length. -/
def words (D : List α) : ℕ → List (List α)
  | 0 => [[]]
  | n + 1 => D.flatMap fun d => (words D n).map (d :: ·)

omit [LinearOrder α] in
theorem length_words (D : List α) (n : ℕ) : (words D n).length = D.length ^ n := by
  induction n with
  | zero => rfl
  | succ n ih =>
    rw [words, List.length_flatMap]
    simp [ih, Nat.pow_succ']

omit [LinearOrder α] in
theorem letters_and_length_of_mem_words {n : ℕ} {k : List α} (hk : k ∈ words D n) :
    (∀ c ∈ k, c ∈ D) ∧ k.length = n := by
  induction n generalizing k with
  | zero =>
    rw [words, List.mem_singleton] at hk
    subst hk
    exact ⟨nofun, rfl⟩
  | succ n ih =>
    rw [words, List.mem_flatMap] at hk
    obtain ⟨d, hd, hk⟩ := hk
    obtain ⟨k', hk', rfl⟩ := List.mem_map.mp hk
    obtain ⟨hwords, hlen⟩ := ih hk'
    refine ⟨fun c hc => ?_, by rw [List.length_cons, hlen]⟩
    rcases List.mem_cons.mp hc with rfl | hc
    · exact hd
    · exact hwords c hc

theorem nodup_words (hsorted : D.Pairwise (· < ·)) (n : ℕ) : (words D n).Nodup := by
  induction n with
  | zero => exact List.nodup_singleton []
  | succ n ih =>
    rw [words, List.nodup_flatMap]
    refine ⟨fun d _ => ih.map (List.cons_injective (a := d)), hsorted.imp ?_⟩
    intro c d hlt k hc hd
    obtain ⟨k₁, -, rfl⟩ := List.mem_map.mp hc
    obtain ⟨k₂, -, heq⟩ := List.mem_map.mp hd
    exact absurd (List.cons.inj heq).1 hlt.ne'

/-- A list that contains all words of a length is at least that long. -/
theorem pow_le_length (hsorted : D.Pairwise (· < ·)) {n : ℕ}
    (hall : ∀ k, (∀ c ∈ k, c ∈ D) → k.length = n → k ∈ v) : D.length ^ n ≤ v.length := by
  rw [← length_words]
  refine (List.subperm_of_subset (nodup_words hsorted n) fun k hk => ?_).length_le
  exact hall k (letters_and_length_of_mem_words hk).1 (letters_and_length_of_mem_words hk).2

end PrefixCover
