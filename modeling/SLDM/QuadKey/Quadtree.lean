/-
SLDM.QuadKey.Quadtree — quadkeys are the paths of a quadtree.

A tile `(x, y)` of a level lies in the tile `(x >>> 1, y >>> 1)` of the
level above, and a digit of a quadkey says in which quarter
(`quadKeyDigits_child`). So the four extensions of a quadkey by a digit are
the quadkeys of the four tiles in its tile (`mem_children_iff`), and taking
off digits is taking the enclosing tile. The two compressions rest on this:
`unifyQuadkeys2` merges the four tiles in one (`family_of_startsQuad`),
and `checkdim` cuts to the enclosing tile (`shortenOne_first`).
-/
import SLDM.QuadKey.Tiles
import SLDM.QuadKey.Unify

namespace SLDM.QuadKey

open PrefixCover

/-! ## Digits -/

theorem digitOf_mem_digits (bitX bitY : Bool) : digitOf bitX bitY ∈ digits := by
  revert bitX bitY
  decide

/-- Every digit belongs to one bit of each coordinate. -/
theorem exists_digitOf {d : Char} (h : d ∈ digits) : ∃ bitX bitY, digitOf bitX bitY = d := by
  simp only [digits, List.mem_cons, List.not_mem_nil, or_false] at h
  rcases h with rfl | rfl | rfl | rfl
  · exact ⟨false, false, rfl⟩
  · exact ⟨true, false, rfl⟩
  · exact ⟨false, true, rfl⟩
  · exact ⟨true, true, rfl⟩

theorem mem_digits_of_quadKeyDigits (x y level : ℕ) :
    ∀ c ∈ quadKeyDigits x y level, c ∈ digits := by
  induction level with
  | zero =>
    intro c hc
    exact absurd hc List.not_mem_nil
  | succ level ih =>
    intro c hc
    rw [quadKeyDigits_succ, List.mem_cons] at hc
    rcases hc with rfl | hc
    · exact digitOf_mem_digits _ _
    · exact ih c hc

/-- The last digit is of the lowest bits, the others are the enclosing
tile's. -/
theorem quadKeyDigits_child (x y level : ℕ) :
    quadKeyDigits x y (level + 1) =
      quadKeyDigits (x >>> 1) (y >>> 1) level ++ [digitOf (x.testBit 0) (y.testBit 0)] := by
  rw [quadKeyDigits_add, quadKeyDigits_succ]
  rfl

/-- The first digits. -/
theorem take_quadKeyDigits (x y : ℕ) {level k : ℕ} (hk : k ≤ level) :
    (quadKeyDigits x y level).take (level - k) = quadKeyDigits (x >>> k) (y >>> k) (level - k) := by
  obtain ⟨n, rfl⟩ : ∃ n, level = n + k := ⟨level - k, by omega⟩
  rw [Nat.add_sub_cancel, quadKeyDigits_add]
  exact List.take_left' (length_quadKeyDigits _ _ n)

theorem dropLast_quadKeyDigits (x y level : ℕ) :
    (quadKeyDigits x y (level + 1)).dropLast = quadKeyDigits (x >>> 1) (y >>> 1) level := by
  rw [quadKeyDigits_child, List.dropLast_concat]

/-! ## Tiles in a tile -/

/-- A tile of the next level that lies in the tile `(x, y)`, with its
quadkey. -/
def IsChild (x y level : ℕ) (key : Key) : Prop :=
  ∃ x' y', x' < 2 ^ (level + 1) ∧ y' < 2 ^ (level + 1) ∧ x' >>> 1 = x ∧ y' >>> 1 = y ∧
    key = quadKeyDigits x' y' (level + 1)

/-- The coordinate of the level below with the lowest bit given. -/
theorem exists_shiftRight_one {x level : ℕ} (hx : x < 2 ^ level) (bit : Bool) :
    ∃ x', x' < 2 ^ (level + 1) ∧ x' >>> 1 = x ∧ x'.testBit 0 = bit := by
  refine ⟨Nat.bit bit x, ?_, ?_, Nat.testBit_bit_zero bit x⟩
  · rw [pow_succ, Nat.bit_val]
    cases bit
    · show 2 * x + 0 < _
      omega
    · show 2 * x + 1 < _
      omega
  · rw [Nat.shiftRight_one, Nat.bit_div_two]

/-- The four extensions of a quadkey are the quadkeys of the tiles in its
tile. -/
theorem mem_children_iff {x y level : ℕ} (hx : x < 2 ^ level) (hy : y < 2 ^ level) (key : Key) :
    key ∈ family digits (quadKeyDigits x y level) ↔ IsChild x y level key := by
  rw [mem_family]
  constructor
  · rintro ⟨d, hd, rfl⟩
    obtain ⟨bitX, bitY, rfl⟩ := exists_digitOf hd
    obtain ⟨x', hx', rfl, rfl⟩ := exists_shiftRight_one hx bitX
    obtain ⟨y', hy', rfl, rfl⟩ := exists_shiftRight_one hy bitY
    exact ⟨x', y', hx', hy', rfl, rfl, (quadKeyDigits_child x' y' level).symm⟩
  · rintro ⟨x', y', -, -, rfl, rfl, rfl⟩
    exact ⟨_, digitOf_mem_digits _ _, (quadKeyDigits_child x' y' level).symm⟩

/-! ## The two compressions -/

/-- The condition reads three keys further. -/
theorem lt_length_of_startsQuad {v : List Key} {i : ℕ} {key : Key}
    (h : startsQuad v i key = .ok true) : i + 3 < v.length := by
  unfold startsQuad at h
  split at h
  · obtain ⟨first, -, h⟩ := bind_eq_ok.mp h
    cases first with
    | false => cases h
    | true =>
      obtain ⟨second, -, h⟩ := bind_eq_ok.mp h
      cases second with
      | false => cases h
      | true =>
        by_contra hend
        have hnone : vectorAt v (i + 3) = .error .outOfRange := by
          unfold vectorAt
          rw [List.getElem?_eq_none (by omega)]
        rw [siblingAt_eq, hnone] at h
        cases h
  · cases h

/-- What `unifyQuadkeys2` merges is a whole family. -/
theorem family_of_startsQuad {v : List Key} {i : ℕ} {key : Key} (hkey : vectorAt v i = .ok key)
    (h : startsQuad v i key = .ok true) : family digits key.dropLast <+: v.drop i := by
  have hlen := lt_length_of_startsQuad h
  rw [← Nat.add_zero i, vectorAt_drop] at hkey
  match hdrop : v.drop i with
  | a :: b :: c :: d :: rest =>
    rw [hdrop] at hkey
    cases hkey
    rw [startsQuad_of_four hdrop] at h
    rw [← hdrop]
    exact of_decide_eq_true (Except.ok.inj h)
  | [] | [_] | [_, _] | [_, _, _] =>
    have hshort := congrArg List.length hdrop
    simp only [List.length_drop, List.length_cons, List.length_nil] at hshort
    omega

/-- The first key of the length given is cut, and goes to the end. -/
theorem shortenOne_first {front back : List Key} {key : Key} {l : ℕ} (hlen : key.length = l)
    (hfront : ∀ key' ∈ front, key'.length ≠ l) :
    shortenOne (front ++ key :: back) l = (front ++ back ++ [key.take (l - 1)], l) := by
  have hfind : (front ++ key :: back).findIdx? (·.length == l) = some front.length := by
    rw [List.findIdx?_append, List.findIdx?_eq_none_iff.mpr (by simpa using hfront)]
    simp [List.findIdx?_cons, hlen]
  unfold shortenOne
  rw [hfind]
  simp [List.eraseIdx_append_of_length_le]

/-- Quadkeys are the paths of a quadtree. For a tile of a level: its quadkey
has as many digits; other tiles of the level have other quadkeys; without
its last digits it is the quadkey of an enclosing tile; its four extensions
are the quadkeys of the tiles in it. What `unifyQuadkeys2` merges into a key
without its last digit are the four tiles in the enclosing one, and what
`checkdim` cuts a key to is the enclosing tile's. -/
theorem quadKeyDigits_quadtree (level : ℕ) (hlevel : 1 ≤ level) (x y : ℕ) (hx : x < 2 ^ level)
    (hy : y < 2 ^ level) :
    ((quadKeyDigits x y level).length = level ∧
      ∀ c ∈ quadKeyDigits x y level, c ∈ ['0', '1', '2', '3']) ∧
    (∀ x' y', x' < 2 ^ level → y' < 2 ^ level → (x, y) ≠ (x', y') →
      quadKeyDigits x y level ≠ quadKeyDigits x' y' level) ∧
    (∀ k ≤ level, (quadKeyDigits x y level).take (level - k) =
      quadKeyDigits (x >>> k) (y >>> k) (level - k)) ∧
    (∀ key, key ∈ ['0', '1', '2', '3'].map (fun d => quadKeyDigits x y level ++ [d]) ↔
      IsChild x y level key) ∧
    (∀ v i, vectorAt v i = .ok (quadKeyDigits x y level) →
      startsQuad v i (quadKeyDigits x y level) = .ok true →
      (quadKeyDigits x y level).dropLast = quadKeyDigits (x >>> 1) (y >>> 1) (level - 1) ∧
        ∀ key, key ∈ (v.drop i).take 4 ↔ IsChild (x >>> 1) (y >>> 1) (level - 1) key) ∧
    (∀ front back : List Key, (∀ key ∈ front, key.length ≠ level) →
      (shortenOne (front ++ quadKeyDigits x y level :: back) level).1 =
        front ++ back ++ [quadKeyDigits (x >>> 1) (y >>> 1) (level - 1)]) := by
  obtain ⟨level, rfl⟩ : ∃ n, level = n + 1 := ⟨level - 1, by omega⟩
  have hparent : ∀ {z}, z < 2 ^ (level + 1) → z >>> 1 < 2 ^ level := by
    intro z hz
    rw [Nat.shiftRight_one]
    rw [pow_succ] at hz
    omega
  refine ⟨⟨length_quadKeyDigits x y _, mem_digits_of_quadKeyDigits x y _⟩,
    fun x' y' hx' hy' hne heq => ?_, fun k hk => take_quadKeyDigits x y hk,
    mem_children_iff hx hy, fun v i hkey hquad => ⟨dropLast_quadKeyDigits x y level, fun key => ?_⟩,
    fun front back hfront => ?_⟩
  · obtain ⟨rfl, rfl⟩ := (quadKeyDigits_inj hx hy hx' hy').mp heq
    exact hne rfl
  · have hfamily := family_of_startsQuad hkey hquad
    rw [dropLast_quadKeyDigits] at hfamily
    rw [Nat.add_sub_cancel, ← mem_children_iff (hparent hx) (hparent hy),
      List.prefix_iff_eq_take.mp hfamily]
    rfl
  · rw [shortenOne_first (length_quadKeyDigits x y _) hfront,
      take_quadKeyDigits x y (Nat.le_add_left 1 level)]

/-- The second tile of the second row of level 2. -/
theorem quadKeyDigits_quadtree_two :
    ((quadKeyDigits 1 1 2).length = 2 ∧ ∀ c ∈ quadKeyDigits 1 1 2, c ∈ ['0', '1', '2', '3']) ∧
    (∀ x' y', x' < 2 ^ 2 → y' < 2 ^ 2 → (1, 1) ≠ (x', y') →
      quadKeyDigits 1 1 2 ≠ quadKeyDigits x' y' 2) ∧
    (∀ k ≤ 2, (quadKeyDigits 1 1 2).take (2 - k) = quadKeyDigits (1 >>> k) (1 >>> k) (2 - k)) ∧
    (∀ key, key ∈ ['0', '1', '2', '3'].map (fun d => quadKeyDigits 1 1 2 ++ [d]) ↔
      IsChild 1 1 2 key) ∧
    (∀ v i, vectorAt v i = .ok (quadKeyDigits 1 1 2) →
      startsQuad v i (quadKeyDigits 1 1 2) = .ok true →
      (quadKeyDigits 1 1 2).dropLast = quadKeyDigits (1 >>> 1) (1 >>> 1) (2 - 1) ∧
        ∀ key, key ∈ (v.drop i).take 4 ↔ IsChild (1 >>> 1) (1 >>> 1) (2 - 1) key) ∧
    (∀ front back : List Key, (∀ key ∈ front, key.length ≠ 2) →
      (shortenOne (front ++ quadKeyDigits 1 1 2 :: back) 2).1 =
        front ++ back ++ [quadKeyDigits (1 >>> 1) (1 >>> 1) (2 - 1)]) :=
  quadKeyDigits_quadtree 2 (by decide) 1 1 (by decide) (by decide)

end SLDM.QuadKey
