/-
SLDM.QuadKey.Tiles — tiles and quadkeys at several levels of detail.

`le_tile_iff` says which positions lie in a tile or behind it; everything
about tiles below follows from it. `quadKeyDigits_add` says that the first
digits of a quadkey belong to the tile shifted right.

A tile border lies half a pixel of its own level before the multiple of
256 pixels, so the borders of a coarse level are not quite borders of a
finer one. `prefix_iff` gives the positions for which the quadkey of one
level starts with that of another: those outside the small gap between the
two borders.
-/
import Mathlib.Data.Nat.Bitwise
import Mathlib.Tactic.FieldSimp
import Mathlib.Tactic.Ring
import SLDM.QuadKey.TileSystem

namespace SLDM.QuadKey

/-! ## Which tile -/

theorem mapSize_eq (level : ℕ) : mapSize level = 256 * 2 ^ level := Nat.shiftLeft_eq 256 level

/-- The pixel at which tile `c` begins, on the axis of normalised
positions. -/
def tileStart (level c : ℕ) : ℚ := (256 * c - 1 / 2) / mapSize level

theorem tileStart_le_iff {level c : ℕ} {x : ℚ} :
    tileStart level c ≤ x ↔ 256 * c ≤ x * mapSize level + 1 / 2 := by
  have hpos : (0 : ℚ) < mapSize level := by
    rw [mapSize_eq]
    positivity
  rw [tileStart, div_le_iff₀ hpos, sub_le_iff_le_add]

/-- A position lies in tile `c` or behind it when it is not before the start
of `c`. -/
theorem le_tile_iff {level c : ℕ} {x : ℚ} (hc : 0 < c) :
    c ≤ tile level x ↔ c < 2 ^ level ∧ tileStart level c ≤ x := by
  have hpixels : (256 : ℚ) * c = ((256 * c : ℕ) : ℚ) := by push_cast; rfl
  rw [tileStart_le_iff, tile, Nat.le_div_iff_mul_le (by decide), Nat.le_floor_iff' (by omega),
    mul_comm c 256, ← hpixels, clip, le_min_iff, le_max_iff]
  have hnonneg : ¬ (256 : ℚ) * c ≤ 0 := by
    have hc' : (0 : ℚ) < c := by exact_mod_cast hc
    linarith
  have hlast : (256 : ℚ) * c ≤ mapSize level - 1 ↔ c < 2 ^ level := by
    rw [le_sub_iff_add_le, hpixels, mapSize_eq]
    norm_cast
    omega
  rw [or_iff_left hnonneg, hlast, and_comm]

theorem tile_mono {level : ℕ} {x y : ℚ} (h : x ≤ y) : tile level x ≤ tile level y := by
  rcases Nat.eq_zero_or_pos (tile level x) with hzero | hpos
  · omega
  · obtain ⟨hlt, hstart⟩ := (le_tile_iff hpos).mp (Nat.le_refl _)
    exact (le_tile_iff hpos).mpr ⟨hlt, hstart.trans h⟩

theorem tile_lt (level : ℕ) (x : ℚ) : tile level x < 2 ^ level := by
  rcases Nat.eq_zero_or_pos (tile level x) with hzero | hpos
  · rw [hzero]
    exact Nat.two_pow_pos level
  · exact ((le_tile_iff hpos).mp (Nat.le_refl _)).1

/-! ## The digits of a tile -/

/-- The digit of one bit of each coordinate. -/
def digitOf (bitX bitY : Bool) : Char :=
  Nat.digitChar ((if bitX then 1 else 0) + (if bitY then 2 else 0))

theorem digitOf_inj {bitX bitY bitX' bitY' : Bool}
    (h : digitOf bitX bitY = digitOf bitX' bitY') : bitX = bitX' ∧ bitY = bitY' := by
  revert bitX bitY bitX' bitY'
  decide

theorem and_mask_ne_zero (x i : ℕ) : x &&& 1 <<< i ≠ 0 ↔ x.testBit i = true := by
  rw [Nat.one_shiftLeft, Nat.and_two_pow]
  cases x.testBit i <;> simp

/-- The first digit of a quadkey belongs to the highest bits. -/
theorem quadKeyDigits_succ (tileX tileY i : ℕ) :
    quadKeyDigits tileX tileY (i + 1) =
      digitOf (tileX.testBit i) (tileY.testBit i) :: quadKeyDigits tileX tileY i := by
  simp only [quadKeyDigits, and_mask_ne_zero, digitOf]

@[simp] theorem length_quadKeyDigits (tileX tileY level : ℕ) :
    (quadKeyDigits tileX tileY level).length = level := by
  induction level with
  | zero => rfl
  | succ level ih => rw [quadKeyDigits_succ, List.length_cons, ih]

/-- The first `n` digits are those of the tile shifted right by the rest. -/
theorem quadKeyDigits_add (tileX tileY n k : ℕ) :
    quadKeyDigits tileX tileY (n + k) =
      quadKeyDigits (tileX >>> k) (tileY >>> k) n ++ quadKeyDigits tileX tileY k := by
  induction n with
  | zero =>
    rw [Nat.zero_add]
    rfl
  | succ n ih =>
    rw [Nat.add_right_comm, quadKeyDigits_succ, quadKeyDigits_succ, ih, Nat.testBit_shiftRight,
      Nat.testBit_shiftRight, Nat.add_comm k n, List.cons_append]

/-- Equal digits, equal bits. -/
theorem testBit_of_digits {x y x' y' : ℕ} : ∀ {level : ℕ},
    quadKeyDigits x y level = quadKeyDigits x' y' level →
    ∀ i < level, x.testBit i = x'.testBit i ∧ y.testBit i = y'.testBit i
  | 0, _, i, hi => absurd hi (Nat.not_lt_zero i)
  | level + 1, h, i, hi => by
      rw [quadKeyDigits_succ, quadKeyDigits_succ, List.cons.injEq] at h
      rcases Nat.lt_succ_iff_lt_or_eq.mp hi with hlt | rfl
      · exact testBit_of_digits h.2 i hlt
      · exact digitOf_inj h.1

/-- Tiles of one level with the same quadkey are the same. -/
theorem quadKeyDigits_inj {x y x' y' level : ℕ} (hx : x < 2 ^ level) (hy : y < 2 ^ level)
    (hx' : x' < 2 ^ level) (hy' : y' < 2 ^ level) :
    quadKeyDigits x y level = quadKeyDigits x' y' level ↔ x = x' ∧ y = y' := by
  constructor
  · intro h
    have hbits := testBit_of_digits h
    constructor
    · refine Nat.eq_of_testBit_eq fun i => ?_
      rcases Nat.lt_or_ge i level with hi | hi
      · exact (hbits i hi).1
      · rw [Nat.testBit_lt_two_pow (hx.trans_le (Nat.pow_le_pow_right (by decide) hi)),
          Nat.testBit_lt_two_pow (hx'.trans_le (Nat.pow_le_pow_right (by decide) hi))]
    · refine Nat.eq_of_testBit_eq fun i => ?_
      rcases Nat.lt_or_ge i level with hi | hi
      · exact (hbits i hi).2
      · rw [Nat.testBit_lt_two_pow (hy.trans_le (Nat.pow_le_pow_right (by decide) hi)),
          Nat.testBit_lt_two_pow (hy'.trans_le (Nat.pow_le_pow_right (by decide) hi))]
  · intro heq
    obtain ⟨rfl, rfl⟩ := heq
    rfl

/-! ## One position at two levels -/

/-- The quadkey of a normalised position. -/
def positionKey (level : ℕ) (x y : ℚ) : Key :=
  quadKeyDigits (tile level x) (tile level y) level

theorem quadKey_eq_positionKey (mercatorY : ℚ → ℚ) (level : ℕ) (j k : ℚ) :
    quadKey mercatorY level j k = positionKey level ((k + 180) / 360) (mercatorY j) := rfl

/-- Half a pixel before the tile's own border. -/
theorem tileStart_eq (level c : ℕ) : tileStart level c = c / 2 ^ level - 1 / 2 ^ (level + 9) := by
  rw [tileStart, mapSize_eq, pow_add]
  push_cast
  field_simp
  ring

/-- The position does not lie where a tile of level `n` has begun already and
its first part at level `n + k` has not. -/
def OutsideGaps (n k : ℕ) (z : ℚ) : Prop :=
  ∀ c : ℕ, 0 < c → c < 2 ^ n →
    ¬ ((c : ℚ) / 2 ^ n - 1 / 2 ^ (n + 9) ≤ z ∧ z < c / 2 ^ n - 1 / 2 ^ (n + k + 9))

/-- A position lies in the tile shifted right or behind it. -/
theorem le_tile_shiftRight_iff {n k c : ℕ} {z : ℚ} (hc : 0 < c) :
    c ≤ tile (n + k) z >>> k ↔ c < 2 ^ n ∧ (c : ℚ) / 2 ^ n - 1 / 2 ^ (n + k + 9) ≤ z := by
  have hpow : 0 < 2 ^ k := Nat.two_pow_pos k
  have hfraction : ((c * 2 ^ k : ℕ) : ℚ) / 2 ^ (n + k) = c / 2 ^ n := by
    rw [pow_add]
    push_cast
    field_simp
  rw [Nat.shiftRight_eq_div_pow, Nat.le_div_iff_mul_le hpow, le_tile_iff (Nat.mul_pos hc hpow),
    tileStart_eq, hfraction, pow_add 2 n k, Nat.mul_lt_mul_right hpow]

/-- The tile of a level is the tile of a deeper one shifted right exactly
outside the gaps. -/
theorem tile_shiftRight_iff (n k : ℕ) (z : ℚ) :
    tile n z = tile (n + k) z >>> k ↔ OutsideGaps n k z := by
  constructor
  · intro heq c hc hlt hgap
    obtain ⟨hbegun, hnot⟩ := hgap
    rw [← tileStart_eq] at hbegun
    have hle : c ≤ tile n z := (le_tile_iff hc).mpr ⟨hlt, hbegun⟩
    rw [heq, le_tile_shiftRight_iff hc] at hle
    exact absurd hle.2 (not_le.mpr hnot)
  · intro hout
    refine eq_of_forall_le_iff fun c => ?_
    rcases Nat.eq_zero_or_pos c with rfl | hc
    · exact iff_of_true (Nat.zero_le _) (Nat.zero_le _)
    · rw [le_tile_iff hc, le_tile_shiftRight_iff hc, tileStart_eq]
      refine and_congr_right fun hlt => ⟨fun hbegun => ?_, fun hpart => ?_⟩
      · exact not_lt.mp fun hnot => hout c hc hlt ⟨hbegun, hnot⟩
      · have hsmall : (1 : ℚ) / 2 ^ (n + k + 9) ≤ 1 / 2 ^ (n + 9) :=
          one_div_le_one_div_of_le (by positivity)
            (pow_le_pow_right₀ (by norm_num) (by omega))
        linarith

theorem tile_shiftRight_lt (n k : ℕ) (z : ℚ) : tile (n + k) z >>> k < 2 ^ n := by
  rw [Nat.shiftRight_eq_div_pow, Nat.div_lt_iff_lt_mul (Nat.two_pow_pos k), ← pow_add]
  exact tile_lt (n + k) z

/-- The quadkey of a position at level `n + k` starts with its quadkey at
level `n`, and the tiles are shifts of each other, exactly when both
coordinates lie outside the gaps. -/
theorem prefix_iff (n k : ℕ) (x y : ℚ) :
    (positionKey n x y <+: positionKey (n + k) x y ↔ OutsideGaps n k x ∧ OutsideGaps n k y) ∧
    (tile n x = tile (n + k) x >>> k ∧ tile n y = tile (n + k) y >>> k ↔
      OutsideGaps n k x ∧ OutsideGaps n k y) := by
  have htiles := and_congr (tile_shiftRight_iff n k x) (tile_shiftRight_iff n k y)
  refine ⟨?_, htiles⟩
  rw [← htiles, ← quadKeyDigits_inj (tile_lt n x) (tile_lt n y) (tile_shiftRight_lt n k x)
    (tile_shiftRight_lt n k y), positionKey, positionKey, quadKeyDigits_add]
  constructor
  · intro hpre
    have hhead := List.prefix_of_prefix_length_le hpre (List.prefix_append _ _) (by simp)
    exact hhead.eq_of_length (by simp)
  · intro heq
    rw [heq]
    exact List.prefix_append _ _

/-- Half a pixel before the second tile of level 16, at the edge of the map:
the quadkey at level 18 belongs to the first tile. -/
theorem border_not_prefix :
    ¬ positionKey 16 (511 / 33554432) 0 <+: positionKey 18 (511 / 33554432) 0 := by
  decide +kernel

end SLDM.QuadKey
