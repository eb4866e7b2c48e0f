import ClMalloc.PprofLive
import Mathlib.Algebra.Order.Round
import Mathlib.Analysis.Complex.ExponentialBounds

/-!
# The profiler's floating point, read as exact real arithmetic

Bytes are sampled by a Poisson process with one event in `interval` bytes on average, so an
allocation is hit with chance `1 - e^(-size / interval)` and a hit stands for `size` divided by
that chance. `unbiasedWeight` rounds the number of allocations of the size this makes, except
for sizes under a millionth of the interval: there it returns the interval itself, which is
the number of bytes and not of allocations.
-/

namespace ClMalloc

/-- `f64::round`, which rounds ties away from zero. -/
noncomputable def f64Round (x : ℝ) : ℤ := if 0 ≤ x then round x else -round (-x)

/-- The cast of a float to a `u64`, which cuts off the fraction and saturates. -/
noncomputable def asU64 (x : ℝ) : ℕ := min ⌊x⌋₊ 0xffffffffffffffff

/-- `f64::MIN_POSITIVE`. -/
noncomputable def minPositive : ℝ := (2 ^ 1022)⁻¹

/-- `geometric`, given the number the generator returns. -/
noncomputable def geometric (u : ℝ) (mean : ℕ) : ℕ :=
  let u := if u ≤ 0 then minPositive else u
  let result := -(mean : ℝ) * Real.log u
  max (asU64 ⌈result⌉) 1

/-- `unbiased_weight`. -/
noncomputable def unbiasedWeight (size interval : ℕ) : ℕ :=
  let z : ℝ := size
  let r : ℝ := interval
  let ratio := z / r
  if ratio < 1e-6 then interval
  else
    let w := z / (1 - Real.exp (-ratio))
    asU64 (max (f64Round (w / z)) 1)

/-- The profiler's floating point on exact reals, with a generator of numbers from zero to one. -/
noncomputable def exactFloats {R : Type*} (seedFromU64 : ℕ → R) (random : R → ℝ × R) :
    Floats R where
  seedFromU64 := seedFromU64
  geometric := fun rng mean => (geometric (random rng).1 mean, (random rng).2)
  unbiasedWeight := unbiasedWeight

/-- The chance that a Poisson process of rate one has an event in a stretch of length `x`. -/
noncomputable def hitChance (x : ℝ) : ℝ := 1 - Real.exp (-x)

/-- The bytes one sample of the size stands for. -/
noncomputable def estimatedBytes (size interval : ℕ) : ℝ := size / hitChance (size / interval)

section HitChance

variable {x : ℝ}

/-- A stretch of positive length may be hit. -/
theorem hitChance_pos (hx : 0 < x) : 0 < hitChance x := by
  have hexp : Real.exp (-x) < 1 := Real.exp_lt_one_iff.mpr (neg_neg_of_pos hx)
  unfold hitChance
  linarith

/-- A hit is never certain. -/
theorem hitChance_lt_one (x : ℝ) : hitChance x < 1 := by
  have hexp := Real.exp_pos (-x)
  unfold hitChance
  linarith

/-- The chance of a hit is at most the number of events expected. -/
theorem hitChance_le (x : ℝ) : hitChance x ≤ x := by
  have hexp := Real.add_one_le_exp (-x)
  unfold hitChance
  linarith

/-- The chance of a hit is at least the number of events expected over one more. -/
theorem le_mul_hitChance (x : ℝ) : x ≤ (x + 1) * hitChance x := by
  have hexp := Real.add_one_le_exp x
  have hone : Real.exp x * Real.exp (-x) = 1 := by
    rw [← Real.exp_add, add_neg_cancel, Real.exp_zero]
  have hle : (x + 1) * Real.exp (-x) ≤ 1 := by
    calc (x + 1) * Real.exp (-x) ≤ Real.exp x * Real.exp (-x) :=
          mul_le_mul_of_nonneg_right hexp (Real.exp_pos (-x)).le
      _ = 1 := hone
  unfold hitChance
  linarith

/-- A hit stands for at least the events' mean distance. -/
theorem inv_le_inv_hitChance (hx : 0 < x) : 1 / x ≤ 1 / hitChance x :=
  one_div_le_one_div_of_le (hitChance_pos hx) (hitChance_le x)

/-- A hit stands for at most the events' mean distance and one stretch. -/
theorem inv_hitChance_le (hx : 0 < x) : 1 / hitChance x ≤ 1 / x + 1 := by
  have hpos := hitChance_pos hx
  rw [div_add_one hx.ne', div_le_div_iff₀ hpos hx]
  linarith [le_mul_hitChance x]

/-- A hit stands for more than itself. -/
theorem one_lt_inv_hitChance (hx : 0 < x) : 1 < 1 / hitChance x :=
  (one_lt_div (hitChance_pos hx)).mpr (hitChance_lt_one x)

end HitChance

/-- A sample of the size is right on average. -/
theorem estimatedBytes_mul_hitChance {size interval : ℕ} (hsize : 0 < size)
    (hinterval : 0 < interval) :
    hitChance (size / interval) * estimatedBytes size interval = size := by
  have hpos : 0 < hitChance ((size : ℝ) / interval) := hitChance_pos (by positivity)
  unfold estimatedBytes
  field_simp

/-- The cast leaves an integer in range as it is. -/
theorem asU64_intCast {n : ℤ} (hn : 0 ≤ n) (hlt : n < 0x10000000000000000) : (asU64 n : ℤ) = n := by
  obtain ⟨k, rfl⟩ := Int.eq_ofNat_of_zero_le hn
  rw [Int.cast_natCast, asU64, Nat.floor_natCast]
  omega

/-- The cast gives a value of the type. -/
theorem asU64_lt (x : ℝ) : asU64 x < 0x10000000000000000 := by
  unfold asU64
  omega

/-- Rounding moves a number by at most one half. -/
theorem abs_sub_f64Round {x : ℝ} (hx : 0 ≤ x) : |x - f64Round x| ≤ 1 / 2 := by
  rw [f64Round, if_pos hx]
  exact abs_sub_round x

section UnbiasedWeight

variable {size interval : ℕ}

/-- The threshold of the shortcut, in whole numbers. -/
theorem ratio_lt_iff (hinterval : 0 < interval) :
    (size : ℝ) / interval < 1e-6 ↔ 1000000 * size < interval := by
  have hr : (0 : ℝ) < interval := by exact_mod_cast hinterval
  rw [div_lt_iff₀ hr, ← @Nat.cast_lt ℝ]
  push_cast
  constructor <;> intro h <;> linarith

/-- Under the threshold the weight is the interval. -/
theorem unbiasedWeight_small (hinterval : 0 < interval) (hsmall : 1000000 * size < interval) :
    unbiasedWeight size interval = interval := by
  simp only [unbiasedWeight, if_pos ((ratio_lt_iff hinterval).mpr hsmall)]

/-- From the threshold on the weight is the inverse chance, rounded. -/
theorem unbiasedWeight_general (hsize : 0 < size) (hinterval : 0 < interval)
    (hratio : interval ≤ 1000000 * size) :
    (unbiasedWeight size interval : ℤ) = f64Round (1 / hitChance (size / interval)) := by
  have hz : (0 : ℝ) < size := by exact_mod_cast hsize
  have hr : (0 : ℝ) < interval := by exact_mod_cast hinterval
  have hx : (0 : ℝ) < size / interval := div_pos hz hr
  have hnot : ¬(size : ℝ) / interval < 1e-6 := fun h => by
    have hlt := (ratio_lt_iff hinterval).mp h
    omega
  have hquot : (size : ℝ) / hitChance (size / interval) / size =
      1 / hitChance (size / interval) := by
    field_simp
  have hone := one_lt_inv_hitChance hx
  have habs := abs_le.mp (abs_sub_f64Round (zero_le_one.trans hone.le))
  have hmean : 1 / ((size : ℝ) / interval) ≤ 1000000 := by
    rw [one_div_div, div_le_iff₀ hz]
    exact_mod_cast hratio
  have hupper := inv_hitChance_le hx
  have hpos : (1 : ℤ) ≤ f64Round (1 / hitChance (size / interval)) := by
    have hreal : (0 : ℝ) < f64Round (1 / hitChance (size / interval)) := by linarith [habs.2]
    exact_mod_cast hreal
  have hlt : f64Round (1 / hitChance ((size : ℝ) / interval)) < 0x10000000000000000 := by
    have hreal : (f64Round (1 / hitChance ((size : ℝ) / interval)) : ℝ) < 0x10000000000000000 := by
      linarith [habs.1]
    exact_mod_cast hreal
  have hmax : max (f64Round (1 / hitChance ((size : ℝ) / interval)) : ℝ) 1 =
      f64Round (1 / hitChance ((size : ℝ) / interval)) := max_eq_left (by exact_mod_cast hpos)
  have hweight : unbiasedWeight size interval =
      asU64 (f64Round (1 / hitChance ((size : ℝ) / interval))) := by
    rw [← hmax, ← hquot]
    simp only [unbiasedWeight, if_neg hnot, hitChance]
  rw [hweight]
  exact asU64_intCast (by omega) hlt

/-- From the threshold on the weight is within one half of the inverse chance. -/
theorem abs_unbiasedWeight_sub_le (hsize : 0 < size) (hinterval : 0 < interval)
    (hratio : interval ≤ 1000000 * size) :
    |1 / hitChance (size / interval) - unbiasedWeight size interval| ≤ 1 / 2 := by
  have hx : (0 : ℝ) < size / interval := by positivity
  have hcast : (unbiasedWeight size interval : ℝ) = f64Round (1 / hitChance (size / interval)) := by
    exact_mod_cast congrArg (Int.cast : ℤ → ℝ) (unbiasedWeight_general hsize hinterval hratio)
  rw [hcast]
  exact abs_sub_f64Round (zero_le_one.trans (one_lt_inv_hitChance hx).le)

/-- The formula is within one size of the interval, above it. -/
theorem estimatedBytes_bounds (hsize : 0 < size) (hinterval : 0 < interval) :
    (interval : ℝ) ≤ estimatedBytes size interval ∧
      estimatedBytes size interval ≤ interval + size := by
  have hz : (0 : ℝ) < size := by exact_mod_cast hsize
  have hx : (0 : ℝ) < size / interval := by positivity
  have hbytes : estimatedBytes size interval = size * (1 / hitChance (size / interval)) := by
    rw [estimatedBytes, mul_one_div]
  have hmean : (size : ℝ) * (1 / (size / interval)) = interval := by field_simp
  rw [hbytes]
  constructor
  · calc (interval : ℝ) = size * (1 / (size / interval)) := hmean.symm
      _ ≤ size * (1 / hitChance (size / interval)) :=
        mul_le_mul_of_nonneg_left (inv_le_inv_hitChance hx) hz.le
  · calc (size : ℝ) * (1 / hitChance (size / interval)) ≤ size * (1 / (size / interval) + 1) :=
          mul_le_mul_of_nonneg_left (inv_hitChance_le hx) hz.le
      _ = interval + size := by rw [mul_add, hmean, mul_one]

/-- The bytes a weight stands for are the formula's, up to half a size, from the threshold on. -/
theorem abs_weight_bytes_sub_le (hsize : 0 < size) (hinterval : 0 < interval)
    (hratio : interval ≤ 1000000 * size) :
    |estimatedBytes size interval - unbiasedWeight size interval * size| ≤ size / 2 := by
  have hz : (0 : ℝ) < size := by exact_mod_cast hsize
  have hbytes : estimatedBytes size interval - unbiasedWeight size interval * size =
      (1 / hitChance (size / interval) - unbiasedWeight size interval) * size := by
    rw [estimatedBytes]
    ring
  rw [hbytes, abs_mul, abs_of_pos hz]
  linarith [mul_le_mul_of_nonneg_right (abs_unbiasedWeight_sub_le hsize hinterval hratio) hz.le]

end UnbiasedWeight

/-- The bytes that a sample adds are within two sizes of the interval. -/
def WeightInRange (size interval : ℕ) : Prop :=
  (interval : ℤ) - 2 * size ≤ (unbiasedWeight size interval * size : ℕ) ∧
    ((unbiasedWeight size interval * size : ℕ) : ℤ) ≤ interval + 2 * size

/-- The bytes that a sample adds are within one size of `Z / (1 - e^(-Z / R))`. -/
def WeightWithinRounding (size interval : ℕ) : Prop :=
  |estimatedBytes size interval - (unbiasedWeight size interval * size : ℕ)| ≤ size

section InRange

variable {size interval : ℕ}

/-- The weight is the formula's from the threshold on. -/
theorem weight_general (hsize : 0 < size) (hinterval : 0 < interval)
    (hratio : interval ≤ 1000000 * size) :
    WeightInRange size interval ∧ WeightWithinRounding size interval := by
  have hz : (0 : ℝ) < size := by exact_mod_cast hsize
  obtain ⟨hlower, hupper⟩ := estimatedBytes_bounds hsize hinterval
  have habs := abs_weight_bytes_sub_le hsize hinterval hratio
  obtain ⟨hbelow, habove⟩ := abs_le.mp habs
  refine ⟨⟨?_, ?_⟩, ?_⟩
  · have hreal : (interval : ℝ) - 2 * size ≤ unbiasedWeight size interval * size := by linarith
    exact_mod_cast hreal
  · have hreal : (unbiasedWeight size interval * size : ℝ) ≤ interval + 2 * size := by linarith
    exact_mod_cast hreal
  · unfold WeightWithinRounding
    push_cast
    linarith

/-- Under the threshold the weight counts bytes, which is right for allocations of one byte only. -/
theorem weight_small (hsize : 0 < size) (hsmall : 1000000 * size < interval) :
    (WeightInRange size interval ↔ size = 1) ∧ (WeightWithinRounding size interval ↔ size = 1) := by
  have hinterval : 0 < interval := by omega
  obtain ⟨hlower, hupper⟩ := estimatedBytes_bounds hsize hinterval
  unfold WeightInRange WeightWithinRounding
  rw [unbiasedWeight_small hinterval hsmall]
  by_cases hone : size = 1
  · subst hone
    simp only [mul_one, Nat.cast_one, iff_true]
    refine ⟨by omega, abs_le.mpr ?_⟩
    push_cast at hupper
    constructor <;> linarith
  · have htwo : interval * 2 ≤ interval * size := Nat.mul_le_mul_left interval (by omega)
    simp only [hone, iff_false]
    refine ⟨by omega, fun hwithin => ?_⟩
    have hfar : (interval : ℝ) + 2 * size < (interval * size : ℕ) := by
      exact_mod_cast (by omega : interval + 2 * size < interval * size)
    linarith [(abs_le.mp hwithin).1]

/-- The weight of a sample is the formula's up to rounding exactly for one-byte allocations and for
sizes of at least a millionth of the interval. -/
theorem unbiasedWeight_inRange_iff (hsize : 1 ≤ size) (hinterval : 0 < interval) :
    (WeightInRange size interval ↔ size = 1 ∨ interval ≤ 1000000 * size) ∧
      (WeightWithinRounding size interval ↔ size = 1 ∨ interval ≤ 1000000 * size) := by
  by_cases hratio : interval ≤ 1000000 * size
  · obtain ⟨hrange, hwithin⟩ := weight_general hsize hinterval hratio
    simp only [hrange, hwithin, hratio, or_true, and_self]
  · simp only [hratio, or_false]
    exact weight_small hsize (not_le.mp hratio)

/-- The weight of an allocation as large as the default interval. -/
theorem unbiasedWeight_inRange_default : WeightInRange (512 * 1024) defaultSampleInterval :=
  (unbiasedWeight_inRange_iff (by decide) (by decide)).1.mpr (.inr (by decide))

/-- A sample of sixteen bytes at an interval of 32 million adds 512 million bytes. -/
theorem unbiasedWeight_interval_bytes :
    unbiasedWeight 16 32000000 * 16 = 512000000 ∧ ¬WeightInRange 16 32000000 := by
  have hweight : unbiasedWeight 16 32000000 = 32000000 :=
    unbiasedWeight_small (by decide) (by decide)
  unfold WeightInRange
  rw [hweight]
  decide

/-- Where `coarseWeight` is meant to hold, it is the weight. -/
theorem unbiasedWeight_eq_coarseWeight (hinterval : 0 < interval)
    (h : size * 1000000 < interval ∨ 2 * interval ≤ size) :
    unbiasedWeight size interval = coarseWeight size interval := by
  rcases h with hsmall | hlarge
  · rw [coarseWeight, if_pos hsmall]
    exact unbiasedWeight_small hinterval (by omega)
  · rw [coarseWeight, if_neg (by omega)]
    have hr : (0 : ℝ) < interval := by exact_mod_cast hinterval
    have hx : (2 : ℝ) ≤ size / interval := by
      rw [le_div_iff₀ hr]
      exact_mod_cast hlarge
    -- The chance of a hit is over two thirds, as `e^2` is over three.
    have hexp : Real.exp (-(size / interval)) * 3 < 1 := by
      have hthree := Real.add_one_lt_exp (two_ne_zero (α := ℝ))
      calc Real.exp (-(size / interval)) * 3 <
          Real.exp (-(size / interval)) * Real.exp (size / interval) := by
            apply mul_lt_mul_of_pos_left _ (Real.exp_pos _)
            linarith [Real.exp_le_exp.mpr hx]
        _ = 1 := by rw [← Real.exp_add, neg_add_cancel, Real.exp_zero]
    have hchance : 2 / 3 < hitChance (size / interval) := by
      unfold hitChance
      linarith
    have hupper : 1 / hitChance (size / interval) < 3 / 2 := by
      rw [div_lt_iff₀ (by linarith)]
      linarith
    have hlower := one_lt_inv_hitChance (x := (size : ℝ) / interval) (by linarith)
    have habs := abs_le.mp (abs_unbiasedWeight_sub_le (show 0 < size by omega) hinterval (by omega))
    have hlt : (unbiasedWeight size interval : ℝ) < 2 := by linarith [habs.1]
    have hpos : (0 : ℝ) < unbiasedWeight size interval := by linarith [habs.2]
    have hlt' : unbiasedWeight size interval < 2 := by exact_mod_cast hlt
    have hpos' : 0 < unbiasedWeight size interval := by exact_mod_cast hpos
    omega

end InRange

section Geometric

/-- A draw is positive. -/
theorem one_le_geometric (u : ℝ) (mean : ℕ) : 1 ≤ geometric u mean := le_max_right _ _

/-- A draw is a `u64`. -/
theorem geometric_lt (u : ℝ) (mean : ℕ) : geometric u mean < 0x10000000000000000 :=
  max_lt (asU64_lt _) (by decide)

/-- A draw from a logarithm at most `bound` in size is at most `bound` times its mean. -/
theorem geometric_le {u : ℝ} {mean bound : ℕ} (hu : 0 < u) (hlog : -Real.log u ≤ bound) :
    geometric u mean ≤ max (mean * bound) 1 := by
  have hresult : ⌈-(mean : ℝ) * Real.log u⌉ ≤ (mean * bound : ℕ) := by
    apply Int.ceil_le.mpr
    push_cast
    linarith [mul_le_mul_of_nonneg_left hlog (Nat.cast_nonneg (α := ℝ) mean)]
  have hcast : asU64 ⌈-(mean : ℝ) * Real.log u⌉ ≤ mean * bound := by
    apply (min_le_left _ _).trans
    apply Nat.floor_le_of_le
    exact_mod_cast hresult
  rw [geometric, if_neg (not_le.mpr hu)]
  exact max_le_max_right 1 hcast

/-- A draw is at least any `u64` under its logarithm times its mean. -/
theorem le_geometric {u : ℝ} {mean n : ℕ} (hu : 0 < u) (hlog : n ≤ -(mean : ℝ) * Real.log u)
    (hn : n < 0x10000000000000000) : n ≤ geometric u mean := by
  have hceil : (n : ℝ) ≤ (⌈-(mean : ℝ) * Real.log u⌉ : ℤ) := hlog.trans (Int.le_ceil _)
  have hcast : n ≤ asU64 ⌈-(mean : ℝ) * Real.log u⌉ := le_min (Nat.le_floor hceil) (by omega)
  rw [geometric, if_neg (not_le.mpr hu)]
  exact hcast.trans (le_max_left _ _)

/-- The logarithm of the smallest positive number. -/
theorem neg_log_minPositive_le : -Real.log minPositive ≤ (709 : ℕ) := by
  have htwo := Real.log_two_lt_d9
  rw [minPositive, Real.log_inv, Real.log_pow]
  push_cast
  linarith

/-- A draw of a mean up to `2^53` fits an `i64`, whatever the generator returns. -/
theorem geometric_le_of_mean_le {u : ℝ} {mean : ℕ} (hu : u ≤ 0 ∨ minPositive ≤ u)
    (hmean : mean ≤ 0x20000000000000) :
    geometric u mean ≤ 0x7fffffffffffffff := by
  have hpos : 0 < minPositive := by
    unfold minPositive
    positivity
  have hle {v : ℝ} (hv : minPositive ≤ v) : geometric v mean ≤ 0x7fffffffffffffff := by
    have hlog : -Real.log v ≤ (709 : ℕ) :=
      (neg_le_neg (Real.log_le_log hpos hv)).trans neg_log_minPositive_le
    have hdraw : geometric v mean ≤ max (mean * 709) 1 := geometric_le (hpos.trans_le hv) hlog
    omega
  rcases hu with hzero | hv
  · have hsame : geometric u mean = geometric minPositive mean := by
      simp only [geometric, if_pos hzero, if_neg (not_le.mpr hpos)]
    rw [hsame]
    exact hle le_rfl
  · exact hle hv

end Geometric

end ClMalloc
