import Mathlib.Data.Nat.Log
import Mathlib.Data.Nat.Bitwise
import Mathlib.Tactic.IntervalCases

/-!
# Size classes

The class of a layout is found by rounding its size up to its alignment, clamping to
eight bytes, and indexing a table with one entry per even size. Each power-of-two group
has four classes; a last class of 32768 bytes closes the range. The results say what the
slab layer needs of a chosen class: it is in range, it fits the request, and its size is a
multiple of the requested alignment.
-/

namespace ClMalloc

/-- A layout Rust admits: a power-of-two alignment and a padded size within `isize::MAX`. -/
structure Layout where
  size : ℕ
  align : ℕ
  align_pow : ∃ m, align = 2 ^ m
  size_le : (size + align - 1) / align * align ≤ 2 ^ 63 - 1
  deriving DecidableEq

/-- Minimum allocation size, and the minimum guaranteed alignment. -/
def minSize : ℕ := 8

/-- Sub-steps per power-of-two group. -/
def subSteps : ℕ := 4

/-- Smallest group exponent. -/
def minK : ℕ := 3

/-- Largest regular group exponent. -/
def maxK : ℕ := 14

/-- The number of regular classes, four in each group. -/
def numRegular : ℕ := (maxK - minK + 1) * subSteps

/-- The largest slab-served size. -/
def maxSlabSize : ℕ := 32768

/-- Total number of slab-served size classes. -/
def numClasses : ℕ := numRegular + 1

/-- Rust's `next_multiple_of` on positive divisors. -/
def nextMultipleOf (n k : ℕ) : ℕ := (n + k - 1) / k * k

/-- The class of a size in `8 ..= 32768`, by bit arithmetic on its leading power of two. -/
def classIndexFromSize (size : ℕ) : ℕ :=
  if maxSlabSize ≤ size then numRegular
  else
    let k := Nat.log2 size
    let base := 2 ^ k
    let step := base / 4
    let j := (size - base + step - 1) / step
    if subSteps ≤ j then
      if maxK < k + 1 then numRegular else (k + 1 - minK) * subSteps
    else (k - minK) * subSteps + j

/-- Entry `i` of the precomputed table is the class of the even size `2 * (i + 1)`, clamped to
eight. -/
def classTable (i : ℕ) : ℕ := classIndexFromSize (max ((i + 1) * 2) minSize)

/-- The size class of a layout, or `none` for a large allocation. -/
def classIndex (layout : Layout) : Option ℕ :=
  let size := max (nextMultipleOf layout.size layout.align) minSize
  if maxSlabSize < size then none else some (classTable ((size - 1) / 2))

/-- The slot size of a class index. -/
def classSize (index : ℕ) : ℕ :=
  if numRegular ≤ index then maxSlabSize
  else
    let base := 2 ^ (index / subSteps + minK)
    base + index % subSteps * (base / 4)

/-- The leading exponent of a size below the last class is one of the twelve groups. -/
theorem log2_bounds {size : ℕ} (hmin : minSize ≤ size) (hmax : size < maxSlabSize) :
    3 ≤ Nat.log2 size ∧ Nat.log2 size ≤ 14 ∧ 2 ^ Nat.log2 size ≤ size ∧
      size < 2 ^ (Nat.log2 size + 1) := by
  simp only [minSize, maxSlabSize] at hmin hmax
  have hne : size ≠ 0 := by omega
  have hlow : 2 ^ Nat.log2 size ≤ size := (Nat.le_log2 hne).mp le_rfl
  have hhigh : size < 2 ^ (Nat.log2 size + 1) := (Nat.log2_lt hne).mp (Nat.lt_succ_self _)
  refine ⟨(Nat.le_log2 hne).mpr (by omega), ?_, hlow, hhigh⟩
  have : Nat.log2 size < 15 := (Nat.log2_lt hne).mpr (by omega)
  omega

/-- The number of quarter steps from the leading power of two up to the class serving `size`. -/
def classSubStep (size : ℕ) : ℕ :=
  (size - 2 ^ Nat.log2 size + 2 ^ Nat.log2 size / 4 - 1) / (2 ^ Nat.log2 size / 4)

/-- A leading power of two of at least eight is four whole quarter steps. -/
theorem four_mul_pow_div_four {k : ℕ} (hk3 : 3 ≤ k) :
    2 ^ k = 2 ^ (k - 2) * 4 ∧ 2 ^ k / 4 = 2 ^ (k - 2) := by
  have hpow : 2 ^ k = 2 ^ (k - 2) * 4 := by
    rw [show (4 : ℕ) = 2 ^ 2 from rfl, ← pow_add]
    congr 1
    omega
  exact ⟨hpow, by omega⟩

/-- Below the last class, the index counts four classes per group plus the quarter steps. -/
theorem classIndexFromSize_eq {size : ℕ} (hmin : minSize ≤ size) (hmax : size < maxSlabSize) :
    classIndexFromSize size = (Nat.log2 size - 3) * 4 + classSubStep size ∧
      classSubStep size ≤ 4 := by
  obtain ⟨hk3, hk14, hlow, hhigh⟩ := log2_bounds hmin hmax
  obtain ⟨hbase, hstep⟩ := four_mul_pow_div_four hk3
  have hj : classSubStep size ≤ 4 := by
    unfold classSubStep
    rw [hstep]
    refine Nat.le_of_lt_succ (Nat.div_lt_of_lt_mul ?_)
    rw [pow_succ] at hhigh
    omega
  refine ⟨?_, hj⟩
  rw [classIndexFromSize, if_neg (not_le.mpr hmax)]
  change (if subSteps ≤ classSubStep size then _
    else (Nat.log2 size - minK) * subSteps + classSubStep size) = _
  by_cases hwrap : subSteps ≤ classSubStep size
  · rw [if_pos hwrap]
    by_cases hlast : maxK < Nat.log2 size + 1
    · rw [if_pos hlast]
      simp only [subSteps, maxK, minK, numRegular] at hwrap hlast ⊢
      omega
    · rw [if_neg hlast]
      simp only [subSteps, minK] at hwrap ⊢
      omega
  · rw [if_neg hwrap]
    rfl

/-- A class index written by group and quarter steps has the expected size, four steps included. -/
theorem classSize_group {k j : ℕ} (hk3 : 3 ≤ k) (hk14 : k ≤ 14) (hj : j ≤ 4) :
    (k - 3) * 4 + j < numClasses ∧ classSize ((k - 3) * 4 + j) = 2 ^ k + j * (2 ^ k / 4) := by
  interval_cases k <;> interval_cases j <;> decide

/-- The class chosen for a size is in range and fits it. -/
theorem classIndexFromSize_fits {size : ℕ} (hmin : minSize ≤ size) (hmax : size ≤ maxSlabSize) :
    classIndexFromSize size < numClasses ∧ size ≤ classSize (classIndexFromSize size) := by
  rcases Nat.lt_or_ge size maxSlabSize with hlt | htop
  · obtain ⟨hk3, hk14, hlow, hhigh⟩ := log2_bounds hmin hlt
    obtain ⟨hidx, hj⟩ := classIndexFromSize_eq hmin hlt
    obtain ⟨hrange, hsize⟩ := classSize_group hk3 hk14 hj
    rw [hidx]
    refine ⟨hrange, ?_⟩
    rw [hsize]
    have hstep := (four_mul_pow_div_four hk3).2
    have hpos : 0 < 2 ^ (Nat.log2 size - 2) := Nat.two_pow_pos _
    have hceil : size - 2 ^ Nat.log2 size ≤ classSubStep size * (2 ^ Nat.log2 size / 4) := by
      unfold classSubStep
      rw [hstep, mul_comm]
      have := Nat.lt_mul_div_succ (size - 2 ^ Nat.log2 size + 2 ^ (Nat.log2 size - 2) - 1) hpos
      rw [Nat.mul_add] at this
      omega
    omega
  · have : size = maxSlabSize := le_antisymm hmax htop
    subst this
    decide

/-- A power of two dividing a size divides the size of its class.

Either it divides the quarter step of the group, or the size is itself a class size. -/
theorem classSize_dvd_of_dvd {size m : ℕ} (hmin : minSize ≤ size) (hmax : size ≤ maxSlabSize)
    (hdvd : 2 ^ m ∣ size) : 2 ^ m ∣ classSize (classIndexFromSize size) := by
  rcases Nat.lt_or_ge size maxSlabSize with hlt | htop
  · obtain ⟨hk3, hk14, hlow, hhigh⟩ := log2_bounds hmin hlt
    obtain ⟨hidx, hj⟩ := classIndexFromSize_eq hmin hlt
    rw [hidx, (classSize_group hk3 hk14 hj).2]
    obtain ⟨hbase, hstep⟩ := four_mul_pow_div_four hk3
    have hclass : 2 ^ (Nat.log2 size - 2) ∣ 2 ^ Nat.log2 size := ⟨4, hbase⟩
    rcases Nat.le_total m (Nat.log2 size - 2) with hle | hge
    · have hm : 2 ^ m ∣ 2 ^ (Nat.log2 size - 2) := pow_dvd_pow 2 hle
      rw [hstep]
      exact Nat.dvd_add (hm.trans hclass) (Dvd.dvd.mul_left hm _)
    · have hquarter : 2 ^ (Nat.log2 size - 2) ∣ size - 2 ^ Nat.log2 size :=
        Nat.dvd_sub ((pow_dvd_pow 2 hge).trans hdvd) hclass
      obtain ⟨q, hq⟩ := hquarter
      have hpos : 0 < 2 ^ (Nat.log2 size - 2) := Nat.two_pow_pos _
      have hexact : classSubStep size = q := by
        unfold classSubStep
        rw [hstep, hq, Nat.add_sub_assoc hpos, Nat.mul_add_div hpos,
          Nat.div_eq_of_lt (Nat.sub_lt hpos Nat.one_pos), Nat.add_zero]
      have : 2 ^ Nat.log2 size + classSubStep size * (2 ^ Nat.log2 size / 4) = size := by
        rw [hexact, hstep, mul_comm, ← hq]
        omega
      rw [this]
      exact hdvd
  · have : size = maxSlabSize := le_antisymm hmax htop
    subst this
    exact hdvd

/-- The padded, clamped size the class lookup works with. -/
def paddedSize (layout : Layout) : ℕ := max (nextMultipleOf layout.size layout.align) minSize

/-- Rounding up to a positive divisor does not lose size and yields a multiple. -/
theorem nextMultipleOf_spec {n k : ℕ} (hk : 0 < k) :
    n ≤ nextMultipleOf n k ∧ k ∣ nextMultipleOf n k := by
  refine ⟨?_, Dvd.intro_left _ rfl⟩
  have h := Nat.lt_mul_div_succ (n + k - 1) hk
  rw [Nat.mul_add, mul_comm] at h
  unfold nextMultipleOf
  omega

/-- A nonempty layout's padded size holds the request and is a multiple of its alignment. -/
theorem paddedSize_spec (layout : Layout) (hsize : 1 ≤ layout.size) :
    minSize ≤ paddedSize layout ∧ layout.size ≤ paddedSize layout ∧
      layout.align ∣ paddedSize layout := by
  obtain ⟨m, hm⟩ := layout.align_pow
  have hpos : 0 < layout.align := hm ▸ Nat.two_pow_pos m
  obtain ⟨hle, hdvd⟩ := nextMultipleOf_spec (n := layout.size) hpos
  unfold paddedSize
  refine ⟨le_max_right _ _, hle.trans (le_max_left _ _), ?_⟩
  rcases Nat.le_total minSize (nextMultipleOf layout.size layout.align) with hbig | hsmall
  · rwa [max_eq_left hbig]
  · rw [max_eq_right hsmall]
    have halign : layout.align ≤ 2 ^ 3 := (Nat.le_of_dvd (by omega) hdvd).trans hsmall
    rw [hm] at halign ⊢
    exact pow_dvd_pow 2 ((Nat.pow_le_pow_iff_right (by decide)).mp halign)

/-- The even size whose table entry serves a padded size. -/
theorem classIndex_eq_some {layout : Layout} {idx : ℕ} (hsize : 1 ≤ layout.size)
    (h : classIndex layout = some idx) :
    ∃ even, idx = classIndexFromSize even ∧ minSize ≤ even ∧ even ≤ maxSlabSize ∧
      paddedSize layout ≤ even ∧ layout.align ∣ even := by
  obtain ⟨hmin, -, hdvd⟩ := paddedSize_spec layout hsize
  unfold classIndex at h
  simp only at h
  change (if maxSlabSize < paddedSize layout then none
    else some (classTable ((paddedSize layout - 1) / 2))) = some idx at h
  split at h
  · contradiction
  · simp only [Option.some.injEq] at h
    rename_i hmax
    refine ⟨max (((paddedSize layout - 1) / 2 + 1) * 2) minSize, h.symm,
      le_max_right _ _, ?_, ?_, ?_⟩
    · simp only [maxSlabSize, minSize] at hmax hmin ⊢
      omega
    · simp only [minSize] at hmin ⊢
      omega
    · obtain ⟨m, hm⟩ := layout.align_pow
      cases m with
      | zero => simp [hm]
      | succ m =>
        have heven : 2 ∣ paddedSize layout :=
          (hm ▸ Dvd.intro_left _ rfl : 2 ∣ layout.align).trans hdvd
        have heq : max (((paddedSize layout - 1) / 2 + 1) * 2) minSize = paddedSize layout := by
          simp only [minSize] at hmin ⊢
          omega
        rwa [heq]

/-- A chosen class is in range, fits the request, and its size is a multiple of the alignment. -/
theorem classIndex_spec {layout : Layout} {idx : ℕ} (hsize : 1 ≤ layout.size)
    (h : classIndex layout = some idx) :
    idx < numClasses ∧ layout.size ≤ classSize idx ∧ layout.align ∣ classSize idx := by
  obtain ⟨even, rfl, hmin, hmax, hle, hdvd⟩ := classIndex_eq_some hsize h
  obtain ⟨hrange, hfit⟩ := classIndexFromSize_fits hmin hmax
  refine ⟨hrange, ((paddedSize_spec layout hsize).2.1.trans hle).trans hfit, ?_⟩
  obtain ⟨m, hm⟩ := layout.align_pow
  rw [hm] at hdvd ⊢
  exact classSize_dvd_of_dvd hmin hmax hdvd

end ClMalloc
