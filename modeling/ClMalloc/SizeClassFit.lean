import ClMalloc.SizeClass
import ClMalloc.Lib.Checked

/-!
# The class of a layout is the least that fits

The sizes of the classes increase, so the class of a size is below an index exactly when the
size is at most that of the index. All class sizes are even, so a table with one entry for
each even size loses nothing, and a class whose size is a multiple of the alignment and holds
the request holds the padded request too.
-/

namespace ClMalloc

/-- `usize::next_multiple_of`: the sum of the number and what it lacks has to fit. -/
def nextMultipleOfChecked (n k : ℕ) : Option ℕ :=
  if n % k = 0 then some n else Checked.add 0x10000000000000000 n (k - n % k)

/-- `class_index` with its checks: the rounding, the decrement and the bound of the table. -/
def classIndexChecked (layout : Layout) : Option (Option ℕ) := do
  let rounded ← nextMultipleOfChecked layout.size layout.align
  let size := max rounded minSize
  if maxSlabSize < size then some none
  else
    let last ← Checked.sub size 1
    Checked.require (last / 2 < maxSlabSize / 2)
    some (some (classTable (last / 2)))

/-- Class sizes increase, and are even. -/
theorem classSize_lt_succ {i : ℕ} (hi : i + 1 < numClasses) :
    classSize i < classSize (i + 1) ∧ 2 ∣ classSize i := by
  have hi' : i < 48 := Nat.lt_of_succ_lt_succ hi
  interval_cases i <;> decide

/-- Class sizes are ordered as their indices. -/
theorem classSize_mono {i j : ℕ} (hij : i ≤ j) (hj : j < numClasses) :
    classSize i ≤ classSize j := by
  induction j with
  | zero => rw [Nat.le_zero.mp hij]
  | succ j ih =>
    rcases Nat.lt_or_ge i (j + 1) with hlt | hge
    · exact (ih (Nat.le_of_lt_succ hlt) (Nat.lt_of_succ_lt hj)).trans (classSize_lt_succ hj).1.le
    · rw [le_antisymm hij hge]

/-- Every class size is even. -/
theorem two_dvd_classSize {i : ℕ} (hi : i < numClasses) : 2 ∣ classSize i := by
  rcases Nat.lt_or_ge (i + 1) numClasses with hlt | hge
  · exact (classSize_lt_succ hlt).2
  · have : i = 48 := Nat.le_antisymm (Nat.le_of_lt_succ hi) (Nat.le_of_succ_le_succ hge)
    subst this
    decide

/-- The class size is less than one quarter step above the size. -/
theorem classSize_lt_add_step {size : ℕ} (hmin : minSize ≤ size) (hlt : size < maxSlabSize) :
    2 ^ Nat.log2 size + classSubStep size * (2 ^ Nat.log2 size / 4) <
      size + 2 ^ Nat.log2 size / 4 := by
  obtain ⟨hk3, -, hlow, -⟩ := log2_bounds hmin hlt
  have hstep := (four_mul_pow_div_four hk3).2
  have hpos : 0 < 2 ^ (Nat.log2 size - 2) := Nat.two_pow_pos _
  have hmul := Nat.div_mul_le_self (size - 2 ^ Nat.log2 size + 2 ^ (Nat.log2 size - 2) - 1)
    (2 ^ (Nat.log2 size - 2))
  unfold classSubStep
  rw [hstep]
  omega

/-- No class below the one of a size holds it. -/
theorem classSize_lt_of_lt {size i : ℕ} (hmin : minSize ≤ size) (hmax : size ≤ maxSlabSize)
    (hi : i < classIndexFromSize size) : classSize i < size := by
  rcases Nat.lt_or_ge size maxSlabSize with hlt | htop
  · obtain ⟨hk3, hk14, hlow, -⟩ := log2_bounds hmin hlt
    obtain ⟨hidx, hj⟩ := classIndexFromSize_eq hmin hlt
    obtain ⟨hrange, hsize⟩ := classSize_group hk3 hk14 hj
    rw [hidx] at hi
    have hbelow := classSize_lt_add_step hmin hlt
    obtain ⟨before, hbefore⟩ : ∃ before, (Nat.log2 size - 3) * 4 + classSubStep size = before + 1 :=
      ⟨_, (Nat.succ_pred_eq_of_pos (Nat.lt_of_le_of_lt (Nat.zero_le _) hi)).symm⟩
    have hle : classSize i ≤ classSize before := classSize_mono (by omega) (by omega)
    refine lt_of_le_of_lt hle ?_
    rcases Nat.eq_zero_or_pos (classSubStep size) with hzero | hpos
    · have hnext := (classSize_lt_succ (i := before) (by omega)).1
      rw [← hbefore, hsize, hzero] at hnext
      omega
    · obtain ⟨j, hj'⟩ : ∃ j, classSubStep size = j + 1 := ⟨_, (Nat.succ_pred_eq_of_pos hpos).symm⟩
      have hgroup := (classSize_group (j := j) hk3 hk14 (by omega)).2
      rw [show before = (Nat.log2 size - 3) * 4 + j by omega, hgroup]
      rw [hj', Nat.add_mul, Nat.one_mul] at hbelow
      omega
  · have hlast : classIndexFromSize size = 48 := by
      rw [le_antisymm hmax htop]
      decide
    rw [hlast] at hi
    rw [le_antisymm hmax htop]
    interval_cases i <;> decide

/-- The class of a size is at most an index exactly when the size is at most that of the index. -/
theorem classIndexFromSize_le_iff {size i : ℕ} (hmin : minSize ≤ size) (hmax : size ≤ maxSlabSize)
    (hi : i < numClasses) :
    classIndexFromSize size ≤ i ↔ size ≤ classSize i := by
  constructor
  · intro hle
    exact (classIndexFromSize_fits hmin hmax).2.trans (classSize_mono hle hi)
  · intro hle
    by_contra hlt
    exact absurd (classSize_lt_of_lt hmin hmax (Nat.not_le.mp hlt)) (Nat.not_lt.mpr hle)

/-- The table gives the class of every size, although it has an entry for every other one only. -/
theorem classTable_eq {size : ℕ} (hmin : minSize ≤ size) (hmax : size ≤ maxSlabSize) :
    classTable ((size - 1) / 2) = classIndexFromSize size := by
  unfold classTable
  have heven : max (((size - 1) / 2 + 1) * 2) minSize = size + size % 2 := by
    simp only [minSize] at hmin ⊢
    omega
  have hle : size + size % 2 ≤ maxSlabSize := by
    simp only [maxSlabSize] at hmax ⊢
    omega
  rw [heven]
  obtain ⟨hrange, hfits⟩ := classIndexFromSize_fits hmin hmax
  obtain ⟨hrange', hfits'⟩ := classIndexFromSize_fits (hmin.trans (Nat.le_add_right _ _)) hle
  apply le_antisymm
  · rw [classIndexFromSize_le_iff (hmin.trans (Nat.le_add_right _ _)) hle hrange]
    have htwo := two_dvd_classSize hrange
    omega
  · rw [classIndexFromSize_le_iff hmin hmax hrange']
    omega

/-- A class wastes at most a quarter of the size it is chosen for. -/
theorem four_mul_classSize_le {size : ℕ} (hmin : minSize ≤ size) (hmax : size ≤ maxSlabSize) :
    4 * classSize (classIndexFromSize size) ≤ 5 * size := by
  rcases Nat.lt_or_ge size maxSlabSize with hlt | htop
  · obtain ⟨hk3, hk14, hlow, -⟩ := log2_bounds hmin hlt
    obtain ⟨hidx, hj⟩ := classIndexFromSize_eq hmin hlt
    have hbelow := classSize_lt_add_step hmin hlt
    rw [hidx, (classSize_group hk3 hk14 hj).2]
    obtain ⟨hbase, hstep⟩ := four_mul_pow_div_four hk3
    rw [hstep] at hbelow ⊢
    omega
  · rw [le_antisymm hmax htop]
    decide

/-- The rounding up never leaves 64 bits for a layout Rust admits. -/
theorem nextMultipleOfChecked_eq (layout : Layout) :
    nextMultipleOfChecked layout.size layout.align =
      some (nextMultipleOf layout.size layout.align) := by
  obtain ⟨m, hm⟩ := layout.align_pow
  have hpos : 0 < layout.align := hm ▸ Nat.two_pow_pos m
  have hle : nextMultipleOf layout.size layout.align ≤ 2 ^ 63 - 1 := layout.size_le
  have hround : nextMultipleOf layout.size layout.align =
      if layout.size % layout.align = 0 then layout.size
      else layout.size + (layout.align - layout.size % layout.align) := by
    unfold nextMultipleOf
    have hdiv := Nat.div_add_mod layout.size layout.align
    have hmod := Nat.mod_lt layout.size hpos
    generalize layout.size / layout.align = q at hdiv
    generalize layout.size % layout.align = r at hdiv hmod
    rw [mul_comm] at hdiv
    by_cases hzero : r = 0
    · rw [if_pos hzero, ← hdiv, hzero, Nat.add_zero, Nat.add_sub_assoc hpos, mul_comm q,
        Nat.mul_add_div hpos, Nat.div_eq_of_lt (by omega), Nat.add_zero, mul_comm]
    · rw [if_neg hzero, ← hdiv, show q * layout.align + r + layout.align - 1 =
        layout.align * (q + 1) + (r - 1) by
        rw [Nat.mul_add, mul_comm]; omega, Nat.mul_add_div hpos, Nat.div_eq_of_lt (by omega),
          Nat.add_zero, Nat.add_mul]
      omega
  unfold nextMultipleOfChecked
  rw [hround] at hle ⊢
  by_cases hzero : layout.size % layout.align = 0
  · rw [if_pos hzero, if_pos hzero]
  · rw [if_neg hzero] at hle
    rw [if_neg hzero, if_neg hzero, Checked.add_eq (by omega)]

/-- No check fails in `class_index`. -/
theorem classIndexChecked_eq (layout : Layout) :
    classIndexChecked layout = some (classIndex layout) := by
  unfold classIndexChecked classIndex
  rw [nextMultipleOfChecked_eq]
  simp only [Option.bind_eq_bind, Option.bind_some]
  have hmin : minSize ≤ max (nextMultipleOf layout.size layout.align) minSize := le_max_right _ _
  generalize max (nextMultipleOf layout.size layout.align) minSize = size at hmin
  by_cases hlarge : maxSlabSize < size
  · rw [if_pos hlarge, if_pos hlarge]
  · rw [if_neg hlarge, if_neg hlarge]
    have hpos : 1 ≤ size := le_trans (by decide) hmin
    have hindex : (size - 1) / 2 < maxSlabSize / 2 := by
      simp only [maxSlabSize] at hlarge ⊢
      omega
    rw [Checked.sub_eq hpos, Option.bind_some, Checked.require_eq hindex, Option.bind_some]

/-- A multiple of the alignment that holds the request holds the padded request. -/
theorem nextMultipleOf_le {n k m : ℕ} (hk : 0 < k) (hle : n ≤ m) (hdvd : k ∣ m) :
    nextMultipleOf n k ≤ m := by
  obtain ⟨q, rfl⟩ := hdvd
  unfold nextMultipleOf
  have hdiv : (n + k - 1) / k ≤ q := by
    apply Nat.le_of_lt_succ
    apply Nat.div_lt_of_lt_mul
    rw [Nat.mul_succ]
    omega
  rw [mul_comm k]
  exact Nat.mul_le_mul_right k hdiv

/-- `class_index` checks nothing in vain and gives the least class that holds the request in
multiples of its alignment, with at most a quarter of the padded request to spare. -/
theorem classIndex_least (layout : Layout) (hsize : 1 ≤ layout.size) :
    classIndexChecked layout = some (classIndex layout) ∧
      (classIndex layout = none ↔ maxSlabSize < nextMultipleOf layout.size layout.align) ∧
      ∀ i, classIndex layout = some i →
        IsLeast {j | j < numClasses ∧ layout.size ≤ classSize j ∧ layout.align ∣ classSize j} i ∧
          i = classIndexFromSize (max (nextMultipleOf layout.size layout.align) minSize) ∧
          4 * classSize i ≤ 5 * max 8 (nextMultipleOf layout.size layout.align) := by
  obtain ⟨m, hm⟩ := layout.align_pow
  have hpos : 0 < layout.align := hm ▸ Nat.two_pow_pos m
  have hclass : classIndex layout = if maxSlabSize < paddedSize layout then none
      else some (classTable ((paddedSize layout - 1) / 2)) := rfl
  have hpadded : paddedSize layout = max (nextMultipleOf layout.size layout.align) minSize := rfl
  have hmin : minSize ≤ paddedSize layout := le_max_right _ _
  refine ⟨classIndexChecked_eq layout, ?_, fun i hi => ?_⟩
  · have hlarge : maxSlabSize < paddedSize layout ↔
        maxSlabSize < nextMultipleOf layout.size layout.align := by
      rw [hpadded]
      simp only [maxSlabSize, minSize]
      omega
    rw [hclass, ← hlarge]
    split <;> simp_all
  · obtain ⟨hrange, hfits, hdvd⟩ := classIndex_spec hsize hi
    rw [hclass] at hi
    split at hi <;> try contradiction
    case isFalse hmax =>
      rw [Nat.not_lt] at hmax
      rw [classTable_eq hmin hmax, Option.some.injEq] at hi
      refine ⟨⟨⟨hrange, hfits, hdvd⟩, fun j hj => ?_⟩, hi.symm, ?_⟩
      · -- A class that holds the request in multiples of the alignment holds the padded request.
        obtain ⟨hj, hfitsj, hdvdj⟩ := hj
        rw [← hi, classIndexFromSize_le_iff hmin hmax hj, hpadded]
        apply max_le
        · exact nextMultipleOf_le hpos hfitsj hdvdj
        · exact (classSize_mono (Nat.zero_le j) hj).trans' (by decide)
      · rw [← hi, max_comm, show max (nextMultipleOf layout.size layout.align) 8 =
          paddedSize layout from rfl]
        exact four_mul_classSize_le hmin hmax

/-- A layout whose alignment is above the next class size. -/
def skewed : Layout := ⟨33, 32, ⟨5, rfl⟩, Nat.le_of_ble_eq_true rfl⟩

/-- The class of 40 bytes would hold it, but 40 is no multiple of 32. -/
theorem classIndex_least_skewed :
    classIndex skewed = some 12 ∧ classSize 9 = 40 ∧ classSize 12 = 64 ∧
    IsLeast {j | j < numClasses ∧ skewed.size ≤ classSize j ∧ skewed.align ∣ classSize j} 12 := by
  have hclass : classIndex skewed = some 12 := by decide
  exact ⟨hclass, by decide, by decide, ((classIndex_least skewed (by decide)).2.2 12 hclass).1⟩

end ClMalloc
