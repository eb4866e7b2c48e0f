import Mathlib.Order.Interval.Finset.Nat
import Mathlib.Data.Nat.Bitwise

/-!
# Mapped pages

An address space as the set of its mapped pages, by number. Mapping adds whole pages from a
page boundary; unmapping needs a page boundary too, and then removes every page that meets
the range. The last part rounds an address up to a power of two with a mask.
-/

namespace PageMap

variable {page n addr len k : ℕ} {mapped : Finset ℕ}

/-- The number of pages that hold `len` bytes. -/
def pagesFor (page len : ℕ) : ℕ := (len + page - 1) / page

/-- The pages of a mapping of `len` bytes from `addr`. -/
def range (page addr len : ℕ) : Finset ℕ :=
  Finset.Ico (addr / page) (addr / page + pagesFor page len)

/-- Page `n` has a byte among the `len` bytes from `addr`. -/
def Meets (page n addr len : ℕ) : Prop := n * page < addr + len ∧ addr < (n + 1) * page

/-- Whether a page meets a range can be computed. -/
instance : Decidable (Meets page n addr len) := inferInstanceAs (Decidable (_ ∧ _))

/-- Map the pages that hold `len` bytes from `addr`. -/
def map (page : ℕ) (mapped : Finset ℕ) (addr len : ℕ) : Finset ℕ := mapped ∪ range page addr len

/-- Unmap every page that meets the range; an address off a page boundary is refused. -/
def unmap (page : ℕ) (mapped : Finset ℕ) (addr len : ℕ) : Finset ℕ :=
  if page ∣ addr then mapped.filter fun n => ¬Meets page n addr len else mapped

/-- A page is among those that hold `len` bytes when the bytes reach beyond its start. -/
theorem lt_pagesFor (hpage : 0 < page) : n < pagesFor page len ↔ n * page < len := by
  rw [pagesFor, Nat.lt_div_iff_mul_lt hpage]
  omega

/-- More bytes take no fewer pages. -/
theorem pagesFor_mono {len' : ℕ} (h : len ≤ len') : pagesFor page len ≤ pagesFor page len' := by
  apply Nat.div_le_div_right
  omega

/-- No bytes take no page. -/
theorem pagesFor_zero (hpage : 0 < page) : pagesFor page 0 = 0 := Nat.div_eq_of_lt (by omega)

/-- Whole pages come before the rest. -/
theorem pagesFor_mul_add (hpage : 0 < page) :
    pagesFor page (k * page + len) = k + pagesFor page len := by
  rw [pagesFor, pagesFor, show k * page + len + page - 1 = len + page - 1 + k * page by omega,
    Nat.add_mul_div_right _ _ hpage, Nat.add_comm]

/-- Whole pages take just as many. -/
theorem pagesFor_mul (hpage : 0 < page) : pagesFor page (k * page) = k := by
  have h : pagesFor page (k * page + 0) = k + pagesFor page 0 := pagesFor_mul_add hpage
  rwa [pagesFor_zero hpage] at h

/-- Up to a page of bytes takes one page. -/
theorem pagesFor_eq_one (hpos : 0 < len) (hle : len ≤ page) : pagesFor page len = 1 := by
  have hpage : 0 < page := hpos.trans_le hle
  apply Nat.le_antisymm
  · rw [← Nat.not_lt, lt_pagesFor hpage]
    omega
  · rw [← Nat.lt_iff_add_one_le, lt_pagesFor hpage]
    omega

/-- From a page boundary, the pages that meet a range are those that hold its bytes. -/
theorem meets_iff (hpage : 0 < page) :
    Meets page n (k * page) len ↔ k ≤ n ∧ n < k + pagesFor page len := by
  rw [Meets, Nat.mul_lt_mul_right hpage, Nat.lt_succ_iff]
  constructor
  · intro ⟨hhi, hlo⟩
    obtain ⟨d, rfl⟩ := Nat.exists_eq_add_of_le hlo
    rw [Nat.add_mul] at hhi
    exact ⟨hlo, Nat.add_lt_add_left ((lt_pagesFor hpage).mpr (by omega)) k⟩
  · intro ⟨hlo, hhi⟩
    obtain ⟨d, rfl⟩ := Nat.exists_eq_add_of_le hlo
    have hd := (lt_pagesFor hpage).mp (Nat.lt_of_add_lt_add_left hhi)
    rw [Nat.add_mul]
    omega

/-- From a page boundary, a mapping has the pages that meet it. -/
theorem mem_range (hpage : 0 < page) (haddr : page ∣ addr) :
    n ∈ range page addr len ↔ Meets page n addr len := by
  obtain ⟨k, rfl⟩ := haddr
  rw [Nat.mul_comm page k, meets_iff hpage, range, Nat.mul_div_cancel k hpage, Finset.mem_Ico]

/-- The page of a byte is among the pages of a mapping that holds the byte. -/
theorem div_mem_range (hpage : 0 < page) (haddr : page ∣ addr) {p : ℕ} (hlo : addr ≤ p)
    (hhi : p < addr + len) :
    p / page ∈ range page addr len := by
  have hdiv := Nat.div_add_mod p page
  have hmod := Nat.mod_lt p hpage
  rw [Nat.mul_comm] at hdiv
  rw [mem_range hpage haddr, Meets, Nat.add_mul]
  omega

/-- The pages of a mapping of whole pages hold no other byte. -/
theorem div_mem_range_iff (hpage : 0 < page) (haddr : page ∣ addr) (hlen : page ∣ len) {p : ℕ} :
    p / page ∈ range page addr len ↔ addr ≤ p ∧ p < addr + len := by
  obtain ⟨k, rfl⟩ := haddr
  obtain ⟨m, rfl⟩ := hlen
  rw [range, Nat.mul_div_cancel_left k hpage, Nat.mul_comm page m, pagesFor_mul hpage,
    Finset.mem_Ico, Nat.le_div_iff_mul_le hpage, Nat.div_lt_iff_lt_mul hpage, Nat.add_mul,
    Nat.mul_comm page k]

/-- Mappings from page boundaries that share no page share no byte. -/
theorem apart_of_disjoint (hpage : 0 < page) {addr' len' : ℕ} (haddr : page ∣ addr)
    (haddr' : page ∣ addr') (hlen : 0 < len) (hlen' : 0 < len')
    (h : Disjoint (range page addr len) (range page addr' len')) :
    addr + len ≤ addr' ∨ addr' + len' ≤ addr := by
  by_contra hmeet
  rw [Finset.disjoint_left] at h
  rcases Nat.le_total addr addr' with hle | hle
  · exact h (div_mem_range hpage haddr hle (by omega))
      (div_mem_range hpage haddr' le_rfl (by omega))
  · exact h (div_mem_range hpage haddr le_rfl (by omega))
      (div_mem_range hpage haddr' hle (by omega))

/-- Unmapping from a page boundary takes away the pages of the mapping. -/
theorem unmap_eq_sdiff (hpage : 0 < page) (haddr : page ∣ addr) :
    unmap page mapped addr len = mapped \ range page addr len := by
  ext n
  rw [unmap, if_pos haddr, Finset.mem_filter, Finset.mem_sdiff, mem_range hpage haddr]

/-- The pages mapped after mapping from a page boundary. -/
theorem mem_map (hpage : 0 < page) :
    n ∈ map page mapped (k * page) len ↔ n ∈ mapped ∨ k ≤ n ∧ n < k + pagesFor page len := by
  rw [map, Finset.mem_union, range, Nat.mul_div_cancel k hpage, Finset.mem_Ico]

/-- The pages mapped after unmapping from a page boundary. -/
theorem mem_unmap (hpage : 0 < page) :
    n ∈ unmap page mapped (k * page) len ↔ n ∈ mapped ∧ ¬(k ≤ n ∧ n < k + pagesFor page len) := by
  rw [unmap, if_pos (Nat.dvd_mul_left page k), Finset.mem_filter, meets_iff hpage]

/-- Unmapping only when there is something to unmap makes no difference. -/
theorem mem_unmap_if (hpage : 0 < page) :
    n ∈ (if 0 < len then unmap page mapped (k * page) len else mapped) ↔
      n ∈ mapped ∧ ¬(k ≤ n ∧ n < k + pagesFor page len) := by
  split
  · exact mem_unmap hpage
  · rename_i hzero
    rw [Nat.eq_zero_of_not_pos hzero, pagesFor_zero hpage]
    exact (and_iff_left (by omega)).symm

/-- Clearing the low bits rounds down to a multiple of the power of two. -/
theorem land_mask {m w x : ℕ} (hm : m ≤ w) (hx : x < 2 ^ w) :
    x &&& (2 ^ w - 1 - (2 ^ m - 1)) = x / 2 ^ m * 2 ^ m := by
  have hpos : 0 < 2 ^ m := Nat.two_pow_pos m
  have hle : 2 ^ m ≤ 2 ^ w := Nat.pow_le_pow_right Nat.two_pos hm
  rw [show 2 ^ w - 1 - (2 ^ m - 1) = 2 ^ w - (2 ^ m - 1 + 1) by omega]
  apply Nat.eq_of_testBit_eq
  intro i
  rw [Nat.testBit_and, Nat.testBit_two_pow_sub_succ (by omega), Nat.testBit_two_pow_sub_one,
    Nat.testBit_mul_two_pow, Nat.testBit_div_two_pow]
  by_cases hi : m ≤ i
  · rw [Nat.sub_add_cancel hi]
    by_cases hw : i < w
    · simp [hi, hw, Nat.not_lt.mpr hi]
    · have hbit : x.testBit i = false :=
        Nat.testBit_lt_two_pow (hx.trans_le (Nat.pow_le_pow_right Nat.two_pos (Nat.not_lt.mp hw)))
      simp [hbit]
  · simp [hi, Nat.not_le.mp hi]

end PageMap
