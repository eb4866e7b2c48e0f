import ClMalloc.SizeClass
import ClMalloc.Lib.Checked
import ClMalloc.Lib.PageMap

/-!
# The mmap backend

The process's mapped pages, and the backend that over-allocates by the alignment and trims
both ends. Every arithmetic step of the backend is checked, so an overflow has no result.
What stays mapped after a trim depends on whether the end of the request falls on a page
boundary: off a boundary the trailing trim is refused, and giving the region back does not
reach the pages it left.
-/

namespace ClMalloc

/-- The page size and the mapped pages of the process. -/
structure Mappings where
  page : ℕ
  page_pow : ∃ k, page = 2 ^ k
  mapped : Finset ℕ

/-- One more than the largest `usize`. -/
def usizeLimit : ℕ := 0x10000000000000000

/-- `mmap` of `len` bytes at the address the system picks. -/
def Mappings.mmap (os : Mappings) (raw len : ℕ) : Mappings :=
  { os with mapped := PageMap.map os.page os.mapped raw len }

/-- `munmap` of `len` bytes. -/
def Mappings.munmap (os : Mappings) (addr len : ℕ) : Mappings :=
  { os with mapped := PageMap.unmap os.page os.mapped addr len }

/-- What `mmap` may answer: a page boundary other than null and fresh pages, such that the mapping
ends in the address space: the address one past its last byte is still below `2 ^ 64`. -/
def Mappings.MayReturn (os : Mappings) (raw len : ℕ) : Prop :=
  os.page ∣ raw ∧ 0 < raw ∧ raw + len < usizeLimit ∧
    Disjoint os.mapped (PageMap.range os.page raw len)

/-- Whether an answer is possible can be computed. -/
instance (os : Mappings) (raw len : ℕ) : Decidable (os.MayReturn raw len) :=
  inferInstanceAs (Decidable (_ ∧ _ ∧ _ ∧ _))

/-- `MmapAllocator::alloc`, where `reply` is the address `mmap` returns, if it does. -/
def Mappings.alloc (os : Mappings) (layout : Layout) (reply : Option ℕ) :
    Option (Mappings × Option ℕ) := do
  let size := layout.size
  let align := layout.align
  let allocSize ← Checked.add usizeLimit size align
  match reply with
  | none => some (os, none)
  | some raw =>
    let os := os.mmap raw allocSize
    let padded ← Checked.sub (← Checked.add usizeLimit raw align) 1
    let alignedAddr := padded &&& (usizeLimit - 1 - (← Checked.sub align 1))
    let leading ← Checked.sub alignedAddr raw
    let os := if 0 < leading then os.munmap raw leading else os
    let usedEnd ← Checked.add usizeLimit alignedAddr size
    let trailing ← Checked.sub (← Checked.add usizeLimit raw allocSize) usedEnd
    let os := if 0 < trailing then os.munmap usedEnd trailing else os
    -- `NonNull::new`
    some (os, if alignedAddr = 0 then none else some alignedAddr)

/-- `MmapAllocator::dealloc`. -/
def Mappings.dealloc (os : Mappings) (ptr : ℕ) (layout : Layout) : Mappings :=
  os.munmap ptr layout.size

variable {os : Mappings} {layout : Layout} {raw : ℕ}

/-- A page has a byte. -/
theorem Mappings.page_pos (os : Mappings) : 0 < os.page := by
  obtain ⟨k, hk⟩ := os.page_pow
  rw [hk]
  exact Nat.two_pow_pos k

/-- An alignment is not zero. -/
theorem Layout.align_pos (layout : Layout) : 0 < layout.align := by
  obtain ⟨m, hm⟩ := layout.align_pow
  rw [hm]
  exact Nat.two_pow_pos m

/-- The address a mapping from `raw` is trimmed to. -/
def alignedAddr (layout : Layout) (raw : ℕ) : ℕ :=
  (raw + layout.align - 1) / layout.align * layout.align

/-- The trimmed address is aligned. -/
theorem align_dvd_alignedAddr : layout.align ∣ alignedAddr layout raw := Nat.dvd_mul_left _ _

/-- Rounding up does not go down. -/
theorem le_alignedAddr : raw ≤ alignedAddr layout raw := by
  have hpos := layout.align_pos
  have hdiv := Nat.div_add_mod (raw + layout.align - 1) layout.align
  have hmod := Nat.mod_lt (raw + layout.align - 1) hpos
  rw [Nat.mul_comm] at hdiv
  unfold alignedAddr
  omega

/-- Rounding up goes up by less than the alignment. -/
theorem alignedAddr_lt : alignedAddr layout raw < raw + layout.align := by
  have hpos := layout.align_pos
  have hle := Nat.div_mul_le_self (raw + layout.align - 1) layout.align
  unfold alignedAddr
  omega

/-- The trimmed address is a page boundary, whether the alignment is above or below a page. -/
theorem page_dvd_alignedAddr (hraw : os.page ∣ raw) : os.page ∣ alignedAddr layout raw := by
  obtain ⟨k, hk⟩ := os.page_pow
  obtain ⟨m, hm⟩ := layout.align_pow
  rcases Nat.le_total k m with h | h
  · apply Nat.dvd_trans _ align_dvd_alignedAddr
    rw [hk, hm]
    exact Nat.pow_dvd_pow 2 h
  · -- below a page the raw address is aligned already
    have hdvd : layout.align ∣ raw := by
      apply Nat.dvd_trans _ hraw
      rw [hk, hm]
      exact Nat.pow_dvd_pow 2 h
    have hsub : layout.align ∣ alignedAddr layout raw - raw :=
      Nat.dvd_sub align_dvd_alignedAddr hdvd
    have hlow := @le_alignedAddr layout raw
    have hhigh := @alignedAddr_lt layout raw
    have hzero := Nat.eq_zero_of_dvd_of_lt hsub (by omega)
    rw [show alignedAddr layout raw = raw by omega]
    exact hraw

/-- The size of a layout and its alignment together fit in an address. -/
theorem Layout.size_add_align_lt (layout : Layout) (hsize : 1 ≤ layout.size) :
    layout.size + layout.align < usizeLimit := by
  have hpos := layout.align_pos
  have hdiv := Nat.div_add_mod (layout.size + layout.align - 1) layout.align
  have hmod := Nat.mod_lt (layout.size + layout.align - 1) hpos
  have halign : 1 * layout.align ≤ (layout.size + layout.align - 1) / layout.align * layout.align :=
    Nat.mul_le_mul_right _ ((Nat.one_le_div_iff hpos).mpr (by omega))
  have hle := layout.size_le
  rw [Nat.mul_comm] at hdiv
  unfold usizeLimit
  omega

/-- `munmap` unless there is nothing to unmap. -/
def Mappings.trim (os : Mappings) (addr len : ℕ) : Mappings :=
  if 0 < len then os.munmap addr len else os

/-- The mappings after a request is mapped at `raw` and trimmed at both ends. -/
def Mappings.trimmed (os : Mappings) (layout : Layout) (raw : ℕ) : Mappings :=
  ((os.mmap raw (layout.size + layout.align)).trim raw (alignedAddr layout raw - raw)).trim
    (alignedAddr layout raw + layout.size)
    (raw + (layout.size + layout.align) - (alignedAddr layout raw + layout.size))

/-- No step of the allocation overflows, and its result is the aligned address with both ends
trimmed. -/
theorem Mappings.alloc_eq (hmay : os.MayReturn raw (layout.size + layout.align)) :
    os.alloc layout (some raw) = some (os.trimmed layout raw, some (alignedAddr layout raw)) := by
  obtain ⟨-, hraw, hend, -⟩ := hmay
  have hpos := layout.align_pos
  have hlow := @le_alignedAddr layout raw
  have hhigh := @alignedAddr_lt layout raw
  have hmask : raw + layout.align - 1 &&& (usizeLimit - 1 - (layout.align - 1)) =
      alignedAddr layout raw := by
    obtain ⟨m, hm⟩ := layout.align_pow
    rw [hm] at hend hpos
    have hm64 : m ≤ 64 := by
      by_contra hlt
      have := Nat.pow_le_pow_right Nat.two_pos (Nat.le_of_not_le hlt)
      unfold usizeLimit at hend
      omega
    rw [alignedAddr, hm]
    exact PageMap.land_mask hm64 (by unfold usizeLimit at hend; omega)
  simp only [Mappings.alloc, Checked.add_eq (show layout.size + layout.align < usizeLimit by omega),
    Checked.add_eq (show raw + layout.align < usizeLimit by omega),
    Checked.sub_eq (show 1 ≤ raw + layout.align by omega),
      Checked.sub_eq (show 1 ≤ layout.align by omega),
    Option.bind_eq_bind, Option.bind_some, hmask, Checked.sub_eq hlow,
    Checked.add_eq (show alignedAddr layout raw + layout.size < usizeLimit by omega),
      Checked.add_eq hend,
    Checked.sub_eq (show alignedAddr layout raw + layout.size ≤
      raw + (layout.size + layout.align) by omega),
    show alignedAddr layout raw ≠ 0 by omega, if_false]
  rfl

/-- Trimming leaves the page size. -/
@[simp] theorem Mappings.trim_page (addr len : ℕ) : (os.trim addr len).page = os.page := by
  unfold Mappings.trim
  split <;> rfl

/-- Unmapping from a page boundary removes the pages that hold the bytes. -/
theorem Mappings.mem_munmap {n k addr len : ℕ} (haddr : addr = k * os.page) :
    n ∈ (os.munmap addr len).mapped ↔ n ∈ os.mapped ∧
      ¬(k ≤ n ∧ n < k + PageMap.pagesFor os.page len) := by
  rw [← PageMap.mem_unmap os.page_pos, haddr]
  rfl

/-- Trimming from a page boundary removes the pages that hold the bytes. -/
theorem Mappings.mem_trim {n k addr len : ℕ} (haddr : addr = k * os.page) :
    n ∈ (os.trim addr len).mapped ↔ n ∈ os.mapped ∧
      ¬(k ≤ n ∧ n < k + PageMap.pagesFor os.page len) := by
  rw [← PageMap.mem_unmap_if os.page_pos, haddr]
  unfold Mappings.trim Mappings.munmap
  split <;> rfl

/-- Trimming off a page boundary does nothing. -/
theorem Mappings.trim_eq_self {addr len : ℕ} (haddr : ¬os.page ∣ addr) : os.trim addr len = os := by
  unfold Mappings.trim Mappings.munmap PageMap.unmap
  rw [if_neg haddr]
  exact ite_self os

/-- Where a mapping starts, where the region it is trimmed to starts, and how far both reach, in
pages. -/
structure Trim (os : Mappings) (layout : Layout) (raw first used last : ℕ) : Prop where
  raw_eq : raw = first * os.page
  aligned_eq : alignedAddr layout raw = used * os.page
  last_eq : last = first + PageMap.pagesFor os.page (layout.size + layout.align)
  first_le : first ≤ used
  used_le : used + PageMap.pagesFor os.page layout.size ≤ last
  fresh : ∀ n ∈ os.mapped, ¬(first ≤ n ∧ n < last)

variable {n first used last : ℕ}

/-- Every answer of `mmap` lies on page boundaries this way. -/
theorem Mappings.MayReturn.trim (hmay : os.MayReturn raw (layout.size + layout.align)) :
    ∃ first used last, Trim os layout raw first used last := by
  obtain ⟨⟨first, hfirst⟩, -, -, hdisjoint⟩ := hmay
  have hdvd : os.page ∣ alignedAddr layout raw := page_dvd_alignedAddr (Dvd.intro first hfirst.symm)
  obtain ⟨used, hused⟩ := hdvd
  rw [Nat.mul_comm] at hfirst hused
  have hlow := @le_alignedAddr layout raw
  have hhigh := @alignedAddr_lt layout raw
  refine ⟨first, used, _, hfirst, hused, rfl, ?_, ?_, ?_⟩
  · apply Nat.le_of_mul_le_mul_right _ os.page_pos
    omega
  · rw [← PageMap.pagesFor_mul_add os.page_pos, ← PageMap.pagesFor_mul_add os.page_pos]
    apply PageMap.pagesFor_mono
    omega
  · intro n hn hrange
    apply Finset.disjoint_left.mp hdisjoint hn
    rw [PageMap.range, hfirst, Nat.mul_div_cancel first os.page_pos, Finset.mem_Ico]
    exact hrange

/-- What is mapped before the trailing trim: what was mapped before, and the pages from the aligned
address. -/
theorem Trim.mem_head (h : Trim os layout raw first used last) :
    n ∈ ((os.mmap raw (layout.size + layout.align)).trim raw
      (alignedAddr layout raw - raw)).mapped ↔ n ∈ os.mapped ∨ used ≤ n ∧ n < last := by
  have hlead : PageMap.pagesFor os.page (used * os.page - first * os.page) = used - first := by
    rw [← Nat.sub_mul]
    exact PageMap.pagesFor_mul os.page_pos
  have hmap : n ∈ (os.mmap raw (layout.size + layout.align)).mapped ↔
      n ∈ os.mapped ∨ first ≤ n ∧ n < last := by
    rw [h.last_eq, h.raw_eq]
    exact PageMap.mem_map os.page_pos
  have hraw : raw = first * (os.mmap raw (layout.size + layout.align)).page := h.raw_eq
  rw [Mappings.mem_trim hraw, hmap]
  change _ ∧ ¬(first ≤ n ∧ n < first + PageMap.pagesFor os.page _) ↔ _
  rw [h.aligned_eq, h.raw_eq, hlead]
  have hfresh := h.fresh n
  have hfirst := h.first_le
  have hused := h.used_le
  by_cases hn : n ∈ os.mapped
  · simp only [hn, true_or, true_and, iff_true]
    have := hfresh hn
    omega
  · simp only [hn, false_or]
    omega

/-- What is mapped after both trims: a trailing trim off a page boundary is refused. -/
theorem Trim.mem_trimmed (h : Trim os layout raw first used last) :
    n ∈ (os.trimmed layout raw).mapped ↔
      n ∈ os.mapped ∨ used ≤ n ∧ n < last ∧
        (os.page ∣ layout.size → n < used + PageMap.pagesFor os.page layout.size) := by
  set head := (os.mmap raw (layout.size + layout.align)).trim raw
    (alignedAddr layout raw - raw) with hhead
  have hpage : head.page = os.page := Mappings.trim_page _ _
  have hmem : n ∈ head.mapped ↔ n ∈ os.mapped ∨ used ≤ n ∧ n < last := h.mem_head
  rw [Mappings.trimmed, ← hhead]
  by_cases hdvd : os.page ∣ layout.size
  · have hdvd' := hdvd
    obtain ⟨s, hs⟩ := hdvd'
    rw [Nat.mul_comm] at hs
    have hend : alignedAddr layout raw + layout.size = (used + s) * head.page := by
      rw [h.aligned_eq, hs, hpage, Nat.add_mul]
    have hpages : PageMap.pagesFor os.page layout.size = s := by
      rw [hs]
      exact PageMap.pagesFor_mul os.page_pos
    have hlast : last = used + s + PageMap.pagesFor os.page
        (raw + (layout.size + layout.align) - (alignedAddr layout raw + layout.size)) := by
      have hhigh := @alignedAddr_lt layout raw
      rw [← PageMap.pagesFor_mul_add os.page_pos, ← hpage, ← hend, Nat.add_sub_cancel' (by omega),
        h.last_eq, ← PageMap.pagesFor_mul_add os.page_pos, ← h.raw_eq, hpage]
    rw [Mappings.mem_trim hend, hmem, hpage, ← hlast, hpages]
    have hfresh := h.fresh n
    have hfirst := h.first_le
    by_cases hn : n ∈ os.mapped
    · simp only [hn, true_or, true_and, iff_true]
      have := hfresh hn
      omega
    · simp only [hn, hdvd, false_or, true_implies]
      omega
  · have hoff : ¬head.page ∣ alignedAddr layout raw + layout.size := by
      rw [hpage, h.aligned_eq, Nat.dvd_add_right (Nat.dvd_mul_left _ _)]
      exact hdvd
    rw [Mappings.trim_eq_self hoff, hmem]
    simp only [hdvd, false_implies, and_true]

/-- What is mapped after the region is given back: the pages its trailing trim left. -/
theorem Trim.mem_dealloc (h : Trim os layout raw first used last) :
    n ∈ ((os.trimmed layout raw).dealloc (alignedAddr layout raw) layout).mapped ↔
      n ∈ os.mapped ∨ ¬os.page ∣ layout.size ∧
        used + PageMap.pagesFor os.page layout.size ≤ n ∧ n < last := by
  have hpage : (os.trimmed layout raw).page = os.page := by simp [Mappings.trimmed, Mappings.mmap]
  have hunmap : n ∈ ((os.trimmed layout raw).dealloc (alignedAddr layout raw) layout).mapped ↔
      n ∈ (os.trimmed layout raw).mapped ∧
        ¬(used ≤ n ∧ n < used + PageMap.pagesFor os.page layout.size) := by
    have haddr : alignedAddr layout raw = used * (os.trimmed layout raw).page := by
      rw [hpage, h.aligned_eq]
    rw [Mappings.dealloc, Mappings.mem_munmap haddr, hpage]
  have hfresh := h.fresh n
  have hfirst := h.first_le
  have hused := h.used_le
  rw [hunmap, h.mem_trimmed]
  by_cases hn : n ∈ os.mapped
  · simp only [hn, true_or, true_and, iff_true]
    have := hfresh hn
    omega
  · simp only [hn, false_or]
    by_cases hdvd : os.page ∣ layout.size
    · simp only [hdvd, true_implies, not_true_eq_false, false_and, iff_false]
      omega
    · simp only [hdvd, false_implies, not_false_eq_true, true_and, and_true]
      omega

/-- An alignment of more than a page is a whole number of pages. -/
theorem page_dvd_align (hlt : os.page < layout.align) : os.page ∣ layout.align := by
  obtain ⟨k, hk⟩ := os.page_pow
  obtain ⟨m, hm⟩ := layout.align_pow
  rw [hk, hm] at hlt ⊢
  exact Nat.pow_dvd_pow 2 ((Nat.pow_lt_pow_iff_right (by omega)).mp hlt).le

/-- A trim leaves room for another page just when the alignment reaches beyond the last page of the
request. -/
theorem Trim.leaves_iff (h : Trim os layout raw first used last) (hdvd : ¬os.page ∣ layout.size) :
    used + PageMap.pagesFor os.page layout.size < last ↔
      os.page < layout.size % os.page + layout.align := by
  have hpos := os.page_pos
  have hmod := Nat.mod_lt layout.size hpos
  have hrest : 0 < layout.size % os.page := Nat.pos_of_ne_zero (mt Nat.dvd_of_mod_eq_zero hdvd)
  have hsize := Nat.div_add_mod' layout.size os.page
  generalize layout.size / os.page = whole at hsize
  generalize layout.size % os.page = rest at hsize hmod hrest ⊢
  obtain ⟨lead, rfl⟩ := Nat.exists_eq_add_of_le h.first_le
  have hused : PageMap.pagesFor os.page layout.size = whole + 1 := by
    rw [← hsize, PageMap.pagesFor_mul_add hpos, PageMap.pagesFor_eq_one hrest hmod.le]
  have hlast : last = first + (whole + PageMap.pagesFor os.page (rest + layout.align)) := by
    rw [h.last_eq, ← hsize, Nat.add_assoc, PageMap.pagesFor_mul_add hpos]
  have hlead : lead * os.page < layout.align := by
    have hhigh := @alignedAddr_lt layout raw
    rw [h.aligned_eq, h.raw_eq, Nat.add_mul] at hhigh
    omega
  have hstep : first + lead + (whole + 1) < last ↔
      lead * os.page + os.page < rest + layout.align := by
    rw [hlast, ← Nat.succ_mul, ← PageMap.lt_pagesFor hpos]
    omega
  rw [hused, hstep]
  constructor
  · omega
  · intro hlt
    cases lead with
    | zero => omega
    | succ lead =>
      -- a lead of a page or more comes from an alignment of whole pages
      rw [Nat.succ_mul] at hlead ⊢
      have hdvdAlign : os.page ∣ layout.align := page_dvd_align (by omega)
      obtain ⟨a, ha⟩ := hdvdAlign
      rw [ha, Nat.mul_comm os.page a, ← Nat.succ_mul, Nat.mul_lt_mul_right hpos] at hlead
      have hle := Nat.mul_le_mul_right os.page hlead
      rw [Nat.mul_comm a, ← ha, Nat.succ_mul, Nat.succ_mul] at hle
      omega

/-- An allocation given back leaves the mapped pages as they were just when its size is a whole
number of pages, or its last page has room for the alignment. -/
theorem mappings_restored_iff (os : Mappings) (layout : Layout) (raw : ℕ)
    (hmay : os.MayReturn raw (layout.size + layout.align)) :
    ∃ os' ptr, os.alloc layout (some raw) = some (os', some ptr) ∧
      ((os'.dealloc ptr layout).mapped = os.mapped ↔
        os.page ∣ layout.size ∨ layout.size % os.page + layout.align ≤ os.page) := by
  obtain ⟨first, used, last, h⟩ := hmay.trim
  refine ⟨os.trimmed layout raw, alignedAddr layout raw, Mappings.alloc_eq hmay, ?_⟩
  by_cases hdvd : os.page ∣ layout.size
  · simp only [hdvd, true_or, iff_true]
    ext n
    rw [h.mem_dealloc]
    simp only [hdvd, not_true_eq_false, false_and, or_false]
  · simp only [hdvd, false_or]
    rw [← Nat.not_lt, ← h.leaves_iff hdvd]
    constructor
    · intro heq hlt
      apply h.fresh (used + PageMap.pagesFor os.page layout.size)
      · rw [← heq, h.mem_dealloc]
        exact Or.inr ⟨hdvd, le_rfl, hlt⟩
      · have := h.first_le
        omega
    · intro hle
      ext n
      rw [h.mem_dealloc, or_iff_left]
      omega

/-- No page mapped, with pages of 4096 bytes. -/
def noPages : Mappings := ⟨4096, ⟨12, rfl⟩, ∅⟩

/-- A layout of ten pages less 960 bytes, aligned to a page. -/
def raggedTen : Layout := ⟨40000, 4096, ⟨12, rfl⟩, Nat.le_of_ble_eq_true rfl⟩

/-- The ragged layout is one of those whose mapping is not restored. -/
theorem mappings_restored_iff_ragged :
    noPages.MayReturn 0x10000 (raggedTen.size + raggedTen.align) ∧
      ∃ os' ptr, noPages.alloc raggedTen (some 0x10000) = some (os', some ptr) ∧
        ((os'.dealloc ptr raggedTen).mapped = noPages.mapped ↔
          noPages.page ∣ raggedTen.size ∨
            raggedTen.size % noPages.page + raggedTen.align ≤ noPages.page) :=
  ⟨by decide, mappings_restored_iff noPages raggedTen 0x10000 (by decide)⟩

/-- The page behind the ragged layout stays mapped when the region is given back. -/
theorem mappings_not_restored :
    ¬∀ (os : Mappings) (layout : Layout) (raw : ℕ), 1 ≤ layout.size →
      os.MayReturn raw (layout.size + layout.align) →
      ∃ os' ptr, os.alloc layout (some raw) = some (os', some ptr) ∧
        (os'.dealloc ptr layout).mapped = os.mapped := by
  intro hall
  obtain ⟨os', ptr, halloc, hmapped⟩ := hall noPages raggedTen 0x10000 (by decide) (by decide)
  have hleft : (noPages.alloc raggedTen (some 0x10000)).map
      (fun r => decide (26 ∈ (r.1.dealloc (r.2.getD 0) raggedTen).mapped)) = some true := by
      decide +kernel
  rw [halloc] at hleft
  simp only [Option.map_some, Option.getD_some, hmapped] at hleft
  revert hleft
  decide

/-- The allocation never overflows; it returns an aligned address, leaves every page of the request
mapped and every page that was mapped before. -/
theorem alloc_keeps_pages (os : Mappings) (layout : Layout) (hsize : 1 ≤ layout.size) :
    os.alloc layout none = some (os, none) ∧
      ∀ raw, os.MayReturn raw (layout.size + layout.align) →
        ∃ os' ptr, os.alloc layout (some raw) = some (os', some ptr) ∧ layout.align ∣ ptr ∧
          (∀ n, PageMap.Meets os.page n ptr layout.size → n ∈ os'.mapped) ∧
            os.mapped ⊆ os'.mapped := by
  constructor
  · simp only [Mappings.alloc, Checked.add_eq (layout.size_add_align_lt hsize), Option.bind_eq_bind,
      Option.bind_some]
  · intro raw hmay
    obtain ⟨first, used, last, h⟩ := hmay.trim
    refine ⟨os.trimmed layout raw, alignedAddr layout raw, Mappings.alloc_eq hmay,
      align_dvd_alignedAddr, ?_, ?_⟩
    · intro n hmeets
      rw [h.aligned_eq, PageMap.meets_iff os.page_pos] at hmeets
      have hused := h.used_le
      exact h.mem_trimmed.mpr (Or.inr ⟨hmeets.1, by omega, fun _ => hmeets.2⟩)
    · intro n hn
      exact h.mem_trimmed.mpr (Or.inl hn)

/-- The ragged layout keeps its ten pages. -/
theorem alloc_keeps_pages_ragged :
    1 ≤ raggedTen.size ∧ noPages.MayReturn 0x10000 (raggedTen.size + raggedTen.align) ∧
      ∃ os' ptr, noPages.alloc raggedTen (some 0x10000) = some (os', some ptr) ∧
        raggedTen.align ∣ ptr ∧
        (∀ n, PageMap.Meets noPages.page n ptr raggedTen.size → n ∈ os'.mapped) ∧
          noPages.mapped ⊆ os'.mapped :=
  ⟨by decide, by decide, (alloc_keeps_pages noPages raggedTen (by decide)).2 0x10000 (by decide)⟩

end ClMalloc
