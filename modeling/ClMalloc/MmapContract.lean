import ClMalloc.MmapPool

/-!
# The mmap backend meets the contract of the page allocator

No two regions share a page, whatever their sizes: a region starts on a page boundary, and a
trailing trim that is refused leaves the rest of its last page mapped. So fresh pages are
enough for an answer the contract admits, giving a region back unmaps no page of another,
and the bytes of every region held are mapped. When the requests are whole pages, or their
last page has room for the alignment, nothing else stays mapped.
-/

namespace ClMalloc

open Transition

/-- The pages of every region held are mapped, and no region shares them with another or the rest of
the process. -/
structure MmapInv (s : MmapPool) : Prop where
  aligned : ∀ b e, s.pool.core.os.Holds b e → s.os.page ∣ b
  mapped : ∀ b e, s.pool.core.os.Holds b e → PageMap.range s.os.page b e.size ⊆ s.os.mapped
  apart : ∀ b e b' e', s.pool.core.os.Holds b e → s.pool.core.os.Holds b' e' → b ≠ b' →
    Disjoint (PageMap.range s.os.page b e.size) (PageMap.range s.os.page b' e'.size)
  foreignMapped : s.foreign ⊆ s.os.mapped
  foreignApart : ∀ b e, s.pool.core.os.Holds b e →
    Disjoint s.foreign (PageMap.range s.os.page b e.size)

/-- What `mmap` and the trims leave of a request: the pages of the region, which were not mapped
before, and at most other pages that were not. -/
structure Granted (os os' : Mappings) (base size : ℕ) (fresh : Finset ℕ) : Prop where
  page : os'.page = os.page
  aligned : os.page ∣ base
  kept : os.mapped ⊆ os'.mapped
  granted : PageMap.range os.page base size ⊆ os'.mapped
  new : PageMap.range os.page base size ⊆ fresh
  fresh : Disjoint os.mapped fresh

variable {os : Mappings} {layout : Layout} {raw : ℕ} {s s' : MmapPool} {l : MmapLabel}

/-- Whatever `mmap` may answer, the request is granted. -/
theorem Mappings.MayReturn.granted (hmay : os.MayReturn raw (layout.size + layout.align)) :
    Granted os (os.trimmed layout raw) (alignedAddr layout raw) layout.size
      (PageMap.range os.page raw (layout.size + layout.align)) := by
  obtain ⟨first, used, last, h⟩ := hmay.trim
  have haligned : os.page ∣ alignedAddr layout raw := page_dvd_alignedAddr hmay.1
  have hrange {n : ℕ} : n ∈ PageMap.range os.page (alignedAddr layout raw) layout.size ↔
      used ≤ n ∧ n < used + PageMap.pagesFor os.page layout.size := by
    rw [PageMap.mem_range os.page_pos haligned, h.aligned_eq, PageMap.meets_iff os.page_pos]
  have hused := h.used_le
  constructor
  · simp [Mappings.trimmed, Mappings.mmap]
  · exact haligned
  · exact fun n hn => h.mem_trimmed.mpr (.inl hn)
  · intro n hn
    obtain ⟨hlo, hhi⟩ := hrange.mp hn
    exact h.mem_trimmed.mpr (.inr ⟨hlo, by omega, fun _ => hhi⟩)
  · intro n hn
    obtain ⟨hlo, hhi⟩ := hrange.mp hn
    have hfirst := h.first_le
    rw [PageMap.mem_range os.page_pos hmay.1, h.raw_eq, PageMap.meets_iff os.page_pos, ← h.last_eq]
    omega
  · exact hmay.2.2.2

/-- The contract admits what the backend answers. -/
theorem MmapInv.admits (h : MmapInv s) (hregions : OsInv s.pool.core.os)
    (hmay : s.os.MayReturn raw (layout.size + layout.align)) (hsize : 0 < layout.size) :
    s.pool.core.os.Admits (alignedAddr layout raw) layout.size layout.align := by
  have hlow := @le_alignedAddr layout raw
  have hhigh := @alignedAddr_lt layout raw
  have hgranted := hmay.granted
  obtain ⟨-, hraw, hend, -⟩ := hmay
  refine ⟨by omega, align_dvd_alignedAddr, by unfold usizeLimit at hend; omega, fun r hr => ?_⟩
  have hheld : s.pool.core.os.Holds r.base r.extent := ⟨r, hr, rfl, rfl⟩
  apply PageMap.apart_of_disjoint s.os.page_pos hgranted.aligned (h.aligned _ _ hheld) hsize
    (hregions.pos r hr)
  exact (hgranted.fresh.mono (h.mapped _ _ hheld) hgranted.new).symm

/-- A granted request keeps the invariant. -/
theorem MmapInv.grant (h : MmapInv s) {pool : PagePool} {os : Mappings} {base : ℕ} {extent : Extent}
    {fresh : Finset ℕ} {bytes : ℕ → ℕ} (hgranted : Granted s.os os base extent.size fresh)
    (hpool : pool.core.os = s.pool.core.os.alloc base extent) :
    MmapInv ⟨pool, os, s.foreign, bytes⟩ := by
  have hheld {b : ℕ} {e : Extent} (hb : pool.core.os.Holds b e) :
      (b = base ∧ e = extent) ∨ s.pool.core.os.Holds b e := by
    rw [hpool] at hb
    exact holds_alloc.mp hb
  have hnew {mapped : Finset ℕ} (hmapped : mapped ⊆ s.os.mapped) :
      Disjoint mapped (PageMap.range s.os.page base extent.size) :=
        hgranted.fresh.mono hmapped hgranted.new
  constructor <;> simp only [hgranted.page]
  · intro b e hb
    rcases hheld hb with ⟨rfl, rfl⟩ | hb
    · exact hgranted.aligned
    · exact h.aligned b e hb
  · intro b e hb
    rcases hheld hb with ⟨rfl, rfl⟩ | hb
    · exact hgranted.granted
    · exact (h.mapped b e hb).trans hgranted.kept
  · intro b e b' e' hb hb' hne
    rcases hheld hb with ⟨rfl, rfl⟩ | hb <;> rcases hheld hb' with ⟨rfl, rfl⟩ | hb'
    · exact absurd rfl hne
    · exact (hnew (h.mapped b' e' hb')).symm
    · exact hnew (h.mapped b e hb)
    · exact h.apart b e b' e' hb hb' hne
  · exact h.foreignMapped.trans hgranted.kept
  · intro b e hb
    rcases hheld hb with ⟨rfl, rfl⟩ | hb
    · exact hnew h.foreignMapped
    · exact h.foreignApart b e hb

/-- Giving a region back keeps the invariant. -/
theorem MmapInv.release (h : MmapInv s) {pool : PagePool} {base : ℕ} {extent : Extent}
    (hregions : OsInv s.pool.core.os) (hbase : s.pool.core.os.Holds base extent)
    (hsize : layout.size = extent.size)
    (hpool : pool.core.os = s.pool.core.os.dealloc base extent.size) :
    MmapInv { s with pool := pool, os := s.os.dealloc base layout } := by
  have hheld {b : ℕ} {e : Extent} (hb : pool.core.os.Holds b e) :
      s.pool.core.os.Holds b e ∧ b ≠ base := by
    rw [hpool] at hb
    exact ((hregions.dealloc hbase).2 b e).mp hb
  have hmapped : (s.os.dealloc base layout).mapped =
      s.os.mapped \ PageMap.range s.os.page base extent.size := by
    rw [← hsize]
    exact PageMap.unmap_eq_sdiff s.os.page_pos (h.aligned _ _ hbase)
  constructor
  · exact fun b e hb => h.aligned b e (hheld hb).1
  · intro b e hb
    obtain ⟨hb, hne⟩ := hheld hb
    rw [hmapped, Finset.subset_sdiff]
    exact ⟨h.mapped b e hb, h.apart b e base extent hb hbase hne⟩
  · exact fun b e b' e' hb hb' => h.apart b e b' e' (hheld hb).1 (hheld hb').1
  · change s.foreign ⊆ (s.os.dealloc base layout).mapped
    rw [hmapped, Finset.subset_sdiff]
    exact ⟨h.foreignMapped, h.foreignApart base extent hbase⟩
  · exact fun b e hb => h.foreignApart b e (hheld hb).1

/-- A step that leaves the regions held and the mapped pages keeps the invariant. -/
theorem MmapInv.keep (h : MmapInv s) {pool : PagePool} (bytes : ℕ → ℕ)
    (hpool : pool.core.os = s.pool.core.os) :
    MmapInv { s with pool := pool, bytes := bytes } := by
  constructor <;> simp only [hpool]
  exacts [h.aligned, h.mapped, h.apart, h.foreignMapped, h.foreignApart]

/-- The rest of the process maps pages. -/
theorem MmapInv.map (h : MmapInv s) {len : ℕ} (bytes : ℕ → ℕ) (hmay : s.os.MayReturn raw len) :
    MmapInv { s with
      os := s.os.mmap raw len, foreign := s.foreign ∪ PageMap.range s.os.page raw len,
        bytes := bytes } where
  aligned := h.aligned
  mapped := fun b e hb => (h.mapped b e hb).trans Finset.subset_union_left
  apart := h.apart
  foreignMapped := Finset.union_subset_union_left h.foreignMapped
  foreignApart := fun b e hb =>
    Finset.disjoint_union_left.mpr ⟨h.foreignApart b e hb,
      (hmay.2.2.2.mono_left (h.mapped b e hb)).symm⟩

/-- The rest of the process unmaps a page of its own. -/
theorem MmapInv.unmap (h : MmapInv s) {n : ℕ} (hforeign : n ∈ s.foreign) :
    MmapInv { s with os := s.os.munmap (n * s.os.page) s.os.page,
                     foreign := s.foreign.erase n } := by
  have hmapped : (s.os.munmap (n * s.os.page) s.os.page).mapped = s.os.mapped.erase n := by
    ext m
    rw [Mappings.mem_munmap rfl, PageMap.pagesFor_eq_one s.os.page_pos le_rfl, Finset.mem_erase]
    constructor
    · exact fun ⟨hm, hne⟩ => ⟨by omega, hm⟩
    · exact fun ⟨hne, hm⟩ => ⟨hm, by omega⟩
  constructor
  · exact h.aligned
  · intro b e hb
    change _ ⊆ (s.os.munmap (n * s.os.page) s.os.page).mapped
    rw [hmapped, Finset.subset_erase]
    exact ⟨h.mapped b e hb, Finset.disjoint_left.mp (h.foreignApart b e hb) hforeign⟩
  · exact h.apart
  · change s.foreign.erase n ⊆ (s.os.munmap (n * s.os.page) s.os.page).mapped
    rw [hmapped]
    exact Finset.erase_subset_erase n h.foreignMapped
  · exact fun b e hb => (h.foreignApart b e hb).mono_left (Finset.erase_subset n s.foreign)

/-- A thread about to give a region back holds it. -/
theorem CoreInv.holds_returning {X : Type} {c : PoolCore} {extra : X → List ℕ}
    {kind : ℕ → PageKind (Tag X)} (h : CoreInv c extra kind) {t base : ℕ} {extent : Extent}
    (hreturning : (c.call t).returning = some (base, extent)) :
    c.os.Holds base extent := by
  apply h.regions.holds (o := .thread t)
  change (c.call t).region = some (base, extent)
  cases hcall : c.call t <;> rw [hcall] at hreturning <;>
    first | exact hreturning | cases hreturning

/-- Every step keeps the invariant. -/
theorem MmapInv.step (h : MmapInv s) {kind : ℕ → PageKind (Tag Place)}
    (hpool : PagePoolInv s.pool kind) (hstep : mmapStep s l = some s') : MmapInv s' := by
  have hregions : OsInv s.pool.core.os := hpool.core.regions.contract
  cases mmapStep_cases hstep with
  | refused hasks hask => exact h.keep _ (hasks.os_none hask)
  | granted hasks hmay hask =>
    obtain ⟨extent, hsize, -, hos⟩ := hasks.os_some hask
    exact h.grant (hsize ▸ hmay.granted) hos
  | @dealloc t base layout extent pool hreturning hsize hdealloc =>
    obtain ⟨c, hc, rfl⟩ := Option.map_eq_some_iff.mp hdealloc
    apply h.release hregions (hpool.core.holds_returning hreturning) hsize
    cases poolStep_cases hc with
    | osDealloc hreturning' =>
      obtain ⟨rfl, rfl⟩ := Prod.mk.injEq _ _ _ _ ▸ Option.some.inj
        (hreturning.symm.trans hreturning')
      rfl
  | purge hcall hpurge =>
    obtain ⟨c, hc, rfl⟩ := Option.map_eq_some_iff.mp hpurge
    cases poolStep_cases hc with
    | purgePage hcall' => exact h.keep _ rfl
  | pool hl hother => exact h.keep _ (pagePoolStep_os hl hother)
  | write hhas => exact h.keep _ rfl
  | link hlisted hi => exact h.keep _ rfl
  | map hmay => exact h.map _ hmay
  | unmap hforeign => exact h.unmap hforeign
  | store hforeign => exact h.keep _ rfl

/-- At first nothing is held. -/
theorem mmapInv_new (os : Mappings) (bytes : ℕ → ℕ) : MmapInv (.new os bytes) := by
  have hnone (b : ℕ) (e : Extent) : ¬(MmapPool.new os bytes).pool.core.os.Holds b e := by
    simp [MmapPool.new, PagePool.new, PoolCore.new, PageOs.new, PageOs.Holds]
  constructor
  · exact fun b e hb => absurd hb (hnone b e)
  · exact fun b e hb => absurd hb (hnone b e)
  · exact fun b e _ _ hb => absurd hb (hnone b e)
  · exact Finset.Subset.refl _
  · exact fun b e hb => absurd hb (hnone b e)

/-- The pool is accounted for and the mappings fit it. -/
def MmapPool.Fits (s : MmapPool) : Prop := (∃ kind, PagePoolInv s.pool kind) ∧ MmapInv s

/-- Every step keeps the pool accounted for and the mappings fitting. -/
theorem MmapPool.Fits.step (h : s.Fits) (hstep : mmapStep s l = some s') : s'.Fits := by
  obtain ⟨⟨kind, hpool⟩, hinv⟩ := h
  refine ⟨?_, hinv.step hpool hstep⟩
  apply run_invariant (I := fun p : PagePool => ∃ kind, PagePoolInv p kind) _ ⟨kind, hpool⟩
    (mmapStep_contract hstep)
  rintro p l p' ⟨kind, hp⟩ hp'
  exact hp.step hp'

/-- Every reachable state is accounted for, with mappings that fit. -/
theorem MmapPool.Fits.run {bytes : ℕ → ℕ} {labels : List MmapLabel}
    (hrun : Transition.run mmapStep (.new os bytes) labels = some s) : s.Fits :=
  run_invariant (fun _ _ _ h hstep => h.step hstep) ⟨⟨_, pagePoolInv_new⟩,
    mmapInv_new os bytes⟩ hrun

/-- A request goes through when the pool's step takes every answer that the contract admits. -/
theorem MmapPool.Fits.request (h : s.Fits) {ask : Option ℕ → PoolLabel} (hsize : 0 < layout.size)
    (hmay : s.os.MayReturn raw (layout.size + layout.align))
    (hask : ∀ base, s.pool.core.os.Admits base layout.size layout.align →
      (poolStep s.pool.core (ask (some base))).isSome = true) :
    ∃ s', s.request layout (some raw) ask = some s' := by
  obtain ⟨⟨kind, hpool⟩, hinv⟩ := h
  obtain ⟨c, hc⟩ := Option.isSome_iff_exists.mp
    (hask _ (hinv.admits hpool.core.regions.contract hmay hsize))
  have hguard : ∀ r ∈ some raw, s.os.MayReturn r (layout.size + layout.align) := by
    intro r hr
    obtain rfl := Option.some.inj hr
    exact hmay
  simp only [MmapPool.request, if_pos hguard, Mappings.alloc_eq hmay, pagePoolStep, hc,
    Option.map_some, Option.bind_eq_bind, Option.bind_some]
  exact ⟨_, rfl⟩

/-- In every run on the mmap backend, whatever the rest of the process maps and unmaps: it is a run
on the contract, every answer of `mmap` gives the pool its segment or large region, and every byte
of a region held is on a mapped page. -/
theorem mmap_pool_meets_contract {bytes : ℕ → ℕ} {labels : List MmapLabel}
    (hrun : Transition.run mmapStep (.new os bytes) labels = some s) :
    run pagePoolStep .new (labels.flatMap MmapLabel.contract) = some s.pool ∧
      (∀ t raw, s.pool.core.call t = .mapping → s.os.MayReturn raw (segmentSize + slabSize) →
        ∃ s', mmapStep s (.alloc t (some raw)) = some s') ∧
      (∀ t layout raw, s.pool.core.call t = .idle → 0 < layout.size →
        s.os.MayReturn raw (layout.size + layout.align) →
          ∃ s', mmapStep s (.allocLarge t layout (some raw)) = some s') ∧
      ∀ b e, s.pool.core.os.Holds b e → ∀ n, PageMap.Meets s.os.page n b e.size →
        n ∈ s.os.mapped := by
  have hfits : s.Fits := .run hrun
  refine ⟨?_, ?_, ?_, ?_⟩
  · exact run_flatMap (g := MmapPool.pool) (fun _ _ _ hstep => mmapStep_contract hstep) hrun
  · intro t raw hcall hmay
    have hsize : 0 < segmentLayout.size := by decide
    apply hfits.request hsize hmay
    intro base hadmits
    have hadmits' : s.pool.core.os.Admits base segmentSize slabSize := hadmits
    simp [poolStep, hcall, PoolCore.osAlloc, hadmits']
  · intro t layout raw hcall hsize hmay
    apply hfits.request hsize hmay
    intro base hadmits
    simp [poolStep, hcall, PoolCore.osAllocLarge, hsize, hadmits]
  · intro b e hb n hn
    apply hfits.2.mapped b e hb
    rwa [PageMap.mem_range s.os.page_pos (hfits.2.aligned b e hb)]

/-- A process with pages of 16384 bytes, one of them mapped. -/
def bigPages : Mappings := ⟨16384, ⟨14, rfl⟩, {1}⟩

/-- A layout of ten pages of that size, aligned to two. -/
def tenPages : Layout := ⟨163840, 32768, ⟨15, rfl⟩, Nat.le_of_ble_eq_true rfl⟩

/-- Thread 0 gets the first page of a segment and caches it, thread 1 a large region; the process
moves its own page. -/
def mmapRun : List MmapLabel :=
  [.pool (.core (.allocSlab 0)), .alloc 0 (some 0x204000), .pool (.core (.allocSlabSlow 0)),
    .write (.thread 0) 0x210064 9, .allocLarge 1 tenPages (some 0x500000),
      .pool (.core (.allocLarge 1)),
    .map 0x8000 16384, .unmap 1, .pool (.cacheSlab 0 0x210000), .write .cached 0x210000 0]

/-- The run of two threads is such a run. -/
theorem mmap_pool_meets_contract_mmapRun :
    ∃ s, run mmapStep (.new bigPages fun _ => 7) mmapRun = some s ∧
    s.pool.core.large = [(0x500000, 163840)] ∧
    run pagePoolStep .new (mmapRun.flatMap MmapLabel.contract) = some s.pool ∧
      (∀ t raw, s.pool.core.call t = .mapping → s.os.MayReturn raw (segmentSize + slabSize) →
        ∃ s', mmapStep s (.alloc t (some raw)) = some s') ∧
      (∀ t layout raw, s.pool.core.call t = .idle → 0 < layout.size →
        s.os.MayReturn raw (layout.size + layout.align) →
          ∃ s', mmapStep s (.allocLarge t layout (some raw)) = some s') ∧
      ∀ b e, s.pool.core.os.Holds b e → ∀ n, PageMap.Meets s.os.page n b e.size →
        n ∈ s.os.mapped := by
  have hcheck : (run mmapStep (.new bigPages fun _ => 7) mmapRun).map
      (fun s => decide (s.pool.core.large = [(0x500000, 163840)])) = some true := by decide +kernel
  obtain ⟨s, hrun, hs⟩ := Option.map_eq_some_iff.mp hcheck
  exact ⟨s, hrun, of_decide_eq_true hs, mmap_pool_meets_contract hrun⟩

section Exact

/-- A large region is whole pages, or its last page has room for the alignment. -/
def MmapLabel.Whole (page : ℕ) : MmapLabel → Prop
  | .allocLarge _ layout _ => page ∣ layout.size ∨ layout.size % page + layout.align ≤ page
  | _ => True

/-- Whether a label asks for whole pages can be computed. -/
instance (page : ℕ) (l : MmapLabel) : Decidable (l.Whole page) := by
  unfold MmapLabel.Whole
  split <;> infer_instance

/-- Whatever the page size, the mapping of a segment is trimmed to its pages. -/
theorem segment_whole (os : Mappings) :
    os.page ∣ segmentLayout.size ∨ segmentLayout.size % os.page +
      segmentLayout.align ≤ os.page := by
  have hsize : segmentLayout.size = 2 ^ 21 ∧ segmentLayout.align = 2 ^ 16 := by decide
  obtain ⟨k, hk⟩ := os.page_pow
  rw [hsize.1, hsize.2, hk]
  rcases Nat.lt_or_ge 21 k with hlt | hle
  · right
    have hpow : 2 ^ 22 ≤ 2 ^ k := Nat.pow_le_pow_right Nat.two_pos hlt
    rw [Nat.mod_eq_of_lt (by omega)]
    omega
  · exact .inl (Nat.pow_dvd_pow 2 hle)

/-- Only the pages of the region stay mapped. -/
theorem Mappings.MayReturn.trimmed_subset (hmay : os.MayReturn raw (layout.size + layout.align))
    (hwhole : os.page ∣ layout.size ∨ layout.size % os.page + layout.align ≤ os.page) :
    (os.trimmed layout raw).mapped ⊆ os.mapped ∪ PageMap.range os.page
      (alignedAddr layout raw) layout.size := by
  obtain ⟨first, used, last, h⟩ := hmay.trim
  intro n hn
  rw [Finset.mem_union, PageMap.mem_range os.page_pos (page_dvd_alignedAddr hmay.1), h.aligned_eq,
    PageMap.meets_iff os.page_pos]
  rcases h.mem_trimmed.mp hn with hn | ⟨hlo, hhi, hdvd⟩
  · exact .inl hn
  · by_cases hsize : os.page ∣ layout.size
    · exact .inr ⟨hlo, hdvd hsize⟩
    · have hlast := mt (h.leaves_iff hsize).mp (Nat.not_lt.mpr (hwhole.resolve_left hsize))
      exact .inr ⟨hlo, by omega⟩

/-- Every mapped page is the rest of the process's or of a region held. -/
def MmapPool.Exact (s : MmapPool) : Prop :=
  ∀ n ∈ s.os.mapped, n ∈ s.foreign ∨
    ∃ b e, s.pool.core.os.Holds b e ∧ n ∈ PageMap.range s.os.page b e.size

/-- A step that leaves the regions held, and maps and unmaps pages of the rest of the process
only. -/
theorem MmapPool.Exact.keep (h : s.Exact) (hpool : s'.pool.core.os = s.pool.core.os)
    (hpage : s'.os.page = s.os.page)
    (hmapped : ∀ n ∈ s'.os.mapped, n ∈ s'.foreign ∨ n ∈ s.os.mapped ∧
      (n ∈ s.foreign → n ∈ s'.foreign)) :
    s'.Exact := by
  intro n hn
  rcases hmapped n hn with hforeign | ⟨hold, hforeign⟩
  · exact .inl hforeign
  · rw [hpool, hpage]
    exact (h n hold).imp_left hforeign

/-- Every step that asks for whole pages leaves no other page mapped. -/
theorem MmapPool.Exact.step (h : s.Exact) (hfits : s.Fits) (hwhole : l.Whole s.os.page)
    (hstep : mmapStep s l = some s') : s'.Exact := by
  obtain ⟨⟨kind, hpool⟩, hinv⟩ := hfits
  cases mmapStep_cases hstep with
  | refused hasks hask => exact h.keep (hasks.os_none hask) rfl fun n hn => .inr ⟨hn, id⟩
  | @granted l layout raw ask pool hasks hmay hask =>
    obtain ⟨extent, hsize, -, hos⟩ := hasks.os_some hask
    have hlayout : s.os.page ∣ layout.size ∨
        layout.size % s.os.page + layout.align ≤ s.os.page := by
      cases hasks with
      | segment t => exact segment_whole s.os
      | large t layout => exact hwhole
    intro n hn
    have hpage : (s.os.trimmed layout raw).page = s.os.page := hmay.granted.page
    simp only [hpage]
    rcases Finset.mem_union.mp (hmay.trimmed_subset hlayout hn) with hn | hn
    · apply (h n hn).imp_right
      rintro ⟨b, e, hb, hn⟩
      exact ⟨b, e, hos ▸ holds_alloc.mpr (.inr hb), hn⟩
    · exact .inr ⟨_, extent, hos ▸ holds_alloc.mpr (.inl ⟨rfl, rfl⟩), hsize ▸ hn⟩
  | @dealloc t base layout extent pool hreturning hsize hdealloc =>
    have hbase := hpool.core.holds_returning hreturning
    obtain ⟨c, hc, rfl⟩ := Option.map_eq_some_iff.mp hdealloc
    cases poolStep_cases hc with
    | osDealloc hreturning' =>
      obtain ⟨rfl, rfl⟩ := Prod.mk.injEq _ _ _ _ ▸ Option.some.inj
        (hreturning.symm.trans hreturning')
      intro n hn
      change n ∈ PageMap.unmap s.os.page s.os.mapped base layout.size at hn
      rw [PageMap.unmap_eq_sdiff s.os.page_pos (hinv.aligned _ _ hbase),
        Finset.mem_sdiff, hsize] at hn
      apply (h n hn.1).imp_right
      rintro ⟨b, e, hb, hin⟩
      refine ⟨b, e, ((hpool.core.regions.contract.dealloc hbase).2 b e).mpr ⟨hb, ?_⟩, hin⟩
      rintro rfl
      obtain ⟨r, hr, hrb, rfl⟩ := hb
      obtain ⟨r', hr', hrb', rfl⟩ := hbase
      rw [hpool.core.regions.contract.eq_of_base hr hr' (hrb.trans hrb'.symm)] at hin
      exact hn.2 hin
  | purge hcall hpurge =>
    obtain ⟨c, hc, rfl⟩ := Option.map_eq_some_iff.mp hpurge
    cases poolStep_cases hc with
    | purgePage hcall' => exact h.keep rfl rfl fun n hn => .inr ⟨hn, id⟩
  | pool hl hother => exact h.keep (pagePoolStep_os hl hother) rfl fun n hn => .inr ⟨hn, id⟩
  | map hmay =>
    refine h.keep rfl rfl ?_
    intro n hn
    rcases Finset.mem_union.mp hn with hn | hn
    · exact .inr ⟨hn, Finset.mem_union_left _⟩
    · exact .inl (Finset.mem_union_right _ hn)
  | @unmap n hforeign =>
    refine h.keep rfl rfl ?_
    intro m hm
    rw [Mappings.mem_munmap rfl, PageMap.pagesFor_eq_one s.os.page_pos le_rfl] at hm
    exact .inr ⟨hm.1, fun hin => Finset.mem_erase.mpr ⟨by omega, hin⟩⟩
  | _ => exact h.keep rfl rfl fun n hn => .inr ⟨hn, id⟩

/-- A step leaves the page size. -/
theorem mmapStep_page (hstep : mmapStep s l = some s') : s'.os.page = s.os.page := by
  cases mmapStep_cases hstep with
  | granted hasks hmay hask => exact hmay.granted.page
  | _ => rfl

/-- When every large region is whole pages, or its last page has room for the alignment, the pages
mapped are exactly those of the rest of the process and those that hold a byte of a region held: the
pool leaks no page. -/
theorem mmap_pool_exact {bytes : ℕ → ℕ} {labels : List MmapLabel}
    (hwhole : ∀ l ∈ labels, l.Whole os.page) (hrun : run mmapStep (.new os bytes) labels = some s) :
    ∀ n, n ∈ s.os.mapped ↔
      n ∈ s.foreign ∨ ∃ b e, s.pool.core.os.Holds b e ∧ PageMap.Meets s.os.page n b e.size := by
  have hmeets : Meets mmapStep (fun _ l => l.Whole os.page) (.new os bytes) labels :=
    meets_of_forall_split fun done l rest hsplit _ _ => hwhole l (by simp [hsplit])
  obtain ⟨⟨hpool, hinv⟩, hexact, -⟩ :=
    run_invariant_of_meets (I := fun s => s.Fits ∧ s.Exact ∧ s.os.page = os.page)
      (fun s l s' ⟨hfits, hexact, hpage⟩ hl hstep =>
        ⟨hfits.step hstep, hexact.step hfits (hpage ▸ hl) hstep, (mmapStep_page hstep).trans hpage⟩)
      ⟨⟨⟨_, pagePoolInv_new⟩, mmapInv_new os bytes⟩, fun n hn => .inl hn, rfl⟩ hmeets hrun
  intro n
  constructor
  · intro hn
    apply (hexact n hn).imp_right
    rintro ⟨b, e, hb, hin⟩
    exact ⟨b, e, hb, (PageMap.mem_range s.os.page_pos (hinv.aligned b e hb)).mp hin⟩
  · rintro (hn | ⟨b, e, hb, hn⟩)
    · exact hinv.foreignMapped hn
    · exact hinv.mapped b e hb ((PageMap.mem_range s.os.page_pos (hinv.aligned b e hb)).mpr hn)

/-- The run asks for whole pages; at its end the page of the process and the segment's are
mapped. -/
theorem mmap_pool_exact_givenBack :
    (∀ l ∈ mmapRun ++ [.pool (.core (.deallocLarge 1 0x500000 163840)), .dealloc 1 tenPages],
      l.Whole bigPages.page) ∧ ∃ s, run mmapStep (.new bigPages fun _ => 7)
          (mmapRun ++ [.pool (.core (.deallocLarge 1 0x500000 163840)), .dealloc 1 tenPages]) =
          some s ∧
        s.os.mapped.card = 129 ∧ ∀ n, n ∈ s.os.mapped ↔
          n ∈ s.foreign ∨ ∃ b e, s.pool.core.os.Holds b e ∧ PageMap.Meets s.os.page n b e.size := by
  have hwhole : ∀ l ∈ mmapRun ++ [.pool (.core (.deallocLarge 1 0x500000 163840)),
      .dealloc 1 tenPages], l.Whole bigPages.page := by decide +kernel
  have hcheck : (run mmapStep (.new bigPages fun _ => 7)
      (mmapRun ++ [.pool (.core (.deallocLarge 1 0x500000 163840)), .dealloc 1 tenPages])).map
      (fun s => decide (s.os.mapped.card = 129)) = some true := by decide +kernel
  obtain ⟨s, hrun, hs⟩ := Option.map_eq_some_iff.mp hcheck
  exact ⟨hwhole, s, hrun, of_decide_eq_true hs, mmap_pool_exact hwhole hrun⟩

end Exact

end ClMalloc
