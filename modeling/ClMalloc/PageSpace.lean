import ClMalloc.PoolCoreInvariant
import Mathlib.Data.Finset.Card
import Mathlib.Order.Interval.Finset.Nat
import Mathlib.Algebra.Order.BigOperators.Group.List

/-!
# The address space held from the page allocator

Held regions are disjoint and end within 64 bits, so their sizes add up to less than the
whole address space. When no thread is in a call, what is held are the registered segments
and the large regions in use.
-/

namespace ClMalloc

/-- The bytes held from the page allocator. -/
def PageOs.heldBytes (os : PageOs) : ℕ := (os.regions.map fun r => r.extent.size).sum

/-- Every held region ends within 64 bits. -/
def PageOs.Bounded (os : PageOs) : Prop :=
  ∀ r ∈ os.regions, r.base + r.extent.size < 0x10000000000000000

/-- Disjoint regions below a bound fill as many addresses as their sizes add up to. -/
theorem exists_filled {regions : List Region} (bound : ℕ) (hapart : regions.Pairwise Region.Apart)
    (hbound : ∀ r ∈ regions, r.base + r.extent.size ≤ bound) :
    ∃ filled : Finset ℕ, filled.card = (regions.map fun r => r.extent.size).sum ∧
      filled ⊆ Finset.range bound ∧
      ∀ p ∈ filled, ∃ r ∈ regions, r.base ≤ p ∧ p < r.base + r.extent.size := by
  induction regions with
  | nil => exact ⟨∅, rfl, Finset.empty_subset _, by simp⟩
  | cons r rest ih =>
    obtain ⟨hfirst, hrest⟩ := List.pairwise_cons.mp hapart
    obtain ⟨filled, hcard, hsub, hin⟩ := ih hrest fun s hs => hbound s (List.mem_cons_of_mem _ hs)
    have hdisjoint : Disjoint (Finset.Ico r.base (r.base + r.extent.size)) filled := by
      rw [Finset.disjoint_left]
      intro p hp hfilled
      obtain ⟨s, hs, hlo, hhi⟩ := hin p hfilled
      have hap := hfirst s hs
      rw [Finset.mem_Ico] at hp
      unfold Region.Apart at hap
      omega
    refine ⟨Finset.Ico r.base (r.base + r.extent.size) ∪ filled, ?_, ?_, ?_⟩
    · rw [Finset.card_union_of_disjoint hdisjoint, Nat.card_Ico, hcard,
        List.map_cons, List.sum_cons]
      omega
    · refine Finset.union_subset (fun p hp => ?_) hsub
      have hr := hbound r List.mem_cons_self
      rw [Finset.mem_Ico] at hp
      exact Finset.mem_range.mpr (by omega)
    · intro p hp
      rcases Finset.mem_union.mp hp with hp | hp
      · exact ⟨r, List.mem_cons_self, Finset.mem_Ico.mp hp⟩
      · obtain ⟨s, hs, hrange⟩ := hin p hp
        exact ⟨s, List.mem_cons_of_mem _ hs, hrange⟩

/-- What is held is less than the address space. -/
theorem OsInv.heldBytes_lt {os : PageOs} (h : OsInv os) (hbounded : os.Bounded) :
    os.heldBytes < 0x10000000000000000 := by
  obtain ⟨filled, hcard, hsub, -⟩ := exists_filled 0xffffffffffffffff h.apart fun r hr => by
    have := hbounded r hr
    omega
  have hle := Finset.card_le_card hsub
  rw [Finset.card_range, hcard] at hle
  unfold PageOs.heldBytes
  omega

/-- Nothing is held at first. -/
theorem bounded_new : PageOs.new.Bounded := by simp [PageOs.Bounded, PageOs.new]

/-- A region the contract admits ends within 64 bits. -/
theorem PageOs.Bounded.alloc {os : PageOs} (h : os.Bounded) {base align : ℕ} (extent : Extent)
    (hanswer : os.Admits base extent.size align) : (os.alloc base extent).Bounded := by
  intro r hr
  rcases List.mem_cons.mp hr with rfl | hr
  · exact hanswer.2.2.1
  · exact h r hr

/-- Giving a region back leaves the others. -/
theorem PageOs.Bounded.dealloc {os : PageOs} (h : os.Bounded) (base size : ℕ) :
    (os.dealloc base size).Bounded := by
  unfold PageOs.dealloc
  split
  · exact fun r hr => h r (List.mem_of_mem_erase hr)
  · exact h

/-- Different held regions are together no larger than all that is held. -/
theorem PageOs.sum_le_heldBytes {os : PageOs} {held : List (ℕ × ℕ)} (hnodup : held.Nodup)
    (hheld : ∀ p ∈ held, ∃ purpose, os.Holds p.1 ⟨p.2, purpose⟩) :
    (held.map Prod.snd).sum ≤ os.heldBytes := by
  have hsub : held ⊆ os.regions.map fun r => (r.base, r.extent.size) := by
    intro p hp
    obtain ⟨purpose, r, hr, hbase, hextent⟩ := hheld p hp
    exact List.mem_map.mpr ⟨r, hr, by rw [hbase, hextent]⟩
  obtain ⟨kept, hperm, hkept⟩ := List.subperm_of_subset hnodup hsub
  have hsum := (hperm.map Prod.snd).sum_eq
  have hle : (kept.map Prod.snd).sum ≤
      ((os.regions.map fun r => (r.base, r.extent.size)).map Prod.snd).sum :=
    (hkept.map _).sum_le_sum (by simp)
  rw [List.map_map] at hle
  exact hsum ▸ hle

variable {c c' : PoolCore} {l : PoolLabel}

/-- Every step keeps the regions within 64 bits. -/
theorem poolStep_bounded (h : c.os.Bounded) (hstep : poolStep c l = some c') : c'.os.Bounded := by
  cases poolStep_cases hstep with
  | osAlloc hcall hanswer => exact h.alloc segmentExtent hanswer
  | osAllocLarge hcall hsize hanswer => exact h.alloc _ hanswer
  | osDealloc hreturning => exact h.dealloc _ _
  | _ => exact h

/-- The registered segments and the large regions in use, with their sizes. -/
def PoolCore.inUse (c : PoolCore) : List (ℕ × ℕ) :=
  ((List.range c.pool.segmentCount).map fun i => (c.pool.segments i, segmentSize)) ++ c.large

variable {X : Type} {extra : X → List ℕ} {kind : ℕ → PageKind (Tag X)}

/-- Different registered segments and large regions are at different addresses. -/
theorem CoreInv.inUse_nodup (h : CoreInv c extra kind) : c.inUse.Nodup := by
  refine List.nodup_append.mpr ⟨?_, h.large_nodup, ?_⟩
  · refine List.Nodup.map_on (fun i hi j hj heq => ?_) List.nodup_range
    by_contra hne
    have hapart := h.pool.disjoint i (List.mem_range.mp hi) j (List.mem_range.mp hj) hne
    rw [Prod.mk.injEq] at heq
    have hpos : 0 < segmentSize := by decide
    omega
  · rintro r hr _ hlarge rfl
    obtain ⟨i, hi, rfl⟩ := List.mem_map.mp hr
    have htable : c.Owns .table (c.pool.segments i) segmentExtent :=
      ⟨rfl, i, List.mem_range.mp hi, rfl⟩
    have hcaller : c.Owns .caller (c.pool.segments i) ⟨segmentSize, .large⟩ := ⟨rfl, hlarge⟩
    cases h.regions.unique _ _ _ _ _ htable hcaller

/-- The registered segments and the large regions in use are held. -/
theorem CoreInv.inUse_held (h : CoreInv c extra kind) {p : ℕ × ℕ} (hp : p ∈ c.inUse) :
    ∃ purpose, c.os.Holds p.1 ⟨p.2, purpose⟩ := by
  rcases List.mem_append.mp hp with hp | hp
  · obtain ⟨i, hi, rfl⟩ := List.mem_map.mp hp
    have htable : c.Owns .table (c.pool.segments i) segmentExtent :=
      ⟨rfl, i, List.mem_range.mp hi, rfl⟩
    exact ⟨_, h.regions.holds htable⟩
  · have hcaller : c.Owns .caller p.1 ⟨p.2, .large⟩ := ⟨rfl, hp⟩
    exact ⟨_, h.regions.holds hcaller⟩

/-- What the segments and the large regions in use add up to. -/
theorem PoolCore.inUse_sum (c : PoolCore) :
    (c.inUse.map Prod.snd).sum = c.pool.segmentCount * segmentSize +
      (c.large.map Prod.snd).sum := by
  rw [PoolCore.inUse, List.map_append, List.sum_append, List.map_map]
  simp [Function.comp_def]

/-- The segments and the large regions in use are no larger than all that is held. -/
theorem CoreInv.inUse_le (h : CoreInv c extra kind) :
    c.pool.segmentCount * segmentSize + (c.large.map Prod.snd).sum ≤ c.os.heldBytes := by
  rw [← c.inUse_sum]
  exact PageOs.sum_le_heldBytes h.inUse_nodup fun p hp => h.inUse_held hp

/-- A large region just mapped is no larger than what is held beside the large regions in use. -/
theorem CoreInv.largeMapped_le (h : CoreInv c extra kind) {t base size : ℕ}
    (hcall : c.call t = .largeMapped base size) :
    (c.large.map Prod.snd).sum + size ≤ c.os.heldBytes := by
  have hthread : c.Owns (.thread t) base ⟨size, .large⟩ := by
    simp [PoolCore.Owns, hcall, PoolCall.region]
  have hnew : (base, size) ∉ c.large := by
    intro hin
    have hcaller : c.Owns .caller base ⟨size, .large⟩ := ⟨rfl, hin⟩
    cases h.regions.unique _ _ _ _ _ hthread hcaller
  have hle := PageOs.sum_le_heldBytes (List.nodup_cons.mpr ⟨hnew, h.large_nodup⟩) fun p hp => by
    rcases List.mem_cons.mp hp with rfl | hp
    · exact ⟨_, h.regions.holds hthread⟩
    · exact h.inUse_held (List.mem_append_right _ hp)
  rw [List.map_cons, List.sum_cons] at hle
  omega

/-- When no thread is in a call, what is held are the registered segments and the large regions in
use. -/
theorem CoreInv.regions_perm (h : CoreInv c extra kind) (hquiet : ∀ t, c.call t = .idle) :
    (c.os.regions.map fun r => (r.base, r.extent.size)).Perm c.inUse := by
  have hcontract := h.regions.contract
  have hnodup : (c.os.regions.map fun r => (r.base, r.extent.size)).Nodup := by
    refine List.Nodup.map_on (fun r hr s hs heq => hcontract.eq_of_base hr hs (Prod.mk.inj heq).1)
      ?_
    refine hcontract.apart.imp_of_mem fun {a b} ha hb hab heq => ?_
    subst heq
    have hpos := hcontract.pos a ha
    unfold Region.Apart at hab
    omega
  refine (List.perm_ext_iff_of_nodup hnodup h.inUse_nodup).mpr ?_
  rintro ⟨base, size⟩
  simp only [List.mem_map, PoolCore.inUse, List.mem_append, List.mem_range, Prod.mk.injEq]
  constructor
  · rintro ⟨r, hr, rfl, rfl⟩
    obtain ⟨o, howns⟩ := (h.regions.held r.base r.extent).mp ⟨r, hr, rfl, rfl⟩
    cases o with
    | table =>
      obtain ⟨hextent, i, hi, hbase⟩ := howns
      exact .inl ⟨i, hi, hbase, by rw [hextent]; rfl⟩
    | thread t => simp [PoolCore.Owns, hquiet t, PoolCall.region] at howns
    | caller => exact .inr howns.2
  · rintro (⟨i, hi, rfl, rfl⟩ | hlarge)
    · have htable : c.Owns .table (c.pool.segments i) segmentExtent := ⟨rfl, i, hi, rfl⟩
      obtain ⟨r, hr, hbase, hextent⟩ := h.regions.holds htable
      exact ⟨r, hr, hbase, by rw [hextent]; rfl⟩
    · have hcaller : c.Owns .caller base ⟨size, .large⟩ := ⟨rfl, hlarge⟩
      obtain ⟨r, hr, hbase, hextent⟩ := h.regions.holds hcaller
      exact ⟨r, hr, hbase, by rw [hextent]⟩

/-- When no thread is in a call, what is held is what the segments and the large regions add up
to. -/
theorem CoreInv.heldBytes_eq (h : CoreInv c extra kind) (hquiet : ∀ t, c.call t = .idle) :
    c.os.heldBytes = c.pool.segmentCount * segmentSize + (c.large.map Prod.snd).sum := by
  have hsum := ((h.regions_perm hquiet).map Prod.snd).sum_eq
  rw [List.map_map, c.inUse_sum] at hsum
  exact hsum

end ClMalloc
