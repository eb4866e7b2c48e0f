import ClMalloc.Pool
import ClMalloc.Lib.Count
import Mathlib.Tactic.Ring

/-!
# Where every page of a registered segment is

The accounting of the pool is stated against a map that gives each address its kind:
outside the registered segments, out of the pool under a tag its user chooses, on the
dirty list, on the clean list, or uncarved. A page is in one place because the map is a
function; the invariant ties the lists, the cursor and the counters to the map. One
lemma for each critical section says how the map changes.
-/

namespace ClMalloc

open Intrusive

/-- Where a slab page is, seen from the pool; pages out of the pool carry their holder's tag. -/
inductive PageKind (T : Type)
  | outside
  | out (tag : T)
  | dirty
  | clean
  | uncarved
  deriving DecidableEq

/-- The page is counted as outstanding. -/
def PageKind.isOut {T : Type} : PageKind T → Bool
  | .out _ => true
  | _ => false

/-- The slab pages of the segment at `base`, in address order. -/
def segmentPages (base : ℕ) : List ℕ :=
  (List.range slabsPerSegment).map fun i => base + i * slabSize

/-- Every page size and segment size as a literal. -/
theorem pool_sizes : slabSize = 65536 ∧ segmentSize = 2097152 ∧ slabsPerSegment = 32 := by decide

/-- The pages of an aligned segment are the aligned addresses in its range. -/
theorem mem_segmentPages {base p : ℕ} (hbase : slabSize ∣ base) :
    p ∈ segmentPages base ↔ base ≤ p ∧ p < base + segmentSize ∧ slabSize ∣ p := by
  obtain ⟨hs, hg, hn⟩ := pool_sizes
  simp only [segmentPages, List.mem_map, List.mem_range, hs, hg, hn] at *
  constructor
  · rintro ⟨i, hi, rfl⟩
    omega
  · rintro ⟨hlo, hhi, hdvd⟩
    exact ⟨(p - base) / 65536, by omega, by omega⟩

/-- The first page of a segment is its base. -/
theorem base_mem_segmentPages (base : ℕ) : base ∈ segmentPages base :=
  List.mem_map.mpr ⟨0, by decide, by simp⟩

/-- A segment lists each of its pages once. -/
theorem segmentPages_nodup (base : ℕ) : (segmentPages base).Nodup := by
  refine List.Nodup.map_on ?_ List.nodup_range
  intro i _ j _ h
  have hs := pool_sizes.1
  rw [hs] at h
  omega

/-- A segment has thirty-two pages. -/
theorem segmentPages_length (base : ℕ) : (segmentPages base).length = 32 := by
  simp [segmentPages, pool_sizes.2.2]

/-- The accounting invariant of the pool, against the kind of every address. -/
structure PoolInv {T : Type} (st : PoolState) (kind : ℕ → PageKind T) : Prop where
  count_le : st.segmentCount ≤ maxSegments
  base_pos : ∀ i < st.segmentCount, 0 < st.segments i
  base_aligned : ∀ i < st.segmentCount, slabSize ∣ st.segments i
  disjoint : ∀ i < st.segmentCount, ∀ j < st.segmentCount, i ≠ j →
    st.segments i + segmentSize ≤ st.segments j ∨ st.segments j + segmentSize ≤ st.segments i
  unused : ∀ i, st.segmentCount ≤ i → st.segments i = 0 ∧ st.segOutstanding i = 0
  registered : ∀ p, kind p ≠ .outside ↔ ∃ i < st.segmentCount, p ∈ segmentPages (st.segments i)
  dirty : ∀ p, p ∈ st.dirtyList.pages ↔ kind p = .dirty
  dirty_nodup : st.dirtyList.pages.Nodup
  dirty_len : st.dirtyList.len = st.dirtyList.pages.length
  clean : ∀ p, p ∈ st.cleanList.pages ↔ kind p = .clean
  clean_nodup : st.cleanList.pages.Nodup
  clean_len : st.cleanList.len = st.cleanList.pages.length
  uncarved : ∀ p, (st.segmentCursor ≤ p ∧ p < st.segmentEnd ∧ slabSize ∣ p) ↔ kind p = .uncarved
  carving : st.segmentCursor < st.segmentEnd → st.carvingIdx < st.segmentCount ∧
    st.segments st.carvingIdx ≤ st.segmentCursor ∧
    st.segmentEnd = st.segments st.carvingIdx + segmentSize ∧ slabSize ∣ st.segmentCursor
  outstanding : ∀ i < st.segmentCount,
    st.segOutstanding i = (segmentPages (st.segments i)).countP fun p => (kind p).isOut

variable {T : Type} {st : PoolState} {kind : ℕ → PageKind T}

/-- A new pool has no segment, so every address is outside. -/
theorem poolInv_new : PoolInv PoolState.new (fun _ => (.outside : PageKind T)) where
  count_le := Nat.zero_le _
  base_pos := fun _ hi => absurd hi (Nat.not_lt_zero _)
  base_aligned := fun _ hi => absurd hi (Nat.not_lt_zero _)
  disjoint := fun _ hi => absurd hi (Nat.not_lt_zero _)
  unused := fun _ _ => ⟨rfl, rfl⟩
  registered := fun p => by simp [PoolState.new]
  dirty := fun p => by simp [PoolState.new, PageFreeList.empty]
  dirty_nodup := List.nodup_nil
  dirty_len := rfl
  clean := fun p => by simp [PoolState.new, PageFreeList.empty]
  clean_nodup := List.nodup_nil
  clean_len := rfl
  uncarved := fun p => by simp [PoolState.new]
  carving := fun h => absurd h (by simp [PoolState.new])
  outstanding := fun _ hi => absurd hi (Nat.not_lt_zero _)

/-- Two registered segments that share a page are the same table entry. -/
theorem PoolInv.index_unique (h : PoolInv st kind) {i j : ℕ} {p : ℕ} (hi : i < st.segmentCount)
    (hj : j < st.segmentCount) (hpi : p ∈ segmentPages (st.segments i))
    (hpj : p ∈ segmentPages (st.segments j)) : i = j := by
  by_contra hne
  have hlo := (mem_segmentPages (h.base_aligned i hi)).mp hpi
  have hhi := (mem_segmentPages (h.base_aligned j hj)).mp hpj
  rcases h.disjoint i hi j hj hne with hd | hd <;> omega

/-- The search finds the one segment that holds a page; only the segment table matters. -/
theorem PoolInv.findSegment_eq (h : PoolInv st kind) (st' : PoolState) {i : ℕ} {p : ℕ}
    (hseg : st'.segments = st.segments) (hcount : st'.segmentCount = st.segmentCount)
    (hi : i < st.segmentCount) (hp : p ∈ segmentPages (st.segments i)) :
    findSegment st' p = some i := by
  have hrange := (mem_segmentPages (h.base_aligned i hi)).mp hp
  unfold findSegment
  rw [hseg, hcount, List.find?_range_eq_some]
  refine ⟨by simp [inSegment, hrange.1, hrange.2.1], List.mem_range.mpr hi, fun j hj => ?_⟩
  have hjc : j < st.segmentCount := by omega
  have hd := h.disjoint i hi j hjc (by omega)
  simp only [inSegment, Bool.not_eq_true', Bool.and_eq_false_iff, decide_eq_false_iff_not]
  omega

/-- A page of a known kind lies in exactly one registered segment. -/
theorem PoolInv.exists_segment (h : PoolInv st kind) {p : ℕ} (hp : kind p ≠ .outside) :
    ∃ i < st.segmentCount, p ∈ segmentPages (st.segments i) :=
  (h.registered p).mp hp

/-- Changing a page between kinds inside the pool keeps the set of registered pages. -/
theorem PoolInv.registered_update (h : PoolInv st kind) {p : ℕ} {k : PageKind T}
    (hp : kind p ≠ .outside) (hk : k ≠ .outside) (q : ℕ) :
    Function.update kind p k q ≠ .outside ↔
      ∃ i < st.segmentCount, q ∈ segmentPages (st.segments i) := by
  rw [← h.registered q]
  by_cases hq : q = p
  · subst hq
    simp [hp, hk]
  · rw [Function.update_of_ne hq]

/-- A change at a page leaves the counts of the segments it is not in. -/
theorem PoolInv.countP_update_of_ne (h : PoolInv st kind) {i j p : ℕ} (hi : i < st.segmentCount)
    (hp : p ∈ segmentPages (st.segments i)) (hj : j < st.segmentCount) (hij : j ≠ i)
    (k : PageKind T) :
    (segmentPages (st.segments j)).countP (fun q => (Function.update kind p k q).isOut) =
      (segmentPages (st.segments j)).countP fun q => (kind q).isOut := by
  refine countP_eq_of_agree fun y hy => ?_
  rw [Function.update_of_ne]
  rintro rfl
  exact hij (h.index_unique hj hi hy hp)

/-- A page that leaves the pool raises the count of its own segment only, without wrapping. -/
theorem PoolInv.outstanding_inc (h : PoolInv st kind) {i p : ℕ} (hi : i < st.segmentCount)
    (hp : p ∈ segmentPages (st.segments i)) (hin : (kind p).isOut = false) {k : PageKind T}
    (hk : k.isOut = true) (j : ℕ) (hj : j < st.segmentCount) :
    Function.update st.segOutstanding i (u8Inc (st.segOutstanding i)) j =
      (segmentPages (st.segments j)).countP fun q => (Function.update kind p k q).isOut := by
  by_cases hij : j = i
  · subst hij
    have hflip := countP_eq_succ_of_flip (f := fun q => (kind q).isOut)
      (g := fun q => (Function.update kind p k q).isOut)
      (segmentPages_nodup _) hp hin (by simp [hk])
      (fun y _ hy => by simp [Function.update_of_ne hy])
    have hle := List.countP_le_length (p := fun q => (Function.update kind p k q).isOut)
      (l := segmentPages (st.segments j))
    rw [segmentPages_length] at hle
    rw [Function.update_self, u8Inc, h.outstanding j hj]
    omega
  · rw [Function.update_of_ne hij, h.outstanding j hj, h.countP_update_of_ne hi hp hj hij]

/-- A page that comes back lowers the count of its own segment only, without wrapping. -/
theorem PoolInv.outstanding_dec (h : PoolInv st kind) {i p : ℕ} (hi : i < st.segmentCount)
    (hp : p ∈ segmentPages (st.segments i)) (hout : (kind p).isOut = true) {k : PageKind T}
    (hk : k.isOut = false) (j : ℕ) (hj : j < st.segmentCount) :
    Function.update st.segOutstanding i (u8Dec (st.segOutstanding i)) j =
      (segmentPages (st.segments j)).countP fun q => (Function.update kind p k q).isOut := by
  by_cases hij : j = i
  · subst hij
    have hflip := countP_eq_succ_of_flip (g := fun q => (kind q).isOut)
      (f := fun q => (Function.update kind p k q).isOut) (segmentPages_nodup _) hp
      (by simp [hk]) hout (fun y _ hy => by simp [Function.update_of_ne hy])
    have hle := List.countP_le_length (p := fun q => (kind q).isOut)
      (l := segmentPages (st.segments j))
    rw [segmentPages_length] at hle
    rw [Function.update_self, u8Dec, h.outstanding j hj]
    omega
  · rw [Function.update_of_ne hij, h.outstanding j hj, h.countP_update_of_ne hi hp hj hij]

/-- Membership facts of a list keyed by a kind survive a change at a page of neither kind. -/
theorem mem_iff_update {l : List ℕ} {k kp kq : PageKind T} {p : ℕ} (hl : ∀ q, q ∈ l ↔ kind q = k)
    (hp : kind p = kp) (hold : kp ≠ k) (hnew : kq ≠ k) (q : ℕ) :
    q ∈ l ↔ Function.update kind p kq q = k := by
  by_cases hq : q = p
  · subst hq
    simp [hl, hp, hold, hnew]
  · rw [Function.update_of_ne hq, hl]

/-- The uncarved range is unaffected by a change at a page that is not uncarved. -/
theorem PoolInv.uncarved_update (h : PoolInv st kind) {k : PageKind T} {p : ℕ}
    (hold : kind p ≠ .uncarved) (hnew : k ≠ .uncarved) (q : ℕ) :
    (st.segmentCursor ≤ q ∧ q < st.segmentEnd ∧ slabSize ∣ q) ↔
      Function.update kind p k q = .uncarved := by
  rw [h.uncarved q]
  by_cases hq : q = p
  · subst hq
    simp [hold, hnew]
  · rw [Function.update_of_ne hq]

/-- The head of a list keyed by a kind leaves it when its page changes kind. -/
theorem mem_tail_iff_update {l : List ℕ} {k kq : PageKind T} {p : ℕ}
    (hl : ∀ q, q ∈ p :: l ↔ kind q = k) (hnodup : (p :: l).Nodup) (hnew : kq ≠ k) (q : ℕ) :
    q ∈ l ↔ Function.update kind p kq q = k := by
  by_cases hq : q = p
  · subst hq
    simp [(List.nodup_cons.mp hnodup).1, hnew]
  · rw [Function.update_of_ne hq, ← hl, List.mem_cons]
    simp [hq]

/-- A page that takes a kind becomes the new head of the list keyed by it. -/
theorem mem_cons_iff_update {l : List ℕ} {k : PageKind T} {p : ℕ} (hl : ∀ q, q ∈ l ↔ kind q = k)
    (q : ℕ) :
    q ∈ p :: l ↔ Function.update kind p k q = k := by
  by_cases hq : q = p
  · subst hq
    simp
  · rw [Function.update_of_ne hq, ← hl, List.mem_cons]
    simp [hq]

end ClMalloc
