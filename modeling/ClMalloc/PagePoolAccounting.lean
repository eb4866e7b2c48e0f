import ClMalloc.PagePool
import ClMalloc.PoolOps
import ClMalloc.PoolReclaim

/-!
# The page pool never loses a page or a segment

Two results about every interleaving at lock granularity. Each page of each registered
segment is in exactly one place, and the counters, lengths and indices the pool keeps
agree with that. Each segment obtained from the page allocator is given back exactly once
by the time the pool is dropped, and a segment is released only when nothing refers to it.
-/

namespace ClMalloc

/-- The places a page of a registered segment can be in. -/
inductive PagePlace
  | handedOut
  | buffered
  | dirty
  | clean
  | uncarved
  deriving DecidableEq

/-- The page is in the place: held by a caller, abandoned or cached; in a purge buffer; listed;
uncarved. -/
def PagePool.At (s : PagePool) : PagePlace → ℕ → Prop
  | .handedOut, p => (∃ t, p ∈ s.core.owned t) ∨ (∃ i, p ∈ s.abandoned i) ∨ p ∈ s.slabCache
  | .buffered, p => ∃ t, p ∈ (s.core.call t).buffer
  | .dirty, p => p ∈ s.core.pool.dirtyList.pages
  | .clean, p => p ∈ s.core.pool.cleanList.pages
  | .uncarved, p => s.core.pool.segmentCursor ≤ p ∧ p < s.core.pool.segmentEnd

/-- The place the map gives a page. -/
def placeOf : PageKind (Tag Place) → Option PagePlace
  | .outside => none
  | .out (.buffer _) => some .buffered
  | .out _ => some .handedOut
  | .dirty => some .dirty
  | .clean => some .clean
  | .uncarved => some .uncarved

open Classical in
/-- The accounting of the pool in the pool's own terms. -/
structure PagePool.Accounted (s : PagePool) : Prop where
  place : ∀ i < s.core.pool.segmentCount, ∀ p ∈ segmentPages (s.core.pool.segments i),
    ∃! place, s.At place p
  outstanding : ∀ i < s.core.pool.segmentCount, s.core.pool.segOutstanding i =
    (segmentPages (s.core.pool.segments i)).countP fun p =>
      decide (s.At .handedOut p ∨ s.At .buffered p)
  outstanding_le : ∀ i < s.core.pool.segmentCount, s.core.pool.segOutstanding i ≤ 32
  dirtyLen : s.core.pool.dirtyList.len = s.core.pool.dirtyList.pages.length
  cleanLen : s.core.pool.cleanList.len = s.core.pool.cleanList.pages.length
  carving : s.core.pool.segmentCursor < s.core.pool.segmentEnd →
    s.core.pool.carvingIdx < s.core.pool.segmentCount ∧
      inSegment (s.core.pool.segments s.core.pool.carvingIdx) s.core.pool.segmentCursor = true
  unused : ∀ i, s.core.pool.segmentCount ≤ i →
    s.core.pool.segments i = 0 ∧ s.core.pool.segOutstanding i = 0
  purge : ∀ t page todo buf, s.core.call t = .purged (page :: todo) buf → page ∈ buf
  allocSlab : (allocSlabLocked s.core.pool).isSome = true
  deallocSlab : ∀ t, ∀ p ∈ s.core.owned t, (deallocSlabLocked s.core.pool p).isSome = true
  purgeTake : (purgeTakeLocked s.core.pool).isSome = true
  purgeReturn : ∀ t todo buf, s.core.call t = .purged todo buf →
    (purgeReturnLocked s.core.pool buf).isSome = true

variable {s : PagePool} {kind : ℕ → PageKind (Tag Place)} {p t : ℕ}

/-- The lists under the tags, read off the map. -/
theorem PagePoolInv.mem_tag (h : PagePoolInv s kind) (tag : Tag Place) :
    p ∈ s.core.holder s.extra tag ↔ kind p = .out tag :=
  (h.core.keyed tag).1 p

/-- A page is handed out when the map gives it to a thread, the cache or an abandoned list. -/
theorem PagePoolInv.handedOut_iff (h : PagePoolInv s kind) :
    s.At .handedOut p ↔ placeOf (kind p) = some .handedOut := by
  have howned (t : ℕ) : p ∈ s.core.owned t ↔ kind p = .out (.owned t) := h.mem_tag (.owned t)
  have habandoned (i : ℕ) : p ∈ s.abandoned i ↔ kind p = .out (.other (.abandoned i)) :=
    h.mem_tag (.other (.abandoned i))
  have hcached : p ∈ s.slabCache ↔ kind p = .out (.other .cached) := h.mem_tag (.other .cached)
  simp only [PagePool.At, howned, habandoned, hcached]
  cases hk : kind p with
  | out tag =>
    cases tag with
    | owned t => simp [placeOf]
    | buffer t => simp [placeOf]
    | other x => cases x <;> simp [placeOf]
  | _ => simp [placeOf]

/-- A page is buffered when the map gives it to a purge buffer. -/
theorem PagePoolInv.buffered_iff (h : PagePoolInv s kind) :
    s.At .buffered p ↔ placeOf (kind p) = some .buffered := by
  have hbuffer (t : ℕ) : p ∈ (s.core.call t).buffer ↔ kind p = .out (.buffer t) :=
    h.mem_tag (.buffer t)
  simp only [PagePool.At, hbuffer]
  cases hk : kind p with
  | out tag => cases tag <;> simp [placeOf]
  | _ => simp [placeOf]

/-- For a page of a segment the places are the ones the map gives. -/
theorem PagePoolInv.at_iff (h : PagePoolInv s kind) (haligned : slabSize ∣ p) (place : PagePlace) :
    s.At place p ↔ placeOf (kind p) = some place := by
  cases place with
  | handedOut => exact h.handedOut_iff
  | buffered => exact h.buffered_iff
  | dirty =>
    rw [PagePool.At, h.core.pool.dirty p]
    cases hk : kind p with
    | out tag => cases tag <;> simp [placeOf]
    | _ => simp [placeOf]
  | clean =>
    rw [PagePool.At, h.core.pool.clean p]
    cases hk : kind p with
    | out tag => cases tag <;> simp [placeOf]
    | _ => simp [placeOf]
  | uncarved =>
    have hrange : s.At .uncarved p ↔ kind p = .uncarved := by
      rw [← h.core.pool.uncarved p, PagePool.At]
      simp [haligned]
    rw [hrange]
    cases hk : kind p with
    | out tag => cases tag <;> simp [placeOf]
    | _ => simp [placeOf]

/-- A page is outstanding when it is handed out or buffered. -/
theorem PagePoolInv.isOut_iff (h : PagePoolInv s kind) :
    (kind p).isOut = true ↔ s.At .handedOut p ∨ s.At .buffered p := by
  rw [h.handedOut_iff, h.buffered_iff]
  cases hk : kind p with
  | out tag => cases tag <;> simp [placeOf, PageKind.isOut]
  | _ => simp [placeOf, PageKind.isOut]

/-- The invariant gives the accounting in the pool's own terms. -/
theorem PagePoolInv.accounted (h : PagePoolInv s kind) : s.Accounted where
  place := fun i hi p hp => by
    have haligned := ((mem_segmentPages (h.core.pool.base_aligned i hi)).mp hp).2.2
    have hknown := (h.core.pool.registered p).mpr ⟨i, hi, hp⟩
    have hsome : ∃ place, placeOf (kind p) = some place := by
      cases hk : kind p with
      | outside => exact absurd hk hknown
      | out tag => cases tag <;> exact ⟨_, rfl⟩
      | _ => exact ⟨_, rfl⟩
    obtain ⟨place, hplace⟩ := hsome
    refine ⟨place, (h.at_iff haligned place).mpr hplace, fun place' hplace' => ?_⟩
    have hplace' := (h.at_iff haligned place').mp hplace'
    rw [hplace, Option.some.injEq] at hplace'
    exact hplace'.symm
  outstanding := fun i hi => by
    rw [h.core.pool.outstanding i hi]
    refine List.countP_congr fun p _ => ?_
    simp only [decide_eq_true_eq]
    exact h.isOut_iff
  outstanding_le := fun i hi => by
    rw [h.core.pool.outstanding i hi]
    exact List.countP_le_length.trans (segmentPages_length _).le
  dirtyLen := h.core.pool.dirty_len
  cleanLen := h.core.pool.clean_len
  carving := fun hlt => by
    obtain ⟨hidx, hlo, hend, -⟩ := h.core.pool.carving hlt
    refine ⟨hidx, ?_⟩
    simp only [inSegment, Bool.and_eq_true, decide_eq_true_eq]
    exact ⟨hlo, hend ▸ hlt⟩
  unused := h.core.pool.unused
  purge := fun t page todo buf hcall => by
    have hok := h.core.calls t
    rw [hcall] at hok
    exact hok page List.mem_cons_self
  allocSlab := by
    rcases allocSlabLocked_spec h.core.pool (.owned 0) with ⟨slab, st', heq, -⟩ | ⟨heq, -⟩ <;>
      simp [heq]
  deallocSlab := fun t p hp => by
    obtain ⟨seg, st', -, -, ⟨heq, -⟩ | ⟨outcome, heq, -⟩⟩ :=
      deallocSlabLocked_spec h.core.pool ((h.mem_tag (.owned t)).mp hp) <;> simp [heq]
  purgeTake := by
    obtain ⟨st', taken, heq, -⟩ := purgeTakeLocked_spec h.core.pool (.buffer 0)
    simp [heq]
  purgeReturn := fun t todo buf hcall => by
    obtain ⟨st', heq, -⟩ := purgeReturnLocked_spec h.core.pool buf (h.core.buffer hcall).1
      (h.core.buffer hcall).2
    simp [heq]

/-- In every reachable state each page is in exactly one place and no segment search fails. -/
theorem pagePool_accounted {labels : List PagePoolLabel}
    (hrun : Transition.run pagePoolStep PagePool.new labels = some s) : s.Accounted := by
  obtain ⟨kind, hinv⟩ := pagePoolInv_run hrun
  exact hinv.accounted

/-- Three threads use up three segments; thread 2 caches a page and abandons one, and starts a
purge, during which the first segment is released. -/
def placedRun : List PagePoolLabel :=
  handOutRun.map .core ++ [.cacheSlab 2 0x3050000,
    .abandonSlab 2 7 0x3060000] ++ startPurgeRun.map .core

/-- The accounting holds with pages handed out, cached, abandoned, listed and in a purge buffer. -/
theorem pagePool_accounted_placedRun :
    ∃ s, Transition.run pagePoolStep PagePool.new placedRun = some s ∧
    s.core.pool.segmentCount = 2 ∧ s.core.pool.metrics.segmentMunmapCount = 1 ∧
      s.slabCache = [0x3050000] ∧
    s.abandoned 7 = [0x3060000] ∧ (s.core.call 2).buffer.length = 32 ∧
      (s.core.owned 2).length = 27 ∧
    s.core.pool.dirtyList.len = 2 ∧ s.Accounted := by
  have hcheck : (Transition.run pagePoolStep PagePool.new placedRun).map (fun s => decide
      (s.core.pool.segmentCount = 2 ∧ s.core.pool.metrics.segmentMunmapCount = 1 ∧
        s.slabCache = [0x3050000] ∧
        s.abandoned 7 = [0x3060000] ∧ (s.core.call 2).buffer.length = 32 ∧
          (s.core.owned 2).length = 27 ∧
        s.core.pool.dirtyList.len = 2)) = some true := by decide +kernel
  obtain ⟨s, hrun, hs⟩ := Option.map_eq_some_iff.mp hcheck
  obtain ⟨hcount, hmunmap, hcache, habandoned, hbuffer, howned, hdirty⟩ := of_decide_eq_true hs
  exact ⟨s, hrun, hcount, hmunmap, hcache, habandoned, hbuffer, howned, hdirty,
    pagePool_accounted hrun⟩

/-- The cache loop of `Drop`, with as many rounds left as the cache may have pages. -/
def PagePool.drainCache (t : ℕ) : ℕ → PagePool → Option PagePool
  | 0, s => some s
  | rounds + 1, s =>
    match s.slabCache with
    | [] => some s
    | page :: _ =>
      match (s.uncacheSlab t).core.deallocSlabToEnd t page with
      | some core => PagePool.drainCache t rounds { s.uncacheSlab t with core := core }
      | none => none

/-- The segment loop of `Drop`. -/
def PoolState.deallocSegments (st : PoolState) (os : PageOs) : PageOs :=
  (List.range st.segmentCount).foldl
    (fun os i => if st.segments i = 0 then os else os.dealloc (st.segments i) segmentSize) os

/-- `Drop` for the pool, run by one thread. -/
def PagePool.drop (s : PagePool) (t : ℕ) : Option PageOs :=
  match s.drainCache t s.slabCache.length with
  | some s => some (s.core.pool.deallocSegments s.core.os)
  | none => none

/-- Draining the cache ends with every thread idle and keeps the accounting. -/
theorem PagePoolInv.drainCache (h : PagePoolInv s kind) (hidle : ∀ t, s.core.call t = .idle)
    (t rounds : ℕ) :
    ∃ s' kind', s.drainCache t rounds = some s' ∧ PagePoolInv s' kind' ∧
      ∀ t, s'.core.call t = .idle := by
  induction rounds generalizing s kind with
  | zero => exact ⟨s, kind, rfl, h, hidle⟩
  | succ rounds ih =>
    rw [PagePool.drainCache]
    cases hcache : s.slabCache with
    | nil => exact ⟨s, kind, rfl, h, hidle⟩
    | cons page rest =>
      have hstep : pagePoolStep s (.uncacheSlab t) = some (s.uncacheSlab t) := if_pos (hidle t)
      obtain ⟨kind₁, hinv⟩ := h.step hstep
      have hcall : (s.uncacheSlab t).core.call = s.core.call := by
        simp [PagePool.uncacheSlab, hcache, PoolCore.give]
      have howned : page ∈ (s.uncacheSlab t).core.owned t := by
        simp [PagePool.uncacheSlab, hcache, PoolCore.give]
      obtain ⟨core, kind₂, heq, hinv', hcall', -⟩ :=
        hinv.core.deallocSlabToEnd (by rw [hcall]; exact hidle t) howned
      simp only [heq]
      have hnext : PagePoolInv { s.uncacheSlab t with core := core } kind₂ := ⟨hinv', hinv.cacheLen⟩
      refine ih hnext fun t' => ?_
      change core.call t' = .idle
      rw [hcall', hcall]
      exact hidle t'

/-- As many rounds as the cache has pages empty it, so the loop ends because the cache is empty. -/
theorem PagePool.drainCache_slabCache {s s' : PagePool} {rounds : ℕ}
    (hrounds : s.slabCache.length ≤ rounds) (hdrain : s.drainCache t rounds = some s') :
    s'.slabCache = [] := by
  induction rounds generalizing s with
  | zero =>
    obtain rfl := Option.some.inj hdrain
    exact List.length_eq_zero_iff.mp (Nat.le_zero.mp hrounds)
  | succ rounds ih =>
    rw [PagePool.drainCache] at hdrain
    cases hcache : s.slabCache with
    | nil =>
      simp only [hcache, Option.some.injEq] at hdrain
      exact hdrain ▸ hcache
    | cons page rest =>
      simp only [hcache] at hdrain hrounds
      split at hdrain <;> try contradiction
      refine ih ?_ hdrain
      simpa [PagePool.uncacheSlab, hcache] using hrounds

/-- The owners once the first segments of the table have been given back. -/
def PoolCore.OwnsFrom (c : PoolCore) (start : ℕ) : RegionOwner → ℕ → Extent → Prop
  | .table, base, extent => extent = segmentExtent ∧
      ∃ i, start ≤ i ∧ i < c.pool.segmentCount ∧ c.pool.segments i = base
  | .thread t, base, extent => c.Owns (.thread t) base extent
  | .caller, base, extent => c.Owns .caller base extent

/-- The segment loop gives back the segments it has passed and nothing else. -/
theorem CoreInv.deallocSegments_prefix {X : Type} {c : PoolCore} {extra : X → List ℕ}
    {kind : ℕ → PageKind (Tag X)} (h : CoreInv c extra kind) (n : ℕ)
    (hn : n ≤ c.pool.segmentCount) :
    RegionInv ((List.range n).foldl (fun os i => if c.pool.segments i = 0 then os
      else os.dealloc (c.pool.segments i) segmentSize) c.os) (c.OwnsFrom n) := by
  induction n with
  | zero =>
    refine h.regions.congr fun o b e => ?_
    cases o <;> simp [PoolCore.OwnsFrom, PoolCore.Owns]
  | succ n ih =>
    have hregions := ih (by omega)
    have hpos := h.pool.base_pos n hn
    rw [List.range_succ, List.foldl_append, List.foldl_cons, List.foldl_nil, if_neg (by omega)]
    have htable : c.OwnsFrom n .table (c.pool.segments n) segmentExtent := ⟨rfl, n, le_rfl, hn, rfl⟩
    refine hregions.dealloc htable (fun o ho b e => ?_) fun b e => ?_
    · cases o with
      | table => exact absurd rfl ho
      | thread t' => rfl
      | caller => rfl
    · constructor
      · rintro ⟨he, i, hi, hcount, rfl⟩
        refine ⟨⟨he, i, by omega, hcount, rfl⟩, fun heq => ?_⟩
        have hd := h.pool.disjoint i hcount n hn (by omega)
        simp only [segmentSize] at hd
        omega
      · rintro ⟨⟨he, i, hi, hcount, rfl⟩, hne⟩
        exact ⟨he, i, by grind, hcount, rfl⟩

/-- Dropping an idle pool leaves no segment acquisition unreturned. -/
theorem PagePoolInv.drop (h : PagePoolInv s kind) (hidle : ∀ t, s.core.call t = .idle) (t : ℕ) :
    ∃ os, s.drop t = some os ∧ os.faults = 0 ∧
      (os.returned .segment).Perm (List.range (os.acquired .segment)) := by
  obtain ⟨s', kind', heq, hinv, hidle'⟩ := h.drainCache hidle t s.slabCache.length
  have hregions := hinv.core.deallocSegments_prefix s'.core.pool.segmentCount le_rfl
  refine ⟨s'.core.pool.deallocSegments s'.core.os, by rw [PagePool.drop, heq],
    hregions.contract.noFault, ?_⟩
  have hnumbers := hregions.contract.numbers .segment
  have hnone : (s'.core.pool.deallocSegments s'.core.os).heldNumbers .segment = [] := by
    rw [PageOs.heldNumbers, List.map_eq_nil_iff, List.filter_eq_nil_iff]
    intro r hr
    obtain ⟨o, ho⟩ := (hregions.held r.base r.extent).mp ⟨r, hr, rfl, rfl⟩
    cases o with
    | table =>
      obtain ⟨-, i, hge, hlt, -⟩ := ho
      omega
    | thread t' =>
      have hregion : (s'.core.call t').region = some (r.base, r.extent) := ho
      simp [hidle', PoolCall.region] at hregion
    | caller => simp [ho.1]
  exact (List.append_nil _ ▸ hnone ▸ hnumbers :)

/-- Nothing refers to a segment between its release and the page allocator taking it back. -/
theorem PagePoolInv.releasing (h : PagePoolInv s kind) {base : ℕ}
    (hcall : s.core.call t = .releasing base) :
    (∀ p, inSegment base p = true → ∀ place, ¬s.At place p) ∧
      ∀ i < s.core.pool.segmentCount, s.core.pool.segments i + segmentSize ≤ base ∨
        base + segmentSize ≤ s.core.pool.segments i := by
  have hthread : s.core.Owns (.thread t) base segmentExtent := by
    rw [PoolCore.Owns, hcall]
    rfl
  have hapart (i : ℕ) (hi : i < s.core.pool.segmentCount) :
      s.core.pool.segments i + segmentSize ≤ base ∨
      base + segmentSize ≤ s.core.pool.segments i := by
    have htable : s.core.Owns .table (s.core.pool.segments i) segmentExtent := ⟨rfl, i, hi, rfl⟩
    exact h.core.regions.disjoint htable hthread (by simp)
  refine ⟨fun p hp place hat => ?_, hapart⟩
  simp only [inSegment, Bool.and_eq_true, decide_eq_true_eq] at hp
  have houtside : kind p = .outside := by
    by_contra hne
    obtain ⟨i, hi, hmem⟩ := (h.core.pool.registered p).mp hne
    have hrange := (mem_segmentPages (h.core.pool.base_aligned i hi)).mp hmem
    rcases hapart i hi with hd | hd <;> omega
  cases place with
  | handedOut => simpa [houtside, placeOf] using h.handedOut_iff.mp hat
  | buffered => simpa [houtside, placeOf] using h.buffered_iff.mp hat
  | dirty => simpa [houtside] using (h.core.pool.dirty p).mp hat
  | clean => simpa [houtside] using (h.core.pool.clean p).mp hat
  | uncarved =>
    obtain ⟨hlo, hhi⟩ := hat
    obtain ⟨hidx, hstart, hend, -⟩ := h.core.pool.carving (by omega)
    rcases hapart _ hidx with hd | hd <;> omega

/-- Each segment acquisition is returned exactly once, and a segment only when nothing refers to
it. -/
theorem pagePool_segments_returned_once {labels : List PagePoolLabel}
    (hrun : Transition.run pagePoolStep PagePool.new labels = some s) :
    (s.core.os.faults = 0 ∧ (s.core.os.returned .segment).Nodup ∧
      ∀ n ∈ s.core.os.returned .segment, n < s.core.os.acquired .segment) ∧
    (∀ t base, s.core.call t = .releasing base →
      (∀ p, inSegment base p = true → ∀ place, ¬s.At place p) ∧
        ∀ i < s.core.pool.segmentCount, s.core.pool.segments i + segmentSize ≤ base ∨
          base + segmentSize ≤ s.core.pool.segments i) ∧
    ((∀ t, s.core.call t = .idle) → ∀ t, ∃ os, s.drop t = some os ∧ os.faults = 0 ∧
      (os.returned .segment).Perm (List.range (os.acquired .segment))) := by
  obtain ⟨kind, hinv⟩ := pagePoolInv_run hrun
  have hnumbers := hinv.core.regions.contract.numbers .segment
  refine ⟨⟨hinv.core.regions.contract.noFault, ?_, fun n hn => ?_⟩,
    fun t base hcall => hinv.releasing hcall, fun hidle t => hinv.drop hidle t⟩
  · exact (List.nodup_append.mp (hnumbers.nodup_iff.mpr List.nodup_range)).1
  · exact List.mem_range.mp (hnumbers.subset (List.mem_append_left _ hn))

/-- After the purge two of three segments have been released; dropping the pool, with a page still
cached and one abandoned, returns the third. -/
theorem pagePool_segments_returned_once_placedRun :
    ∃ s, Transition.run pagePoolStep PagePool.new (placedRun ++ endPurgeRun.map .core) = some s ∧
      s.core.os.returned .segment = [1, 0] ∧ s.slabCache = [0x3050000] ∧
        s.abandoned 7 = [0x3060000] ∧
      ∃ os, s.drop 0 = some os ∧ os.faults = 0 ∧ (os.returned .segment).Perm [0, 1, 2] := by
  have hcheck : (Transition.run pagePoolStep PagePool.new (placedRun ++ endPurgeRun.map .core)).map
      (fun s => decide
      (s.core.os.returned .segment = [1, 0] ∧ s.slabCache = [0x3050000] ∧
        s.abandoned 7 = [0x3060000] ∧
        s.core.call 0 = .idle ∧ s.core.call 1 = .idle ∧ s.core.call 2 = .idle ∧
        (s.drop 0).map (fun os => os.acquired .segment) = some 3)) = some true := by decide +kernel
  obtain ⟨s, hrun, hs⟩ := Option.map_eq_some_iff.mp hcheck
  obtain ⟨hreturned, hcache, habandoned, hcall₀, hcall₁, hcall₂, hdropped⟩ := of_decide_eq_true hs
  have hthreads : ∀ l ∈ placedRun ++ endPurgeRun.map .core, l.thread < 3 := by decide +kernel
  have hidle (t : ℕ) : s.core.call t = .idle := by
    by_cases ht : t < 3
    · interval_cases t
      · exact hcall₀
      · exact hcall₁
      · exact hcall₂
    · exact run_pagePoolStep_call (fun l hl => by have := hthreads l hl; omega) hrun
  obtain ⟨os, hdrop, hacquired⟩ := Option.map_eq_some_iff.mp hdropped
  obtain ⟨os', hdrop', hfaults, hperm⟩ := (pagePool_segments_returned_once hrun).2.2 hidle 0
  obtain rfl := Option.some.inj (hdrop.symm.trans hdrop')
  exact ⟨s, hrun, hreturned, hcache, habandoned, os, hdrop,
    hfaults, by rw [hacquired] at hperm; exact hperm⟩

end ClMalloc
