import ClMalloc.PoolCore

/-!
# Who owns each region of the page allocator

A region held from the page allocator is in the segment table, with a thread inside a pool
call, or a large region in use. Each step of the pool moves at most one region between
these owners, and there is one lemma for each way it does so.
-/

namespace ClMalloc

variable {X : Type} {c c' : PoolCore} {extra : X → List ℕ} {kind kind' : ℕ → PageKind (Tag X)}
variable {pool : PoolState} {os : PageOs} {large : List (ℕ × ℕ)} {t : ℕ} {k : PoolCall}

/-- A new pool satisfies the invariant. -/
theorem coreInv_new : CoreInv PoolCore.new (fun _ : X => []) fun _ => .outside where
  pool := poolInv_new
  keyed := fun tag => by cases tag <;> simp [PoolCore.holder, PoolCore.new, PoolCall.buffer]
  calls := fun _ => trivial
  large_nodup := List.nodup_nil
  regions := by
    refine ⟨osInv_new, fun b e => ?_, fun o _ b e _ ho => ?_⟩
    · constructor
      · rintro ⟨r, hr, -⟩
        simp [PoolCore.new, PageOs.new] at hr
      · rintro ⟨o, ho⟩
        cases o <;> simp [PoolCore.new, PoolCore.Owns, PoolState.new, PoolCall.region] at ho
    · cases o <;> simp [PoolCore.new, PoolCore.Owns, PoolState.new, PoolCall.region] at ho

/-- A held page lies in a registered segment. -/
theorem CoreInv.registered (h : CoreInv c extra kind) {tag : Tag X} {p : ℕ}
    (hp : p ∈ c.holder extra tag) :
    ∃ i < c.pool.segmentCount, p ∈ segmentPages (c.pool.segments i) :=
  h.pool.exists_segment (by simp [((h.keyed tag).1 p).mp hp])

/-- A segment mapped by a thread is disjoint from every registered one. -/
theorem CoreInv.fresh (h : CoreInv c extra kind) {base : ℕ} (hcall : c.call t = .mapped base) :
    FreshSegment c.pool base := by
  have hok := h.calls t
  rw [hcall] at hok
  have hthread : c.Owns (.thread t) base segmentExtent := by
    rw [PoolCore.Owns, hcall]
    rfl
  refine ⟨hok.2, hok.1, fun i hi => ?_⟩
  have htable : c.Owns .table (c.pool.segments i) segmentExtent := ⟨rfl, i, hi, rfl⟩
  exact h.regions.disjoint htable hthread (by simp)

/-- Another thread's region does not depend on where this thread is. -/
theorem owns_thread_of_ne {owned : ℕ → List ℕ} {t' : ℕ} (htt : RegionOwner.thread t' ≠ .thread t)
    (b : ℕ) (e : Extent) :
    (PoolCore.mk pool (Function.update c.call t k) owned large os).Owns (.thread t') b e ↔
      c.Owns (.thread t') b e := by
  have hne : t' ≠ t := fun heq => htt (congrArg _ heq)
  simp [PoolCore.Owns, hne]

/-- The moved thread owns the region of its new point. -/
theorem owns_thread_self {owned : ℕ → List ℕ} (b : ℕ) (e : Extent) :
    (PoolCore.mk pool (Function.update c.call t k) owned large os).Owns (.thread t) b e ↔
      k.region = some (b, e) := by
  simp [PoolCore.Owns]

/-- A thread that moves to a point with a region gains it. -/
theorem owns_thread_gain {owned : ℕ → List ℕ} {base : ℕ} {extent : Extent}
    (hregion : (c.call t).region = none) (hk : k.region = some (base, extent)) (b : ℕ)
    (e : Extent) :
    (PoolCore.mk pool (Function.update c.call t k) owned large os).Owns (.thread t) b e ↔
      c.Owns (.thread t) b e ∨ (b = base ∧ e = extent) := by
  rw [owns_thread_self, hk, PoolCore.Owns, hregion]
  simp [eq_comm]

/-- A thread that moves to a point without a region loses the one it had. -/
theorem owns_thread_lose {owned : ℕ → List ℕ} {base : ℕ} {extent : Extent}
    (hregion : (c.call t).region = some (base, extent))
    (hk : k.region = none) (b : ℕ) (e : Extent) :
    (PoolCore.mk pool (Function.update c.call t k) owned large os).Owns (.thread t) b e ↔
      c.Owns (.thread t) b e ∧ b ≠ base := by
  rw [owns_thread_self, hk, PoolCore.Owns, hregion, Option.some.injEq, Prod.mk.injEq]
  constructor
  · simp
  · rintro ⟨⟨rfl, -⟩, hne⟩
    exact absurd rfl hne

/-- A thread that moves without taking or losing a region changes no ownership. -/
theorem CoreInv.regions_advance (h : CoreInv c extra kind) (owned : ℕ → List ℕ)
    (hsegments : pool.segments = c.pool.segments) (hcount : pool.segmentCount = c.pool.segmentCount)
    (hk : k.region = (c.call t).region) :
    RegionInv c.os (PoolCore.Owns ⟨pool, Function.update c.call t k, owned, c.large, c.os⟩) := by
  refine h.regions.congr fun o b e => ?_
  cases o with
  | table => simp only [PoolCore.Owns, hsegments, hcount]
  | thread t' =>
    by_cases htt : t' = t
    · subst htt
      rw [owns_thread_self, hk, PoolCore.Owns]
    · exact owns_thread_of_ne (by simpa using htt) b e
  | caller => rfl

/-- A thread that holds no region receives the one it asked for. -/
theorem CoreInv.regions_map (h : CoreInv c extra kind) {base align : ℕ} {extent : Extent}
    (hregion : (c.call t).region = none) (hanswer : c.os.Admits base extent.size align)
    (hsize : 0 < extent.size) (hk : k.region = some (base, extent)) :
    RegionInv (c.os.alloc base extent)
      (PoolCore.Owns ⟨c.pool, Function.update c.call t k, c.owned, c.large,
        c.os.alloc base extent⟩) := by
  refine h.regions.alloc (o := .thread t) hanswer hsize (fun o ho b e => ?_)
    (owns_thread_gain hregion hk)
  cases o with
  | table => rfl
  | thread t' => exact owns_thread_of_ne ho b e
  | caller => rfl

/-- A thread gives its region back. -/
theorem CoreInv.regions_unmap (h : CoreInv c extra kind) {base : ℕ} {extent : Extent}
    (hregion : (c.call t).region = some (base, extent)) (hk : k.region = none) :
    RegionInv (c.os.dealloc base extent.size)
      (PoolCore.Owns ⟨c.pool, Function.update c.call t k, c.owned, c.large,
        c.os.dealloc base extent.size⟩) := by
  refine h.regions.dealloc (o := .thread t) hregion (fun o ho b e => ?_)
    (owns_thread_lose hregion hk)
  cases o with
  | table => rfl
  | thread t' => exact owns_thread_of_ne ho b e
  | caller => rfl

/-- A thread's segment moves into the table. -/
theorem CoreInv.regions_register (h : CoreInv c extra kind) {base : ℕ} (owned : ℕ → List ℕ)
    (hregion : (c.call t).region = some (base, segmentExtent)) (hk : k.region = none)
    (hsegments : pool.segments = (c.pool.appendSegment base).segments)
    (hcount : pool.segmentCount = c.pool.segmentCount + 1) :
    RegionInv c.os (PoolCore.Owns ⟨pool, Function.update c.call t k, owned, c.large, c.os⟩) := by
  refine h.regions.transfer (o := .thread t) .table hregion (by simp) (fun o ho hne b e => ?_)
    (owns_thread_lose hregion hk) fun b e => ?_
  · cases o with
    | table => exact absurd rfl hne
    | thread t' => exact owns_thread_of_ne ho b e
    | caller => rfl
  · simp only [PoolCore.Owns, hsegments, hcount]
    constructor
    · rintro ⟨hs, i, hi, hb⟩
      by_cases hlast : i = c.pool.segmentCount
      · subst hlast
        exact .inr ⟨by simpa using hb.symm, hs⟩
      · rw [appendSegment_segments_of_ne base hlast] at hb
        exact .inl ⟨hs, i, by omega, hb⟩
    · rintro (⟨hs, i, hi, hb⟩ | ⟨rfl, hs⟩)
      · exact ⟨hs, i, by omega, by rwa [appendSegment_segments_of_ne base (by omega)]⟩
      · exact ⟨hs, c.pool.segmentCount, by omega, by simp⟩

/-- A released segment moves from the table to the thread that released it. -/
theorem CoreInv.regions_release (h : CoreInv c extra kind) {seg : ℕ} (owned : ℕ → List ℕ)
    (hseg : seg < c.pool.segmentCount) (hrem : Removed c.pool pool seg)
    (hregion : (c.call t).region = none)
    (hk : k.region = some (c.pool.segments seg, segmentExtent)) :
    RegionInv c.os (PoolCore.Owns ⟨pool, Function.update c.call t k, owned, c.large, c.os⟩) := by
  have htable : c.Owns .table (c.pool.segments seg) segmentExtent := ⟨rfl, seg, hseg, rfl⟩
  refine h.regions.transfer (.thread t) htable (by simp) (fun o ho hne b e => ?_) (fun b e => ?_)
    (owns_thread_gain hregion hk)
  · cases o with
    | table => exact absurd rfl ho
    | thread t' => exact owns_thread_of_ne hne b e
    | caller => rfl
  · simp only [PoolCore.Owns]
    constructor
    · rintro ⟨hs, i, hi, rfl⟩
      obtain ⟨j, hj, hne, heq⟩ := hrem.old i hi
      have hd := h.pool.disjoint j hj seg hseg hne
      simp only [segmentSize] at hd
      exact ⟨⟨hs, j, hj, heq.symm⟩, by omega⟩
    · rintro ⟨⟨hs, j, hj, rfl⟩, hne⟩
      exact ⟨hs, hrem.kept j hj fun heq => hne (congrArg _ heq)⟩

/-- A counted large region passes from the thread to its caller. -/
theorem CoreInv.regions_allocLarge (h : CoreInv c extra kind) {base size : ℕ}
    (hregion : (c.call t).region = some (base, ⟨size, .large⟩)) (hk : k.region = none) :
    RegionInv c.os (PoolCore.Owns
      ⟨allocLargeLocked c.pool size, Function.update c.call t k, c.owned,
        (base, size) :: c.large, c.os⟩) := by
  refine h.regions.transfer (o := .thread t) .caller hregion (by simp) (fun o ho hne b e => ?_)
    (owns_thread_lose hregion hk) fun b e => ?_
  · cases o with
    | table => rfl
    | thread t' => exact owns_thread_of_ne ho b e
    | caller => exact absurd rfl hne
  · obtain ⟨size', purpose⟩ := e
    simp only [PoolCore.Owns, List.mem_cons, Prod.mk.injEq, Extent.mk.injEq]
    tauto

/-- A large region its caller gives up passes to the thread that frees it. -/
theorem CoreInv.regions_deallocLarge (h : CoreInv c extra kind) {base size : ℕ}
    (hmem : (base, size) ∈ c.large) (hregion : (c.call t).region = none)
    (hk : k.region = some (base, ⟨size, .large⟩)) :
    RegionInv c.os (PoolCore.Owns
      ⟨deallocLargeLocked c.pool size, Function.update c.call t k, c.owned,
        c.large.erase (base, size), c.os⟩) := by
  have hcaller : c.Owns .caller base ⟨size, .large⟩ := ⟨rfl, hmem⟩
  refine h.regions.transfer (.thread t) hcaller (by simp) (fun o ho hne b e => ?_) (fun b e => ?_)
    (owns_thread_gain hregion hk)
  · cases o with
    | table => rfl
    | thread t' => exact owns_thread_of_ne hne b e
    | caller => exact absurd rfl ho
  · simp only [PoolCore.Owns, h.large_nodup.mem_erase_iff, ne_eq, Prod.mk.injEq, not_and]
    constructor
    · rintro ⟨hlarge, hne, hb⟩
      refine ⟨⟨hlarge, hb⟩, ?_⟩
      rintro rfl
      have howned : c.Owns .caller b e := ⟨hlarge, hb⟩
      exact hne rfl (congrArg Extent.size (h.regions.extent_eq hcaller howned))
    · rintro ⟨⟨hlarge, hb⟩, hne⟩
      exact ⟨hlarge, fun heq => absurd heq hne, hb⟩

end ClMalloc
