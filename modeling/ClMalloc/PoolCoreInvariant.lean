import ClMalloc.PoolRegions

/-!
# The accounting of pages and regions survives every interleaving

Each step moves some pages from one holder to another and at most one region between its
owners. There is one preservation lemma for each kind of step; every critical section is
total, and every step of every thread keeps the invariant.
-/

namespace ClMalloc

variable {X : Type} {c c' : PoolCore} {extra : X → List ℕ} {kind kind' : ℕ → PageKind (Tag X)}
variable {pool : PoolState} {os : PageOs} {large : List (ℕ × ℕ)} {t : ℕ} {k : PoolCall}

/-- Moving a thread to a sound point keeps every thread at a sound point. -/
theorem ok_update {call : ℕ → PoolCall} (h : ∀ t, (call t).Ok) (hk : k.Ok) (t' : ℕ) :
    (Function.update call t k t').Ok := by
  by_cases htt : t' = t
  · subst htt
    rwa [Function.update_self]
  · rw [Function.update_of_ne htt]
    exact h t'

/-- The pages in a purge buffer are outstanding, each once. -/
theorem CoreInv.buffer (h : CoreInv c extra kind) {todo buf : List ℕ}
    (hcall : c.call t = .purged todo buf) :
    buf.Nodup ∧ ∀ p ∈ buf, ∃ tag, kind p = .out tag := by
  have hlist : c.holder extra (.buffer t) = buf := by simp [PoolCore.holder, hcall, PoolCall.buffer]
  have hbuf := h.keyed (.buffer t)
  rw [hlist] at hbuf
  exact ⟨hbuf.2, fun p hp => ⟨_, (hbuf.1 p).mp hp⟩⟩

section Holders

variable [DecidableEq X]

/-- Changing what one thread owns, while it keeps its buffer, changes that list only. -/
theorem holder_update_owned (l : List ℕ) (hk : k.buffer = (c.call t).buffer) :
    PoolCore.holder ⟨pool, Function.update c.call t k, Function.update c.owned t l,
      large, os⟩ extra = Function.update (c.holder extra) (.owned t) l := by
  funext tag
  cases tag with
  | owned t' =>
    by_cases htt : t' = t
    · subst htt
      simp [PoolCore.holder]
    · simp [PoolCore.holder, htt]
  | buffer t' =>
    by_cases htt : t' = t
    · subst htt
      simp [PoolCore.holder, hk]
    · simp [PoolCore.holder, htt]
  | other x => simp [PoolCore.holder]

/-- Moving a thread changes its own buffer only. -/
theorem holder_update_call :
    PoolCore.holder ⟨pool, Function.update c.call t k, c.owned, large, os⟩ extra =
      Function.update (c.holder extra) (.buffer t) k.buffer := by
  funext tag
  cases tag with
  | owned t' => simp [PoolCore.holder]
  | buffer t' =>
    by_cases htt : t' = t
    · subst htt
      simp [PoolCore.holder]
    · simp [PoolCore.holder, htt]
  | other x => simp [PoolCore.holder]

/-- A step that moves no page and keeps the thread's buffer. -/
theorem CoreInv.advance (h : CoreInv c extra kind) (hpool : PoolInv pool kind)
    (hbuf : k.buffer = (c.call t).buffer) (hk : k.Ok) (hlarge : large.Nodup)
    (hregions : RegionInv os (PoolCore.Owns ⟨pool, Function.update c.call t k,
      c.owned, large, os⟩)) :
    CoreInv ⟨pool, Function.update c.call t k, c.owned, large, os⟩ extra kind where
  pool := hpool
  keyed := by
    rw [holder_update_call, hbuf]
    exact (Function.update_eq_self (Tag.buffer t) (c.holder extra)).symm ▸ h.keyed
  calls := ok_update h.calls hk
  large_nodup := hlarge
  regions := hregions

/-- A page handed to a thread outside any purge. -/
theorem CoreInv.give (h : CoreInv c extra kind) {p : ℕ} (hpool : PoolInv pool kind')
    (hmoved : Moved kind kind' [p] (some (.owned t))) (hfree : (kind p).isOut = false)
    (hbuf : k.buffer = (c.call t).buffer) (hk : k.Ok)
    (hregions : RegionInv c.os (PoolCore.Owns
      ⟨pool, Function.update c.call t k, Function.update c.owned t (p :: c.owned t),
        c.large, c.os⟩)) :
    CoreInv ⟨pool, Function.update c.call t k,
      Function.update c.owned t (p :: c.owned t), c.large, c.os⟩
      extra kind' where
  pool := hpool
  keyed := by
    rw [holder_update_owned _ hbuf]
    exact h.keyed.give hmoved (List.nodup_singleton p) (by simpa using hfree)
  calls := ok_update h.calls hk
  large_nodup := h.large_nodup
  regions := hregions

/-- A page taken back from a thread outside any purge. -/
theorem CoreInv.take (h : CoreInv c extra kind) {p : ℕ} (hpool : PoolInv pool kind')
    (hmoved : Moved kind kind' [p] none) (hp : p ∈ c.owned t) (hbuf : k.buffer = (c.call t).buffer)
    (hk : k.Ok)
    (hregions : RegionInv c.os (PoolCore.Owns
      ⟨pool, Function.update c.call t k, Function.update c.owned t ((c.owned t).erase p),
        c.large, c.os⟩)) :
    CoreInv ⟨pool, Function.update c.call t k,
      Function.update c.owned t ((c.owned t).erase p), c.large, c.os⟩
      extra kind' where
  pool := hpool
  keyed := by
    rw [holder_update_owned _ hbuf]
    exact h.keyed.erase hmoved (show p ∈ c.holder extra (.owned t) from hp)
  calls := ok_update h.calls hk
  large_nodup := h.large_nodup
  regions := hregions

/-- The section of `alloc_slab` is total and keeps the accounting. -/
theorem CoreInv.allocSlab (h : CoreInv c extra kind) (hcall : c.call t = .idle) :
    (∃ pool page kind', c.allocSlab t = some (PoolCore.give { c with
      pool := pool } t page, some page) ∧
      CoreInv (PoolCore.give { c with pool := pool } t page) extra kind') ∨
    ∃ pool, c.allocSlab t = some (PoolCore.setCall { c with pool := pool } t .mapping, none) ∧
      CoreInv (PoolCore.setCall { c with pool := pool } t .mapping) extra kind := by
  have hself : Function.update c.call t .idle = c.call := by rw [← hcall, Function.update_eq_self]
  rcases allocSlabLocked_spec h.pool (.owned t) with ⟨slab, st', heq, hfree, hinv, -, htable⟩ |
    ⟨heq, -⟩
  · have hsame : st'.segments = c.pool.segments ∧ st'.segmentCount = c.pool.segmentCount := by
      rcases htable with htable | ⟨-, -, hs, hc, -⟩
      · exact ⟨htable.segments, htable.count⟩
      · exact ⟨hs, hc⟩
    have hgive := h.give hinv (moved_update_out slab _) hfree (k := .idle) (by rw [hcall]) trivial
      (h.regions_advance _ hsame.1 hsame.2 (by rw [hcall]))
    rw [hself] at hgive
    exact .inl ⟨st', slab, _, by rw [PoolCore.allocSlab, heq], hgive⟩
  · refine .inr ⟨c.pool.countLock, by rw [PoolCore.allocSlab, heq], ?_⟩
    exact h.advance (k := .mapping) (h.pool.withCounters _ _ _)
      (by rw [hcall]; rfl) trivial h.large_nodup (h.regions_advance _ rfl rfl (by rw [hcall]; rfl))

/-- The page allocator's answer to a segment request keeps the accounting. -/
theorem CoreInv.osAlloc (h : CoreInv c extra kind) (hcall : c.call t = .mapping) {reply : Option ℕ}
    (hstep : c.osAlloc t reply = some c') : CoreInv c' extra kind := by
  cases reply with
  | none =>
    obtain rfl := Option.some.inj hstep
    exact h.advance (k := .idle) h.pool (by rw [hcall]; rfl) trivial h.large_nodup
      (h.regions_advance _ rfl rfl (by rw [hcall]; rfl))
  | some base =>
    simp only [PoolCore.osAlloc] at hstep
    split at hstep
    · rename_i hanswer
      obtain rfl := Option.some.inj hstep
      exact h.advance (k := .mapped base) h.pool (by rw [hcall]; rfl) ⟨hanswer.2.1,
        hanswer.1⟩ h.large_nodup (h.regions_map (by rw [hcall]; rfl) hanswer (by decide) rfl)
    · simp at hstep

/-- The section of `alloc_slab_slow` keeps the accounting. -/
theorem CoreInv.allocSlabSlow (h : CoreInv c extra kind) {base : ℕ}
    (hcall : c.call t = .mapped base) :
    (∃ pool kind', c.allocSlabSlow t base =
        ((PoolCore.give { c with pool := pool } t base).setCall t .idle, some base) ∧
      CoreInv ((PoolCore.give { c with pool := pool } t base).setCall t .idle) extra kind') ∨
    ∃ pool, c.allocSlabSlow t base = (PoolCore.setCall { c with
      pool := pool } t (.rejected base), none) ∧
      CoreInv (PoolCore.setCall { c with pool := pool } t (.rejected base)) extra kind := by
  have hfresh := h.fresh hcall
  rcases allocSlabSlowLocked_spec h.pool hfresh (.owned t) with
    ⟨-, st', heq, hinv, htable⟩ | ⟨st', rest, heq, hsegments, hcount, hinv, hrest, -⟩
  · refine .inr ⟨st', by rw [PoolCore.allocSlabSlow, heq], ?_⟩
    exact h.advance (k := .rejected base) hinv (by rw [hcall]; rfl) trivial h.large_nodup
      (h.regions_advance _ htable.segments htable.count (by rw [hcall]; rfl))
  · refine .inl ⟨st', registerKind kind base (.owned t) rest, by rw [PoolCore.allocSlabSlow, heq],
      ?_⟩
    refine h.give (k := .idle) hinv (moved_registerKind hrest fun p hp => hfresh.outside h.pool hp)
      ?_
      (by rw [hcall]; rfl) trivial (h.regions_register _ (by rw [hcall]; rfl) rfl hsegments hcount)
    rw [hfresh.outside h.pool (base_mem_segmentPages base)]
    rfl

/-- Giving a thread's region back keeps the accounting. -/
theorem CoreInv.osDealloc (h : CoreInv c extra kind) {base : ℕ} (extent : Extent)
    (hregion : (c.call t).region = some (base, extent)) :
    CoreInv (c.osDealloc t base extent.size) extra kind := by
  refine h.advance (k := .idle) h.pool ?_ trivial h.large_nodup (h.regions_unmap hregion rfl)
  cases hk : c.call t <;> simp_all [PoolCall.region, PoolCall.buffer]

/-- The section of `dealloc_slab` is total and keeps the accounting. -/
theorem CoreInv.deallocSlab (h : CoreInv c extra kind) (hcall : c.call t = .idle) {p : ℕ}
    (hp : p ∈ c.owned t) :
    ∃ pool k kind', c.deallocSlab t p =
      some ((PoolCore.take { c with pool := pool } t p).setCall t k) ∧
      CoreInv ((PoolCore.take { c with pool := pool } t p).setCall t k) extra kind' ∧
      ((∃ base, k = .releasing base) ∨ k = .purging ∨ k = .idle) := by
  have hkind : kind p = .out (.owned t) := ((h.keyed (.owned t)).1 p).mp hp
  obtain ⟨seg, st', hseg, hmem, ⟨heq, hinv, hrem, hfree, -⟩ |
    ⟨outcome, heq, hout, hinv, htable, -⟩⟩ :=
    deallocSlabLocked_spec h.pool hkind
  · refine ⟨st', .releasing (c.pool.segments seg), releaseKind kind (c.pool.segments seg),
      by rw [PoolCore.deallocSlab, heq], ?_, .inl ⟨_, rfl⟩⟩
    refine h.take hinv (moved_releaseKind ?_ ?_) hp
      (by rw [hcall]; rfl) trivial (h.regions_release _ hseg hrem (by rw [hcall]; rfl) rfl)
    · exact ((h.pool.mem_segmentPages_iff hseg).mp hmem).1
    · intro q hin hne
      by_cases hq : kind q = .outside
      · simp [hq, PageKind.isOut]
      · rcases hfree q ((h.pool.mem_segmentPages_iff hseg).mpr ⟨hin, hq⟩) hne with hq | hq <;>
          simp [hq, PageKind.isOut]
  · have hmoved : Moved kind (Function.update kind p .dirty) [p] none := moved_update_in rfl
    cases outcome with
    | release b => exact absurd rfl (hout b)
    | purge =>
      refine ⟨st', .purging, Function.update kind p .dirty, by rw [PoolCore.deallocSlab, heq],
        ?_, .inr (.inl rfl)⟩
      exact h.take hinv hmoved hp (by rw [hcall]; rfl) trivial
        (h.regions_advance _ htable.segments htable.count (by rw [hcall]; rfl))
    | done =>
      refine ⟨st', .idle, Function.update kind p .dirty, by rw [PoolCore.deallocSlab, heq],
        ?_, .inr (.inr rfl)⟩
      exact h.take hinv hmoved hp (by rw [hcall]) trivial
        (h.regions_advance _ htable.segments htable.count (by rw [hcall]))

/-- The first section of `purge_excess` is total and keeps the accounting. -/
theorem CoreInv.purgeTake (h : CoreInv c extra kind) (hcall : c.call t = .purging) :
    ∃ pool buf kind', c.purgeTake t = some (PoolCore.setCall { c with
      pool := pool } t (.purged buf buf)) ∧
      CoreInv (PoolCore.setCall { c with pool := pool } t (.purged buf buf)) extra kind' := by
  obtain ⟨st', taken, heq, hnodup, hdirty, hinv, htable⟩ := purgeTakeLocked_spec h.pool (.buffer t)
  have hlist : c.holder extra (.buffer t) = [] := by simp [PoolCore.holder, hcall, PoolCall.buffer]
  have hkeyed := h.keyed.give (moved_setKind_out taken (.buffer t)) hnodup fun q hq => by
    rw [hdirty q hq]
    rfl
  rw [hlist, List.append_nil] at hkeyed
  refine ⟨st', taken, setKind kind taken (.out (.buffer t)),
    by rw [PoolCore.purgeTake, heq], hinv, ?_, ?_, h.large_nodup,
    h.regions_advance (k := .purged taken taken) _ htable.segments htable.count
      (by rw [hcall]; rfl)⟩
  · rw [PoolCore.setCall, holder_update_call]
    exact hkeyed
  · exact ok_update h.calls (k := .purged taken taken) fun p hp => hp

/-- The second section of `purge_excess` is total and keeps the accounting. -/
theorem CoreInv.purgeReturn (h : CoreInv c extra kind) {todo buf : List ℕ}
    (hcall : c.call t = .purged todo buf) :
    ∃ pool kind', c.purgeReturn t buf = some (PoolCore.setCall { c with pool := pool } t .idle) ∧
      CoreInv (PoolCore.setCall { c with pool := pool } t .idle) extra kind' := by
  have hlist : c.holder extra (.buffer t) = buf := by simp [PoolCore.holder, hcall, PoolCall.buffer]
  obtain ⟨st', heq, hinv, htable⟩ := purgeReturnLocked_spec h.pool buf (h.buffer hcall).1
    (h.buffer hcall).2
  have hkeyed := h.keyed.drain (.buffer t) (moved_setKind_clean _)
  rw [hlist] at hkeyed
  refine ⟨st', setKind kind buf .clean,
    by rw [PoolCore.purgeReturn, heq], hinv, ?_, ?_, h.large_nodup,
    h.regions_advance (k := .idle) _ htable.segments htable.count (by rw [hcall]; rfl)⟩
  · rw [PoolCore.setCall, holder_update_call]
    exact hkeyed
  · exact ok_update h.calls (k := .idle) trivial

/-- The page allocator's answer to a large request keeps the accounting. -/
theorem CoreInv.osAllocLarge (h : CoreInv c extra kind) (hcall : c.call t = .idle) {size align : ℕ}
    {reply : Option ℕ} (hstep : c.osAllocLarge t size align reply = some c') :
    CoreInv c' extra kind := by
  cases reply with
  | none =>
    obtain rfl := Option.some.inj hstep
    exact h
  | some base =>
    simp only [PoolCore.osAllocLarge] at hstep
    split at hstep
    · rename_i hanswer
      obtain rfl := Option.some.inj hstep
      exact h.advance (k := .largeMapped base size) h.pool
        (by rw [hcall]; rfl) trivial h.large_nodup
        (h.regions_map (by rw [hcall]; rfl) hanswer.2 hanswer.1 rfl)
    · simp at hstep

/-- The section of `alloc_large` keeps the accounting. -/
theorem CoreInv.allocLarge (h : CoreInv c extra kind) {base size : ℕ}
    (hcall : c.call t = .largeMapped base size) :
    CoreInv (c.allocLarge t base size) extra kind := by
  have hregion : (c.call t).region = some (base, ⟨size, .large⟩) := by rw [hcall]; rfl
  have hnew : (base, size) ∉ c.large := fun hmem => by
    have := h.regions.unique .caller (.thread t) base ⟨size, .large⟩ _ ⟨rfl, hmem⟩ hregion
    simp at this
  exact h.advance (k := .idle) (h.pool.withCounters _ _ _) (by rw [hcall]; rfl) trivial
    (List.nodup_cons.mpr ⟨hnew, h.large_nodup⟩) (h.regions_allocLarge hregion rfl)

/-- The section of `dealloc_large` keeps the accounting. -/
theorem CoreInv.deallocLarge (h : CoreInv c extra kind) (hcall : c.call t = .idle) {base size : ℕ}
    (hmem : (base, size) ∈ c.large) : CoreInv (c.deallocLarge t base size) extra kind :=
  h.advance (k := .largeFreeing base size) (h.pool.withCounters _ _ _) (by rw [hcall]; rfl) trivial
    (h.large_nodup.erase _) (h.regions_deallocLarge hmem (by rw [hcall]; rfl) rfl)

/-- Purging the next page of the buffer keeps the accounting. -/
theorem CoreInv.purgePage (h : CoreInv c extra kind) {page : ℕ} {todo buf : List ℕ}
    (hcall : c.call t = .purged (page :: todo) buf) :
    CoreInv (c.setCall t (.purged todo buf)) extra kind := by
  have hok := h.calls t
  rw [hcall] at hok
  exact h.advance (k := .purged todo buf) h.pool (by rw [hcall]; rfl)
    (fun p hp => hok p (List.mem_cons_of_mem _ hp)) h.large_nodup
    (h.regions_advance _ rfl rfl (by rw [hcall]; rfl))

/-- Every step of every thread keeps the accounting, under some new map. -/
theorem CoreInv.step (h : CoreInv c extra kind) {l : PoolLabel} (hstep : poolStep c l = some c') :
    ∃ kind', CoreInv c' extra kind' := by
  cases l with
  | allocSlab t =>
    simp only [poolStep] at hstep
    split at hstep <;> try contradiction
    rename_i hcall
    rcases h.allocSlab hcall with ⟨pool, page, kind', heq, hinv⟩ | ⟨pool, heq, hinv⟩ <;>
      rw [heq] at hstep
    · exact ⟨kind', Option.some.inj hstep ▸ hinv⟩
    · exact ⟨kind, Option.some.inj hstep ▸ hinv⟩
  | osAlloc t reply =>
    simp only [poolStep] at hstep
    split at hstep <;> try contradiction
    rename_i hcall
    exact ⟨kind, h.osAlloc hcall hstep⟩
  | allocSlabSlow t =>
    simp only [poolStep] at hstep
    split at hstep <;> try contradiction
    rename_i hcall
    rcases h.allocSlabSlow hcall with ⟨pool, kind', heq, hinv⟩ | ⟨pool, heq, hinv⟩ <;>
      rw [heq] at hstep
    · exact ⟨kind', Option.some.inj hstep ▸ hinv⟩
    · exact ⟨kind, Option.some.inj hstep ▸ hinv⟩
  | osDealloc t =>
    simp only [poolStep] at hstep
    split at hstep <;> try contradiction
    all_goals
      rename_i hcall
      exact ⟨kind, Option.some.inj hstep ▸ h.osDealloc _ (by rw [hcall]; rfl)⟩
  | deallocSlab t page =>
    simp only [poolStep] at hstep
    split at hstep <;> try contradiction
    split at hstep <;> try contradiction
    rename_i hcall hp
    obtain ⟨_, _, kind', heq, hinv, -⟩ := h.deallocSlab hcall hp
    exact ⟨kind', Option.some.inj (heq.symm.trans hstep) ▸ hinv⟩
  | purgeTake t =>
    simp only [poolStep] at hstep
    split at hstep <;> try contradiction
    rename_i hcall
    obtain ⟨_, _, kind', heq, hinv⟩ := h.purgeTake hcall
    exact ⟨kind', Option.some.inj (heq.symm.trans hstep) ▸ hinv⟩
  | purgePage t =>
    simp only [poolStep] at hstep
    split at hstep <;> try contradiction
    rename_i hcall
    exact ⟨kind, Option.some.inj hstep ▸ h.purgePage hcall⟩
  | purgeReturn t =>
    simp only [poolStep] at hstep
    split at hstep <;> try contradiction
    rename_i hcall
    obtain ⟨_, kind', heq, hinv⟩ := h.purgeReturn hcall
    exact ⟨kind', Option.some.inj (heq.symm.trans hstep) ▸ hinv⟩
  | osAllocLarge t size align reply =>
    simp only [poolStep] at hstep
    split at hstep <;> try contradiction
    rename_i hcall
    exact ⟨kind, h.osAllocLarge hcall hstep⟩
  | allocLarge t =>
    simp only [poolStep] at hstep
    split at hstep <;> try contradiction
    rename_i hcall
    exact ⟨kind, Option.some.inj hstep ▸ h.allocLarge hcall⟩
  | deallocLarge t base size =>
    simp only [poolStep] at hstep
    split at hstep <;> try contradiction
    split at hstep <;> try contradiction
    rename_i hcall hmem
    exact ⟨kind, Option.some.inj hstep ▸ h.deallocLarge hcall hmem⟩

/-- Pages pass from one holder to another without touching the pool. -/
theorem CoreInv.move (h : CoreInv c extra kind) {extra' : X → List ℕ} (tag : Tag X) {tag' : Tag X}
    {pages rest : List ℕ} {owned : ℕ → List ℕ} (hpool : PoolInv pool kind)
    (hsame : pool.segments = c.pool.segments ∧ pool.segmentCount = c.pool.segmentCount)
    (hne : tag' ≠ tag) (hpages : ∀ q ∈ pages, q ∈ c.holder extra tag) (hnodup : pages.Nodup)
    (hrest : rest.Nodup) (hmem : ∀ q, q ∈ rest ↔ q ∈ c.holder extra tag ∧ q ∉ pages)
    (hholder : PoolCore.holder ⟨pool, c.call, owned, c.large, c.os⟩ extra' =
      Function.update (Function.update (c.holder extra) tag rest) tag'
    (pages ++ c.holder extra tag')) :
    CoreInv ⟨pool, c.call, owned, c.large, c.os⟩ extra' (setKind kind pages (.out tag')) where
  pool := hpool.retagPages tag' fun p hp => by
    rw [((h.keyed tag).1 p).mp (hpages p hp)]
    rfl
  keyed := hholder ▸ h.keyed.move hne hnodup hpages hrest hmem
  calls := h.calls
  large_nodup := h.large_nodup
  regions := h.regions.congr fun o b s => by
    cases o <;> simp only [PoolCore.Owns, hsame]

/-- A page its owner puts into a place outside the core. -/
theorem CoreInv.put (h : CoreInv c extra kind) {page : ℕ} (x : X) (pool : PoolState)
    (hp : page ∈ c.owned t) (hpool : PoolInv pool kind)
    (hsame : pool.segments = c.pool.segments ∧ pool.segmentCount = c.pool.segmentCount) :
    CoreInv (PoolCore.take { c with
      pool := pool } t page) (Function.update extra x (page :: extra x))
      (setKind kind [page] (.out (.other x))) := by
  have hnodup := (h.keyed (.owned t)).2
  refine h.move (.owned t) hpool hsame (by simp) (by simpa [PoolCore.holder] using hp)
    (List.nodup_singleton page) (hnodup.erase page) (fun q => ?_) ?_
  · rw [hnodup.mem_erase_iff]
    simp [and_comm]
  · funext tag
    cases tag with
    | owned t' =>
      by_cases htt : t' = t
      · subst htt
        simp [PoolCore.holder]
      · simp [PoolCore.holder, htt]
    | buffer t' => simp [PoolCore.holder]
    | other y =>
      by_cases hxy : y = x
      · subst hxy
        simp [PoolCore.holder]
      · simp [PoolCore.holder, hxy]

/-- Pages a thread takes from a place outside the core. -/
theorem CoreInv.get (h : CoreInv c extra kind) (t : ℕ) (x : X) (pages rest : List ℕ)
    (hsplit : extra x = pages ++ rest) :
    CoreInv { c with owned := Function.update c.owned t (pages ++ c.owned t) }
      (Function.update extra x rest) (setKind kind pages (.out (.owned t))) := by
  have hnodup := (h.keyed (.other x)).2
  have hlist : c.holder extra (.other x) = pages ++ rest := hsplit
  rw [hlist, List.nodup_append] at hnodup
  refine h.move (.other x) h.pool ⟨rfl, rfl⟩ (by simp)
    (fun q hq => ?_) hnodup.1 hnodup.2.1 (fun q => ?_) ?_
  · rw [hlist]
    exact List.mem_append_left _ hq
  · rw [hlist, List.mem_append]
    constructor
    · intro hq
      exact ⟨.inr hq, fun hin => hnodup.2.2 q hin q hq rfl⟩
    · rintro ⟨hq | hq, hnot⟩
      · exact absurd hq hnot
      · exact hq
  · funext tag
    cases tag with
    | owned t' =>
      by_cases htt : t' = t
      · subst htt
        simp [PoolCore.holder]
      · simp [PoolCore.holder, htt]
    | buffer t' => simp [PoolCore.holder]
    | other y =>
      by_cases hxy : y = x
      · subst hxy
        simp [PoolCore.holder]
      · simp [PoolCore.holder, hxy]

end Holders

end ClMalloc
