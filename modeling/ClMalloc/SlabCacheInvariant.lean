import ClMalloc.SlabCache

/-!
# The slab cache is sound while no compare-exchange uses a stale link

A pop installs the link it read before its compare-exchange. If the head left the stack and
came back in between, that link may be stale, and the exchange succeeds all the same. In a
run where every exchange that succeeds still finds the link it read, the stack is a chain
through exactly the pages pushed and not popped, and no page has two holders. The invariant
leaves room for further lists that hold pages.
-/

namespace ClMalloc

open Intrusive

/-- The page a thread is putting into the cache. -/
def CacheCall.page : CacheCall → Option ℕ
  | .loadLen page | .divert page | .loadHead page | .writeLink page _ | .pushCas page _ => some page
  | _ => none

/-- The pages in the cache, and those in the other lists. -/
def CacheSys.places {X : Type} (s : CacheSys) (others : X → List ℕ) : Option X → List ℕ
  | none => s.cached
  | some x => others x

/-- The stack is a chain through the cached pages, and the accounting of the pool holds. -/
structure CacheInv {X : Type} (s : CacheSys) (others : X → List ℕ)
    (kind : ℕ → PageKind (Tag (Option X))) : Prop where
  core : CoreInv s.core (s.places others) kind
  chain : Chain s.word s.slabCache s.cached
  inHand : ∀ t page, (s.pc t).page = some page → page ∈ s.core.owned t
  linked : ∀ t page current, s.pc t = .pushCas page current → s.word page = current
  apart : ∀ t, s.pc t ≠ .idle → s.core.call t = .idle
  logged : ∀ p, p ∈ s.cached ↔ lastIsPush s.log p = true
  alternates : Alternates s.log

/-- The empty cache satisfies the invariant. -/
theorem cacheInv_new {X : Type} : CacheInv CacheSys.new (fun _ : X => []) fun _ => .outside where
  core := by
    have hplaces : CacheSys.new.places (fun _ : X => []) = fun _ => [] := by
      funext x
      cases x <;> rfl
    rw [hplaces]
    exact coreInv_new
  chain := rfl
  inHand := by simp [CacheSys.new, CacheCall.page]
  linked := by simp [CacheSys.new]
  apart := by simp [CacheSys.new]
  logged := by simp [CacheSys.new, lastIsPush]
  alternates := alternates_nil

variable {X : Type} {s s' : CacheSys} {others : X → List ℕ}
  {kind kind' : ℕ → PageKind (Tag (Option X))} {t : ℕ} {k : CacheCall}

/-- Changing the cached pages changes that place only. -/
theorem CacheSys.places_cached [DecidableEq X] (s : CacheSys) (others : X → List ℕ) (l : List ℕ) :
    Function.update (s.places others) none l = CacheSys.places { s with cached := l } others := by
  funext x
  cases x with
  | none => simp [CacheSys.places]
  | some x => simp [CacheSys.places]

/-- A page held by a thread is not cached. -/
theorem CacheInv.notMem_cached (h : CacheInv s others kind) {p : ℕ} (hp : p ∈ s.core.owned t) :
    p ∉ s.cached := by
  intro hin
  have := h.core.keyed.unique (show p ∈ s.core.holder _ (.owned t) from hp)
    (show p ∈ s.core.holder (s.places others) (.other none) from hin)
  simp at this

/-- A page has one owner. -/
theorem CacheInv.owner_unique (h : CacheInv s others kind) {t' p : ℕ} (hp : p ∈ s.core.owned t)
    (hp' : p ∈ s.core.owned t') : t = t' := by
  have := h.core.keyed.unique (show p ∈ s.core.holder _ (.owned t) from hp)
    (show p ∈ s.core.holder (s.places others) (.owned t') from hp')
  simpa using this

/-- The invariant gives exclusive ownership. -/
theorem CacheInv.exclusive (h : CacheInv s others kind) : s.Exclusive where
  notBoth := fun _ _ hp hstack => h.notMem_cached hp (h.chain.reaches_iff.mp hstack)
  oneOwner := fun _ _ _ hp hp' => h.owner_unique hp hp'
  onStack := fun _ hp => h.chain.reaches_iff.mpr hp
  pushedBetween := fun _ _ _ _ hlog => h.alternates.pushed_between hlog

/-- A thread that moves between two points of one call, without a write. -/
theorem CacheInv.goto (h : CacheInv s others kind)
    (hpage : ∀ page, k.page = some page → page ∈ s.core.owned t)
    (hlinked : ∀ page current, k = .pushCas page current → s.word page = current)
    (hcall : k ≠ .idle → s.core.call t = .idle) : CacheInv (s.goto t k) others kind where
  core := h.core
  chain := h.chain
  inHand := fun t' page hp => by
    by_cases htt : t' = t
    · subst htt
      exact hpage page (by simpa [CacheSys.goto] using hp)
    · exact h.inHand t' page (by simpa [CacheSys.goto, htt] using hp)
  linked := fun t' page current hp => by
    by_cases htt : t' = t
    · subst htt
      exact hlinked page current (by simpa [CacheSys.goto] using hp)
    · exact h.linked t' page current (by simpa [CacheSys.goto, htt] using hp)
  apart := fun t' hp => by
    by_cases htt : t' = t
    · subst htt
      exact hcall (by simpa [CacheSys.goto] using hp)
    · exact h.apart t' (by simpa [CacheSys.goto, htt] using hp)
  logged := h.logged
  alternates := h.alternates

/-- A write to the first word of a page that is not cached and that no other thread is linking. -/
theorem CacheInv.write (h : CacheInv s others kind) {page : ℕ} {value : Option ℕ}
    (hcached : page ∉ s.cached) (hlinking : ∀ t current, s.pc t ≠ .pushCas page current) :
    CacheInv { s with word := Function.update s.word page value } others kind where
  core := h.core
  chain := h.chain.update_of_notMem hcached value
  inHand := h.inHand
  linked := fun t p current hp => by
    have hne : p ≠ page := by
      rintro rfl
      exact hlinking t current hp
    change Function.update s.word page value p = current
    rw [Function.update_of_ne hne]
    exact h.linked t p current hp
  apart := h.apart
  logged := h.logged
  alternates := h.alternates

/-- A page in no thread's hands is not being linked. -/
theorem CacheInv.not_linking (h : CacheInv s others kind) {page : ℕ}
    (hfree : ∀ t, page ∉ s.core.owned t) (t : ℕ) (current : Option ℕ) :
    s.pc t ≠ .pushCas page current := by
  intro hpc
  exact hfree t (h.inHand t page (by rw [hpc]; rfl))

/-- A page of a thread that is not about to exchange the head is not being linked. -/
theorem CacheInv.not_linking_owned (h : CacheInv s others kind) {page : ℕ}
    (howned : page ∈ s.core.owned t) (hpc : ∀ page current, s.pc t ≠ .pushCas page current) (t' : ℕ)
    (current : Option ℕ) :
    s.pc t' ≠ .pushCas page current := by
  intro hpc'
  have htt : t = t' := h.owner_unique howned (h.inHand t' page (by rw [hpc']; rfl))
  exact hpc page current (htt ▸ hpc')

/-- A change of the core and of the other lists that leaves threads inside the cache where they are,
with their pages. -/
theorem CacheInv.withCore (h : CacheInv s others kind) {core : PoolCore} {others' : X → List ℕ}
    (hcore : CoreInv core (s.places others') kind')
    (hframe : ∀ t, s.pc t ≠ .idle → core.call t = s.core.call t ∧
      ∀ p ∈ s.core.owned t, p ∈ core.owned t) :
    CacheInv { s with core := core } others' kind' where
  core := hcore
  chain := h.chain
  inHand := fun t page hp => by
    have ht : s.pc t ≠ .idle := by
      intro hidle
      simp [hidle, CacheCall.page] at hp
    exact (hframe t ht).2 page (h.inHand t page hp)
  linked := h.linked
  apart := fun t ht => (hframe t ht).1.trans (h.apart t ht)
  logged := h.logged
  alternates := h.alternates

/-- A step of the pool by a thread outside the cache. -/
theorem CacheInv.coreStep [DecidableEq X] (h : CacheInv s others kind) {l : PoolLabel}
    {core : PoolCore} (hpc : s.pc l.thread = .idle) (hstep : poolStep s.core l = some core) :
    ∃ kind', CacheInv { s with core := core } others kind' := by
  obtain ⟨kind', hcore⟩ := h.core.step hstep
  refine ⟨kind', h.withCore hcore fun t ht => ?_⟩
  have htt : t ≠ l.thread := by
    rintro rfl
    exact ht hpc
  obtain ⟨hcall, howned⟩ := poolStep_frame htt hstep
  exact ⟨hcall, fun p hp => howned ▸ hp⟩

/-- What the other threads say stays when a thread gives up the page it came with, or takes one. -/
theorem CacheInv.leave (h : CacheInv s others kind) (s₁ : CacheSys) (t : ℕ) (k : CacheCall)
    (hpage : k.page = none) (hlink : ∀ page current, k ≠ .pushCas page current) (hpc : s₁.pc = s.pc)
    (hword : s₁.word = s.word) (howned : ∀ t' ≠ t, s₁.core.owned t' = s.core.owned t')
    (hcall : ∀ t' ≠ t, s₁.core.call t' = s.core.call t')
    (hself : k ≠ .idle → s₁.core.call t = .idle) :
    (∀ t' page, ((s₁.goto t k).pc t').page = some page → page ∈ s₁.core.owned t') ∧
      (∀ t' page current, (s₁.goto t k).pc t' = .pushCas page current → s₁.word page = current) ∧
      ∀ t', (s₁.goto t k).pc t' ≠ .idle → s₁.core.call t' = .idle := by
  have hother {t' : ℕ} (ht : t' ≠ t) : (s₁.goto t k).pc t' = s.pc t' := by
    simp [CacheSys.goto, ht, hpc]
  have hthis : (s₁.goto t k).pc t = k := Function.update_self _ _ _
  refine ⟨fun t' page hp => ?_, fun t' page current hp => ?_, fun t' hp => ?_⟩
  · by_cases ht : t' = t
    · subst ht
      rw [hthis, hpage] at hp
      cases hp
    · rw [howned t' ht]
      exact h.inHand t' page (hother ht ▸ hp)
  · by_cases ht : t' = t
    · subst ht
      exact absurd (hthis.symm.trans hp) (hlink page current)
    · rw [hword]
      exact h.linked t' page current (hother ht ▸ hp)
  · by_cases ht : t' = t
    · subst ht
      exact hself (hthis ▸ hp)
    · rw [hcall t' ht]
      exact h.apart t' (hother ht ▸ hp)

/-- A successful push puts the page on top of the stack. -/
theorem CacheInv.push [DecidableEq X] (h : CacheInv s others kind) {page : ℕ}
    (hpc : s.pc t = .pushCas page s.slabCache) :
    ∃ kind', CacheInv ((s.push t page).goto t (.pushCount page)) others kind' := by
  have howned : page ∈ s.core.owned t := h.inHand t page (by rw [hpc]; rfl)
  have hput := h.core.put none s.core.pool howned h.core.pool ⟨rfl, rfl⟩
  rw [s.places_cached] at hput
  obtain ⟨hinHand, hlinked, hapart⟩ :=
    h.leave (s.push t page) t (.pushCount page) rfl (by simp) rfl rfl
    (fun t' ht => Function.update_of_ne ht _ _) (fun _ _ => rfl) fun _ => h.apart t (by simp [hpc])
  refine ⟨_, hput, h.chain.cons (h.linked t page _ hpc), hinHand, hlinked, hapart, fun p => ?_,
    h.alternates.push⟩
  change p ∈ page :: s.cached ↔ lastIsPush (.pushed page :: s.log) p = true
  rw [List.mem_cons, lastIsPush_pushed, h.logged p]

/-- A pop whose link is still right takes the top of the stack. -/
theorem CacheInv.pop [DecidableEq X] (h : CacheInv s others kind) {head : ℕ} {next : Option ℕ}
    (hpc : s.pc t = .popCas head next)
    (hhead : s.slabCache = some head) (hfresh : s.word head = next) :
    ∃ kind', CacheInv ((s.pop t head next).goto t (.popCount head)) others kind' := by
  have hchain := h.chain
  rw [hhead] at hchain
  obtain ⟨rest, hcached, hrest⟩ := hchain.exists_cons
  have hget := h.core.get t none [head] rest hcached
  have hrest' : rest = s.cached.erase head := by simp [hcached]
  have hnodup := h.chain.nodup
  rw [s.places_cached, hrest'] at hget
  obtain ⟨hinHand, hlinked, hapart⟩ :=
    h.leave (s.pop t head next) t (.popCount head) rfl (by simp) rfl rfl
    (fun t' ht => Function.update_of_ne ht _ _) (fun _ _ => rfl) fun _ => h.apart t (by simp [hpc])
  refine ⟨_, hget, ?_, hinHand, hlinked, hapart, fun p => ?_,
    h.alternates.pop ((h.logged head).mp ?_)⟩
  · change Chain s.word next (s.cached.erase head)
    rw [hcached, List.erase_cons_head, ← hfresh]
    exact hrest
  · change p ∈ s.cached.erase head ↔ lastIsPush (.popped head :: s.log) p = true
    rw [hnodup.mem_erase_iff, lastIsPush_popped, h.logged p]
  · rw [hcached]
    exact List.mem_cons_self

/-- A full cache sends the page back to the pool. -/
theorem CacheInv.divert [DecidableEq X] (h : CacheInv s others kind) {page : ℕ} {core : PoolCore}
    (hpc : s.pc t = .divert page)
    (hstep : s.core.deallocSlab t page = some core) :
    ∃ kind', CacheInv (CacheSys.goto { s with core := core } t .idle) others kind' := by
  have howned : page ∈ s.core.owned t := h.inHand t page (by rw [hpc]; rfl)
  obtain ⟨pool, k, kind', heq, hinv, -⟩ := h.core.deallocSlab (h.apart t (by simp [hpc])) howned
  obtain rfl := Option.some.inj (heq.symm.trans hstep)
  obtain ⟨hinHand, hlinked, hapart⟩ := h.leave
    { s with core := (PoolCore.take { s.core with pool := pool } t page).setCall t k } t .idle rfl
    (by simp) rfl rfl (fun t' ht => Function.update_of_ne ht _ _)
    (fun t' ht => Function.update_of_ne ht _ _) (by simp)
  exact ⟨kind', hinv, h.chain, hinHand, hlinked, hapart, h.logged, h.alternates⟩

/-- Changing the counter changes nothing the stack depends on. -/
theorem CacheInv.withLen (h : CacheInv s others kind) (len : ℕ) :
    CacheInv { s with slabCacheLen := len } others kind :=
  { h with }

/-- A thread that leaves its call. -/
theorem CacheInv.finish (h : CacheInv s others kind) (t : ℕ) :
    CacheInv (s.goto t .idle) others kind :=
  h.goto (by simp [CacheCall.page]) (by simp) (by simp)

/-- A page the pool may write is in no thread's hands and not cached. -/
theorem CacheInv.poolMayWrite (h : CacheInv s others kind) {page : ℕ}
    (hmay : s.PoolMayWrite t page) :
    page ∉ s.cached ∧ ∀ t, page ∉ s.core.owned t := by
  have hkind : ∀ tag, kind page = .out tag → tag = .buffer t := by
    intro tag htag
    rcases hmay with hmay | hmay | hmay | hmay
    · simp [(h.core.pool.dirty page).mp hmay] at htag
    · simp [(h.core.pool.clean page).mp hmay] at htag
    · have hbuf := ((h.core.keyed (.buffer t)).1 page).mp hmay
      rw [htag, PageKind.out.injEq] at hbuf
      exact hbuf
    · obtain ⟨i, hi, hmem⟩ := h.core.pool.exists_segment (p := page) (by simp [htag])
      rw [h.core.pool.findSegment_eq _ rfl rfl hi hmem] at hmay
      contradiction
  constructor
  · intro hin
    have := hkind _ (((h.core.keyed (.other none)).1 page).mp hin)
    simp at this
  · intro t' hin
    have := hkind _ (((h.core.keyed (.owned t')).1 page).mp hin)
    simp at this

/-- Every guarded step keeps the invariant. -/
theorem CacheInv.step [DecidableEq X] (h : CacheInv s others kind) {l : CacheLabel}
    (hguard : LinkFresh s l) (hstep : cacheStep s l = some s') :
    ∃ kind', CacheInv s' others kind' := by
  -- a thread that goes on with the page it has, and one that takes no page along
  have hkeep {t page : ℕ} {k : CacheCall} (hpc : (s.pc t).page = some page)
      (hk : k.page = some page)
      (hlink : ∀ p current, k ≠ .pushCas p current) : CacheInv (s.goto t k) others kind := by
    refine h.goto (fun p hp => h.inHand t p ?_)
      (fun p current hp => absurd hp (hlink p current)) fun _ => ?_
    · rw [hpc, ← hk, hp]
    · refine h.apart t fun hidle => ?_
      rw [hidle] at hpc
      cases hpc
  have hempty {t : ℕ} {k : CacheCall} (hpc : s.pc t ≠ .idle) (hk : k.page = none)
      (hlink : ∀ p current, k ≠ .pushCas p current) : CacheInv (s.goto t k) others kind := by
    refine h.goto (fun p hp => ?_) (fun p current hp => absurd hp (hlink p current)) fun _ =>
      h.apart t hpc
    rw [hk] at hp
    cases hp
  cases cacheStep_cases hstep with
  | core hpc hcore => exact h.coreStep hpc hcore
  | @cacheSlab t page hpc hcall howned =>
    refine ⟨kind, h.goto (fun p hp => ?_) (by simp) fun _ => hcall⟩
    cases hp
    exact howned
  | uncacheSlab hpc hcall =>
    exact ⟨kind, h.goto (by simp [CacheCall.page]) (by simp) fun _ => hcall⟩
  | ownerWrite hpc howned =>
    exact ⟨kind, h.write (h.notMem_cached howned) (h.not_linking_owned howned (by simp [hpc]))⟩
  | poolWrite hmay =>
    obtain ⟨hcached, hfree⟩ := h.poolMayWrite hmay
    exact ⟨kind, h.write hcached (h.not_linking hfree)⟩
  | full hpc => exact ⟨kind, hkeep (by rw [hpc]; rfl) rfl (by simp)⟩
  | loadLen hpc => exact ⟨kind, hkeep (by rw [hpc]; rfl) rfl (by simp)⟩
  | divert hpc hcore => exact h.divert hpc hcore
  | loadHead hpc => exact ⟨kind, hkeep (by rw [hpc]; rfl) rfl (by simp)⟩
  | @writeLink t page current spurious hpc =>
    have howned : page ∈ s.core.owned t := h.inHand t page (by rw [hpc]; rfl)
    have hwrite : CacheInv { s with word := Function.update s.word page current } others kind :=
      h.write (h.notMem_cached howned) (h.not_linking_owned howned (by simp [hpc]))
    refine ⟨kind, hwrite.goto (fun p hp => ?_) (fun p cur hk => ?_) fun _ =>
      h.apart t (by simp [hpc])⟩
    · cases hp
      exact howned
    · cases hk
      exact Function.update_self _ _ _
  | push hpc hcas => exact h.push (by rw [hpc, hcas])
  | pushRetry hpc => exact ⟨kind, hkeep (by rw [hpc]; rfl) rfl (by simp)⟩
  | pushCount => exact ⟨kind, (h.withLen _).finish _⟩
  | popEmpty => exact ⟨kind, h.finish _⟩
  | popLoad hpc => exact ⟨kind, hempty (by simp [hpc]) rfl (by simp)⟩
  | popRead hpc => exact ⟨kind, hempty (by simp [hpc]) rfl (by simp)⟩
  | pop hpc hcas =>
    simp only [LinkFresh, hpc] at hguard
    exact h.pop hpc hcas (hguard hcas trivial)
  | popGone => exact ⟨kind, h.finish _⟩
  | popRetry hpc => exact ⟨kind, hempty (by simp [hpc]) rfl (by simp)⟩
  | popCount => exact ⟨kind, (h.withLen _).finish _⟩

/-- In every run where no successful pop uses a stale link, pages are held exclusively. -/
theorem cache_exclusive_of_linkFresh {labels : List CacheLabel}
    (hmeets : Transition.Meets cacheStep LinkFresh CacheSys.new labels)
    (hrun : Transition.run cacheStep CacheSys.new labels = some s) : s.Exclusive := by
  obtain ⟨kind, hinv⟩ := Transition.run_invariant_of_meets (I := fun s => ∃ kind,
    CacheInv s (fun _ : Empty => []) kind)
    (fun _ _ _ ⟨_, h⟩ hguard hstep => h.step hguard hstep) ⟨_, cacheInv_new⟩ hmeets hrun
  exact hinv.exclusive

/-- Thread `t` runs `cache_slab` on a page without interference. -/
def pushRun (t page : ℕ) : List CacheLabel :=
  .cacheSlab t page :: List.replicate 5 (.advance t false)

/-- Thread `t` runs `uncache_slab` on a nonempty cache without interference. -/
def popRun (t : ℕ) : List CacheLabel := .uncacheSlab t :: List.replicate 4 (.advance t false)

/-- Thread 0 is handed pages 65536 and 131072 of a fresh segment. -/
def twoPagesRun : List CacheLabel :=
  [.core (.allocSlab 0), .core (.osAlloc 0 (some 65536)), .core (.allocSlabSlow 0),
    .core (.allocSlab 0)]

/-- Both pages go through the cache and back, and are still held exclusively. -/
theorem cache_exclusive_popRun : ∃ s, Transition.run cacheStep CacheSys.new
    (twoPagesRun ++ pushRun 0 131072 ++ pushRun 0 65536 ++ popRun 1) = some s ∧
      s.core.owned 1 = [65536] ∧ s.cached = [131072] ∧ s.Exclusive := by
  have hmeets : Transition.Meets cacheStep LinkFresh CacheSys.new
      (twoPagesRun ++ pushRun 0 131072 ++ pushRun 0 65536 ++ popRun 1) := by decide +kernel
  have heval : (Transition.run cacheStep CacheSys.new
      (twoPagesRun ++ pushRun 0 131072 ++ pushRun 0 65536 ++ popRun 1)).map
        (fun s => decide (s.core.owned 1 = [65536] ∧ s.cached = [131072])) = some true := by
        decide +kernel
  obtain ⟨s, hrun, hs⟩ := Option.map_eq_some_iff.mp heval
  obtain ⟨howned, hcached⟩ := of_decide_eq_true hs
  exact ⟨s, hrun, howned, hcached, cache_exclusive_of_linkFresh hmeets hrun⟩

/-- Thread 1 reads the link of the head; thread 0 pops both pages and caches the first again; the
compare-exchange of thread 1 then succeeds and installs the second page, which thread 0 owns. -/
def staleLinkRun : List CacheLabel :=
  twoPagesRun ++ pushRun 0 131072 ++ pushRun 0 65536 ++ [.uncacheSlab 1, .advance 1 false,
    .advance 1 false] ++ popRun 0 ++ popRun 0 ++ pushRun 0 65536 ++ [.advance 1 false]

/-- A stale link puts a page on the stack that a thread owns. -/
theorem cache_not_exclusive_staleLinkRun :
    ∃ s, Transition.run cacheStep CacheSys.new staleLinkRun = some s ∧ ¬s.Exclusive := by
  have heval : (Transition.run cacheStep CacheSys.new staleLinkRun).map
      (fun s => decide (s.slabCache = some 131072 ∧ 131072 ∈ s.core.owned 0)) = some true := by
      decide +kernel
  obtain ⟨s, hrun, hs⟩ := Option.map_eq_some_iff.mp heval
  obtain ⟨hhead, howned⟩ := of_decide_eq_true hs
  refine ⟨s, hrun, fun hexclusive => hexclusive.notBoth 0 131072 howned ?_⟩
  rw [CacheSys.OnStack, hhead]
  exact .here _

end ClMalloc
