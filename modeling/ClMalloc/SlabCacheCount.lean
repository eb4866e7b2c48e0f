import ClMalloc.SlabCacheInvariant
import ClMalloc.PoolTotals
import ClMalloc.Lib.Tally
import Mathlib.Algebra.BigOperators.Group.Finset.Piecewise

/-!
# The counter beside the slab cache

`slab_cache_len` is updated in a step of its own after the compare-exchange, on both sides.
While no exchange uses a stale link, the counter is the number of cached pages and of calls
of `uncache_slab` that have popped and not yet counted, less the calls of `cache_slab` that
have pushed and not yet counted. It wraps below zero only where a page is counted off before
it was counted on: a page whose `fetch_add` is still to come is on the stack, or was popped by
a call whose own `fetch_sub` is still to come, so while these are taken in order the calls
that have pushed and not yet counted are outnumbered whenever one that popped counts.
-/

namespace ClMalloc

open Intrusive Tally Transition

/-- The page a call of `cache_slab` has pushed and not yet counted. -/
def CacheCall.pushed : CacheCall → Option ℕ
  | .pushCount page => some page
  | _ => none

/-- The page a call of `uncache_slab` has popped and not yet counted. -/
def CacheCall.popped : CacheCall → Option ℕ
  | .popCount head => some head
  | _ => none

/-- The page a thread's call has pushed and not yet counted. -/
def CacheSys.pushedPage (s : CacheSys) (t : ℕ) : Option ℕ := (s.pc t).pushed

/-- The page a thread's call has popped and not yet counted. -/
def CacheSys.poppedPage (s : CacheSys) (t : ℕ) : Option ℕ := (s.pc t).popped

/-- One for a thread of `cache_slab` between its compare-exchange and its `fetch_add`. -/
def CacheSys.pushing (s : CacheSys) (t : ℕ) : ℕ := (s.pushedPage t).toList.length

/-- One for a thread of `uncache_slab` between its compare-exchange and its `fetch_sub`. -/
def CacheSys.popping (s : CacheSys) (t : ℕ) : ℕ := (s.poppedPage t).toList.length

/-- What a step does to the cached pages, to the counter, and to where its thread is. -/
inductive CountEffect (s s' : CacheSys) (t : ℕ) : Prop
  | quiet (hcached : s'.cached = s.cached) (hlen : s'.slabCacheLen = s.slabCacheLen)
    (hpush : s'.pushedPage t = s.pushedPage t) (hpop : s'.poppedPage t = s.poppedPage t)
    (howned : ∀ page, s'.poppedPage t = some page → s'.core.owned t = s.core.owned t)
  | pushed (page : ℕ) (hpc : ∃ current, s.pc t = .pushCas page current)
    (hpush : s.pushedPage t = none ∧ s'.pushedPage t = some page)
    (hpop : s.poppedPage t = none ∧ s'.poppedPage t = none)
    (hcached : s'.cached = page :: s.cached) (hlen : s'.slabCacheLen = s.slabCacheLen)
  | pushCounted (page : ℕ) (hpush : s.pushedPage t = some page ∧ s'.pushedPage t = none)
    (hpop : s.poppedPage t = none ∧ s'.poppedPage t = none)
    (hcached : s'.cached = s.cached) (hlen : s'.slabCacheLen = usizeInc s.slabCacheLen)
  | popped (head : ℕ) (hhead : s.slabCache = some head)
    (hpush : s.pushedPage t = none ∧ s'.pushedPage t = none)
    (hpop : s.poppedPage t = none ∧ s'.poppedPage t = some head)
    (hcached : s'.cached = s.cached.erase head)
    (hlen : s'.slabCacheLen = s.slabCacheLen) (howned : head ∈ s'.core.owned t)
  | popCounted (head : ℕ) (hpc : s.pc t = .popCount head) (hpc' : s'.pc t = .idle)
    (hpush : s.pushedPage t = none ∧ s'.pushedPage t = none)
    (hpop : s.poppedPage t = some head ∧ s'.poppedPage t = none)
    (hcached : s'.cached = s.cached) (hlen : s'.slabCacheLen = usizeDec s.slabCacheLen)

variable {s s' : CacheSys} {t : ℕ} {l : CacheLabel}

/-- What a thread has pushed and popped and not counted, from where it is. -/
theorem CacheSys.pages_of_pc {k : CacheCall} (hpc : s.pc t = k) :
    s.pushedPage t = k.pushed ∧ s.poppedPage t = k.popped := by
  rw [CacheSys.pushedPage, CacheSys.poppedPage, hpc]
  exact ⟨rfl, rfl⟩

/-- What a thread has pushed and popped and not counted, once it is moved. -/
theorem CacheSys.pages_goto (s : CacheSys) (t : ℕ) (k : CacheCall) :
    (s.goto t k).pushedPage t = k.pushed ∧ (s.goto t k).poppedPage t = k.popped :=
  CacheSys.pages_of_pc (Function.update_self _ _ _)

/-- Every step has one of the effects. -/
theorem cacheStep_countEffect (hstep : cacheStep s l = some s') : CountEffect s s' l.thread := by
  -- a thread that moves between two steps that count nothing
  have hmove {t : ℕ} {k k' : CacheCall} {s₁ : CacheSys} (hpc : s.pc t = k)
      (hk : k.pushed = none ∧ k.popped = none) (hk' : k'.pushed = none ∧ k'.popped = none)
      (hcached : s₁.cached = s.cached) (hlen : s₁.slabCacheLen = s.slabCacheLen) :
      CountEffect s (s₁.goto t k') t := by
    obtain ⟨hpush, hpop⟩ := CacheSys.pages_of_pc hpc
    obtain ⟨hpush', hpop'⟩ := s₁.pages_goto t k'
    refine .quiet hcached hlen (by rw [hpush, hpush', hk.1, hk'.1])
      (by rw [hpop, hpop', hk.2, hk'.2])
      fun page hpage => ?_
    rw [hpop', hk'.2] at hpage
    cases hpage
  cases cacheStep_cases hstep with
  | core hpc =>
    refine .quiet rfl rfl rfl rfl fun page hpop => ?_
    rw [CacheLabel.thread, CacheSys.poppedPage, hpc] at hpop
    cases hpop
  | cacheSlab hpc => exact hmove hpc ⟨rfl, rfl⟩ ⟨rfl, rfl⟩ rfl rfl
  | uncacheSlab hpc => exact hmove hpc ⟨rfl, rfl⟩ ⟨rfl, rfl⟩ rfl rfl
  | ownerWrite => exact .quiet rfl rfl rfl rfl fun _ _ => rfl
  | poolWrite => exact .quiet rfl rfl rfl rfl fun _ _ => rfl
  | full hpc => exact hmove hpc ⟨rfl, rfl⟩ ⟨rfl, rfl⟩ rfl rfl
  | loadLen hpc => exact hmove hpc ⟨rfl, rfl⟩ ⟨rfl, rfl⟩ rfl rfl
  | divert hpc hcore => exact hmove hpc ⟨rfl, rfl⟩ ⟨rfl, rfl⟩ rfl rfl
  | loadHead hpc => exact hmove hpc ⟨rfl, rfl⟩ ⟨rfl, rfl⟩ rfl rfl
  | writeLink hpc => exact hmove hpc ⟨rfl, rfl⟩ ⟨rfl, rfl⟩ rfl rfl
  | @push t page current hpc =>
    obtain ⟨hpush, hpop⟩ := CacheSys.pages_of_pc hpc
    obtain ⟨hpush', hpop'⟩ := (s.push t page).pages_goto t (.pushCount page)
    exact .pushed page ⟨current, hpc⟩ ⟨hpush, hpush'⟩ ⟨hpop, hpop'⟩ rfl rfl
  | pushRetry hpc => exact hmove hpc ⟨rfl, rfl⟩ ⟨rfl, rfl⟩ rfl rfl
  | @pushCount t page len spurious hpc hlen =>
    obtain ⟨hpush, hpop⟩ := CacheSys.pages_of_pc hpc
    obtain ⟨hpush', hpop'⟩ := CacheSys.pages_goto { s with slabCacheLen := len } t .idle
    exact .pushCounted page ⟨hpush, hpush'⟩ ⟨hpop, hpop'⟩ rfl hlen
  | popEmpty hpc => exact hmove hpc ⟨rfl, rfl⟩ ⟨rfl, rfl⟩ rfl rfl
  | popLoad hpc => exact hmove hpc ⟨rfl, rfl⟩ ⟨rfl, rfl⟩ rfl rfl
  | popRead hpc => exact hmove hpc ⟨rfl, rfl⟩ ⟨rfl, rfl⟩ rfl rfl
  | @pop t head next hpc hcas =>
    obtain ⟨hpush, hpop⟩ := CacheSys.pages_of_pc hpc
    obtain ⟨hpush', hpop'⟩ := (s.pop t head next).pages_goto t (.popCount head)
    exact .popped head hcas ⟨hpush, hpush'⟩ ⟨hpop, hpop'⟩ rfl rfl
      (by simp [CacheLabel.thread, CacheSys.goto, CacheSys.pop, PoolCore.give])
  | popGone hpc => exact hmove hpc ⟨rfl, rfl⟩ ⟨rfl, rfl⟩ rfl rfl
  | popRetry hpc => exact hmove hpc ⟨rfl, rfl⟩ ⟨rfl, rfl⟩ rfl rfl
  | @popCount t head len spurious hpc hlen =>
    obtain ⟨hpush, hpop⟩ := CacheSys.pages_of_pc hpc
    obtain ⟨hpush', hpop'⟩ := CacheSys.pages_goto { s with slabCacheLen := len } t .idle
    exact .popCounted head hpc (Function.update_self _ _ _) ⟨hpush, hpush'⟩ ⟨hpop, hpop'⟩ rfl hlen

/-- Each page pushed and not yet counted was pushed by one call, and is cached or with a call that
popped it and has not counted either. -/
structure PushBooks (pushed popped : ℕ → Option ℕ) (cached : List ℕ) : Prop where
  once : ∀ t t' page, pushed t = some page → pushed t' = some page → t = t'
  held : ∀ t page, pushed t = some page → page ∈ cached ∨ ∃ t', popped t' = some page

section Books

variable {pushed popped : ℕ → Option ℕ} {cached : List ℕ} {page : ℕ}

/-- A page that no call has pushed and not counted is pushed. -/
theorem PushBooks.push (h : PushBooks pushed popped cached) (t : ℕ)
    (hfresh : ∀ t', pushed t' ≠ some page) :
    PushBooks (Function.update pushed t (some page)) popped (page :: cached) := by
  refine ⟨fun t₁ t₂ q h₁ h₂ => ?_, fun t₁ q h₁ => ?_⟩
  · by_cases ht₁ : t₁ = t <;> by_cases ht₂ : t₂ = t <;> simp [ht₁, ht₂] at h₁ h₂ ⊢
    · exact absurd (h₁ ▸ h₂) (hfresh t₂)
    · exact absurd (h₂ ▸ h₁) (hfresh t₁)
    · exact h.once t₁ t₂ q h₁ h₂
  · by_cases ht₁ : t₁ = t
    · simp [ht₁] at h₁
      exact .inl (h₁ ▸ List.mem_cons_self)
    · rw [Function.update_of_ne ht₁] at h₁
      exact (h.held t₁ q h₁).imp_left (List.mem_cons_of_mem _)

/-- A pushed page is counted. -/
theorem PushBooks.countPush (h : PushBooks pushed popped cached) (t : ℕ) :
    PushBooks (Function.update pushed t none) popped cached := by
  have hkept {t₁ q : ℕ} (h₁ : Function.update pushed t none t₁ = some q) : pushed t₁ = some q := by
    by_cases ht₁ : t₁ = t
    · simp [ht₁] at h₁
    · rwa [Function.update_of_ne ht₁] at h₁
  exact ⟨fun t₁ t₂ q h₁ h₂ => h.once t₁ t₂ q (hkept h₁) (hkept h₂),
    fun t₁ q h₁ => h.held t₁ q (hkept h₁)⟩

/-- A call that holds no page pops one. -/
theorem PushBooks.pop (h : PushBooks pushed popped cached) {t : ℕ} (ht : popped t = none) :
    PushBooks pushed (Function.update popped t (some page)) (cached.erase page) := by
  refine ⟨h.once, fun t₁ q h₁ => ?_⟩
  by_cases hq : q = page
  · exact .inr ⟨t, by rw [Function.update_self, hq]⟩
  · rcases h.held t₁ q h₁ with hin | ⟨t', ht'⟩
    · exact .inl ((List.mem_erase_of_ne hq).mpr hin)
    · refine .inr ⟨t', ?_⟩
      rw [Function.update_of_ne, ht']
      rintro rfl
      rw [ht] at ht'
      cases ht'

/-- A popped page that is not waiting to be counted on is counted off. -/
theorem PushBooks.countPop (h : PushBooks pushed popped cached) {t : ℕ} (ht : popped t = some page)
    (hcounted : ∀ t', pushed t' ≠ some page) :
    PushBooks pushed (Function.update popped t none) cached := by
  refine ⟨h.once, fun t₁ q h₁ => (h.held t₁ q h₁).imp_right ?_⟩
  rintro ⟨t', ht'⟩
  refine ⟨t', ?_⟩
  rw [Function.update_of_ne, ht']
  rintro rfl
  rw [ht] at ht'
  cases ht'
  exact hcounted t₁ h₁

end Books

/-- The counter is the cached pages and the pops not yet counted, less the pushes not yet counted;
who has popped a page has it. -/
structure CacheCountInv (s : CacheSys) (pushing popping : ℕ) : Prop where
  pushers : SumsTo s.pushing pushing
  poppers : SumsTo s.popping popping
  len : s.slabCacheLen + pushing = s.cached.length + popping
  books : PushBooks s.pushedPage s.poppedPage s.cached
  inHand : ∀ t page, s.poppedPage t = some page → page ∈ s.core.owned t

/-- Nothing is cached and no thread counts. -/
theorem cacheCountInv_new : CacheCountInv CacheSys.new 0 0 where
  pushers := sumsTo_zero
  poppers := sumsTo_zero
  len := rfl
  books := ⟨by simp [CacheSys.new, CacheSys.pushedPage, CacheCall.pushed],
    by simp [CacheSys.new, CacheSys.pushedPage, CacheCall.pushed]⟩
  inHand := by simp [CacheSys.new, CacheSys.poppedPage, CacheCall.popped]

variable {X : Type} {others : X → List ℕ} {kind : ℕ → PageKind (Tag (Option X))}
  {pushing popping head : ℕ}

/-- The pages popped and not yet counted, each in the hand of one call. -/
theorem CacheCountInv.exists_popped (hcount : CacheCountInv s pushing popping)
    (h : CacheInv s others kind) :
    ∃ pages : List ℕ, pages.Nodup ∧ pages.length = popping ∧
      ∀ page, page ∈ pages ↔ ∃ t, s.poppedPage t = some page :=
  SumsTo.exists_list hcount.poppers fun t t' page ht ht' =>
    h.owner_unique (hcount.inHand t page ht) (hcount.inHand t' page ht')

/-- Cached pages and pages popped but not counted are different outstanding pages. -/
theorem CacheCountInv.cached_add_popping_le (hcount : CacheCountInv s pushing popping)
    (h : CacheInv s others kind) :
    s.cached.length + popping ≤ 0x20000 := by
  obtain ⟨pages, hpages, rfl, hmem⟩ := hcount.exists_popped h
  have howned {p : ℕ} (hp : p ∈ pages) : ∃ t, p ∈ s.core.owned t := by
    obtain ⟨t, ht⟩ := (hmem p).mp hp
    exact ⟨t, hcount.inHand t p ht⟩
  have hnodup : (s.cached ++ pages).Nodup := by
    refine List.nodup_append.mpr ⟨h.chain.nodup, hpages, ?_⟩
    rintro p hp q hq rfl
    obtain ⟨t, ht⟩ := howned hq
    exact h.notMem_cached ht hp
  have hout : ∀ p ∈ s.cached ++ pages, (kind p).isOut = true := by
    intro p hp
    rcases List.mem_append.mp hp with hp | hp
    · rw [((h.core.keyed (.other none)).1 p).mp hp]
      rfl
    · obtain ⟨t, ht⟩ := howned hp
      rw [((h.core.keyed (.owned t)).1 p).mp ht]
      rfl
  rw [← List.length_append]
  exact (h.core.pool.length_le_outstandingTotal hnodup hout).trans h.core.pool.outstandingTotal_le

/-- When a call that popped a page counts, and that page was counted on, the counter is positive. -/
theorem CacheCountInv.len_pos (hcount : CacheCountInv s pushing popping)
    (h : CacheInv s others kind) (hpc : s.pc t = .popCount head)
    (horder : ∀ t', s.pushedPage t' ≠ some head) : 0 < s.slabCacheLen := by
  obtain ⟨popped, -, hpoppedLen, hpopped⟩ := hcount.exists_popped h
  obtain ⟨pushed, hnodup, hpushedLen, hpushed⟩ :=
    SumsTo.exists_list hcount.pushers hcount.books.once
  have hhead : head ∈ s.cached ++ popped :=
    List.mem_append_right _ ((hpopped head).mpr ⟨t, by rw [CacheSys.poppedPage, hpc]; rfl⟩)
  have hsubset : pushed ⊆ (s.cached ++ popped).erase head := by
    intro page hpage
    obtain ⟨t', ht'⟩ := (hpushed page).mp hpage
    have hne : page ≠ head := by
      rintro rfl
      exact horder t' ht'
    refine (List.mem_erase_of_ne hne).mpr (List.mem_append.mpr ?_)
    rcases hcount.books.held t' page ht' with hcached | hheld
    · exact .inl hcached
    · exact .inr ((hpopped page).mpr hheld)
  have hle := (List.subperm_of_subset hnodup hsubset).length_le
  have hpos := List.length_pos_of_mem hhead
  rw [List.length_erase_of_mem hhead] at hle
  rw [List.length_append] at hle hpos
  have hlen := hcount.len
  omega

/-- A `fetch_sub` for a page is taken only after the `fetch_add` of the call that cached it, and no
exchange uses a stale link. -/
def CountGuard (s : CacheSys) (l : CacheLabel) : Prop :=
  LinkFresh s l ∧ ∀ t spurious head, l = .advance t spurious → s.pc t = .popCount head →
    ∀ t', s.pushedPage t' ≠ some head

/-- The next `fetch_sub` does not wrap, and a page is diverted only from a full cache. -/
def CacheSys.CountsRight (s : CacheSys) : CacheLabel → Prop
  | .advance t _ =>
    (∀ head, s.pc t = .popCount head → 0 < s.slabCacheLen) ∧
      ∀ page, s.pc t = .loadLen page → slabCacheMax ≤ s.slabCacheLen →
        ∃ stack popping, Chain s.word s.slabCache stack ∧ SumsTo s.popping popping ∧
          slabCacheMax ≤ stack.length + popping
  | _ => True

/-- What the invariant says of the next step. -/
theorem CacheCountInv.countsRight (hcount : CacheCountInv s pushing popping)
    (h : CacheInv s others kind) (hguard : CountGuard s l) : s.CountsRight l := by
  cases l with
  | advance t spurious =>
    refine ⟨fun head hpc => hcount.len_pos h hpc (hguard.2 t spurious head rfl hpc),
      fun page hpc hfull => ?_⟩
    have hlen := hcount.len
    exact ⟨s.cached, popping, h.chain, hcount.poppers, by omega⟩
  | _ => trivial

/-- Only its own step takes a thread past its `fetch_sub`. -/
theorem eq_advance_of_popCount (hpc : s.pc l.thread = .popCount head)
    (hpc' : s'.pc l.thread = .idle) (hstep : cacheStep s l = some s') :
    ∃ spurious, l = .advance l.thread spurious := by
  cases l with
  | advance t spurious => exact ⟨spurious, rfl⟩
  | poolWrite t page value =>
    simp only [cacheStep] at hstep
    split at hstep <;> try contradiction
    obtain rfl := Option.some.inj hstep
    simp [hpc] at hpc'
  | _ =>
    simp only [CacheLabel.thread] at hpc
    simp [cacheStep, hpc] at hstep

/-- A step leaves what the other threads have pushed and popped. -/
theorem pages_frame (hstep : cacheStep s l = some s') (ht : t ≠ l.thread) :
    s'.pushedPage t = s.pushedPage t ∧ s'.poppedPage t = s.poppedPage t :=
  CacheSys.pages_of_pc (cacheStep_frame ht hstep).1

/-- Pages popped and not yet counted stay in the hands of their threads. -/
theorem CacheCountInv.inHand_step (hcount : CacheCountInv s pushing popping)
    (hstep : cacheStep s l = some s') (t page : ℕ) (ht : s'.poppedPage t = some page) :
    page ∈ s'.core.owned t := by
  by_cases htt : t = l.thread
  · subst htt
    cases cacheStep_countEffect hstep with
    | quiet _ _ _ hpop howned =>
      rw [howned page ht]
      exact hcount.inHand _ page (hpop ▸ ht)
    | pushed _ _ _ hpop =>
      rw [hpop.2] at ht
      cases ht
    | pushCounted _ _ hpop =>
      rw [hpop.2] at ht
      cases ht
    | popped head _ _ hpop _ _ howned =>
      rw [hpop.2] at ht
      exact Option.some.inj ht ▸ howned
    | popCounted _ _ _ _ hpop =>
      rw [hpop.2] at ht
      cases ht
  · rw [(pages_frame hstep htt).2] at ht
    rw [(cacheStep_frame htt hstep).2]
    exact hcount.inHand t page ht

/-- A page a thread is about to push was not pushed by a call that has not counted: it is neither
cached nor in the hand of another thread. -/
theorem CacheCountInv.not_pushed (hcount : CacheCountInv s pushing popping)
    (h : CacheInv s others kind) (hmine : head ∈ s.core.owned t) (hpop : s.poppedPage t = none)
    (t' : ℕ) : s.pushedPage t' ≠ some head := by
  intro ht'
  rcases hcount.books.held t' head ht' with hin | ⟨t₁, ht₁⟩
  · exact h.notMem_cached hmine hin
  · obtain rfl := h.owner_unique (hcount.inHand t₁ head ht₁) hmine
    rw [hpop] at ht₁
    cases ht₁

/-- Every guarded step keeps the books of the pushed pages. -/
theorem CacheCountInv.books_step (hcount : CacheCountInv s pushing popping)
    (h : CacheInv s others kind) (hguard : CountGuard s l) (hstep : cacheStep s l = some s') :
    PushBooks s'.pushedPage s'.poppedPage s'.cached := by
  have hpushed : s'.pushedPage = Function.update s.pushedPage l.thread (s'.pushedPage l.thread) :=
    Function.eq_update_iff.mpr ⟨rfl, fun t ht => (pages_frame hstep ht).1⟩
  have hpopped : s'.poppedPage = Function.update s.poppedPage l.thread (s'.poppedPage l.thread) :=
    Function.eq_update_iff.mpr ⟨rfl, fun t ht => (pages_frame hstep ht).2⟩
  have hbooks := hcount.books
  cases cacheStep_countEffect hstep with
  | quiet hcached _ hpush hpop =>
    rw [hpush, Function.update_eq_self] at hpushed
    rw [hpop, Function.update_eq_self] at hpopped
    rw [hpushed, hpopped, hcached]
    exact hbooks
  | pushed page hpc hpush hpop hcached =>
    obtain ⟨current, hpc⟩ := hpc
    rw [hpush.2] at hpushed
    rw [hpop.2, ← hpop.1, Function.update_eq_self] at hpopped
    rw [hpushed, hpopped, hcached]
    have hmine : page ∈ s.core.owned l.thread := h.inHand _ page (by rw [hpc]; rfl)
    exact hbooks.push _ (hcount.not_pushed h hmine hpop.1)
  | pushCounted page hpush hpop hcached =>
    rw [hpush.2] at hpushed
    rw [hpop.2, ← hpop.1, Function.update_eq_self] at hpopped
    rw [hpushed, hpopped, hcached]
    exact hbooks.countPush _
  | popped head _ hpush hpop hcached =>
    rw [hpush.2, ← hpush.1, Function.update_eq_self] at hpushed
    rw [hpop.2] at hpopped
    rw [hpushed, hpopped, hcached]
    exact hbooks.pop hpop.1
  | popCounted head hpc hpc' hpush hpop hcached =>
    obtain ⟨spurious, hlabel⟩ := eq_advance_of_popCount hpc hpc' hstep
    rw [hpush.2, ← hpush.1, Function.update_eq_self] at hpushed
    rw [hpop.2] at hpopped
    rw [hpushed, hpopped, hcached]
    exact hbooks.countPop hpop.1 (hguard.2 _ spurious head hlabel hpc)

/-- Every guarded step changes the counter, the cached pages and the calls that have not counted so
that they still agree. -/
theorem CacheCountInv.len_step (hcount : CacheCountInv s pushing popping)
    (h : CacheInv s others kind) (hguard : CountGuard s l) (hstep : cacheStep s l = some s') :
    ∃ pushing' popping', SumsTo s'.pushing pushing' ∧ SumsTo s'.popping popping' ∧
      s'.slabCacheLen + pushing' = s'.cached.length + popping' := by
  obtain ⟨pushing', hpushers, hpushing⟩ :=
    hcount.pushers.change (g := s'.pushing) l.thread fun t ht => by
    rw [CacheSys.pushing, CacheSys.pushing, (pages_frame hstep ht).1]
  obtain ⟨popping', hpoppers, hpopping⟩ :=
    hcount.poppers.change (g := s'.popping) l.thread fun t ht => by
    rw [CacheSys.popping, CacheSys.popping, (pages_frame hstep ht).2]
  refine ⟨pushing', popping', hpushers, hpoppers, ?_⟩
  have hlen := hcount.len
  have hbound := hcount.cached_add_popping_le h
  simp only [CacheSys.pushing, CacheSys.popping] at hpushing hpopping
  cases cacheStep_countEffect hstep with
  | quiet hcached hlen' hpush hpop =>
    rw [hpush] at hpushing
    rw [hpop] at hpopping
    rw [hcached, hlen']
    omega
  | pushed page hpc hpush hpop hcached hlen' =>
    simp [hpush.1, hpush.2] at hpushing
    simp [hpop.1, hpop.2] at hpopping
    rw [hcached, hlen', List.length_cons]
    omega
  | pushCounted page hpush hpop hcached hlen' =>
    simp [hpush.1, hpush.2] at hpushing
    simp [hpop.1, hpop.2] at hpopping
    rw [hcached, hlen', usizeInc, Nat.mod_eq_of_lt (by omega)]
    omega
  | popped head hhead hpush hpop hcached hlen' =>
    have hmem : head ∈ s.cached := by
      have hchain := h.chain
      rw [hhead] at hchain
      obtain ⟨rest, heq, -⟩ := hchain.exists_cons
      simp [heq]
    have hpos := List.length_pos_of_mem hmem
    simp [hpush.1, hpush.2] at hpushing
    simp [hpop.1, hpop.2] at hpopping
    rw [hcached, hlen', List.length_erase_of_mem hmem]
    omega
  | popCounted head hpc hpc' hpush hpop hcached hlen' =>
    obtain ⟨spurious, hlabel⟩ := eq_advance_of_popCount hpc hpc' hstep
    have hpos := hcount.len_pos h hpc (hguard.2 _ spurious head hlabel hpc)
    have hdec : usizeDec s.slabCacheLen = s.slabCacheLen - 1 := by
      unfold usizeDec
      omega
    simp [hpush.1, hpush.2] at hpushing
    simp [hpop.1, hpop.2] at hpopping
    rw [hcached, hlen', hdec]
    omega

/-- Every guarded step keeps the counter right. -/
theorem CacheCountInv.step (hcount : CacheCountInv s pushing popping) (h : CacheInv s others kind)
    (hguard : CountGuard s l) (hstep : cacheStep s l = some s') :
    ∃ pushing' popping', CacheCountInv s' pushing' popping' := by
  obtain ⟨pushing', popping', hpushers, hpoppers, hlen⟩ := hcount.len_step h hguard hstep
  exact ⟨pushing', popping', hpushers, hpoppers, hlen, hcount.books_step h hguard hstep,
    hcount.inHand_step hstep⟩

/-- The stack and the counter are sound. -/
def CacheCounted (s : CacheSys) : Prop :=
  (∃ kind, CacheInv s (fun _ : Empty => []) kind) ∧
    ∃ pushing popping, CacheCountInv s pushing popping

/-- The empty cache is counted right. -/
theorem cacheCounted_new : CacheCounted CacheSys.new := ⟨⟨_, cacheInv_new⟩, 0, 0, cacheCountInv_new⟩

/-- Every guarded step keeps the stack and the counter sound. -/
theorem CacheCounted.step (hs : CacheCounted s) (hguard : CountGuard s l)
    (hstep : cacheStep s l = some s') :
    CacheCounted s' := by
  obtain ⟨⟨kind, h⟩, pushing, popping, hcount⟩ := hs
  exact ⟨h.step hguard.1 hstep, hcount.step h hguard hstep⟩

/-- In every guarded run the next step, if the guard admits it, finds the counter right. -/
theorem cache_counts_right {labels : List CacheLabel}
    (hmeets : Meets cacheStep CountGuard CacheSys.new (labels ++ [l]))
    (hrun : run cacheStep CacheSys.new labels = some s) : s.CountsRight l := by
  obtain ⟨hbefore, hnext⟩ := meets_append.mp hmeets
  have hinv := run_invariant_of_meets (I := CacheCounted)
    (fun _ _ _ hs hguard hstep => hs.step hguard hstep)
    cacheCounted_new hbefore hrun
  obtain ⟨⟨kind, h⟩, pushing, popping, hcount⟩ := hinv
  exact hcount.countsRight h (hnext s hrun).1

/-- A thread beneath the bound takes the step, and no such thread still has to count the page it
counts off. -/
def CountGuardBelow (bound : ℕ) (s : CacheSys) (l : CacheLabel) : Prop :=
  LinkFresh s l ∧ l.thread < bound ∧
    ∀ head ∈ s.poppedPage l.thread, ∀ t' < bound, s.pushedPage t' ≠ some head

/-- Whether the threads beneath the bound keep to the order can be computed. -/
instance decidableCountGuardBelow (bound : ℕ) (s : CacheSys) (l : CacheLabel) :
    Decidable (CountGuardBelow bound s l) :=
  inferInstanceAs (Decidable (LinkFresh s l ∧ l.thread < bound ∧
    ∀ head ∈ s.poppedPage l.thread, ∀ t' < bound, s.pushedPage t' ≠ some head))

/-- Where all other threads are idle, the order among those beneath the bound is the guard. -/
theorem CountGuardBelow.countGuard {bound : ℕ} (hidle : ∀ t, bound ≤ t → s.pc t = .idle)
    (h : CountGuardBelow bound s l) : CountGuard s l := by
  refine ⟨h.1, fun t spurious head hl hpc t' ht' => ?_⟩
  subst hl
  by_cases hbound : t' < bound
  · exact h.2.2 head (CacheSys.pages_of_pc hpc).2 t' hbound ht'
  · rw [CacheSys.pushedPage, hidle t' (Nat.le_of_not_lt hbound)] at ht'
    cases ht'

/-- Threads 0 and 2 push a page each on a counted one; thread 1 pops the upper of the two before
thread 0 counts it, and is about to count it off. -/
def overtakenPushRun : List CacheLabel :=
  twoPagesRun ++ [.core (.allocSlab 2)] ++ pushRun 0 131072 ++ (pushRun 2 196608).dropLast ++
    (pushRun 0 65536).dropLast ++ (popRun 1).dropLast ++ [.advance 0 false]

/-- The `fetch_sub` of thread 1 finds the counter at two, while thread 2 has yet to count its
page. -/
theorem cache_counts_right_overtakenPushRun :
    ∃ s, run cacheStep CacheSys.new overtakenPushRun = some s ∧
    s.pc 1 = .popCount 65536 ∧ s.pc 2 = .pushCount 196608 ∧ s.slabCacheLen = 2 ∧
      s.CountsRight (.advance 1 false) := by
  have hcheck : (run cacheStep CacheSys.new overtakenPushRun).map
      (fun s => decide (s.pc 1 = .popCount 65536 ∧
      s.pc 2 = .pushCount 196608 ∧ s.slabCacheLen = 2)) = some true := by decide +kernel
  have hbelow : Meets cacheStep (CountGuardBelow 3) CacheSys.new
      (overtakenPushRun ++ [.advance 1 false]) := by
    decide +kernel
  have hmeets : Meets cacheStep (fun s l => CountGuard s l ∧ l.thread < 3) CacheSys.new
      (overtakenPushRun ++ [.advance 1 false]) := by
    refine hbelow.mono_of_invariant (I := fun s => ∀ t, 3 ≤ t → s.pc t = .idle)
      (fun s l hidle h => ⟨h.countGuard hidle, h.2.1⟩) ?_ fun _ _ => rfl
    rintro s l s' hidle ⟨-, hthread⟩ hstep t ht
    rw [(cacheStep_frame (by omega) hstep).1]
    exact hidle t ht
  obtain ⟨s, hrun, hs⟩ := Option.map_eq_some_iff.mp hcheck
  obtain ⟨hpc₁, hpc₂, hlen⟩ := of_decide_eq_true hs
  exact ⟨s, hrun, hpc₁, hpc₂, hlen, cache_counts_right (hmeets.mono fun _ _ h => h.1) hrun⟩

/-- Thread 0 has pushed its page and not counted it; thread 1 pops the page and is about to count.
Thread 2 has a page. -/
def uncountedPushRun : List CacheLabel :=
  [.core (.allocSlab 2), .core (.osAlloc 2 (some 0x1000000)),
    .core (.allocSlabSlow 2)] ++ [.core (.allocSlab 0)] ++
    (pushRun 0 0x1010000).dropLast ++ (popRun 1).dropLast

/-- The `fetch_sub` of thread 1 wraps the counter, and thread 2 then sends its page to the pool from
an empty cache. -/
theorem cache_counts_wrong_uncountedPushRun :
    ∃ s s₁ s₂, run cacheStep CacheSys.new uncountedPushRun = some s ∧
    s.pc 1 = .popCount 0x1010000 ∧ s.slabCacheLen = 0 ∧
      run cacheStep s [.advance 1 false] = some s₁ ∧
    s₁.slabCacheLen = 0xffffffffffffffff ∧ s₁.slabCache = none ∧ s₁.pc 1 = .idle ∧
    run cacheStep s₁ [.cacheSlab 2 0x1000000, .advance 2 false] = some s₂ ∧
      s₂.pc 2 = .divert 0x1000000 := by
  have hcheck : ((run cacheStep CacheSys.new uncountedPushRun).bind fun s =>
      (run cacheStep s [.advance 1 false]).bind fun s₁ =>
        (run cacheStep s₁ [.cacheSlab 2 0x1000000, .advance 2 false]).map fun s₂ =>
          decide (s.pc 1 = .popCount 0x1010000 ∧ s.slabCacheLen = 0 ∧
            s₁.slabCacheLen = 0xffffffffffffffff ∧ s₁.slabCache = none ∧
            s₁.pc 1 = .idle ∧ s₂.pc 2 = .divert 0x1000000)) = some true := by decide +kernel
  obtain ⟨s, hrun, hcheck⟩ := Option.bind_eq_some_iff.mp hcheck
  obtain ⟨s₁, hrun₁, hcheck⟩ := Option.bind_eq_some_iff.mp hcheck
  obtain ⟨s₂, hrun₂, hcheck⟩ := Option.map_eq_some_iff.mp hcheck
  obtain ⟨hpc, hlen, hlen₁, hcache, hpc₁, hpc₂⟩ := of_decide_eq_true hcheck
  exact ⟨s, s₁, s₂, hrun, hpc, hlen, hrun₁, hlen₁, hcache, hpc₁, hrun₂, hpc₂⟩

end ClMalloc
