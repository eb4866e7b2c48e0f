import ClMalloc.PagePool
import ClMalloc.Lib.Chain
import ClMalloc.Lib.StackLog

/-!
# The slab cache at the granularity of single atomic steps

`cache_slab` and `uncache_slab` work on an untagged head pointer; the link of a cached page
is its first word. Each load, write, read, compare-exchange and counter update is one step,
a compare-exchange may fail spuriously, and the steps interleave with each other and with
the pool's critical sections. The first word of a page that is not cached belongs to
whoever has the page: its owner, the pool's free lists, or, for a segment given back, the
page allocator; each may overwrite it at any time.

`cached` lists the pages pushed and not popped, and `log` the pushes and pops, newest
first. Neither is read by a step.
-/

namespace ClMalloc

open Intrusive

/-- Where a thread is in `cache_slab` or `uncache_slab`: the step it takes next. -/
inductive CacheCall
  | idle
  | loadLen (page : ℕ)
  | divert (page : ℕ)
  | loadHead (page : ℕ)
  | writeLink (page : ℕ) (current : Option ℕ)
  | pushCas (page : ℕ) (current : Option ℕ)
  | pushCount (page : ℕ)
  | popLoad
  | popRead (head : ℕ)
  | popCas (head : ℕ) (next : Option ℕ)
  | popCount (head : ℕ)
  deriving DecidableEq

/-- The cache, the pool beneath it, and the threads. -/
structure CacheSys where
  core : PoolCore
  slabCache : Option ℕ
  slabCacheLen : ℕ
  word : ℕ → Option ℕ
  pc : ℕ → CacheCall
  cached : List ℕ
  log : List (StackEvent ℕ)

/-- An empty cache over a new pool. -/
def CacheSys.new : CacheSys := ⟨.new, none, 0, fun _ => none, fun _ => .idle, [], []⟩

/-- Move a thread to its next step. -/
def CacheSys.goto (s : CacheSys) (t : ℕ) (k : CacheCall) : CacheSys :=
  { s with pc := Function.update s.pc t k }

/-- The compare-exchange of `cache_slab` succeeds. -/
def CacheSys.push (s : CacheSys) (t page : ℕ) : CacheSys :=
  { s with
    core := s.core.take t page
    slabCache := some page
    cached := page :: s.cached
    log := .pushed page :: s.log }

/-- The compare-exchange of `uncache_slab` succeeds. -/
def CacheSys.pop (s : CacheSys) (t head : ℕ) (next : Option ℕ) : CacheSys :=
  { s with
    core := s.core.give t head
    slabCache := next
    cached := s.cached.erase head
    log := .popped head :: s.log }

/-- Increment of the `usize` counter. -/
def usizeInc (n : ℕ) : ℕ := (n + 1) % 0x10000000000000000

/-- Decrement of the `usize` counter. -/
def usizeDec (n : ℕ) : ℕ := (n + 0xffffffffffffffff) % 0x10000000000000000

/-- The next step of a thread in `cache_slab` or `uncache_slab`. -/
def CacheSys.advance (s : CacheSys) (t : ℕ) (spurious : Bool) : Option CacheSys :=
  match s.pc t with
  | .idle => none
  | .loadLen page =>
    some (s.goto t (if slabCacheMax ≤ s.slabCacheLen then .divert page else .loadHead page))
  | .divert page => (s.core.deallocSlab t page).map fun core => { s with core := core }.goto t .idle
  | .loadHead page => some (s.goto t (.writeLink page s.slabCache))
  | .writeLink page current =>
    some ({ s with word := Function.update s.word page current }.goto t (.pushCas page current))
  | .pushCas page current =>
    if s.slabCache = current ∧ spurious = false then some ((s.push t page).goto t (.pushCount page))
    else some (s.goto t (.writeLink page s.slabCache))
  | .pushCount _ => some ({ s with slabCacheLen := usizeInc s.slabCacheLen }.goto t .idle)
  | .popLoad =>
    match s.slabCache with
    | none => some (s.goto t .idle)
    | some head => some (s.goto t (.popRead head))
  | .popRead head => some (s.goto t (.popCas head (s.word head)))
  | .popCas head next =>
    if s.slabCache = some head ∧ spurious = false then some
      ((s.pop t head next).goto t (.popCount head))
    else
      match s.slabCache with
      | none => some (s.goto t .idle)
      | some actual => some (s.goto t (.popRead actual))
  | .popCount _ => some ({ s with slabCacheLen := usizeDec s.slabCacheLen }.goto t .idle)

/-- One atomic step. -/
inductive CacheLabel
  | core (l : PoolLabel)
  | cacheSlab (t page : ℕ)
  | uncacheSlab (t : ℕ)
  | advance (t : ℕ) (spurious : Bool)
  | ownerWrite (t page : ℕ) (value : Option ℕ)
  | poolWrite (t page : ℕ) (value : Option ℕ)
  deriving DecidableEq

/-- The pool may write the page: it is free, in the thread's purge buffer, or in no registered
segment. -/
def CacheSys.PoolMayWrite (s : CacheSys) (t page : ℕ) : Prop :=
  page ∈ s.core.pool.dirtyList.pages ∨ page ∈ s.core.pool.cleanList.pages ∨
    page ∈ (s.core.call t).buffer ∨ findSegment s.core.pool page = none

/-- Whether the pool may write a page can be computed. -/
instance (s : CacheSys) (t page : ℕ) : Decidable (s.PoolMayWrite t page) := by
  unfold CacheSys.PoolMayWrite
  infer_instance

/-- A thread is in at most one call; it caches and writes only pages it owns. -/
def cacheStep (s : CacheSys) : CacheLabel → Option CacheSys
  | .core l =>
    if s.pc l.thread = .idle then (poolStep s.core l).map fun core => { s with core := core }
      else none
  | .cacheSlab t page =>
    if s.pc t = .idle ∧ s.core.call t = .idle ∧ page ∈ s.core.owned t then some
      (s.goto t (.loadLen page))
    else none
  | .uncacheSlab t =>
    if s.pc t = .idle ∧ s.core.call t = .idle then some (s.goto t .popLoad) else none
  | .advance t spurious => s.advance t spurious
  | .ownerWrite t page value =>
    if s.pc t = .idle ∧ page ∈ s.core.owned t then
      some { s with word := Function.update s.word page value }
    else none
  | .poolWrite t page value =>
    if s.PoolMayWrite t page then some { s with word := Function.update s.word page value }
      else none

/-- What an atomic step can do: a section of the pool, the start of a call, a write to a page, or
the next step of a call. A failed compare-exchange goes on with the head it found. -/
inductive CacheStepped (s : CacheSys) : CacheLabel → CacheSys → Prop
  | core {l : PoolLabel} {core : PoolCore} (hpc : s.pc l.thread = .idle)
      (hcore : poolStep s.core l = some core) :
    CacheStepped s (.core l) { s with core := core }
  | cacheSlab {t page : ℕ} (hpc : s.pc t = .idle) (hcall : s.core.call t = .idle)
      (howned : page ∈ s.core.owned t) :
    CacheStepped s (.cacheSlab t page) (s.goto t (.loadLen page))
  | uncacheSlab {t : ℕ} (hpc : s.pc t = .idle) (hcall : s.core.call t = .idle) :
    CacheStepped s (.uncacheSlab t) (s.goto t .popLoad)
  | ownerWrite {t page : ℕ} {value : Option ℕ} (hpc : s.pc t = .idle)
      (howned : page ∈ s.core.owned t) :
    CacheStepped s (.ownerWrite t page value) { s with word := Function.update s.word page value }
  | poolWrite {t page : ℕ} {value : Option ℕ} (hmay : s.PoolMayWrite t page) :
    CacheStepped s (.poolWrite t page value) { s with word := Function.update s.word page value }
  | full {t page : ℕ} {spurious : Bool} (hpc : s.pc t = .loadLen page)
      (hfull : slabCacheMax ≤ s.slabCacheLen) :
    CacheStepped s (.advance t spurious) (s.goto t (.divert page))
  | loadLen {t page : ℕ} {spurious : Bool} (hpc : s.pc t = .loadLen page)
      (hroom : ¬slabCacheMax ≤ s.slabCacheLen) :
    CacheStepped s (.advance t spurious) (s.goto t (.loadHead page))
  | divert {t page : ℕ} {spurious : Bool} {core : PoolCore} (hpc : s.pc t = .divert page)
    (hcore : s.core.deallocSlab t page = some core) :
    CacheStepped s (.advance t spurious) (CacheSys.goto { s with core := core } t .idle)
  | loadHead {t page : ℕ} {spurious : Bool} (hpc : s.pc t = .loadHead page) :
    CacheStepped s (.advance t spurious) (s.goto t (.writeLink page s.slabCache))
  | writeLink {t page : ℕ} {current : Option ℕ}
      {spurious : Bool} (hpc : s.pc t = .writeLink page current) :
    CacheStepped s (.advance t spurious)
      (CacheSys.goto { s with word := Function.update s.word page current } t
        (.pushCas page current))
  | push {t page : ℕ} {current : Option ℕ} (hpc : s.pc t = .pushCas page current)
      (hcas : s.slabCache = current) :
    CacheStepped s (.advance t false) ((s.push t page).goto t (.pushCount page))
  | pushRetry {t page : ℕ} {current : Option ℕ}
      {spurious : Bool} (hpc : s.pc t = .pushCas page current)
    (hfail : ¬(s.slabCache = current ∧ spurious = false)) :
    CacheStepped s (.advance t spurious) (s.goto t (.writeLink page s.slabCache))
  | pushCount {t page len : ℕ} {spurious : Bool} (hpc : s.pc t = .pushCount page)
    (hlen : len = usizeInc s.slabCacheLen) :
    CacheStepped s (.advance t spurious) (CacheSys.goto { s with slabCacheLen := len } t .idle)
  | popEmpty {t : ℕ} {spurious : Bool} (hpc : s.pc t = .popLoad) (hempty : s.slabCache = none) :
    CacheStepped s (.advance t spurious) (s.goto t .idle)
  | popLoad {t head : ℕ} {spurious : Bool} (hpc : s.pc t = .popLoad)
      (hhead : s.slabCache = some head) :
    CacheStepped s (.advance t spurious) (s.goto t (.popRead head))
  | popRead {t head : ℕ} {spurious : Bool} (hpc : s.pc t = .popRead head) :
    CacheStepped s (.advance t spurious) (s.goto t (.popCas head (s.word head)))
  | pop {t head : ℕ} {next : Option ℕ} (hpc : s.pc t = .popCas head next)
      (hcas : s.slabCache = some head) :
    CacheStepped s (.advance t false) ((s.pop t head next).goto t (.popCount head))
  | popGone {t head : ℕ} {next : Option ℕ} {spurious : Bool} (hpc : s.pc t = .popCas head next)
    (hfail : ¬(s.slabCache = some head ∧ spurious = false)) (hempty : s.slabCache = none) :
    CacheStepped s (.advance t spurious) (s.goto t .idle)
  | popRetry {t head actual : ℕ} {next : Option ℕ}
      {spurious : Bool} (hpc : s.pc t = .popCas head next)
    (hfail : ¬(s.slabCache = some head ∧ spurious = false)) (hhead : s.slabCache = some actual) :
    CacheStepped s (.advance t spurious) (s.goto t (.popRead actual))
  | popCount {t head len : ℕ} {spurious : Bool} (hpc : s.pc t = .popCount head)
    (hlen : len = usizeDec s.slabCacheLen) :
    CacheStepped s (.advance t spurious) (CacheSys.goto { s with slabCacheLen := len } t .idle)

/-- The thread that takes the step. -/
def CacheLabel.thread : CacheLabel → ℕ
  | .core l => l.thread
  | .cacheSlab t _ | .uncacheSlab t | .advance t _ | .ownerWrite t _ _ | .poolWrite t _ _ => t

section Stepped

variable {s s' : CacheSys} {t : ℕ} {l : CacheLabel}

/-- The next step of a call is one of these. -/
theorem CacheSys.advance_cases {spurious : Bool} (hstep : s.advance t spurious = some s') :
    CacheStepped s (.advance t spurious) s' := by
  -- the new lengths are named, so that nothing unfolds the arithmetic of 64 bits
  obtain ⟨inc, hinc⟩ : ∃ len, len = usizeInc s.slabCacheLen := ⟨_, rfl⟩
  obtain ⟨dec, hdec⟩ : ∃ len, len = usizeDec s.slabCacheLen := ⟨_, rfl⟩
  simp only [CacheSys.advance, ← hinc, ← hdec] at hstep
  split at hstep
  case h_1 => contradiction
  case h_2 page hpc =>
    split at hstep <;> cases hstep
    · exact .full hpc ‹_›
    · exact .loadLen hpc ‹_›
  case h_3 page hpc =>
    obtain ⟨core, hcore, rfl⟩ := Option.map_eq_some_iff.mp hstep
    exact .divert hpc hcore
  case h_4 page hpc =>
    cases hstep
    exact .loadHead hpc
  case h_5 page current hpc =>
    cases hstep
    exact .writeLink hpc
  case h_6 page current hpc =>
    split at hstep <;> cases hstep
    · rename_i hcas
      obtain ⟨hcas, rfl⟩ := hcas
      exact .push hpc hcas
    · exact .pushRetry hpc ‹_›
  case h_7 page hpc =>
    cases hstep
    exact .pushCount hpc hinc
  case h_8 hpc =>
    split at hstep <;> cases hstep
    · exact .popEmpty hpc ‹_›
    · exact .popLoad hpc ‹_›
  case h_9 head hpc =>
    cases hstep
    exact .popRead hpc
  case h_10 head next hpc =>
    split at hstep
    case isTrue hcas =>
      cases hstep
      obtain ⟨hcas, rfl⟩ := hcas
      exact .pop hpc hcas
    case isFalse hfail =>
      split at hstep <;> cases hstep
      · exact .popGone hpc hfail ‹_›
      · exact .popRetry hpc hfail ‹_›
  case h_11 head hpc =>
    cases hstep
    exact .popCount hpc hdec

/-- Every atomic step is one of these. -/
theorem cacheStep_cases (hstep : cacheStep s l = some s') : CacheStepped s l s' := by
  cases l with
  | core l =>
    simp only [cacheStep] at hstep
    split at hstep <;> try contradiction
    rename_i hpc
    obtain ⟨core, hcore, rfl⟩ := Option.map_eq_some_iff.mp hstep
    exact .core hpc hcore
  | cacheSlab t page =>
    simp only [cacheStep] at hstep
    split at hstep <;> cases hstep
    rename_i hready
    exact .cacheSlab hready.1 hready.2.1 hready.2.2
  | uncacheSlab t =>
    simp only [cacheStep] at hstep
    split at hstep <;> cases hstep
    rename_i hready
    exact .uncacheSlab hready.1 hready.2
  | advance t spurious => exact CacheSys.advance_cases hstep
  | ownerWrite t page value =>
    simp only [cacheStep] at hstep
    split at hstep <;> cases hstep
    rename_i hready
    exact .ownerWrite hready.1 hready.2
  | poolWrite t page value =>
    simp only [cacheStep] at hstep
    split at hstep <;> cases hstep
    exact .poolWrite ‹_›

/-- Moving another thread leaves where a thread is and what it owns. -/
theorem CacheSys.goto_frame {s₁ : CacheSys} {t' : ℕ} (k : CacheCall) (ht : t ≠ t')
    (hpc : s₁.pc = s.pc) (howned : s₁.core.owned t = s.core.owned t) :
    (s₁.goto t' k).pc t = s.pc t ∧ (s₁.goto t' k).core.owned t = s.core.owned t := by
  refine ⟨?_, howned⟩
  change Function.update s₁.pc t' k t = s.pc t
  rw [Function.update_of_ne ht, hpc]

/-- A step moves only the thread that takes it, and changes only what that thread owns. -/
theorem cacheStep_frame (ht : t ≠ l.thread) (hstep : cacheStep s l = some s') :
    s'.pc t = s.pc t ∧ s'.core.owned t = s.core.owned t := by
  cases cacheStep_cases hstep with
  | core hpc hcore => exact ⟨rfl, (poolStep_frame ht hcore).2⟩
  | cacheSlab => exact CacheSys.goto_frame _ ht rfl rfl
  | uncacheSlab => exact CacheSys.goto_frame _ ht rfl rfl
  | ownerWrite => exact ⟨rfl, rfl⟩
  | poolWrite => exact ⟨rfl, rfl⟩
  | full => exact CacheSys.goto_frame _ ht rfl rfl
  | loadLen => exact CacheSys.goto_frame _ ht rfl rfl
  | divert hpc hcore =>
    unfold PoolCore.deallocSlab at hcore
    split at hcore <;> cases hcore
    all_goals exact CacheSys.goto_frame _ ht rfl (Function.update_of_ne ht _ _)
  | loadHead => exact CacheSys.goto_frame _ ht rfl rfl
  | writeLink => exact CacheSys.goto_frame _ ht rfl rfl
  | push => exact CacheSys.goto_frame _ ht rfl (Function.update_of_ne ht _ _)
  | pushRetry => exact CacheSys.goto_frame _ ht rfl rfl
  | pushCount => exact CacheSys.goto_frame _ ht rfl rfl
  | popEmpty => exact CacheSys.goto_frame _ ht rfl rfl
  | popLoad => exact CacheSys.goto_frame _ ht rfl rfl
  | popRead => exact CacheSys.goto_frame _ ht rfl rfl
  | pop => exact CacheSys.goto_frame _ ht rfl (Function.update_of_ne ht _ _)
  | popGone => exact CacheSys.goto_frame _ ht rfl rfl
  | popRetry => exact CacheSys.goto_frame _ ht rfl rfl
  | popCount => exact CacheSys.goto_frame _ ht rfl rfl

/-- A step leaves where the other threads are in the pool. -/
theorem cacheStep_frame_call (ht : t ≠ l.thread) (hstep : cacheStep s l = some s') :
    s'.core.call t = s.core.call t := by
  cases cacheStep_cases hstep with
  | core hpc hcore => exact (poolStep_frame ht hcore).1
  | divert hpc hcore =>
    unfold PoolCore.deallocSlab at hcore
    split at hcore <;> cases hcore
    all_goals exact Function.update_of_ne ht _ _
  | _ => rfl

end Stepped

/-- The page is reachable from the head of the cache. -/
def CacheSys.OnStack (s : CacheSys) (page : ℕ) : Prop := Reaches s.word s.slabCache page

/-- Pages have one owner or are on the stack, and none is lost or popped twice in a row. -/
structure CacheSys.Exclusive (s : CacheSys) : Prop where
  notBoth : ∀ t p, p ∈ s.core.owned t → ¬s.OnStack p
  oneOwner : ∀ t t' p, p ∈ s.core.owned t → p ∈ s.core.owned t' → t = t'
  onStack : ∀ p ∈ s.cached, s.OnStack p
  pushedBetween : ∀ p newer between older,
    s.log = newer ++ .popped p :: between ++ .popped p :: older → .pushed p ∈ between

/-- A compare-exchange of `uncache_slab` about to succeed still finds the link it read. -/
def LinkFresh (s : CacheSys) : CacheLabel → Prop
  | .advance t spurious =>
    match s.pc t with
    | .popCas head next => s.slabCache = some head → spurious = false → s.word head = next
    | _ => True
  | _ => True

/-- Whether the link is still right can be computed. -/
instance (s : CacheSys) (l : CacheLabel) : Decidable (LinkFresh s l) := by
  unfold LinkFresh
  split
  · split <;> infer_instance
  · infer_instance

end ClMalloc
