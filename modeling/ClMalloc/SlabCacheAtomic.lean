import ClMalloc.SlabCacheInvariant
import ClMalloc.Lib.Linearizable

/-!
# The slab cache seems atomic while no link is stale

An atomic cache takes a page on top, or sends it back to the pool, and hands out the page on
top. Where every exchange of `uncache_slab` that succeeds still finds the link it read, the
threads see what they would see of the atomic cache. One thread that uncaches at a time is
enough for that, however many cache: a page below the top cannot leave before it, so the
link it read stays right. The counter is updated after the exchange and shows in no result.
-/

namespace ClMalloc

open Transition Intrusive Linearizable

/-- The operations of the slab cache. -/
inductive CacheOp
  | cacheSlab (page : ℕ)
  | uncacheSlab
  deriving DecidableEq

/-- The result of an operation. -/
inductive CacheResult
  | cached
  | diverted
  | uncached (page : Option ℕ)
  deriving DecidableEq

/-- What the atomic cache allows: how full the cache is decides if it takes a page, and shows
nowhere else. -/
inductive CacheSpec : List ℕ → CacheOp → CacheResult → List ℕ → Prop
  | cached (pages : List ℕ) (page : ℕ) : CacheSpec pages (.cacheSlab page) .cached (page :: pages)
  | diverted (pages : List ℕ) (page : ℕ) : CacheSpec pages (.cacheSlab page) .diverted pages
  | empty : CacheSpec [] .uncacheSlab (.uncached none) []
  | uncached (pages : List ℕ) (page : ℕ) :
      CacheSpec (page :: pages) .uncacheSlab (.uncached (some page)) pages

/-- The calls and returns of a step: an operation returns with its exchange. -/
def cacheEvents (s : CacheSys) : CacheLabel → List (Event ℕ CacheOp CacheResult)
  | .cacheSlab t page => [.call t (.cacheSlab page)]
  | .uncacheSlab t => [.call t .uncacheSlab]
  | .advance t spurious =>
    match s.pc t with
    | .divert _ => [.ret t .diverted]
    | .pushCas _ current => if s.slabCache = current ∧ spurious = false then [.ret t .cached]
        else []
    | .popLoad => if s.slabCache = none then [.ret t (.uncached none)] else []
    | .popCas head _ =>
      if s.slabCache = some head ∧ spurious = false then [.ret t (.uncached (some head))]
      else if s.slabCache = none then [.ret t (.uncached none)]
      else []
    | _ => []
  | _ => []

/-- Where a thread is for the atomic cache. -/
def CacheCall.phase : CacheCall → Phase CacheOp CacheResult
  | .idle | .pushCount _ | .popCount _ => .idle
  | .loadLen page | .divert page | .loadHead page | .writeLink page _ | .pushCas page _ =>
    .called (.cacheSlab page)
  | .popLoad | .popRead _ | .popCas _ _ => .called .uncacheSlab

/-- The atomic cache the slab cache stands for. -/
def CacheSys.atomic (s : CacheSys) : Atomic (List ℕ) ℕ CacheOp CacheResult where
  state := s.cached
  phase t := (s.pc t).phase

variable {s s' : CacheSys} {kind : ℕ → PageKind (Tag (Option Empty))} {t : ℕ} {k : CacheCall}
  {l : CacheLabel}

/-- The atomic cache when one thread moves on. -/
theorem CacheSys.atomic_goto (s s' : CacheSys) (hpc : s'.pc = Function.update s.pc t k) :
    s'.atomic = Atomic.goto { s.atomic with state := s'.cached } t k.phase := by
  unfold CacheSys.atomic Atomic.goto
  congr 1
  funext t'
  by_cases ht : t' = t
  · subst ht
    simp [hpc]
  · simp [hpc, ht]

/-- A thread moves on and the atomic cache does not notice. -/
theorem CacheSys.runs_quiet (s s' : CacheSys) {k' : CacheCall} (hpc : s.pc t = k)
    (hpc' : s'.pc = Function.update s.pc t k') (hcached : s'.cached = s.cached)
    (hphase : k'.phase = k.phase) :
    Runs CacheSpec s.atomic [] s'.atomic := by
  have hsame : s'.atomic = s.atomic := by
    rw [s.atomic_goto s' hpc', hcached, hphase]
    apply Atomic.goto_self
    simp [CacheSys.atomic, hpc]
  rw [hsame]
  exact .refl _

/-- A call of the thread takes effect and returns. -/
theorem CacheSys.runs_return (s s' : CacheSys) {k' : CacheCall} {op : CacheOp} {r : CacheResult}
    (hpc : s.pc t = k) (hpc' : s'.pc = Function.update s.pc t k') (hcalled : k.phase = .called op)
    (hidle : k'.phase = .idle) (hspec : CacheSpec s.cached op r s'.cached) :
    Runs CacheSpec s.atomic [.ret t r] s'.atomic := by
  rw [s.atomic_goto s' hpc', hidle]
  have hphase : s.atomic.phase t = .called op := by
    simp only [CacheSys.atomic, hpc]
    exact hcalled
  exact runs_commit_ret hphase hspec

/-- The atomic cache follows every step that uses no stale link. -/
theorem CacheInv.runs_step (h : CacheInv s (fun _ : Empty => []) kind) (hguard : LinkFresh s l)
    (hstep : cacheStep s l = some s') : Runs CacheSpec s.atomic (cacheEvents s l) s'.atomic := by
  have hchain := h.chain
  have hspec (hempty : s.slabCache = none) :
      CacheSpec s.cached .uncacheSlab (.uncached none) s.cached := by
    rw [hempty] at hchain
    rw [hchain.eq_nil]
    exact .empty
  cases cacheStep_cases hstep with
  | core => exact .refl _
  | ownerWrite => exact .refl _
  | poolWrite => exact .refl _
  | @cacheSlab t page hpc =>
    rw [s.atomic_goto (s.goto t (.loadLen page)) rfl]
    apply runs_call
    simp [CacheSys.atomic, hpc, CacheCall.phase]
  | @uncacheSlab t hpc =>
    rw [s.atomic_goto (s.goto t .popLoad) rfl]
    apply runs_call
    simp [CacheSys.atomic, hpc, CacheCall.phase]
  | full hpc =>
    simp only [cacheEvents, hpc]
    exact s.runs_quiet _ hpc rfl rfl rfl
  | loadLen hpc =>
    simp only [cacheEvents, hpc]
    exact s.runs_quiet _ hpc rfl rfl rfl
  | divert hpc hcore =>
    simp only [cacheEvents, hpc]
    exact s.runs_return _ hpc rfl rfl rfl (.diverted _ _)
  | loadHead hpc =>
    simp only [cacheEvents, hpc]
    exact s.runs_quiet _ hpc rfl rfl rfl
  | writeLink hpc =>
    simp only [cacheEvents, hpc]
    exact s.runs_quiet _ hpc rfl rfl rfl
  | push hpc hcas =>
    simp only [cacheEvents, hpc, hcas, and_self, if_true]
    exact s.runs_return _ hpc rfl rfl rfl (.cached _ _)
  | pushRetry hpc hfail =>
    simp only [cacheEvents, hpc, if_neg hfail]
    exact s.runs_quiet _ hpc rfl rfl rfl
  | pushCount hpc =>
    simp only [cacheEvents, hpc]
    exact s.runs_quiet _ hpc rfl rfl rfl
  | popEmpty hpc hempty =>
    simp only [cacheEvents, hpc, if_pos hempty]
    exact s.runs_return _ hpc rfl rfl rfl (hspec hempty)
  | popLoad hpc hhead =>
    simp only [cacheEvents, hpc, hhead]
    exact s.runs_quiet _ hpc rfl rfl rfl
  | popRead hpc =>
    simp only [cacheEvents, hpc]
    exact s.runs_quiet _ hpc rfl rfl rfl
  | @pop t head next hpc hcas =>
    simp only [cacheEvents, hpc, hcas, and_self, if_true]
    rw [hcas] at hchain
    obtain ⟨rest, hcached, -⟩ := hchain.exists_cons
    have hspec : CacheSpec s.cached .uncacheSlab (.uncached (some head)) (s.cached.erase head) := by
      rw [hcached, List.erase_cons_head]
      exact .uncached rest head
    exact s.runs_return _ hpc rfl rfl rfl hspec
  | popGone hpc hfail hempty =>
    simp only [cacheEvents, hpc, if_neg hfail, if_pos hempty]
    exact s.runs_return _ hpc rfl rfl rfl (hspec hempty)
  | @popRetry t head actual next spurious hpc hfail hhead =>
    have hsome : s.slabCache ≠ none := by simp [hhead]
    simp only [cacheEvents, hpc, if_neg hfail, if_neg hsome]
    exact s.runs_quiet (s.goto t (.popRead actual)) hpc rfl rfl rfl
  | popCount hpc =>
    simp only [cacheEvents, hpc]
    exact s.runs_quiet _ hpc rfl rfl rfl

/-- The atomic cache follows the runs that use no stale link. -/
theorem cache_runs_of_linkFresh {labels : List CacheLabel}
    (hmeets : Meets cacheStep LinkFresh CacheSys.new labels)
    (hrun : run cacheStep CacheSys.new labels = some s) :
    Runs CacheSpec (.new []) (history cacheStep cacheEvents CacheSys.new labels) s.atomic ∧
      ∃ kind, CacheInv s (fun _ : Empty => []) kind := by
  obtain ⟨o, hruns, hinv, rfl⟩ := runs_of_simulation LinkFresh
    (fun s o => (∃ kind, CacheInv s (fun _ : Empty => []) kind) ∧ o = s.atomic)
    (fun s o label s' hrel hguard hstep => by
      obtain ⟨⟨kind, hinv⟩, rfl⟩ := hrel
      exact ⟨_, hinv.runs_step hguard hstep, hinv.step hguard hstep, rfl⟩)
    ⟨⟨_, cacheInv_new⟩, rfl⟩ hmeets hrun
  exact ⟨hruns, hinv⟩

/-- In every run where no successful pop uses a stale link, the threads see what they could see of
an atomic cache, and the stack in memory holds the pages it holds. -/
theorem cache_linearizable {labels : List CacheLabel}
    (hmeets : Meets cacheStep LinkFresh CacheSys.new labels)
    (hrun : run cacheStep CacheSys.new labels = some s) :
    Runs CacheSpec (.new []) (history cacheStep cacheEvents CacheSys.new labels) s.atomic ∧
      Chain s.word s.slabCache s.atomic.state := by
  obtain ⟨hruns, kind, hinv⟩ := cache_runs_of_linkFresh hmeets hrun
  exact ⟨hruns, hinv.chain⟩

/-- Two pages pass through the cache, and thread 1 uncaches one of them. -/
theorem cache_linearizable_popRun : ∃ s, run cacheStep CacheSys.new
    (twoPagesRun ++ pushRun 0 131072 ++ pushRun 0 65536 ++ popRun 1) = some s ∧
      history cacheStep cacheEvents CacheSys.new
        (twoPagesRun ++ pushRun 0 131072 ++ pushRun 0 65536 ++ popRun 1) =
        [.call 0 (.cacheSlab 131072), .ret 0 .cached, .call 0 (.cacheSlab 65536), .ret 0 .cached,
          .call 1 .uncacheSlab, .ret 1 (.uncached (some 65536))] ∧
      Runs CacheSpec (.new [])
        (history cacheStep cacheEvents CacheSys.new
          (twoPagesRun ++ pushRun 0 131072 ++ pushRun 0 65536 ++ popRun 1))
        s.atomic ∧
      Chain s.word s.slabCache s.atomic.state := by
  have hmeets : Meets cacheStep LinkFresh CacheSys.new
      (twoPagesRun ++ pushRun 0 131072 ++ pushRun 0 65536 ++ popRun 1) := by decide +kernel
  have heval : (run cacheStep CacheSys.new
      (twoPagesRun ++ pushRun 0 131072 ++ pushRun 0 65536 ++
        popRun 1)).isSome = true := by decide +kernel
  obtain ⟨s, hrun⟩ := Option.isSome_iff_exists.mp heval
  exact ⟨s, hrun, by decide +kernel, cache_linearizable hmeets hrun⟩

/-- Only the thread uncaches. -/
def CacheLabel.UncachesBy (t : ℕ) : CacheLabel → Prop
  | .uncacheSlab t' => t' = t
  | _ => True

/-- Whether another thread uncaches can be computed. -/
instance (t : ℕ) (l : CacheLabel) : Decidable (l.UncachesBy t) := by
  unfold CacheLabel.UncachesBy
  split <;> infer_instance

/-- No other thread is in `uncache_slab`; the page this one found on top is still cached, with the
link it read. -/
structure CacheSys.OneConsumer (s : CacheSys) (t : ℕ) : Prop where
  others : ∀ t', t' ≠ t → (s.pc t').phase ≠ .called .uncacheSlab
  found : ∀ head, s.pc t = .popRead head → head ∈ s.cached
  read : ∀ head next, s.pc t = .popCas head next → head ∈ s.cached ∧ s.word head = next

/-- A step that moves no thread and touches no cached page. -/
theorem CacheSys.OneConsumer.keep (h : s.OneConsumer t) (hpc : s'.pc = s.pc)
    (hkeep : ∀ p ∈ s.cached, p ∈ s'.cached ∧ s'.word p = s.word p) : s'.OneConsumer t where
  others := fun t' ht' => hpc ▸ h.others t' ht'
  found := fun head hhead => (hkeep head (h.found head (hpc ▸ hhead))).1
  read := fun head next hhead => by
    obtain ⟨hin, hword⟩ := h.read head next (hpc ▸ hhead)
    obtain ⟨hin', hword'⟩ := hkeep head hin
    exact ⟨hin', hword'.trans hword⟩

/-- A step of one thread: another thread touches no cached page, and the consumer finds what it
says. -/
theorem CacheSys.OneConsumer.move {t' : ℕ} (h : s.OneConsumer t)
    (hpc : s'.pc = Function.update s.pc t' k)
    (hother : t' ≠ t → k.phase ≠ .called .uncacheSlab ∧
      ∀ p ∈ s.cached, p ∈ s'.cached ∧ s'.word p = s.word p)
    (hself : t' = t → (∀ head, k = .popRead head → head ∈ s'.cached) ∧
      ∀ head next, k = .popCas head next → head ∈ s'.cached ∧ s'.word head = next) :
    s'.OneConsumer t := by
  by_cases ht : t' = t
  · subst ht
    obtain ⟨hfound, hread⟩ := hself rfl
    refine ⟨fun t₁ ht₁ => ?_, fun head hhead => hfound head ?_,
      fun head next hhead => hread head next ?_⟩
    · rw [hpc, Function.update_of_ne ht₁]
      exact h.others t₁ ht₁
    · rwa [hpc, Function.update_self] at hhead
    · rwa [hpc, Function.update_self] at hhead
  · obtain ⟨hphase, hkeep⟩ := hother ht
    refine ⟨fun t₁ ht₁ => ?_, fun head hhead => ?_, fun head next hhead => ?_⟩
    · rw [hpc]
      by_cases heq : t₁ = t'
      · subst heq
        rwa [Function.update_self]
      · rw [Function.update_of_ne heq]
        exact h.others t₁ ht₁
    · rw [hpc, Function.update_of_ne (Ne.symm ht)] at hhead
      exact (hkeep head (h.found head hhead)).1
    · rw [hpc, Function.update_of_ne (Ne.symm ht)] at hhead
      obtain ⟨hin, hword⟩ := h.read head next hhead
      obtain ⟨hin', hword'⟩ := hkeep head hin
      exact ⟨hin', hword'.trans hword⟩

/-- Every step keeps the page the consumer found. -/
theorem CacheInv.oneConsumer_step (hinv : CacheInv s (fun _ : Empty => []) kind)
    (h : s.OneConsumer t) (honly : l.UncachesBy t) (hstep : cacheStep s l = some s') :
    s'.OneConsumer t := by
  have hsame : ∀ p ∈ s.cached, p ∈ s.cached ∧ s.word p = s.word p := fun p hp => ⟨hp, rfl⟩
  have hwritten {page : ℕ} {value : Option ℕ} (hpage : page ∉ s.cached) :
      ∀ p ∈ s.cached, p ∈ s.cached ∧ Function.update s.word page value p = s.word p := by
    intro p hp
    refine ⟨hp, Function.update_of_ne ?_ _ _⟩
    rintro rfl
    exact hpage hp
  -- a thread in `uncache_slab` is the consumer
  have hconsumer {t' : ℕ} (hcalled : (s.pc t').phase = .called .uncacheSlab) : t' = t :=
    by_contra fun hne => h.others t' hne hcalled
  have htop {head : ℕ} (hhead : s.slabCache = some head) : head ∈ s.cached := by
    have hchain := hinv.chain
    rw [hhead] at hchain
    obtain ⟨rest, hcached, -⟩ := hchain.exists_cons
    simp [hcached]
  cases cacheStep_cases hstep with
  | core => exact h.keep rfl hsame
  | ownerWrite hpc howned => exact h.keep rfl (hwritten (hinv.notMem_cached howned))
  | poolWrite hmay => exact h.keep rfl (hwritten (hinv.poolMayWrite hmay).1)
  | cacheSlab => exact h.move rfl (fun _ => ⟨by simp [CacheCall.phase], hsame⟩) fun _ =>
    ⟨by simp, by simp⟩
  | uncacheSlab => exact h.move rfl (fun hne => absurd honly hne) fun _ => ⟨by simp, by simp⟩
  | full => exact h.move rfl (fun _ => ⟨by simp [CacheCall.phase], hsame⟩) fun _ =>
    ⟨by simp, by simp⟩
  | loadLen => exact h.move rfl (fun _ => ⟨by simp [CacheCall.phase], hsame⟩) fun _ =>
    ⟨by simp, by simp⟩
  | divert => exact h.move rfl (fun _ => ⟨by simp [CacheCall.phase], hsame⟩) fun _ =>
    ⟨by simp, by simp⟩
  | loadHead => exact h.move rfl (fun _ => ⟨by simp [CacheCall.phase], hsame⟩) fun _ =>
    ⟨by simp, by simp⟩
  | @writeLink t' page current spurious hpc =>
    have hpage : page ∉ s.cached := hinv.notMem_cached (hinv.inHand t' page (by rw [hpc]; rfl))
    exact h.move rfl (fun _ => ⟨by simp [CacheCall.phase], hwritten hpage⟩) fun _ =>
      ⟨by simp, by simp⟩
  | push =>
    exact h.move rfl (fun _ => ⟨by simp [CacheCall.phase],
      fun p hp => ⟨List.mem_cons_of_mem _ hp, rfl⟩⟩) fun _ =>
      ⟨by simp, by simp⟩
  | pushRetry => exact h.move rfl (fun _ => ⟨by simp [CacheCall.phase], hsame⟩) fun _ =>
    ⟨by simp, by simp⟩
  | pushCount => exact h.move rfl (fun _ => ⟨by simp [CacheCall.phase], hsame⟩) fun _ =>
    ⟨by simp, by simp⟩
  | popEmpty => exact h.move rfl (fun _ => ⟨by simp [CacheCall.phase], hsame⟩) fun _ =>
    ⟨by simp, by simp⟩
  | @popLoad t' head spurious hpc hhead =>
    refine h.move rfl (fun hne => absurd (hconsumer (by rw [hpc]; rfl)) hne) fun _ => ⟨?_, by simp⟩
    rintro _ ⟨⟩
    exact htop hhead
  | @popRead t' head spurious hpc =>
    have ht : t' = t := hconsumer (by rw [hpc]; rfl)
    refine h.move rfl (fun hne => absurd ht hne) fun _ => ⟨by simp, ?_⟩
    rintro _ _ ⟨⟩
    exact ⟨h.found head (ht ▸ hpc), rfl⟩
  | pop hpc => exact h.move rfl (fun hne => absurd (hconsumer (by rw [hpc]; rfl)) hne) fun _ =>
    ⟨by simp, by simp⟩
  | popGone => exact h.move rfl (fun _ => ⟨by simp [CacheCall.phase], hsame⟩) fun _ =>
    ⟨by simp, by simp⟩
  | @popRetry t' head actual next spurious hpc hfail hhead =>
    refine h.move rfl (fun hne => absurd (hconsumer (by rw [hpc]; rfl)) hne) fun _ => ⟨?_, by simp⟩
    rintro _ ⟨⟩
    exact htop hhead
  | popCount => exact h.move rfl (fun _ => ⟨by simp [CacheCall.phase], hsame⟩) fun _ =>
    ⟨by simp, by simp⟩

/-- The consumer's exchange still finds the link it read. -/
theorem CacheSys.OneConsumer.linkFresh (h : s.OneConsumer t) (l : CacheLabel) : LinkFresh s l := by
  cases l with
  | advance t' spurious =>
    simp only [LinkFresh]
    split
    case h_1 head next hpc =>
      intro _ _
      have ht : t' = t := by_contra fun hne => h.others t' hne (by rw [hpc]; rfl)
      exact (h.read head next (ht ▸ hpc)).2
    case h_2 => trivial
  | core | cacheSlab | uncacheSlab | ownerWrite | poolWrite => trivial

/-- When one thread uncaches, no link goes stale, whatever any number of threads cache meanwhile. -/
theorem linkFresh_of_oneConsumer {labels : List CacheLabel} (honly : ∀ l ∈ labels, l.UncachesBy t) :
    Meets cacheStep LinkFresh CacheSys.new labels := by
  have hlabels : Meets cacheStep (fun _ l => l.UncachesBy t) CacheSys.new labels :=
    meets_of_forall_split fun done l rest hsplit _ _ => honly l (by simp [hsplit])
  have hboth : Meets cacheStep (fun s l => LinkFresh s l ∧ l.UncachesBy t) CacheSys.new labels := by
    apply hlabels.mono_of_invariant (I := fun s => (∃ kind, CacheInv s (fun _ : Empty => []) kind) ∧
      s.OneConsumer t)
    · rintro s l ⟨-, hone⟩ hl
      exact ⟨hone.linkFresh l, hl⟩
    · rintro s l s' ⟨⟨kind, hinv⟩, hone⟩ ⟨hfresh, hl⟩ hstep
      exact ⟨hinv.step hfresh hstep, hinv.oneConsumer_step hone hl hstep⟩
    · exact ⟨⟨_, cacheInv_new⟩, by simp [CacheSys.new, CacheCall.phase], by simp [CacheSys.new],
        by simp [CacheSys.new]⟩
  exact hboth.mono fun _ _ hguard => hguard.1

/-- In every interleaving in which one thread uncaches, whatever others cache, the threads see what
they could see of an atomic cache, the stack in memory holds the pages it holds, and pages are held
exclusively. -/
theorem cache_linearizable_of_oneConsumer {labels : List CacheLabel}
    (honly : ∀ l ∈ labels, l.UncachesBy t) (hrun : run cacheStep CacheSys.new labels = some s) :
    Runs CacheSpec (.new []) (history cacheStep cacheEvents CacheSys.new labels) s.atomic ∧
      Chain s.word s.slabCache s.atomic.state ∧ s.Exclusive := by
  obtain ⟨hruns, kind, hinv⟩ := cache_runs_of_linkFresh (linkFresh_of_oneConsumer honly) hrun
  exact ⟨hruns, hinv.chain, hinv.exclusive⟩

/-- Thread 0 caches a page between the read of thread 1 and its exchange, which therefore fails. -/
def retryRun : List CacheLabel :=
  twoPagesRun ++ pushRun 0 131072 ++ [.uncacheSlab 1, .advance 1 false,
    .advance 1 false] ++ pushRun 0 65536 ++ List.replicate 4 (.advance 1 false)

/-- The retry of thread 1 gets the page cached last. -/
theorem cache_linearizable_retryRun : ∃ s, run cacheStep CacheSys.new retryRun = some s ∧
    history cacheStep cacheEvents CacheSys.new retryRun =
      [.call 0 (.cacheSlab 131072), .ret 0 .cached, .call 1 .uncacheSlab,
        .call 0 (.cacheSlab 65536), .ret 0 .cached, .ret 1 (.uncached (some 65536))] ∧
    Runs CacheSpec (.new []) (history cacheStep cacheEvents CacheSys.new retryRun) s.atomic ∧
      Chain s.word s.slabCache s.atomic.state ∧ s.Exclusive := by
  have honly : ∀ l ∈ retryRun, l.UncachesBy 1 := by decide +kernel
  have heval : (run cacheStep CacheSys.new retryRun).isSome = true := by decide +kernel
  obtain ⟨s, hrun⟩ := Option.isSome_iff_exists.mp heval
  exact ⟨s, hrun, by decide +kernel, cache_linearizable_of_oneConsumer honly hrun⟩

end ClMalloc
