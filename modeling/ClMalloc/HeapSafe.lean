import ClMalloc.HeapActions

/-!
# The heap programs are safe

Every action of `alloc`, `dealloc` and `drop` succeeds in any state its thread's view agrees
with, so whatever other threads did since the last action, and leaves a view the rest of the
program needs. The programs never run out of fuel and never meet a null back link.
-/

namespace ClMalloc

open Threads Intrusive Placement

variable {ctx : HeapContext} {views : ℕ → HeapView} {h c slab ptr : ℕ} {v : HeapView}
  {a : Allocation} {layout : Layout}

/-- An action is safe if it succeeds in every state that agrees with the view and leaves
agreement. -/
theorem safe_act {α : Type} {f : HeapSys → Except HeapFault (HeapSys × α)}
    (post : α → HeapView → Prop)
    (hstep : ∀ (ctx : HeapContext) (s : HeapSys) (views : ℕ → HeapView) lists roster allocs,
      s.Agrees ctx (Function.update views h v) lists roster allocs none →
        ∃ s' r v' lists' roster' allocs', f s = .ok (s', r) ∧
          s'.Agrees ctx (Function.update views h v') lists' roster' allocs' none ∧ post r v') :
    (atomically f : HeapProg α).Safe heapRules h post v := by
  refine safe_atomically fun ctx s views hholds hview => ?_
  obtain ⟨lists, roster, allocs, hagrees⟩ := hholds
  have hfocus : Function.update views h v = views := by rw [← hview, Function.update_eq_self]
  obtain ⟨s', r, v', lists', roster', allocs', heq, hagrees', hpost⟩ :=
    hstep ctx s views lists roster allocs (by rwa [hfocus])
  exact ⟨s', r, v', heq, ⟨lists', roster', allocs', hagrees'⟩, hpost⟩

/-- A change that may fail is safe if it succeeds in every state that agrees with the view and
leaves agreement. -/
theorem safe_try {f : HeapSys → Except HeapFault HeapSys} (post : Unit → HeapView → Prop)
    (hstep : ∀ (ctx : HeapContext) (s : HeapSys) (views : ℕ → HeapView) lists roster allocs,
      s.Agrees ctx (Function.update views h v) lists roster allocs none →
        ∃ s' v' lists' roster' allocs', f s = .ok s' ∧
          s'.Agrees ctx (Function.update views h v') lists' roster' allocs' none ∧ post () v') :
    (attempt f : HeapProg Unit).Safe heapRules h post v := by
  refine safe_act _ fun ctx s views lists roster allocs hagrees => ?_
  obtain ⟨s', v', lists', roster', allocs', heq, hagrees', hpost⟩ :=
    hstep ctx s views lists roster allocs hagrees
  exact ⟨s', (), v', lists', roster', allocs', by rw [heq]; rfl, hagrees', hpost⟩

/-- A change is safe if it leaves agreement. -/
theorem safe_put {f : HeapSys → HeapSys} (post : Unit → HeapView → Prop)
    (hstep : ∀ (ctx : HeapContext) (s : HeapSys) (views : ℕ → HeapView) lists roster allocs,
      s.Agrees ctx (Function.update views h v) lists roster allocs none →
        ∃ v' lists' roster' allocs', (f s).Agrees ctx
          (Function.update views h v') lists' roster' allocs' none ∧ post () v') :
    (change f : HeapProg Unit).Safe heapRules h post v := by
  refine safe_act _ fun ctx s views lists roster allocs hagrees => ?_
  obtain ⟨v', lists', roster', allocs', hagrees', hpost⟩ :=
    hstep ctx s views lists roster allocs hagrees
  exact ⟨f s, (), v', lists', roster', allocs', rfl, hagrees', hpost⟩

/-- Reading is safe, and what is read is what the view says of every state. -/
theorem safe_read {α : Type} {f : HeapSys → α} (post : α → HeapView → Prop)
    (hpost : ∀ (ctx : HeapContext) (s : HeapSys) (views : ℕ → HeapView) lists roster allocs,
      s.Agrees ctx (Function.update views h v) lists roster allocs none → post (f s) v) :
    (look f : HeapProg α).Safe heapRules h post v :=
  safe_act _ fun ctx s views lists roster allocs hagrees =>
    ⟨s, f s, v, lists, roster, allocs, rfl, hagrees, hpost ctx s views lists roster allocs hagrees⟩

/-- Counting is safe. -/
theorem safe_count (post : Unit → HeapView → Prop) (h' : ℕ) (f : HeapMetrics → HeapMetrics)
    (hpost : post () v) :
    (change (·.count h' f) : HeapProg Unit).Safe heapRules h post v :=
  safe_put _ fun _ _ _ lists roster allocs hagrees =>
    ⟨v, lists, roster, allocs, hagrees.count h' f, hpost⟩

/-- `cache_slab` of the one slab in hand is safe. -/
theorem safe_cacheSlab (post : Unit → HeapView → Prop) {rest : List ℕ}
    (hhand : v.hand = slab :: rest) (hfree : (v.header slab).isFullyFree = true)
    (hpost : post () (v.release slab)) :
    (attempt (·.cacheSlab slab) : HeapProg Unit).Safe heapRules h post v := by
  refine safe_try _ fun ctx s views lists roster allocs hagrees => ?_
  obtain ⟨pool, lists', hcache, hagrees'⟩ :=
    hagrees.cacheSlab (show slab ∈ v.hand by simp [hhand]) hfree
  exact ⟨_, _, lists', roster, allocs, hcache, hagrees', hpost⟩

/-- Reading the active slab. -/
theorem safe_readBin (post : Option ℕ → HeapView → Prop) (hpost : post (v.bins c) v) :
    (look fun s => (s.heap h).bins c : HeapProg (Option ℕ)).Safe heapRules h post v := by
  refine safe_read _ fun ctx s views lists roster allocs hagrees => ?_
  rw [hagrees.own.bins]
  exact hpost

/-- The scan of the slabs left in the full queue is safe. -/
theorem HeapProg.safe_scanLoop {fuel : ℕ} {before rest : List ℕ} (hcalm : v.Calm)
    (hready : v.Ready c) (hqueue : v.queues .full c = before ++ rest) (hfuel : rest.length ≤ fuel) :
    (HeapProg.scanLoop h c fuel rest.head?).Safe heapRules h
      (fun _ v' => v'.Calm ∧ v'.Ready c) v := by
  induction fuel generalizing v before rest with
  | zero =>
    have hnil := List.length_eq_zero_iff.mp (Nat.le_zero.mp hfuel)
    subst hnil
    exact Prog.Safe.pure ⟨hcalm, hready⟩
  | succ fuel ih =>
    cases rest with
    | nil => exact Prog.Safe.pure ⟨hcalm, hready⟩
    | cons slab rest =>
      rw [List.head?_cons, HeapProg.scanLoop]
      refine Prog.Safe.bind (safe_read (fun r v' => r = rest.head? ∧ v' = v) ?_) ?_
      · intro ctx s views lists roster allocs hagrees
        have hlinked : DList s.links _ (lists (.queue ⟨h, .full, c⟩)) :=
          hagrees.inv.linked ⟨h, .full, c⟩
        rw [hagrees.own.queues, hqueue] at hlinked
        exact ⟨hlinked.next_eq, rfl⟩
      rintro current v₁ ⟨rfl, rfl⟩
      refine Prog.Safe.bind (safe_read (fun _ v' => v' = v₁) fun _ _ _ _ _ _ _ => rfl) ?_
      rintro pending v₂ rfl
      refine Prog.Safe.bind (safe_act (fun free v' => v'.phase = .alive ∧
        v'.pending = [] ∧ v'.Ready c ∧
        (∃ before, v'.queues .full c = before ++ rest) ∧
        (free = true → v'.hand = [slab] ∧ (v'.header slab).isFullyFree = true) ∧
          (free = false → v'.hand = [])) ?_) ?_
      · intro ctx s views lists roster allocs hagrees
        obtain ⟨s', free, v', lists', heq, hagrees', hpost⟩ :=
          hagrees.scanSlab hcalm hready hqueue pending
        exact ⟨s', free, v', lists', roster, allocs, heq, hagrees', hpost⟩
      rintro free v₃ ⟨halive, hpending, hready₃, ⟨before', hqueue₃⟩, hfree, hkept⟩
      have hfuel' : rest.length ≤ fuel := by simpa using hfuel
      cases free with
      | true =>
        obtain ⟨hhand, hfull⟩ := hfree rfl
        refine Prog.Safe.bind (safe_cacheSlab (fun _ v' => v' = v₃.release slab) hhand hfull rfl) ?_
        rintro - v₄ rfl
        exact ih ⟨halive, by simp [HeapView.release, hhand], hpending⟩ hready₃ hqueue₃ hfuel'
      | false => exact ih ⟨halive, hkept rfl, hpending⟩ hready₃ hqueue₃ hfuel'

/-- `scan_full_list` is safe. -/
theorem HeapProg.safe_scanFullList (hcalm : v.Calm) (hready : v.Ready c) :
    (HeapProg.scanFullList h c).Safe heapRules h (fun _ v' => v'.Calm ∧ v'.Ready c) v := by
  refine Prog.Safe.bind (safe_read (fun r v' => (v.queues .full c).length ≤ r.1 ∧
    r.2 = (v.queues .full c).head? ∧ v' = v) ?_) ?_
  · intro ctx s views lists roster allocs hagrees
    have hqueues := hagrees.own.queues .full c
    have hlinked : DList s.links _ (lists (.queue ⟨h, .full, c⟩)) :=
      hagrees.inv.linked ⟨h, .full, c⟩
    have hlen := hagrees.inv.queue_length_le ⟨h, .full, c⟩
    rw [hqueues] at hlinked hlen
    exact ⟨hlen, hlinked.read_eq, rfl⟩
  rintro ⟨fuel, current⟩ v₁ ⟨hfuel, hcurrent, rfl⟩
  dsimp only at hfuel hcurrent ⊢
  rw [hcurrent]
  exact HeapProg.safe_scanLoop hcalm hready (List.nil_append _).symm hfuel

/-- `try_partial` behind an empty bin is safe. -/
theorem HeapProg.safe_tryPartial (hcalm : v.Calm) (hempty : v.bins c = none) :
    (atomically fun s => .ok (s.tryPartial h c) : HeapProg Bool).Safe heapRules h
      (fun found v' => v'.Calm ∧
      (found = true → ∃ slab, v'.bins c = some slab ∧ 0 < (v'.header slab).freeCount) ∧
        (found = false → v' = v)) v := by
  refine safe_act _ fun ctx s views lists roster allocs hagrees => ?_
  obtain ⟨s', found, v', lists', heq, hagrees', hpost⟩ := hagrees.tryPartial hcalm hempty
  exact ⟨s', found, v', lists', roster, allocs, by rw [heq], hagrees', hpost⟩

/-- The heap takes over the first slab in hand: it claims, drains and counts it, and goes on. -/
theorem HeapProg.safe_takeOver {α : Type} {post : α → HeapView → Prop} {k : HeapProg α}
    {rest : List ℕ} {result : Option ℕ} (hadopting : v.Adopting layout c result)
    (hhand : v.hand = slab :: rest) (hclass : (v.header slab).sizeClassIndex = c)
    (hrest : ∀ v' : HeapView, v'.Adopting layout c result → v'.hand = slab :: rest →
      (v'.header slab).sizeClassIndex = c → (v'.header slab).heapId = v'.id →
      v'.next slab = none ∧ v'.prev slab = none →
      (∀ p, p ≠ slab → v'.next p = v.next p ∧ v'.header p = v.header p) →
        k.Safe heapRules h post v') :
    (do
      change (·.claim h slab)
      attempt (·.drainRemote slab)
      change fun s => { s with pool := s.pool.incAdoptCount c }
      k : HeapProg α).Safe heapRules h post v := by
  have hphase : v.phase ≠ .gone := by simp [hadopting.alive]
  generalize hclaimed : { v.learn slab { v.header slab with heapId := v.id } with
    next := Function.update v.next slab none, prev := Function.update v.prev slab none } = v₁
  have hhand₁ : v₁.hand = slab :: rest := by simpa [← hclaimed, HeapView.learn] using hhand
  have hslab₁ : slab ∈ v₁.hand := by simp [hhand₁]
  refine Prog.Safe.bind (safe_put (fun _ v' => v₁ = v') ?_) ?_
  · intro ctx s views lists roster allocs hagrees
    rw [← hclaimed]
    exact ⟨_, lists, roster, allocs, hagrees.claim (by simp [hhand]) hphase, rfl⟩
  rintro - _ rfl
  refine Prog.Safe.bind (safe_try (fun _ v' => ∃ header : SlabHeader, v' = v₁.learn slab header ∧
    header.sizeClassIndex = (v₁.header slab).sizeClassIndex ∧
      header.heapId = (v₁.header slab).heapId) ?_) ?_
  · intro ctx s views lists roster allocs hagrees
    obtain ⟨next, header, heq, hagrees', hclass', hid', -⟩ :=
      hagrees.drainRemote (.inr (.inr hslab₁))
    refine ⟨_, _, lists, roster, allocs, heq,
      hagrees'.settle (.inr (.inr hslab₁)) fun queue c' hin => ?_, header, rfl, hclass', hid'⟩
    exact absurd hin (hagrees.notMem_queue (.inr hslab₁) queue c')
  rintro - v₂ ⟨header, hdrained, hclass₂, hid₂⟩
  refine Prog.Safe.bind (safe_put (fun _ v' => v₂ = v') ?_) ?_
  · intro ctx s views lists roster allocs hagrees
    exact ⟨v₂, lists, roster, allocs, hagrees.incAdoptCount c, rfl⟩
  rintro - _ rfl
  have hheader₂ : v₂.header slab = header.ownPart := by simp [hdrained, HeapView.learn]
  refine hrest v₂ ⟨?_, fun hnone => ?_, ?_⟩ ?_ ?_ ?_ ?_ fun p hp => ?_
  · simpa [hdrained, ← hclaimed, HeapView.learn] using hadopting.alive
  · simpa [hdrained, ← hclaimed, HeapView.learn] using hadopting.empty hnone
  · simpa [hdrained, ← hclaimed, HeapView.learn] using hadopting.pending
  · simpa [hdrained, HeapView.learn] using hhand₁
  · rw [hheader₂, SlabHeader.ownPart_sizeClassIndex, hclass₂]
    simpa [← hclaimed, HeapView.learn] using hclass
  · rw [hheader₂, SlabHeader.ownPart_heapId, hid₂]
    simp [hdrained, ← hclaimed, HeapView.learn]
  · simp [hdrained, ← hclaimed, HeapView.learn]
  · simp [hdrained, ← hclaimed, HeapView.learn, hp]

/-- The adoption of the slabs in hand is safe. -/
theorem HeapProg.safe_adoptLoop {fuel : ℕ} {rest : List ℕ} {current result : Option ℕ}
    (hadopting : v.Adopting layout c result) (hlayout : classIndex layout = some c)
    (hsize : 1 ≤ layout.size) (hhand : v.hand = rest) (hchain : Chain v.next current rest)
    (hclass : ∀ p ∈ rest, (v.header p).sizeClassIndex = c) (hfuel : rest.length ≤ fuel) :
    (HeapProg.adoptLoop h c fuel current result).Safe heapRules h
      (fun result v' => v'.Adopting layout c result ∧ v'.hand = []) v := by
  induction fuel generalizing v rest current result with
  | zero =>
    have hnil := List.length_eq_zero_iff.mp (Nat.le_zero.mp hfuel)
    subst hnil
    rw [show current = none from hchain]
    exact Prog.Safe.pure ⟨hadopting, hhand⟩
  | succ fuel ih =>
    cases rest with
    | nil =>
      rw [show current = none from hchain]
      exact Prog.Safe.pure ⟨hadopting, hhand⟩
    | cons slab rest =>
      have hnodup := List.nodup_cons.mp hchain.nodup
      obtain ⟨rfl, hrest⟩ := hchain
      have hne {p : ℕ} (hp : p ∈ rest) : p ≠ slab := by
        rintro rfl
        exact hnodup.1 hp
      have hfuel' : rest.length ≤ fuel := by simpa using hfuel
      rw [HeapProg.adoptLoop]
      refine Prog.Safe.bind (safe_read (fun r v' => r = v.next slab ∧ v = v') ?_) ?_
      · intro ctx s views lists roster allocs hagrees
        exact ⟨(hagrees.own.links slab (by simp [hhand])).1, rfl⟩
      rintro next _ ⟨rfl, rfl⟩
      refine HeapProg.safe_takeOver hadopting hhand (hclass slab List.mem_cons_self) ?_
      intro v₁ hadopting₁ hhand₁ hclass₁ hid₁ hnull₁ hothers₁
      have hchain₁ : Chain v₁.next (v.next slab) rest :=
        hrest.congr fun p hp => (hothers₁ p (hne hp)).1
      have hclasses₁ : ∀ p ∈ rest, (v₁.header p).sizeClassIndex = c := fun p hp => by
        rw [(hothers₁ p (hne hp)).2]
        exact hclass p (List.mem_cons_of_mem _ hp)
      refine Prog.Safe.bind (safe_read
        (fun free v' => free = (v₁.header slab).isFullyFree ∧ v₁ = v') ?_) ?_
      · intro ctx s views lists roster allocs hagrees
        have hheader := hagrees.own.header slab (.inr (.inr (by simp [hhand₁])))
        exact ⟨by rw [← hheader]; rfl, rfl⟩
      rintro free _ ⟨rfl, rfl⟩
      by_cases hfree : (v₁.header slab).isFullyFree = true
      · rw [if_pos hfree]
        refine Prog.Safe.bind (safe_cacheSlab (fun _ v' => v' = v₁.release slab) hhand₁ hfree rfl)
          ?_
        rintro - _ rfl
        refine ih ⟨hadopting₁.alive, hadopting₁.empty, hadopting₁.pending⟩
          ?_ hchain₁ hclasses₁ hfuel'
        simp [HeapView.release, hhand₁]
      · rw [if_neg hfree]
        refine Prog.Safe.bind (safe_act
          (fun result v' => v'.Adopting layout c result ∧ v'.hand = rest ∧
          v'.next = v₁.next ∧ ∀ p, p ≠ slab → v'.header p = v₁.header p) ?_) ?_
        · intro ctx s views lists roster allocs hagrees
          obtain ⟨s', result', v', lists', allocs', heq, hagrees', hpost⟩ :=
            hagrees.useAdopted hadopting₁ hlayout hsize
            hhand₁ hclass₁ hid₁ (by simpa using hfree) hnull₁
          exact ⟨s', result', v', lists', roster, allocs', by rw [heq], hagrees', hpost⟩
        rintro result' v₂ ⟨hadopting₂, hhand₂, hnext₂, hheader₂⟩
        refine ih hadopting₂ hhand₂ (by rw [hnext₂]; exact hchain₁) (fun p hp => ?_) hfuel'
        rw [hheader₂ p (hne hp)]
        exact hclasses₁ p hp

/-- `try_adopt` behind an empty bin is safe. -/
theorem HeapProg.safe_tryAdopt (hcalm : v.Calm) (hempty : v.bins c = none) (hrange : c < numClasses)
    (hlayout : classIndex layout = some c) (hsize : 1 ≤ layout.size) :
    (HeapProg.tryAdopt h c).Safe heapRules h (fun result v' => v'.Adopting layout c result ∧
      v'.hand = []) v := by
  refine Prog.Safe.bind (safe_act (fun chain v' => v'.Adopting layout c none ∧ v'.hand = chain ∧
    Chain v'.next chain.head? chain ∧ ∀ p ∈ chain, (v'.header p).sizeClassIndex = c) ?_) ?_
  · intro ctx s views lists roster allocs hagrees
    obtain ⟨v', lists', hagrees', hphase, hbins, hpending, hhand, hchain, hclass⟩ :=
      hagrees.adoptAll hrange
    refine ⟨_, s.pool.abandoned c, v', lists', roster, allocs, rfl, hagrees',
      ⟨hphase.trans hcalm.alive, fun _ => ?_, ?_⟩, ?_, hchain, hclass⟩
    · rw [hbins, hempty]
    · rw [hpending, hcalm.pending, withResult_none]
    · rw [hhand, hcalm.hand, List.append_nil]
  rintro chain v₁ ⟨hadopting, hhand, hchain, hclass⟩
  exact HeapProg.safe_adoptLoop hadopting hlayout hsize hhand hchain hclass le_rfl

/-- A request that an adopted slab served. -/
theorem HeapView.Adopting.served {result : Option ℕ} (hadopting : v.Adopting layout c result)
    (hhand : v.hand = []) :
    v.Served layout result :=
  ⟨hadopting.alive, hhand, hadopting.pending⟩

/-- The pool's cache gives its first page. -/
theorem Quiet.uncacheSlab {pool : PagePool} (hquiet : Quiet pool) {page : ℕ} {rest : List ℕ}
    (hcache : pool.slabCache = page :: rest) : pool.Gives (pool.uncacheSlab 0) (some page) := by
  have htake : pool.takeSlab none = some (pool.uncacheSlab 0, some page) := by
    simp only [PagePool.takeSlab, hcache]
  obtain ⟨hquiet', hinUse, habandoned, hlarge⟩ := hquiet.takeSlab htake
  exact ⟨hquiet', hinUse, habandoned, hlarge⟩

/-- `request_slab` behind an empty bin is safe. -/
theorem HeapProg.safe_requestSlab (hcalm : v.Calm) (hempty : v.bins c = none)
    (hrange : c < numClasses) (hlayout : classIndex layout = some c) (hsize : 1 ≤ layout.size) :
    (HeapProg.requestSlab h c).Safe heapRules h (fun result v' => v'.Served layout result) v := by
  refine Prog.Safe.bind (HeapProg.safe_tryAdopt hcalm hempty hrange hlayout hsize) ?_
  rintro result v₁ ⟨hadopting, hhand⟩
  cases result with
  | some ptr =>
    refine Prog.Safe.bind (safe_count (fun _ v' => v₁ = v') h _ rfl) ?_
    rintro - _ rfl
    exact Prog.Safe.pure (hadopting.served hhand)
  | none =>
    have hcalm₁ : v₁.Calm := ⟨hadopting.alive, hhand, hadopting.pending⟩
    have hempty₁ := hadopting.empty rfl
    refine Prog.Safe.bind (safe_act (fun found v' =>
      (∀ result, found = some result → v'.Served layout result) ∧ (found = none → v₁ = v')) ?_) ?_
    · intro ctx s views lists roster allocs hagrees
      simp only [HeapSys.openCached]
      cases hcache : s.pool.slabCache with
      | nil => exact ⟨_, _, v₁, lists, roster, allocs, rfl, hagrees, by simp, fun _ => rfl⟩
      | cons page rest =>
        obtain ⟨s', ptr, v', lists', allocs', hopen, hagrees', hserved⟩ :=
          hagrees.openSlab hcalm₁ hempty₁ hrange
          hlayout hsize (hagrees.inv.quiet.uncacheSlab hcache)
        refine ⟨s', some (some ptr), v', lists', roster, allocs', by simp only [hopen], hagrees',
          fun result heq => ?_, by simp⟩
        cases heq
        exact hserved
    rintro found v₂ ⟨hserved, hkept⟩
    cases found with
    | some result => exact Prog.Safe.pure (hserved result rfl)
    | none =>
      obtain rfl := hkept rfl
      refine safe_asking fun ctx s views reply hholds hview => ?_
      obtain ⟨lists, roster, allocs, hagrees⟩ := hholds
      have hfocus : Function.update views h v₁ = views := by rw [← hview, Function.update_eq_self]
      rw [← hfocus] at hagrees
      unfold HeapSys.openFresh
      cases halloc : s.pool.core.allocSlabToEnd 0 reply with
      | none =>
        refine .inr ⟨.badReply, rfl, rfl, ?_⟩
        rintro rfl
        obtain ⟨kind, hinv⟩ := hagrees.inv.quiet.inv
        have hsome := hinv.core.allocSlabToEnd_isSome (hagrees.inv.quiet.idle 0)
          (show ∀ base, (none : Option ℕ) = some base → _ by simp)
        simp [halloc] at hsome
      | some found =>
        obtain ⟨core, page⟩ := found
        have hgives := hagrees.inv.quiet.allocSlab halloc
        cases page with
        | none =>
          refine .inl ⟨_, none, v₁, rfl, ⟨lists, roster, allocs, hagrees.takeSlab_none hgives⟩, ?_⟩
          exact ⟨hcalm₁.alive, hcalm₁.hand, hcalm₁.pending⟩
        | some page =>
          obtain ⟨s', ptr, v', lists', allocs', hopen, hagrees', hserved⟩ :=
            hagrees.openSlab hcalm₁ hempty₁ hrange
            hlayout hsize hgives
          exact .inl ⟨s', some ptr, v', by simp only [hopen],
            ⟨lists', roster, allocs', hagrees'⟩, hserved⟩

end ClMalloc
