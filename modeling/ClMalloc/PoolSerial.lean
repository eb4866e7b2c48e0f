import ClMalloc.PoolOps
import ClMalloc.PoolReclaim

/-!
# The pool used by one caller at a time

Without interleaving a pool call is a function on the data behind the lock, and a purge is
its two sections in a row. Between calls the dirty list never exceeds the high-water mark,
so every purge starts one page above it. A purge moves the head of the dirty list to the
clean list and restores every count of outstanding pages.
-/

namespace ClMalloc

/-- `purge_excess`, with the pages it passes to the page allocator's `purge`, in order. -/
def purgeExcessLocked (st : PoolState) : Option (PoolState × List ℕ) :=
  match purgeTakeLocked st with
  | some (st, buf) =>
    match purgeReturnLocked st buf with
    | some st => some (st, buf)
    | none => none
  | none => none

/-- A call of the pool, with the page allocator's answer should it be asked for a segment. -/
inductive PoolOp
  | allocSlab (reply : Option ℕ)
  | deallocSlab (page : ℕ)
  deriving DecidableEq

/-- One whole call; only a page that was handed out is given back. -/
def poolOpStep (c : PoolCore) : PoolOp → Option PoolCore
  | .allocSlab reply => (c.allocSlabToEnd 0 reply).map Prod.fst
  | .deallocSlab page => if page ∈ c.owned 0 then c.deallocSlabToEnd 0 page else none

variable {T : Type} {st st' : PoolState} {kind : ℕ → PageKind T} {buf : List ℕ}

/-- The first purge section takes pages from the head of the dirty list until it is at the low-water
mark or the buffer is full. -/
theorem purgeTakeLoop_taken {room : ℕ} {buf' : List ℕ}
    (hlen : st.dirtyList.len = st.dirtyList.pages.length)
    (h : purgeTakeLoop room st buf = some (st', buf')) :
    ∃ taken, buf' = buf ++ taken ∧ st.dirtyList.pages = taken ++ st'.dirtyList.pages ∧
      st'.cleanList = st.cleanList ∧ taken.length =
        min room (st.dirtyList.len - purgeLowWater) := by
  induction room generalizing st buf with
  | zero =>
    simp only [purgeTakeLoop, Option.some.injEq, Prod.mk.injEq] at h
    obtain ⟨rfl, rfl⟩ := h
    exact ⟨[], by simp, by simp, rfl, by simp⟩
  | succ room ih =>
    rw [purgeTakeLoop] at h
    split at h
    · rename_i hlow
      cases hd : st.dirtyList.pages with
      | nil =>
        rw [hlen, hd] at hlow
        exact absurd hlow (Nat.not_lt_zero _)
      | cons slab rest =>
        simp only [PageFreeList.pop, hd] at h
        split at h <;> try contradiction
        rw [hd, List.length_cons] at hlen
        obtain ⟨taken, hbuf, hpages, hclean, htaken⟩ :=
          ih (by simp [PoolState.incOutstanding, hlen]) h
        refine ⟨slab :: taken, by simp [hbuf], ?_, hclean, ?_⟩
        · rw [List.cons_append, ← hpages]
          rfl
        · simp only [PoolState.incOutstanding, List.length_cons] at htaken ⊢
          omega
    · obtain ⟨rfl, rfl⟩ := Prod.mk.inj (Option.some.inj h)
      exact ⟨[], by simp, by simp, rfl, by simp; omega⟩

/-- The second purge section pushes the buffer onto the clean list. -/
theorem purgeReturnLoop_lists (h : purgeReturnLoop buf st = some st') :
    st'.dirtyList = st.dirtyList ∧ st'.cleanList.pages = buf.reverse ++ st.cleanList.pages := by
  induction buf generalizing st with
  | nil =>
    obtain rfl := Option.some.inj h
    exact ⟨rfl, rfl⟩
  | cons slab rest ih =>
    rw [purgeReturnLoop] at h
    split at h <;> try contradiction
    obtain ⟨hdirty, hclean⟩ := ih h
    refine ⟨hdirty, ?_⟩
    rw [hclean, List.reverse_cons, List.append_assoc]
    rfl

/-- What a purge moves: the purged pages leave the head of the dirty list and are on the clean list
once, the rest of the dirty list is as it was, and so is every count of outstanding pages. -/
structure PurgeMoved (before after : PoolState) (purged : List ℕ) : Prop where
  removed : before.dirtyList.pages = purged ++ after.dirtyList.pages
  once : purged.Nodup
  clean : ∀ p ∈ purged, after.cleanList.pages.count p = 1
  outstanding : after.segOutstanding = before.segOutstanding

/-- What `purge_excess` is for: besides, no more dirty pages are left than the low-water mark
allows. -/
structure PurgedDown (before after : PoolState) (purged : List ℕ) :
    Prop extends PurgeMoved before after purged where
  low : after.dirtyList.len ≤ purgeLowWater

/-- Two accountings of one table with the same pages out have the same counts. -/
theorem PoolInv.segOutstanding_eq {T' : Type} {kind' : ℕ → PageKind T'} (h : PoolInv st kind)
    (h' : PoolInv st' kind') (htable : SameTable st st')
    (hout : ∀ p, (kind' p).isOut = (kind p).isOut) :
    st'.segOutstanding = st.segOutstanding := by
  funext i
  by_cases hi : i < st.segmentCount
  · rw [h.outstanding i hi, h'.outstanding i (htable.count ▸ hi), htable.segments]
    exact Intrusive.countP_eq_of_agree fun p _ => hout p
  · rw [(h.unused i (Nat.not_lt.mp hi)).2, (h'.unused i (htable.count ▸ Nat.not_lt.mp hi)).2]

/-- A purge ends, moves just the pages it purges, and takes as many as fit the buffer above the
low-water mark. -/
theorem purgeExcessLocked_spec (h : PoolInv st kind) (tag : T) :
    ∃ st' purged, purgeExcessLocked st = some (st', purged) ∧ PurgeMoved st st' purged ∧
      purged.length = min purgeBatch (st.dirtyList.len - purgeLowWater) ∧ SameTable st st' ∧
      PoolInv st' (setKind kind purged .clean) := by
  obtain ⟨st₁, purged, htake, hnodup, hdirty, hinv₁, htable₁⟩ := purgeTakeLocked_spec h tag
  obtain ⟨st', hreturn, hinv, htable⟩ := purgeReturnLocked_spec hinv₁ purged hnodup fun p hp =>
    ⟨tag, by simp [setKind, hp]⟩
  have hlen : st.countLock.dirtyList.len = st.countLock.dirtyList.pages.length := h.dirty_len
  have hloop : purgeTakeLoop purgeBatch st.countLock [] = some (st₁, purged) := htake
  obtain ⟨taken, hbuf, hpages, hclean, hlength⟩ := purgeTakeLoop_taken hlen hloop
  obtain ⟨hdirty', hclean'⟩ := purgeReturnLoop_lists hreturn
  rw [List.nil_append] at hbuf
  subst hbuf
  have htables : SameTable st st' := ⟨htable.segments.trans htable₁.segments,
    htable.count.trans htable₁.count,
    htable.cursor.trans htable₁.cursor, htable.rangeEnd.trans htable₁.rangeEnd⟩
  have hkind : setKind (setKind kind purged (.out tag)) purged .clean =
      setKind kind purged .clean := by
    funext p
    by_cases hp : p ∈ purged <;> simp [setKind, hp]
  rw [hkind] at hinv
  refine ⟨st', purged, ?_, ⟨?_, hnodup, ?_, ?_⟩, hlength, htables, hinv⟩
  · rw [purgeExcessLocked, htake]
    simp only [hreturn]
  · rw [hdirty']
    exact hpages
  · intro p hp
    apply List.count_eq_one_of_mem hinv.clean_nodup
    rw [hclean']
    exact List.mem_append_left _ (List.mem_reverse.mpr hp)
  · apply h.segOutstanding_eq hinv htables
    intro p
    by_cases hp : p ∈ purged
    · simp [setKind, hp, hdirty p hp, PageKind.isOut]
    · simp [setKind, hp]

variable {X : Type} {c c' : PoolCore} {extra : X → List ℕ} {kindC : ℕ → PageKind (Tag X)}
  {t page : ℕ} {reply result : Option ℕ}

/-- A segment the page allocator may hand out is disjoint from the registered ones. -/
theorem CoreInv.freshSegment (h : CoreInv c extra kindC) {base : ℕ}
    (hadmits : c.os.Admits base segmentSize slabSize) :
    FreshSegment c.pool base := by
  refine ⟨hadmits.1, hadmits.2.1, fun i hi => ?_⟩
  have htable : c.Owns .table (c.pool.segments i) segmentExtent := ⟨rfl, i, hi, rfl⟩
  obtain ⟨r, hr, hbase, hextent⟩ := h.regions.holds htable
  have hapart := hadmits.2.2.2 r hr
  rw [hbase, hextent] at hapart
  exact hapart.symm

/-- What `alloc_slab` does to the data behind the lock: its section, and that of the slow path if it
gets that far. -/
theorem CoreInv.allocSlabToEnd_pool (h : CoreInv c extra kindC)
    (hstep : c.allocSlabToEnd t reply = some (c', result)) :
    (∃ slab, allocSlabLocked c.pool = some (c'.pool, some slab)) ∨
      (allocSlabLocked c.pool = some (c.pool.countLock, none) ∧ (c'.pool = c.pool.countLock ∨
        ∃ base, FreshSegment c.pool base ∧
          c'.pool = (allocSlabSlowLocked c.pool.countLock base).1)) := by
  unfold PoolCore.allocSlabToEnd PoolCore.allocSlab at hstep
  rcases allocSlabLocked_spec h.pool (.owned t) with ⟨slab, st', heq, -⟩ | ⟨heq, -⟩
  · rw [heq] at hstep
    obtain ⟨rfl, -⟩ := Prod.mk.inj (Option.some.inj hstep)
    exact .inl ⟨slab, heq⟩
  · refine .inr ⟨heq, ?_⟩
    rw [heq] at hstep
    simp only at hstep
    split at hstep <;> try contradiction
    rename_i c₁ hreply
    cases reply with
    | none =>
      obtain rfl := Option.some.inj hreply
      simp only [PoolCore.setCall, Function.update_self, Option.some.injEq, Prod.mk.injEq] at hstep
      obtain ⟨rfl, -⟩ := hstep
      exact .inl rfl
    | some base =>
      simp only [PoolCore.osAlloc] at hreply
      split at hreply <;> try contradiction
      rename_i hadmits
      obtain rfl := Option.some.inj hreply
      simp only [PoolCore.setCall, Function.update_self, PoolCore.allocSlabSlow] at hstep
      refine .inr ⟨base, h.freshSegment hadmits, ?_⟩
      cases hslow : allocSlabSlowLocked c.pool.countLock base with
      | mk pool slab =>
        simp only [hslow] at hstep
        cases slab with
        | some page =>
          obtain ⟨rfl, -⟩ := Prod.mk.inj (Option.some.inj hstep)
          rfl
        | none =>
          obtain ⟨rfl, -⟩ := Prod.mk.inj (Option.some.inj hstep)
          rfl

/-- What `dealloc_slab` does to the data behind the lock: its section, and the purge it decides
on. -/
theorem PoolCore.deallocSlabToEnd_pool (hstep : c.deallocSlabToEnd t page = some c') :
    ∃ pool outcome, deallocSlabLocked c.pool page = some (pool, outcome) ∧
      (if outcome = .purge then ∃ purged, purgeExcessLocked pool = some (c'.pool, purged)
        else c'.pool = pool) := by
  unfold PoolCore.deallocSlabToEnd PoolCore.deallocSlab at hstep
  cases hlock : deallocSlabLocked c.pool page with
  | none => simp [hlock] at hstep
  | some r =>
    obtain ⟨pool, outcome⟩ := r
    refine ⟨pool, outcome, rfl, ?_⟩
    cases outcome with
    | release base =>
      simp only [hlock, PoolCore.setCall, Function.update_self, Option.some.injEq] at hstep
      subst hstep
      rfl
    | done =>
      simp only [hlock, PoolCore.setCall, Function.update_self, Option.some.injEq] at hstep
      subst hstep
      rfl
    | purge =>
      simp only [hlock, PoolCore.setCall, Function.update_self, PoolCore.purgeExcess,
        PoolCore.purgeTake, PoolCore.take] at hstep
      rw [if_pos rfl, purgeExcessLocked]
      cases htake : purgeTakeLocked pool with
      | none => simp [htake] at hstep
      | some taken =>
        obtain ⟨pool₁, buf⟩ := taken
        simp only [htake, Function.update_self, PoolCore.purgeReturn] at hstep
        cases hreturn : purgeReturnLocked pool₁ buf with
        | none => simp [hreturn] at hstep
        | some pool₂ =>
          simp only [hreturn, PoolCore.setCall, Option.some.injEq] at hstep
          subst hstep
          exact ⟨buf, by simp only [hreturn]⟩

/-- Popping a free page does not lengthen the dirty list. -/
theorem popFree_dirty_le {slab : ℕ} (h : popFree st = some (slab, st')) :
    st'.dirtyList.len ≤ st.dirtyList.len := by
  unfold popFree PageFreeList.pop at h
  cases hd : st.dirtyList.pages with
  | cons slab rest =>
    simp only [hd, Option.some.injEq, Prod.mk.injEq] at h
    obtain ⟨-, rfl⟩ := h
    exact Nat.sub_le _ _
  | nil =>
    cases hc : st.cleanList.pages with
    | cons slab rest =>
      simp only [hd, hc, Option.some.injEq, Prod.mk.injEq] at h
      obtain ⟨-, rfl⟩ := h
      exact le_rfl
    | nil => simp [hd, hc] at h

/-- `alloc_slab` does not lengthen the dirty list. -/
theorem allocSlabLocked_dirty_le (h : allocSlabLocked st = some (st', result)) :
    st'.dirtyList.len ≤ st.dirtyList.len := by
  unfold allocSlabLocked at h
  split at h
  · rename_i hpop
    split at h <;> try contradiction
    obtain ⟨rfl, -⟩ := Prod.mk.inj (Option.some.inj h)
    have hle := popFree_dirty_le hpop
    exact hle
  · simp only at h
    split at h
    all_goals
      obtain ⟨rfl, -⟩ := Prod.mk.inj (Option.some.inj h)
      exact le_rfl

/-- `alloc_slab_slow` leaves the dirty list. -/
theorem allocSlabSlowLocked_dirty (st : PoolState) (base : ℕ) :
    (allocSlabSlowLocked st base).1.dirtyList = st.dirtyList := by
  by_cases hfull : maxSegments ≤ st.segmentCount
  · have heq : allocSlabSlowLocked st base = _ := if_pos hfull
    rw [heq]
    rfl
  · by_cases hcur : st.segmentCursor < st.segmentEnd
    · have heq : allocSlabSlowLocked st base = _ := (if_neg hfull).trans (if_pos hcur)
      rw [heq]
      rfl
    · have heq : allocSlabSlowLocked st base = _ := (if_neg hfull).trans (if_neg hcur)
      rw [heq]
      rfl

/-- `dealloc_slab` on a dirty list within the high-water mark calls for a purge just when it is one
above it. -/
theorem deallocSlabLocked_dirty {slab : ℕ} {outcome : DeallocOutcome}
    (hle : st.dirtyList.len ≤ purgeHighWater)
    (h : deallocSlabLocked st slab = some (st', outcome)) :
    if outcome = .purge then st'.dirtyList.len = purgeHighWater + 1
      else st'.dirtyList.len ≤ purgeHighWater := by
  cases hfind : findSegment { st.countLock with dirtyList := st.dirtyList.push slab } slab with
  | none => simp [deallocSlabLocked, hfind] at h
  | some seg =>
    have hin : inSegment (st.segments seg) slab = true :=
      List.find?_some (p := fun i => inSegment (st.segments i) slab) hfind
    rw [deallocSlabLocked_eq hfind] at h
    split at h
    · obtain ⟨rfl, rfl⟩ := Prod.mk.inj (Option.some.inj h)
      have hdirty := (swapRemoveSegment_lists
        (removeSegmentSlabs (returnedPage st slab seg) (st.segments seg)) seg).1
      have hlen : (removeIfWalk (inSegment (st.segments seg)) (slab :: st.dirtyList.pages)
          (st.dirtyList.len + 1)).2 ≤
          st.dirtyList.len := by
        rw [removeIfWalk_eq, List.countP_cons_of_pos hin]
        change st.dirtyList.len + 1 - (_ + 1) ≤ _
        omega
      simp only [reduceCtorEq, if_false]
      rw [hdirty]
      exact hlen.trans hle
    · split at h
      · rename_i hpurge
        obtain ⟨rfl, rfl⟩ := Prod.mk.inj (Option.some.inj h)
        change purgeHighWater < st.dirtyList.len + 1 at hpurge
        change st.dirtyList.len + 1 = purgeHighWater + 1
        omega
      · rename_i hdone
        obtain ⟨rfl, rfl⟩ := Prod.mk.inj (Option.some.inj h)
        exact Nat.not_lt.mp hdone

/-- Between calls the accounting holds, no thread is in a call, and the dirty list is within the
high-water mark. -/
structure SerialInv (c : PoolCore) : Prop where
  core : ∃ kind, CoreInv c (fun _ : Empty => []) kind
  idle : ∀ t, c.call t = .idle
  dirty_le : c.pool.dirtyList.len ≤ purgeHighWater

/-- A new pool is between calls. -/
theorem serialInv_new : SerialInv PoolCore.new := ⟨⟨_, coreInv_new⟩, fun _ => rfl, Nat.zero_le _⟩

/-- A purge of a list one page above the high-water mark leaves one page above the low-water
mark. -/
theorem purgeExcessLocked_len (h : PoolInv st kind) (tag : T)
    (hlen : st.dirtyList.len = purgeHighWater + 1) :
    ∃ st' purged, purgeExcessLocked st = some (st', purged) ∧ PurgeMoved st st' purged ∧
      SameTable st st' ∧ st'.dirtyList.len = purgeLowWater + 1 := by
  obtain ⟨st', purged, heq, hmoved, hlength, htable, hinv⟩ := purgeExcessLocked_spec h tag
  refine ⟨st', purged, heq, hmoved, htable, ?_⟩
  have hpages := congrArg List.length hmoved.removed
  rw [List.length_append, ← h.dirty_len, ← hinv.dirty_len, hlength, hlen] at hpages
  simp only [purgeBatch, purgeHighWater, purgeLowWater] at hpages ⊢
  omega

/-- The section of `dealloc_slab` keeps the accounting. -/
theorem deallocSlabLocked_inv (h : PoolInv st kind) {slab : ℕ} {tag : T}
    (hkind : kind slab = .out tag) {outcome : DeallocOutcome}
    (heq : deallocSlabLocked st slab = some (st', outcome)) :
    ∃ kind' : ℕ → PageKind T, PoolInv st' kind' := by
  obtain ⟨seg, st₁, -, -, ⟨heq', hinv, -⟩ | ⟨outcome', heq', -, hinv, -⟩⟩ :=
    deallocSlabLocked_spec h hkind
  all_goals
    obtain ⟨rfl, -⟩ := Prod.mk.inj (Option.some.inj (heq'.symm.trans heq))
    exact ⟨_, hinv⟩

/-- Every call leads from between calls to between calls. -/
theorem SerialInv.step {op : PoolOp} (h : SerialInv c) (hstep : poolOpStep c op = some c') :
    SerialInv c' := by
  obtain ⟨kind, hcore⟩ := h.core
  cases op with
  | allocSlab reply =>
    obtain ⟨⟨c₁, result⟩, halloc, rfl⟩ := Option.map_eq_some_iff.mp hstep
    obtain ⟨kind', hcore', hcall, -⟩ := hcore.allocSlabToEnd (h.idle 0) halloc
    refine ⟨⟨kind', hcore'⟩, fun t => by rw [hcall]; exact h.idle t, ?_⟩
    rcases hcore.allocSlabToEnd_pool halloc with ⟨slab, heq⟩ | ⟨-, heq | ⟨base, -, heq⟩⟩
    · exact (allocSlabLocked_dirty_le heq).trans h.dirty_le
    · rw [heq]
      exact h.dirty_le
    · rw [heq, allocSlabSlowLocked_dirty]
      exact h.dirty_le
  | deallocSlab page =>
    simp only [poolOpStep] at hstep
    split at hstep <;> try contradiction
    rename_i hpage
    obtain ⟨c₁, kind', heq, hcore', hcall, -⟩ := hcore.deallocSlabToEnd (h.idle 0) hpage
    obtain rfl := Option.some.inj (heq.symm.trans hstep)
    refine ⟨⟨kind', hcore'⟩, fun t => by rw [hcall]; exact h.idle t, ?_⟩
    obtain ⟨pool, outcome, hlock, hend⟩ := PoolCore.deallocSlabToEnd_pool hstep
    have hdirty := deallocSlabLocked_dirty h.dirty_le hlock
    by_cases hpurge : outcome = .purge
    · rw [if_pos hpurge] at hdirty hend
      obtain ⟨purged, hexcess⟩ := hend
      obtain ⟨kindP, hpool⟩ := deallocSlabLocked_inv hcore.pool
        (((hcore.keyed (.owned 0)).1 page).mp hpage) hlock
      obtain ⟨st', purged', hexcess', -, -, hlen⟩ := purgeExcessLocked_len hpool (.owned 0) hdirty
      rw [hexcess', Option.some.injEq, Prod.mk.injEq] at hexcess
      rw [← hexcess.1, hlen]
      decide
    · rw [if_neg hpurge] at hdirty hend
      rw [hend]
      exact hdirty

/-- Every serial run ends between calls. -/
theorem serialInv_run {ops : List PoolOp}
    (hrun : Transition.run poolOpStep PoolCore.new ops = some c) : SerialInv c :=
  Transition.run_invariant (fun _ _ _ h hstep => h.step hstep) serialInv_new hrun

/-- A call that purges moves the pages it purges and leaves one page above the low-water mark. -/
theorem SerialInv.purge {before : PoolState} (h : SerialInv c) (hpage : page ∈ c.owned 0)
    (hpurge : deallocSlabLocked c.pool page = some (before, .purge)) :
    ∃ c' purged, poolOpStep c (.deallocSlab page) = some c' ∧
      purgeExcessLocked before = some (c'.pool, purged) ∧
      PurgeMoved before c'.pool purged ∧ c'.pool.dirtyList.len = purgeLowWater + 1 := by
  obtain ⟨kind, hcore⟩ := h.core
  obtain ⟨c', kind', hstep, -⟩ := hcore.deallocSlabToEnd (h.idle 0) hpage
  obtain ⟨pool, outcome, hlock, hend⟩ := PoolCore.deallocSlabToEnd_pool hstep
  obtain ⟨rfl, rfl⟩ := Prod.mk.inj (Option.some.inj (hpurge.symm.trans hlock))
  rw [if_pos rfl] at hend
  obtain ⟨purged, hexcess⟩ := hend
  have hdirty := deallocSlabLocked_dirty h.dirty_le hlock
  rw [if_pos rfl] at hdirty
  obtain ⟨kindP, hpool⟩ := deallocSlabLocked_inv hcore.pool
    (((hcore.keyed (.owned 0)).1 page).mp hpage) hlock
  obtain ⟨after, purged', hexcess', hmoved, -, hlen⟩ :=
    purgeExcessLocked_len hpool (.owned 0) hdirty
  obtain ⟨rfl, rfl⟩ := Prod.mk.inj (Option.some.inj (hexcess'.symm.trans hexcess))
  refine ⟨c', purged', ?_, hexcess, hmoved, hlen⟩
  rw [poolOpStep, if_pos hpage]
  exact hstep

/-- Every purge a serial run comes to moves its pages as it should, but stops one page above the
low-water mark. -/
theorem purge_stops_above_low_water {ops : List PoolOp} {before : PoolState}
    (hrun : Transition.run poolOpStep PoolCore.new ops = some c) (hpage : page ∈ c.owned 0)
    (hpurge : deallocSlabLocked c.pool page = some (before, .purge)) :
    ∃ c' purged, poolOpStep c (.deallocSlab page) = some c' ∧
      purgeExcessLocked before = some (c'.pool, purged) ∧
      PurgeMoved before c'.pool purged ∧ c'.pool.dirtyList.len = purgeLowWater + 1 ∧
      ¬PurgedDown before c'.pool purged := by
  obtain ⟨c', purged, hstep, hexcess, hmoved, hlen⟩ := (serialInv_run hrun).purge hpage hpurge
  refine ⟨c', purged, hstep, hexcess, hmoved, hlen, fun hdown => ?_⟩
  have hlow := hdown.low
  omega

/-- Take all pages of a segment mapped at `base`. -/
def takeSegment (base : ℕ) : List PoolOp :=
  .allocSlab (some base) :: List.replicate 31 (.allocSlab none)

/-- Give back the pages of the segment at `base` with these indices. -/
def givePages (base : ℕ) (indices : List ℕ) : List PoolOp :=
  indices.map fun i => .deallocSlab (base + i * slabSize)

/-- Three segments are taken whole; 64 of their pages are given back, none of them the first of its
segment. -/
def fillDirty : List PoolOp :=
  takeSegment 0x1000000 ++ takeSegment 0x2000000 ++ takeSegment 0x3000000 ++
    givePages 0x1000000 (List.range' 1 31) ++ givePages 0x2000000 (List.range' 1 31) ++
    givePages 0x3000000 (List.range' 1 2)

/-- After 64 pages are dirty the next page given back starts a purge. -/
theorem fillDirty_purges : ∃ c before, Transition.run poolOpStep PoolCore.new fillDirty = some c ∧
    0x3030000 ∈ c.owned 0 ∧ deallocSlabLocked c.pool 0x3030000 = some (before, .purge) := by
  have heval : (Transition.run poolOpStep PoolCore.new fillDirty).map
      (fun c => decide (0x3030000 ∈ c.owned 0 ∧
      (deallocSlabLocked c.pool 0x3030000).map Prod.snd =
        some .purge)) = some true := by decide +kernel
  obtain ⟨c, hrun, hc⟩ := Option.map_eq_some_iff.mp heval
  obtain ⟨hpage, hlock⟩ := of_decide_eq_true hc
  obtain ⟨⟨before, outcome⟩, hlock, rfl⟩ := Option.map_eq_some_iff.mp hlock
  exact ⟨c, before, hrun, hpage, hlock⟩

/-- The purge after 64 dirty pages leaves 33. -/
theorem purge_stops_above_low_water_fillDirty :
    ∃ c before c' purged, Transition.run poolOpStep PoolCore.new fillDirty = some c ∧
      deallocSlabLocked c.pool 0x3030000 = some (before, .purge) ∧
      poolOpStep c (.deallocSlab 0x3030000) = some c' ∧
        purgeExcessLocked before = some (c'.pool, purged) ∧
      PurgeMoved before c'.pool purged ∧ c'.pool.dirtyList.len = purgeLowWater + 1 ∧
      ¬PurgedDown before c'.pool purged := by
  obtain ⟨c, before, hrun, hpage, hpurge⟩ := fillDirty_purges
  obtain ⟨c', purged, h⟩ := purge_stops_above_low_water hrun hpage hpurge
  exact ⟨c, before, c', purged, hrun, hpurge, h⟩

/-- The purge does not get down to the low-water mark. -/
theorem purge_not_down_to_low_water :
    ¬∀ (ops : List PoolOp) (c c' : PoolCore) (page : ℕ) (before : PoolState) (purged : List ℕ),
      Transition.run poolOpStep PoolCore.new ops = some c → page ∈ c.owned 0 →
      deallocSlabLocked c.pool page = some (before, .purge) →
        poolOpStep c (.deallocSlab page) = some c' →
      purgeExcessLocked before = some (c'.pool, purged) → PurgedDown before c'.pool purged := by
  intro hall
  obtain ⟨c, before, hrun, hpage, hpurge⟩ := fillDirty_purges
  obtain ⟨c', purged, hstep, hexcess, -, hlen⟩ := (serialInv_run hrun).purge hpage hpurge
  have hlow := (hall fillDirty c c' 0x3030000 before purged hrun hpage hpurge hstep hexcess).low
  omega

end ClMalloc
