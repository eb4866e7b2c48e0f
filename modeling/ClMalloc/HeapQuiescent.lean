import ClMalloc.HeapBooks
import ClMalloc.HeapInterleavings

/-!
# Threads between calls, and threads apart

When no call is in flight the heaps are as a run of whole operations leaves them, and every
slot is free or serves a live allocation. During a call a thread writes to nothing another
thread owns. A run of whole operations is an interleaving in which calls do not overlap.
-/

namespace ClMalloc

open Threads Transition Intrusive Placement

variable {headers : ℕ → SlabHeader} {next : ℕ → Option ℕ} {links : Links ℕ QueueHead} {s : HeapSys}
  {live live' : List Allocation} {lists : SlabPlace → List ℕ} {roster handles : List ℕ}
  {busy : Option ℕ} {r r' : HeapThreads} {views : ℕ → HeapView} {h h' : ℕ} {reply : Option ℕ}

/-- The order of the allocations does not matter. -/
theorem HeapInv.perm (hinv : HeapInv s live lists roster handles busy) (hperm : live.Perm live') :
    HeapInv s live' lists roster handles busy :=
  { hinv with
    slabs := fun p hp => (hinv.slabs p hp).congr_live fun _ ha _ => hperm.mem_iff.mpr ha
    serves := fun a ha => hinv.serves a (hperm.mem_iff.mpr ha)
    liveOnce := (hperm.map Allocation.ptr).nodup_iff.mp hinv.liveOnce }

/-- When all threads are idle the heaps are ready for whole operations, and the books balance. -/
theorem HeapThreads.Sound.ready (hsound : r.Sound) (hidle : ∀ h, r.thread h = none) :
    r.toHeapRun.Sound ∧ r.sys.Balanced r.live := by
  obtain ⟨views, hfits⟩ := hsound
  obtain ⟨lists, roster, allocs, hagrees⟩ := hfits.holds
  have hinv := hagrees.inv
  have hview (h : ℕ) : (views h).Idle := hfits.idle h (hidle h)
  have hmem (a : Allocation) : a ∈ allocs ↔ a ∈ r.live := by
    refine (hagrees.owned.mem_iff a).trans ⟨?_, fun ha => ⟨none, ha⟩⟩
    rintro ⟨owner, ha⟩
    cases owner with
    | none => exact ha
    | some h =>
      change a ∈ (views h).pending at ha
      simp [(hview h).pending] at ha
  have hlive : r.live.Nodup := hagrees.owned.separate.nodup none
  have hperm : allocs.Perm r.live := (List.perm_ext_iff_of_nodup hagrees.allocs_nodup hlive).mpr
    hmem
  refine ⟨⟨lists, (hinv.perm hperm).shrink hinv.alive (fun h hh => hh) fun h hh hdead => ?_, ?_⟩,
    fun p hp => ?_⟩
  · have hphase := (hagrees.roster h).mp hh
    have hending := (hview h).phase
    rw [hagrees.handles] at hdead
    cases hcase : (views h).phase with
    | gone => exact absurd hcase hphase
    | alive => exact absurd hcase hdead
    | ending => exact absurd hcase hending
  · refine List.eq_nil_iff_forall_not_mem.mpr fun p hp => ?_
    obtain ⟨h, hhand⟩ := (hagrees.hands.mem_iff p).mp hp
    simp [(hview h).hand] at hhand
  · rw [← hperm.countP_eq]
    exact hagrees.balanced p hp

/-- When no call is in flight every slot of a slab is available, freed remotely or serves a live
allocation, and every page in use is the active slab of a live heap or in one of its queues:
interleaved calls lose nothing. -/
theorem interleaved_books {labels : List ThreadLabel}
    (hrun : run threadStep (HeapThreads.new headers next links) labels = some r)
    (hidle : ∀ h, r.thread h = none) :
    (∀ p, r.sys.pool.Held p →
      r.live.countP (fun a => a.ServedFrom p) + r.sys.freeTotal p = (r.sys.headers p).slotCount) ∧
    ∀ p ∈ r.sys.pool.inUse, ∃ h ∈ r.handles, ∃ c, (r.sys.heap h).bins c = some p ∨
      ∃ (queue : Queue) (slabs : List ℕ),
        DList r.sys.links (.head ⟨h, queue, c⟩) slabs ∧ p ∈ slabs := by
  obtain ⟨⟨lists, hready⟩, hbalanced⟩ := (threadRun_sound hrun).ready hidle
  have hinv := hready.inv
  refine ⟨hbalanced, fun p hp => ?_⟩
  obtain ⟨place, hplace⟩ := (hinv.inUse p).mp hp
  cases place with
  | bin h c => exact ⟨h, (hinv.belongs _ h c rfl p hplace).heap, c, .inl (hinv.mem_bin.mp hplace)⟩
  | queue head =>
    obtain ⟨h, queue, c⟩ := head
    refine ⟨h, (hinv.belongs (.queue ⟨h, queue, c⟩) h c rfl p hplace).heap, c,
      .inr ⟨queue, _, ?_, hplace⟩⟩
    exact hinv.linked ⟨h, queue, c⟩
  | hand => simp [hready.hand] at hplace

/-- Three allocations are live in two slabs. -/
theorem interleaved_books_overlapRun :
    ∃ r, run threadStep emptyThreads overlapRun = some r ∧ r.live.length = 3 ∧
    r.sys.pool.inUse.length = 2 ∧
    (∀ p, r.sys.pool.Held p →
      r.live.countP (fun a => a.ServedFrom p) + r.sys.freeTotal p = (r.sys.headers p).slotCount) ∧
    ∀ p ∈ r.sys.pool.inUse, ∃ h ∈ r.handles, ∃ c, (r.sys.heap h).bins c = some p ∨
      ∃ (queue : Queue) (slabs : List ℕ),
        DList r.sys.links (.head ⟨h, queue, c⟩) slabs ∧ p ∈ slabs := by
  have hcheck : (run threadStep emptyThreads overlapRun).map (fun r => decide (r.live.length = 3 ∧
      r.sys.pool.inUse.length = 2 ∧ (r.thread 1).isNone = true ∧
        (r.thread 2).isNone = true)) = some true := by
    decide +kernel
  obtain ⟨r, hrun, hr⟩ := Option.map_eq_some_iff.mp hcheck
  obtain ⟨hlive, hinUse, hfirst, hsecond⟩ := of_decide_eq_true hr
  refine ⟨r, hrun, hlive, hinUse, interleaved_books hrun fun h => ?_⟩
  by_cases hone : h = 1
  · rw [hone, Option.isNone_iff_eq_none.mp hfirst]
  by_cases htwo : h = 2
  · rw [htwo, Option.isNone_iff_eq_none.mp hsecond]
  · refine thread_of_run hrun ?_ rfl
    have hcalled : h ∉ [1, 1, 2, 2, 1] := by simp [hone, htwo]
    exact hcalled

/-- What a view says of a heap stays true as long as the view fits. -/
theorem HeapView.Sees.same {v : HeapView} {s' : HeapSys} {lists' : SlabPlace → List ℕ}
    {live' : List Allocation} {roster' : List ℕ} {busy' : Option ℕ} (hsees : v.Sees h s lists)
    (hsees' : v.Sees h s' lists') (hinv : HeapInv s live lists roster handles busy)
    (hinv' : HeapInv s' live' lists' roster' handles busy') :
    (s'.heap h).id = (s.heap h).id ∧ (s'.heap h).bins = (s.heap h).bins ∧
      (∀ c p, (s.heap h).bins c = some p → (s'.headers p).ownPart = (s.headers p).ownPart) ∧
      ∀ queue c slabs, DList s.links (.head ⟨h, queue, c⟩) slabs →
        DList s'.links (.head ⟨h, queue, c⟩) slabs ∧
        ∀ p ∈ slabs, (s'.headers p).ownPart = (s.headers p).ownPart := by
  refine ⟨hsees'.id.trans hsees.id.symm, hsees'.bins.trans hsees.bins.symm, fun c p hp => ?_,
    fun queue c slabs hslabs => ?_⟩
  · rw [hsees.bins] at hp
    exact (hsees'.header p (.inl ⟨c, hp⟩)).trans (hsees.header p (.inl ⟨c, hp⟩)).symm
  · have hlinked : DList s.links _ (lists (.queue ⟨h, queue, c⟩)) := hinv.linked ⟨h, queue, c⟩
    have hlinked' : DList s'.links _ (lists' (.queue ⟨h, queue, c⟩)) := hinv'.linked ⟨h, queue, c⟩
    obtain rfl := hslabs.unique hlinked
    rw [hsees'.queues, ← hsees.queues] at hlinked'
    refine ⟨hlinked', fun p hp => ?_⟩
    rw [hsees.queues] at hp
    have hhas : v.Has p := .inr (.inl ⟨queue, c, hp⟩)
    exact (hsees'.header p hhas).trans (hsees.header p hhas).symm

/-- An action of one thread leaves the id, the bins and the queues of every other heap as they are,
and of its slabs all but the remote stacks. -/
theorem interleaved_frame {labels : List ThreadLabel}
    (hrun : run threadStep (HeapThreads.new headers next links) labels = some r)
    (hstep : threadStep r (.act h reply) = some r') (hne : h' ≠ h) :
    (r'.sys.heap h').id = (r.sys.heap h').id ∧ (r'.sys.heap h').bins = (r.sys.heap h').bins ∧
      (∀ c p, (r.sys.heap h').bins c = some p →
        (r'.sys.headers p).ownPart = (r.sys.headers p).ownPart) ∧
      ∀ queue c slabs, DList r.sys.links (.head ⟨h', queue, c⟩) slabs →
        DList r'.sys.links (.head ⟨h', queue, c⟩) slabs ∧
          ∀ p ∈ slabs, (r'.sys.headers p).ownPart = (r.sys.headers p).ownPart := by
  obtain ⟨views, hfits⟩ := threadRun_sound hrun
  obtain ⟨lists, roster, allocs, hagrees⟩ := hfits.holds
  cases threadStep_cases hstep with
  | act hprog hact =>
    rcases hfits.safe.step hfits.holds hprog reply with ⟨s', b, v', heq,
      ⟨lists', _, _, hagrees'⟩, -⟩ | ⟨e, heq, -⟩
    · rw [hact] at heq
      cases heq
      have hsees' := hagrees'.sees h'
      rw [Function.update_of_ne hne] at hsees'
      exact (hagrees.sees h').same hsees' hagrees.inv hagrees'.inv
    · rw [hact] at heq
      cases heq

/-- Heap 2 frees into the slab of heap 1. -/
theorem interleaved_frame_overlapRun :
    ∃ r r', run threadStep emptyThreads (overlapRun.take 34) = some r ∧
    (r.sys.heap 1).bins 45 = some 0x1000000 ∧ threadStep r (.act 2 none) = some r' ∧
    (r'.sys.heap 1).id = (r.sys.heap 1).id ∧ (r'.sys.heap 1).bins = (r.sys.heap 1).bins ∧
      (∀ c p, (r.sys.heap 1).bins c = some p →
        (r'.sys.headers p).ownPart = (r.sys.headers p).ownPart) ∧
      ∀ queue c slabs, DList r.sys.links (.head ⟨1, queue, c⟩) slabs →
        DList r'.sys.links (.head ⟨1, queue, c⟩) slabs ∧
          ∀ p ∈ slabs, (r'.sys.headers p).ownPart = (r.sys.headers p).ownPart := by
  have hcheck : (run threadStep emptyThreads (overlapRun.take 34)).map (fun r => decide
      ((r.sys.heap 1).bins 45 = some 0x1000000 ∧
        (threadStep r (.act 2 none)).isSome = true)) = some true := by
    decide +kernel
  obtain ⟨r, hrun, hr⟩ := Option.map_eq_some_iff.mp hcheck
  obtain ⟨hbin, hsome⟩ := of_decide_eq_true hr
  obtain ⟨r', hstep⟩ := Option.isSome_iff_exists.mp hsome
  exact ⟨r, r', hrun, hbin, hstep, interleaved_frame hrun hstep (by decide)⟩

/-- A program that ends when run alone ends by actions of its thread. -/
theorem run_eval {p : HeapProg HeapDone} {sys : HeapSys} {done : HeapDone}
    (hprog : r.thread h = some p) (heval : p.eval reply r.sys = .ok (sys, done)) :
    ∃ n, run threadStep r (List.replicate n (.act h reply)) =
      some { r with sys := sys, thread := Function.update r.thread h (some (.ret done)) } := by
  induction p generalizing r with
  | ret done' =>
    cases heval
    refine ⟨0, ?_⟩
    rw [← hprog, Function.update_eq_self]
    rfl
  | act f k ih =>
    obtain ⟨⟨sys₁, answer⟩, hact, hrest⟩ := exists_ok_of_bind heval
    have hstep : threadStep r (.act h reply) =
        some { r with sys := sys₁, thread := Function.update r.thread h (some (k answer)) } := by
      simp only [threadStep, hprog, hact]
    obtain ⟨n, hrun⟩ := ih answer
      (r := { r with sys := sys₁, thread := Function.update r.thread h (some (k answer)) })
      (Function.update_self _ _ _) hrest
    refine ⟨n + 1, run_cons_eq_some.mpr ⟨_, hstep, ?_⟩⟩
    simpa using hrun

/-- A call made when all threads are idle, and run to its end, leaves them idle. -/
theorem run_call {run₀ started : HeapRun} {call : HeapCall} {sys : HeapSys} {done : HeapDone}
    (hheap : h ∈ run₀.handles) (hstart : call.start h run₀ = some started)
    (heval : (call.prog h).eval reply started.sys = .ok (sys, done)) :
    ∃ labels, run threadStep ⟨run₀, fun _ => none⟩ labels =
      some ⟨done.finish { started with sys := sys }, fun _ => none⟩ := by
  have hcall : threadStep ⟨run₀, fun _ => none⟩ (.call h call) =
      some ⟨started, Function.update (fun _ => none) h (some (call.prog h))⟩ := by
    simp [threadStep, hheap, hstart]
  have hprog : HeapThreads.thread ⟨started,
      Function.update (fun _ => none) h (some (call.prog h))⟩ h = some (call.prog h) := by simp
  obtain ⟨n, hrun⟩ := run_eval hprog heval
  refine ⟨.call h call :: (List.replicate n (.act h reply) ++ [.ret h]),
    run_cons_eq_some.mpr ⟨_, hcall, ?_⟩⟩
  rw [run_append, hrun]
  refine run_cons_eq_some.mpr ⟨_, ?_, rfl⟩
  simp only [threadStep, Function.update_self, Function.update_idem]
  congr 2
  exact Function.update_eq_self h _

/-- A whole operation is an interleaving. -/
theorem heapStep_interleaved {r r' : HeapRun} {label : HeapLabel}
    (hstep : heapStep r label = some r') :
    ∃ labels, run threadStep ⟨r, fun _ => none⟩ labels = some ⟨r', fun _ => none⟩ := by
  cases label with
  | newHeap h =>
    refine ⟨[.newHeap h], ?_⟩
    simp only [heapStep] at hstep
    split at hstep <;> cases hstep
    rename_i hnew
    simp [run, threadStep, hnew]
  | alloc h layout reply =>
    simp only [heapStep] at hstep
    split at hstep <;> try contradiction
    rename_i hguard
    have hstart : HeapCall.start h r (.alloc layout) = some r := by simp [HeapCall.start, hguard.2]
    cases halloc : r.sys.alloc h layout reply with
    | error fault => simp [halloc] at hstep
    | ok result =>
      obtain ⟨sys, result⟩ := result
      have heval : (HeapCall.prog h (.alloc layout)).eval reply r.sys =
          .ok (sys, .allocated layout result) := by
        simp only [HeapCall.prog, Prog.eval_bind, HeapProg.eval_alloc, halloc,
          ok_bind, Prog.eval_pure]
      obtain ⟨labels, hrun⟩ := run_call hguard.1 hstart heval
      refine ⟨labels, hrun.trans ?_⟩
      cases result with
      | none =>
        simp only [halloc] at hstep
        rw [← Option.some.inj hstep]
        rfl
      | some ptr =>
        simp only [halloc] at hstep
        rw [← Option.some.inj hstep]
        rfl
  | dealloc h a =>
    simp only [heapStep] at hstep
    split at hstep <;> try contradiction
    rename_i hguard
    have hstart : HeapCall.start h r (.dealloc a) = some { r with live := r.live.erase a } := by
      simp [HeapCall.start, hguard.2]
    cases hdealloc : r.sys.dealloc h a.ptr a.layout with
    | error fault => simp [hdealloc] at hstep
    | ok sys =>
      have heval : (HeapCall.prog h (.dealloc a)).eval none r.sys = .ok (sys, .freed) := by
        simp only [HeapCall.prog, Prog.eval_bind, HeapProg.eval_dealloc, hdealloc, map_ok,
          ok_bind, Prog.eval_pure]
      obtain ⟨labels, hrun⟩ := run_call hguard.1 hstart heval
      simp only [hdealloc] at hstep
      rw [← Option.some.inj hstep]
      exact ⟨labels, hrun⟩
  | dropHeap h =>
    simp only [heapStep] at hstep
    split at hstep <;> try contradiction
    rename_i hheap
    cases hdrop : r.sys.dropHeap h with
    | error fault => simp [hdrop] at hstep
    | ok sys =>
      have heval : (HeapCall.prog h .drop).eval none r.sys = .ok (sys, .dropped) := by
        simp only [HeapCall.prog, Prog.eval_bind, HeapProg.eval_dropHeap, hdrop, map_ok,
          ok_bind, Prog.eval_pure]
      obtain ⟨labels, hrun⟩ := run_call hheap
        (show HeapCall.start h r .drop = some _ from rfl) heval
      simp only [hdrop] at hstep
      rw [← Option.some.inj hstep]
      exact ⟨labels, hrun⟩
  | write a value =>
    refine ⟨[.write a value], ?_⟩
    simp only [heapStep] at hstep
    split at hstep <;> cases hstep
    rename_i hguard
    simp [run, threadStep, hguard]
  | scribble page header words nextLink prevLink =>
    refine ⟨[.scribble page header words nextLink prevLink], ?_⟩
    simp only [heapStep] at hstep
    split at hstep <;> cases hstep
    rename_i hguard
    simp only [run, threadStep, if_pos hguard]
    rfl

/-- A run of whole operations, one at a time, is one of the interleavings. -/
theorem heapRun_interleaved {labels : List HeapLabel} {r₀ r : HeapRun}
    (hrun : run heapStep r₀ labels = some r) :
    ∃ labels', run threadStep ⟨r₀, fun _ => none⟩ labels' = some ⟨r, fun _ => none⟩ := by
  induction labels generalizing r₀ with
  | nil =>
    cases hrun
    exact ⟨[], rfl⟩
  | cons label labels ih =>
    obtain ⟨r₁, hstep, hrest⟩ := run_cons_eq_some.mp hrun
    obtain ⟨first, hfirst⟩ := heapStep_interleaved hstep
    obtain ⟨rest, hrest⟩ := ih hrest
    exact ⟨first ++ rest, by rw [run_append, hfirst]; exact hrest⟩

/-- The end of a heap, and the adoption of what it leaves. -/
theorem heapRun_interleaved_abandonRun :
    ∃ r, run heapStep emptyHeaps abandonRun = some r ∧ r.handles = [2] ∧
    ∃ labels, run threadStep ⟨emptyHeaps, fun _ => none⟩ labels = some ⟨r, fun _ => none⟩ := by
  have hcheck : (run heapStep emptyHeaps abandonRun).map
      (fun r => decide (r.handles = [2])) = some true := by
    decide +kernel
  obtain ⟨r, hrun, hr⟩ := Option.map_eq_some_iff.mp hcheck
  exact ⟨r, hrun, of_decide_eq_true hr, heapRun_interleaved hrun⟩

end ClMalloc
