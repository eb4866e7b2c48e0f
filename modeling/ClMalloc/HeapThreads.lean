import ClMalloc.HeapHandovers
import ClMalloc.HeapSafeCalls

/-!
# Heaps whose threads run at the same time

Every live heap has a thread; a call of the program starts a program of atomic actions on it,
and the actions of all threads, the frees of threads without a heap and the program's writes
interleave in any order. The views of the threads fit every state reached, so what the heaps
guarantee when operations run one at a time they guarantee in every interleaving of these
actions, in which each use of the pool and of the slab cache is atomic.
-/

namespace ClMalloc

open Threads Transition Intrusive Placement

/-- What the program asks of a heap. -/
inductive HeapCall
  | alloc (layout : Layout)
  | dealloc (a : Allocation)
  | drop

/-- How a call ended. -/
inductive HeapDone
  | allocated (layout : Layout) (result : Option ℕ)
  | freed
  | dropped

/-- The actions of a call. -/
def HeapCall.prog (h : ℕ) : HeapCall → HeapProg HeapDone
  | .alloc layout => do
    let result ← HeapProg.alloc h layout
    pure (.allocated layout result)
  | .dealloc a => do
    HeapProg.dealloc h a.ptr a.layout
    pure .freed
  | .drop => do
    HeapProg.dropHeap h
    pure .dropped

/-- With the call the program gives up the allocation to free, or the heap. -/
def HeapCall.start (h : ℕ) (r : HeapRun) : HeapCall → Option HeapRun
  | .alloc layout => if 1 ≤ layout.size then some r else none
  | .dealloc a => if a ∈ r.live then some { r with live := r.live.erase a } else none
  | .drop => some { r with handles := r.handles.erase h }

/-- With the return the program gets the allocation. -/
def HeapDone.finish (r : HeapRun) : HeapDone → HeapRun
  | .allocated layout (some ptr) => { r with live := ⟨ptr, layout⟩ :: r.live }
  | _ => r

/-- The heaps, and what the thread of each has left to do. -/
structure HeapThreads extends HeapRun where
  thread : ℕ → Option (HeapProg HeapDone)

/-- What can happen next: the program makes a heap, calls it, frees from a thread without one, or
writes; a thread acts or returns; the pool writes to a free page. -/
inductive ThreadLabel
  | newHeap (h : ℕ)
  | call (h : ℕ) (call : HeapCall)
  | act (h : ℕ) (reply : Option ℕ)
  | ret (h : ℕ)
  | deallocDirect (a : Allocation)
  | write (a : Allocation) (value : Option ℕ)
  | scribble (page : ℕ) (header : SlabHeader) (words : ℕ → Option ℕ) (nextLink : Option ℕ)
    (prevLink : Option (Cell ℕ QueueHead))

/-- One step: calls are made on live heaps whose thread does nothing else. -/
def threadStep (r : HeapThreads) : ThreadLabel → Option HeapThreads
  | .newHeap h =>
    if h ∉ r.handles ∧ (r.thread h).isNone = true then
      some { r with sys := r.sys.newHeap h, handles := h :: r.handles }
    else none
  | .call h call =>
    if h ∈ r.handles ∧ (r.thread h).isNone = true then
      match call.start h r.toHeapRun with
      | some started => some ⟨started, Function.update r.thread h (some (call.prog h))⟩
      | none => none
    else none
  | .act h reply =>
    match r.thread h with
    | some (.act f k) =>
      match f reply r.sys with
      | .ok (sys, answer) =>
        some { r with sys := sys, thread := Function.update r.thread h (some (k answer)) }
      | .error _ => none
    | _ => none
  | .ret h =>
    match r.thread h with
    | some (.ret done) => some ⟨done.finish r.toHeapRun, Function.update r.thread h none⟩
    | _ => none
  | .deallocDirect a =>
    if a ∈ r.live then some { r with sys := r.sys.deallocDirect a.ptr a.layout,
                                     live := r.live.erase a } else none
  | .write a value =>
    if a ∈ r.live ∧ (classIndex a.layout).isSome = true then
      some { r with sys.next := Function.update r.sys.next a.ptr value }
    else none
  | .scribble page header words nextLink prevLink =>
    if page ∉ r.sys.pool.inUse ∧ ∀ c < numClasses, page ∉ r.sys.pool.abandoned c then
      some { r with sys := r.sys.scribble page header words nextLink prevLink }
    else none

/-- No heap, no thread and no allocation yet. -/
def HeapThreads.new (headers : ℕ → SlabHeader) (next : ℕ → Option ℕ) (links : Links ℕ QueueHead) :
    HeapThreads :=
  ⟨.new headers next links, fun _ => none⟩

/-- What a step can do. -/
inductive ThreadStepped (r : HeapThreads) : ThreadLabel → HeapThreads → Prop
  | newHeap {h : ℕ} (hnew : h ∉ r.handles) (hidle : r.thread h = none) :
    ThreadStepped r (.newHeap h) { r with sys := r.sys.newHeap h, handles := h :: r.handles }
  | call {h : ℕ} {call : HeapCall} {started : HeapRun} (hheap : h ∈ r.handles)
      (hidle : r.thread h = none)
    (hstart : call.start h r.toHeapRun = some started) :
    ThreadStepped r (.call h call) ⟨started, Function.update r.thread h (some (call.prog h))⟩
  | act {h : ℕ} {reply : Option ℕ} {α : Type}
      {f : Option ℕ → HeapSys → Except HeapFault (HeapSys × α)}
    {k : α → HeapProg HeapDone} {sys : HeapSys} {answer : α} (hprog : r.thread h = some (.act f k))
    (hact : f reply r.sys = .ok (sys, answer)) :
    ThreadStepped r (.act h reply) { r with
      sys := sys, thread := Function.update r.thread h (some (k answer)) }
  | ret {h : ℕ} {done : HeapDone} (hprog : r.thread h = some (.ret done)) :
    ThreadStepped r (.ret h) ⟨done.finish r.toHeapRun, Function.update r.thread h none⟩
  | deallocDirect {a : Allocation} (hlive : a ∈ r.live) :
    ThreadStepped r (.deallocDirect a) { r with sys := r.sys.deallocDirect a.ptr a.layout,
                                                live := r.live.erase a }
  | write {a : Allocation} {value : Option ℕ}
      {c : ℕ} (hlive : a ∈ r.live) (hclass : classIndex a.layout = some c) :
    ThreadStepped r (.write a value) { r with sys.next := Function.update r.sys.next a.ptr value }
  | scribble {page : ℕ} {header : SlabHeader} {words : ℕ → Option ℕ} {nextLink : Option ℕ}
    {prevLink : Option (Cell ℕ QueueHead)} (hunused : page ∉ r.sys.pool.inUse)
    (hkept : ∀ c < numClasses, page ∉ r.sys.pool.abandoned c) :
    ThreadStepped r (.scribble page header words nextLink prevLink)
      { r with sys := r.sys.scribble page header words nextLink prevLink }

variable {r r' : HeapThreads} {label : ThreadLabel} {h : ℕ} {a b : Allocation}

/-- Every step does one of these. -/
theorem threadStep_cases (hstep : threadStep r label = some r') : ThreadStepped r label r' := by
  cases label with
  | newHeap h =>
    simp only [threadStep] at hstep
    split at hstep <;> cases hstep
    rename_i hguard
    exact .newHeap hguard.1 (Option.isNone_iff_eq_none.mp hguard.2)
  | call h call =>
    simp only [threadStep] at hstep
    split at hstep <;> try contradiction
    rename_i hguard
    split at hstep <;> cases hstep
    exact .call hguard.1 (Option.isNone_iff_eq_none.mp hguard.2) ‹_›
  | act h reply =>
    simp only [threadStep] at hstep
    split at hstep <;> try contradiction
    rename_i hprog
    split at hstep <;> cases hstep
    exact .act hprog ‹_›
  | ret h =>
    simp only [threadStep] at hstep
    split at hstep <;> cases hstep
    exact .ret ‹_›
  | deallocDirect a =>
    simp only [threadStep] at hstep
    split at hstep <;> cases hstep
    exact .deallocDirect ‹_›
  | write a value =>
    simp only [threadStep] at hstep
    split at hstep <;> cases hstep
    rename_i hguard
    obtain ⟨c, hclass⟩ := Option.isSome_iff_exists.mp hguard.2
    exact .write hguard.1 hclass
  | scribble page header words nextLink prevLink =>
    simp only [threadStep] at hstep
    split at hstep <;> cases hstep
    rename_i hguard
    exact .scribble hguard.1 hguard.2

/-- What a thread knows when its call has ended. -/
def HeapDone.Ends : HeapDone → HeapView → Prop
  | .allocated layout result, v => v.Served layout result
  | .freed, v => v.Calm
  | .dropped, v => v.Ending ∧ ∀ c < numClasses, v.Cleared c

/-- A thread between calls has no slab in hand and no allocation. -/
structure HeapView.Idle (v : HeapView) : Prop where
  phase : v.phase ≠ .ending
  hand : v.hand = []
  pending : v.pending = []

/-- The views fit: they agree with the state, every program is safe for its view, and threads
between calls are idle. -/
structure HeapThreads.Fits (r : HeapThreads) (views : ℕ → HeapView) : Prop where
  holds : heapRules.holds ⟨r.handles, r.live, r.sys.next⟩ r.sys views
  safe : AllSafe heapRules (fun _ => HeapDone.Ends) r.thread views
  idle : ∀ h, r.thread h = none → (views h).Idle

/-- Some views fit. -/
def HeapThreads.Sound (r : HeapThreads) : Prop := ∃ views, r.Fits views

variable {views : ℕ → HeapView} {v : HeapView}

/-- A call that is allowed is safe from the view of an idle thread. -/
theorem HeapThreads.Fits.call {call : HeapCall} {started : HeapRun} (hfits : r.Fits views)
    (hheap : h ∈ r.handles) (hidle : r.thread h = none)
    (hstart : call.start h r.toHeapRun = some started) :
    ∃ v', heapRules.holds ⟨started.handles, started.live, started.sys.next⟩ started.sys
      (Function.update views h v') ∧ (call.prog h).Safe heapRules h HeapDone.Ends v' := by
  obtain ⟨-, hhand, hpending⟩ := hfits.idle h hidle
  obtain ⟨lists, roster, allocs, hagrees⟩ := hfits.holds
  have halive : (views h).phase = .alive := (hagrees.handles h).mp hheap
  rw [← Function.update_eq_self h views] at hagrees
  cases call with
  | alloc layout =>
    simp only [HeapCall.start] at hstart
    split at hstart <;> cases hstart
    rename_i hsize
    refine ⟨views h, ⟨lists, roster, allocs, hagrees⟩, ?_⟩
    exact Prog.Safe.bind (HeapProg.safe_alloc ⟨halive, hhand, hpending⟩ hsize) fun _ _ hserved =>
      hserved
  | dealloc a =>
    simp only [HeapCall.start] at hstart
    split at hstart <;> cases hstart
    rename_i hlive
    refine ⟨_, ⟨lists, roster, allocs, hagrees.give hlive⟩, ?_⟩
    exact Prog.Safe.bind (HeapProg.safe_dealloc ⟨halive, hhand, by rw [hpending]⟩) fun _ _ hcalm =>
      hcalm
  | drop =>
    cases hstart
    refine ⟨_, ⟨lists, roster, allocs, hagrees.retire halive⟩, ?_⟩
    exact Prog.Safe.bind (HeapProg.safe_dropHeap ⟨rfl, hhand, hpending⟩) fun _ _ hended => hended

/-- A return leaves an idle thread. -/
theorem HeapThreads.Fits.ret {done : HeapDone} (hfits : r.Fits views)
    (hprog : r.thread h = some (.ret done)) :
    ∃ v', heapRules.holds ⟨(done.finish r.toHeapRun).handles, (done.finish r.toHeapRun).live,
        (done.finish r.toHeapRun).sys.next⟩ (done.finish r.toHeapRun).sys
        (Function.update views h v') ∧ v'.Idle := by
  have hends : done.Ends (views h) := hfits.safe h _ hprog
  obtain ⟨lists, roster, allocs, hagrees⟩ := hfits.holds
  rw [← Function.update_eq_self h views] at hagrees
  cases done with
  | allocated layout result =>
    obtain ⟨halive, hhand, hpending⟩ := hends
    cases result with
    | none => exact ⟨views h, ⟨lists, roster, allocs, hagrees⟩, by simp [halive], hhand, hpending⟩
    | some ptr =>
      have hin : ⟨ptr, layout⟩ ∈ (views h).pending := by simp [hpending, withResult_some]
      refine ⟨_, ⟨lists, roster, allocs, hagrees.receive hin⟩, by simp [halive], hhand, ?_⟩
      simp [hpending, withResult_some]
  | freed =>
    obtain ⟨halive, hhand, hpending⟩ := hends
    exact ⟨views h, ⟨lists, roster, allocs, hagrees⟩, by simp [halive], hhand, hpending⟩
  | dropped =>
    obtain ⟨⟨hending, hhand, hpending⟩, hcleared⟩ := hends
    exact ⟨_, ⟨lists, _, allocs, hagrees.bury hending hcleared⟩, by simp, hhand, hpending⟩

/-- Exchanging the program and the view of one thread leaves the other idle threads idle. -/
theorem HeapThreads.Fits.idle_update (hfits : r.Fits views) (prog : Option (HeapProg HeapDone))
    (hidle : prog = none → v.Idle) {h' : ℕ} (hnone : Function.update r.thread h prog h' = none) :
    (Function.update views h v h').Idle := by
  by_cases hh : h' = h
  · subst hh
    rw [Function.update_self] at hnone ⊢
    exact hidle hnone
  · rw [Function.update_of_ne hh] at hnone ⊢
    exact hfits.idle h' hnone

/-- Every step leaves views that fit. -/
theorem threadStep_sound (hsound : r.Sound) (hstep : threadStep r label = some r') : r'.Sound := by
  obtain ⟨views, hfits⟩ := hsound
  cases threadStep_cases hstep with
  | newHeap hnew hidle =>
    rename_i h
    obtain ⟨hphase, hhand, hpending⟩ := hfits.idle h hidle
    obtain ⟨lists, roster, allocs, hagrees⟩ := hfits.holds
    have hgone : (views h).phase = .gone := by
      have hdead : (views h).phase ≠ .alive := fun halive => hnew ((hagrees.handles h).mpr halive)
      cases hview : (views h).phase with
      | gone => rfl
      | alive => exact absurd hview hdead
      | ending => exact absurd hview hphase
    rw [← Function.update_eq_self h views] at hagrees
    have hthread : Function.update r.thread h none = r.thread := by
      rw [← hidle, Function.update_eq_self]
    have hsafe : AllSafe heapRules (fun _ => HeapDone.Ends) (Function.update r.thread h none)
        (Function.update views h ((views h).born r.sys.nextHeapId)) := hfits.safe.update (by simp)
    have hborn : ((views h).born r.sys.nextHeapId).Idle :=
      ⟨by simp [HeapView.born], hhand, hpending⟩
    rw [hthread] at hsafe
    refine ⟨_, ⟨_, _, _, hagrees.newHeap hgone hhand⟩, hsafe, fun h' hnone => ?_⟩
    refine hfits.idle_update none (fun _ => hborn) ?_
    rw [hthread]
    exact hnone
  | call hheap hidle hstart =>
    obtain ⟨v', hholds, hsafe⟩ := hfits.call hheap hidle hstart
    refine ⟨_, hholds, hfits.safe.update fun p hp => ?_, fun h' => hfits.idle_update _ (by simp)⟩
    cases hp
    exact hsafe
  | act hprog hact =>
    rcases hfits.safe.step hfits.holds hprog _ with ⟨s', b, v', heq, hholds, hsafe⟩ | ⟨e, heq, -⟩
    · rw [hact] at heq
      cases heq
      obtain ⟨lists, roster, allocs, hagrees⟩ := hholds
      exact ⟨_, ⟨lists, roster, allocs, hagrees.reread⟩, hsafe,
        fun h' => hfits.idle_update _ (by simp)⟩
    · rw [hact] at heq
      cases heq
  | ret hprog =>
    obtain ⟨v', hholds, hidle⟩ := hfits.ret hprog
    exact ⟨_, hholds, hfits.safe.update (by simp), fun h' => hfits.idle_update _ fun _ => hidle⟩
  | deallocDirect hlive =>
    obtain ⟨lists, roster, allocs, hagrees⟩ := hfits.holds
    exact ⟨views, ⟨lists, roster, _, (hagrees.deallocDirect hlive).reread⟩, hfits.safe, hfits.idle⟩
  | write hlive hclass =>
    obtain ⟨lists, roster, allocs, hagrees⟩ := hfits.holds
    exact ⟨views, ⟨lists, roster, allocs, hagrees.write hlive hclass _⟩, hfits.safe, hfits.idle⟩
  | scribble hunused hkept =>
    obtain ⟨lists, roster, allocs, hagrees⟩ := hfits.holds
    rename_i page _ _ _ _
    have hpage : ¬r.sys.pool.Held page := by
      rintro (hin | ⟨c, hin⟩)
      · exact hunused hin
      · exact hkept c (hagrees.inv.orphans c page hin).range hin
    exact ⟨views, ⟨lists, roster, allocs, (hagrees.scribble hpage _ _ _ _).reread⟩,
      hfits.safe, hfits.idle⟩

/-- The views before the first heap is made. -/
theorem threads_new_sound (headers : ℕ → SlabHeader) (next : ℕ → Option ℕ)
    (links : Links ℕ QueueHead) : (HeapThreads.new headers next links).Sound := by
  have hinv := heapInv_new headers next links
  refine ⟨fun h => ⟨.gone, ((HeapSys.new headers next links).heap h).id, fun _ => none,
    fun _ _ => [], [], fun p => (headers p).ownPart, links.next, links.prev, []⟩,
    ⟨_, [], [], ⟨hinv, fun h => ?_, ?_, ?_, ?_, ?_, ?_, ?_, ?_⟩⟩,
    fun h p hp => ?_, fun h _ => ⟨by simp, rfl, rfl⟩⟩
  · exact ⟨rfl, rfl, fun _ _ => rfl, fun _ _ => rfl, fun _ _ => ⟨rfl, rfl⟩⟩
  · exact divided_nil
  · simp
  · simp
  · simp [HeapThreads.new, HeapRun.new]
  · convert (divided_nil : Divided ([] : List Allocation) fun _ : Option ℕ => []) using 1
    funext owner
    cases owner <;> rfl
  · intro p hp
    exact absurd hp (by
      simp [HeapSys.new, PagePool.new, PagePool.Held, PagePool.inUse, PoolCore.new,
        HeapThreads.new, HeapRun.new])
  · simp [HeapThreads.new, HeapRun.new]
  · simp [HeapThreads.new] at hp

/-- Every run leaves views that fit. -/
theorem threadRun_sound {headers : ℕ → SlabHeader} {next : ℕ → Option ℕ} {links : Links ℕ QueueHead}
    {labels : List ThreadLabel}
    (hrun : run threadStep (HeapThreads.new headers next links) labels = some r) :
    r.Sound :=
  run_invariant (fun _ _ _ => threadStep_sound) (threads_new_sound headers next links) hrun

end ClMalloc
