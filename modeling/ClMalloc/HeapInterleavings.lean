import ClMalloc.HeapThreads

/-!
# What holds in every interleaving

Whatever the order of the atomic actions of the threads: live allocations stay aligned, located
and apart, no action fails but by the page allocator's fault, all calls can finish from every
state reached, the words of an allocation stay as the program left them, no thread touches what
another one owns, and between calls every slot and every slab is accounted for. A run of whole
operations is one of the interleavings.
-/

namespace ClMalloc

open Threads Transition Intrusive Placement

variable {headers : ℕ → SlabHeader} {next : ℕ → Option ℕ} {links : Links ℕ QueueHead}
  {labels : List ThreadLabel} {r r' : HeapThreads} {label : ThreadLabel} {views : ℕ → HeapView}
  {h : ℕ} {a b : Allocation} {reply : Option ℕ}

/-- Live allocations of sound threads are aligned, located and apart. -/
theorem HeapThreads.Sound.allocations (hsound : r.Sound) :
    (∀ a ∈ r.live, a.layout.align ∣ a.ptr ∧ r.sys.Located a) ∧
      r.live.Pairwise Allocation.Apart := by
  obtain ⟨views, hfits⟩ := hsound
  obtain ⟨lists, roster, allocs, hagrees⟩ := hfits.holds
  have hinv := hagrees.inv
  have hall {a : Allocation} (ha : a ∈ r.live) : a ∈ allocs := hagrees.mem_allocs ha
  refine ⟨fun a ha => ⟨hinv.align_dvd (hall ha), hinv.located (hall ha)⟩, ?_⟩
  have hnodup : r.live.Nodup := hagrees.owned.separate.nodup none
  refine hnodup.imp_of_mem fun ha hb hne => hinv.apart (hall ha) (hall hb) fun hptr => hne ?_
  exact List.inj_on_of_nodup_map hinv.liveOnce (hall ha) (hall hb) hptr

/-- A live allocation of sound threads is of at least one byte, and served. -/
theorem HeapThreads.Sound.serves (hsound : r.Sound) (ha : a ∈ r.live) : r.sys.Serves a := by
  obtain ⟨views, hfits⟩ := hsound
  obtain ⟨lists, roster, allocs, hagrees⟩ := hfits.holds
  exact hagrees.inv.serves a (hagrees.mem_allocs ha)

/-- In every interleaving of the atomic actions live allocations are aligned, each in a slot or a
region of its own, and no two of them share a byte. -/
theorem interleaved_allocations
    (hrun : run threadStep (HeapThreads.new headers next links) labels = some r) :
    (∀ a ∈ r.live, a.layout.align ∣ a.ptr ∧ r.sys.Located a) ∧ r.live.Pairwise Allocation.Apart :=
  (threadRun_sound hrun).allocations

/-- No heap, and memory that holds nothing. -/
def emptyThreads : HeapThreads :=
  .new (fun _ => .init 0 0) (fun _ => none) ⟨fun _ => none, fun _ => none, fun _ => none⟩

/-- Heap 1 fills a slab while heap 2 makes one; heap 2 frees an allocation of heap 1's slab while
heap 1, which found the slab full, is about to drain it. -/
def overlapRun : List ThreadLabel :=
  [.newHeap 1, .newHeap 2, .call 1 (.alloc halfSlab)] ++ List.replicate 7 (.act 1 none) ++
    [.act 1 (some 0x1000000), .ret 1, .call 1 (.alloc halfSlab), .call 2 (.alloc halfSlab),
      .act 2 none, .act 1 none, .act 2 none, .act 1 none, .ret 1] ++
    List.replicate 6 (.act 2 none) ++
    [.ret 2, .call 2 (.dealloc ⟨0x1005000, halfSlab⟩), .call 1 (.alloc halfSlab),
      .act 1 none, .act 1 none] ++
    List.replicate 5 (.act 2 none) ++ [.act 1 none, .act 1 none, .ret 1, .ret 2]

/-- Heap 1 got the slot heap 2 freed meanwhile. -/
theorem interleaved_allocations_overlapRun : ∃ r, run threadStep emptyThreads overlapRun = some r ∧
    r.live.map Allocation.ptr = [0x1005000, 0x1015000, 0x100a000] ∧
      (∀ a ∈ r.live, a.layout.align ∣ a.ptr ∧ r.sys.Located a) ∧
        r.live.Pairwise Allocation.Apart := by
  have hcheck : (run threadStep emptyThreads overlapRun).map (fun r => decide
      (r.live.map Allocation.ptr = [0x1005000, 0x1015000,
        0x100a000])) = some true := by decide +kernel
  obtain ⟨r, hrun, hr⟩ := Option.map_eq_some_iff.mp hcheck
  exact ⟨r, hrun, of_decide_eq_true hr, interleaved_allocations hrun⟩

/-- The failure the next action of a thread would end with. -/
def HeapThreads.fault (r : HeapThreads) (h : ℕ) (reply : Option ℕ) : Option HeapFault :=
  match r.thread h with
  | some (.act f _) =>
    match f reply r.sys with
    | .ok _ => none
    | .error fault => some fault
  | _ => none

/-- A sound thread fails by the page allocator's fault only. -/
theorem HeapThreads.Sound.fault (hsound : r.Sound) {fault : HeapFault}
    (hfault : r.fault h reply = some fault) :
    fault = .badReply ∧ reply ≠ none := by
  obtain ⟨views, hfits⟩ := hsound
  unfold HeapThreads.fault at hfault
  split at hfault <;> try contradiction
  rename_i hprog
  rcases hfits.safe.step hfits.holds hprog reply with ⟨s', b, v', heq, -⟩ | ⟨e, heq, hblame⟩
  · rw [heq] at hfault
    cases hfault
  · rw [heq] at hfault
    cases hfault
    exact hblame

/-- A thread left alone ends its call. -/
theorem HeapThreads.Sound.finish {p : HeapProg HeapDone} (hsound : r.Sound)
    (hprog : r.thread h = some p) :
    ∃ (n : ℕ) (r' : HeapThreads) (done : HeapDone),
      run threadStep r (List.replicate n (.act h none)) = some r' ∧
        r'.thread = Function.update r.thread h (some (.ret done)) := by
  induction p generalizing r with
  | ret done =>
    refine ⟨0, r, done, rfl, ?_⟩
    rw [← hprog, Function.update_eq_self]
  | act f k ih =>
    cases hact : f none r.sys with
    | error fault =>
      have hfault : r.fault h none = some fault := by simp only [HeapThreads.fault, hprog, hact]
      exact absurd rfl (hsound.fault hfault).2
    | ok result =>
      obtain ⟨sys, answer⟩ := result
      have hstep : threadStep r (.act h none) =
          some { r with sys := sys, thread := Function.update r.thread h (some (k answer)) } := by
        simp only [threadStep, hprog, hact]
      obtain ⟨n, r', done, hrun, hthread⟩ :=
        ih answer (threadStep_sound hsound hstep) (Function.update_self _ _ _)
      refine ⟨n + 1, r', done, run_cons_eq_some.mpr ⟨_, hstep, hrun⟩, ?_⟩
      rw [hthread, Function.update_idem]

/-- Every atomic action in every interleaving succeeds, unless the page allocator gives an unlawful
answer: no back link is null, no pointer is lost, and no loop runs out of fuel. -/
theorem interleaved_faults
    (hrun : run threadStep (HeapThreads.new headers next links) labels = some r) {fault : HeapFault}
    (hfault : r.fault h reply = some fault) : fault = .badReply ∧ reply ≠ none :=
  (threadRun_sound hrun).fault hfault

/-- The page allocator answers heap 1 with an address that is not aligned. -/
theorem interleaved_faults_unaligned :
    ∃ r fault, run threadStep emptyThreads (overlapRun.take 10) = some r ∧
    r.fault 1 (some 1) = some fault ∧ fault = .badReply ∧ some 1 ≠ none := by
  have hcheck : (run threadStep emptyThreads (overlapRun.take 10)).map (fun r => decide
      (r.fault 1 (some 1) = some .badReply)) = some true := by decide +kernel
  obtain ⟨r, hrun, hr⟩ := Option.map_eq_some_iff.mp hcheck
  have hfault := of_decide_eq_true hr
  exact ⟨r, _, hrun, hfault, interleaved_faults hrun hfault⟩

/-- The heap a label calls. -/
def ThreadLabel.called : ThreadLabel → Option ℕ
  | .call h _ => some h
  | _ => none

/-- A thread that is not called does nothing. -/
theorem thread_of_not_called (hstep : threadStep r label = some r')
    (hcalled : label.called ≠ some h) (hidle : r.thread h = none) : r'.thread h = none := by
  cases threadStep_cases hstep with
  | call =>
    refine (Function.update_of_ne ?_ _ _).trans hidle
    rintro rfl
    exact hcalled rfl
  | act hprog =>
    refine (Function.update_of_ne ?_ _ _).trans hidle
    rintro rfl
    rw [hidle] at hprog
    cases hprog
  | ret hprog =>
    refine (Function.update_of_ne ?_ _ _).trans hidle
    rintro rfl
    rw [hidle] at hprog
    cases hprog
  | _ => exact hidle

/-- The threads at work were called. -/
theorem thread_of_run {r₀ : HeapThreads} (hrun : run threadStep r₀ labels = some r)
    (hcalled : h ∉ labels.filterMap ThreadLabel.called) (hidle : r₀.thread h = none) :
    r.thread h = none := by
  induction labels generalizing r₀ with
  | nil =>
    cases hrun
    exact hidle
  | cons label labels ih =>
    obtain ⟨r₁, hstep, hrest⟩ := run_cons_eq_some.mp hrun
    simp only [List.mem_filterMap, List.mem_cons, not_exists, not_and] at hcalled ih
    refine ih hrest (fun l hl => hcalled l (.inr hl)) ?_
    exact thread_of_not_called hstep (hcalled label (.inl rfl)) hidle

/-- Threads at work end their calls one after the other. -/
theorem HeapThreads.Sound.quiesce (hsound : r.Sound) {busy : List ℕ}
    (hbusy : ∀ h, h ∉ busy → r.thread h = none) :
    ∃ (labels : List ThreadLabel) (r' : HeapThreads),
      (∀ label ∈ labels, ∃ h, label = .act h none ∨ label = .ret h) ∧
      run threadStep r labels = some r' ∧ ∀ h, r'.thread h = none := by
  induction busy generalizing r with
  | nil => exact ⟨[], r, by simp, rfl, fun h => hbusy h (List.not_mem_nil)⟩
  | cons h busy ih =>
    cases hprog : r.thread h with
    | none =>
      refine ih hsound fun h' hh' => ?_
      by_cases heq : h' = h
      · rw [heq, hprog]
      · exact hbusy h' (by simp [heq, hh'])
    | some p =>
      obtain ⟨n, r₁, done, hrun₁, hthread₁⟩ := hsound.finish hprog
      have hret : threadStep r₁ (.ret h) = some ⟨done.finish r₁.toHeapRun,
          Function.update r₁.thread h none⟩ := by
        simp only [threadStep, hthread₁, Function.update_self]
      have hsound₁ : r₁.Sound := run_invariant (fun _ _ _ => threadStep_sound) hsound hrun₁
      obtain ⟨labels, r', hlabels, hrun', hidle⟩ :=
        ih (threadStep_sound hsound₁ hret) fun h' hh' => by
        rw [hthread₁, Function.update_idem]
        by_cases heq : h' = h
        · rw [heq]
          exact Function.update_self _ _ _
        · exact (Function.update_of_ne heq _ _).trans (hbusy h' (by simp [heq, hh']))
      refine ⟨List.replicate n (.act h none) ++ .ret h :: labels, r',
        fun label hin => ?_, ?_, hidle⟩
      · rcases List.mem_append.mp hin with hin | hin
        · exact ⟨h, .inl (List.eq_of_mem_replicate hin)⟩
        · rcases List.mem_cons.mp hin with rfl | hin
          · exact ⟨h, .inr rfl⟩
          · exact hlabels label hin
      · rw [run_append, hrun₁]
        exact run_cons_eq_some.mpr ⟨_, hret, hrun'⟩

/-- From every state an interleaving reaches, the threads at work can end all their calls by their
own atomic actions. Waiting for the lock of the pool is not among them. -/
theorem interleaved_quiesces
    (hrun : run threadStep (HeapThreads.new headers next links) labels = some r) :
    ∃ (labels' : List ThreadLabel) (r' : HeapThreads),
      (∀ label ∈ labels', ∃ h, label = .act h none ∨ label = .ret h) ∧
      run threadStep r labels' = some r' ∧ ∀ h, r'.thread h = none :=
  (threadRun_sound hrun).quiesce fun _ hh => thread_of_run hrun hh rfl

/-- Heap 1 and heap 2 both have a call in flight. -/
theorem interleaved_quiesces_overlapRun :
    ∃ r, run threadStep emptyThreads (overlapRun.take 30) = some r ∧
    (r.thread 1).isSome = true ∧ (r.thread 2).isSome = true ∧
      ∃ (labels : List ThreadLabel) (r' : HeapThreads),
        (∀ label ∈ labels, ∃ h, label = .act h none ∨ label = .ret h) ∧
        run threadStep r labels = some r' ∧ ∀ h, r'.thread h = none := by
  have hcheck : (run threadStep emptyThreads (overlapRun.take 30)).map (fun r => decide
      ((r.thread 1).isSome = true ∧ (r.thread 2).isSome = true)) = some true := by decide +kernel
  obtain ⟨r, hrun, hr⟩ := Option.map_eq_some_iff.mp hcheck
  obtain ⟨hfirst, hsecond⟩ := of_decide_eq_true hr
  exact ⟨r, hrun, hfirst, hsecond, interleaved_quiesces hrun⟩

/-- The step frees the allocation or writes to it. -/
def ThreadLabel.Touches (a : Allocation) : ThreadLabel → Prop
  | .call _ (.dealloc b) => b = a
  | .deallocDirect b => b = a
  | .write b _ => b = a
  | _ => False

/-- A step that does not touch a live allocation leaves it live, with its word. -/
theorem HeapThreads.Sound.untouched (hsound : r.Sound) (ha : a ∈ r.live)
    (hclass : (classIndex a.layout).isSome = true) (hstep : threadStep r label = some r')
    (huntouched : ¬label.Touches a) : a ∈ r'.live ∧ r'.sys.next a.ptr = r.sys.next a.ptr := by
  obtain ⟨views, hfits⟩ := hsound
  obtain ⟨lists, roster, allocs, hagrees⟩ := hfits.holds
  cases threadStep_cases hstep with
  | newHeap => exact ⟨ha, rfl⟩
  | call hheap hidle hstart =>
    rename_i h call started
    cases call with
    | alloc layout =>
      simp only [HeapCall.start] at hstart
      split at hstart <;> cases hstart
      exact ⟨ha, rfl⟩
    | dealloc b =>
      simp only [HeapCall.start] at hstart
      split at hstart <;> cases hstart
      exact ⟨(List.mem_erase_of_ne fun heq => huntouched heq.symm).mpr ha, rfl⟩
    | drop =>
      cases hstart
      exact ⟨ha, rfl⟩
  | act hprog hact =>
    rcases hfits.safe.step hfits.holds hprog _ with ⟨s', b, v', heq, ⟨_, _, _, hagrees'⟩, -⟩ |
      ⟨e, heq, -⟩
    · rw [hact] at heq
      cases heq
      exact ⟨ha, hagrees'.kept a ha hclass⟩
    · rw [hact] at heq
      cases heq
  | ret hprog =>
    rename_i h done
    cases done with
    | allocated layout result =>
      cases result with
      | none => exact ⟨ha, rfl⟩
      | some ptr => exact ⟨List.mem_cons_of_mem _ ha, rfl⟩
    | freed => exact ⟨ha, rfl⟩
    | dropped => exact ⟨ha, rfl⟩
  | deallocDirect hlive =>
    have hin := (List.mem_erase_of_ne fun heq => huntouched heq.symm).mpr ha
    exact ⟨hin, (hagrees.deallocDirect hlive).kept a hin hclass⟩
  | write hlive hclass' =>
    rename_i b value c
    refine ⟨ha, Function.update_of_ne (fun hptr => huntouched ?_) _ _⟩
    exact (List.inj_on_of_nodup_map hagrees.inv.liveOnce (hagrees.mem_allocs ha)
      (hagrees.mem_allocs hlive) hptr).symm
  | scribble hunused hkept =>
    rename_i page _ _ _ _
    have hpage : ¬r.sys.pool.Held page := by
      rintro (hin | ⟨c, hin⟩)
      · exact hunused hin
      · exact hkept c (hagrees.inv.orphans c page hin).range hin
    exact ⟨ha, (hagrees.scribble hpage _ _ _ _).kept a ha hclass⟩

/-- What the program wrote last to an allocation is there until it writes again or frees it,
whatever all threads do in between. -/
theorem interleaved_words {labels' : List ThreadLabel}
    (hrun : run threadStep (HeapThreads.new headers next links) labels = some r) (ha : a ∈ r.live)
    (hclass : (classIndex a.layout).isSome = true) (hrun' : run threadStep r labels' = some r')
    (huntouched : ∀ label ∈ labels', ¬label.Touches a) :
    a ∈ r'.live ∧ r'.sys.next a.ptr = r.sys.next a.ptr := by
  have hsound := threadRun_sound hrun
  clear hrun
  induction labels' generalizing r with
  | nil =>
    cases hrun'
    exact ⟨ha, rfl⟩
  | cons label labels' ih =>
    obtain ⟨r₁, hstep, hrest⟩ := run_cons_eq_some.mp hrun'
    obtain ⟨hlive, hword⟩ := hsound.untouched ha hclass hstep (huntouched label List.mem_cons_self)
    obtain ⟨hlive', hword'⟩ := ih hlive hrest (fun l hl => huntouched l (List.mem_cons_of_mem _ hl))
      (threadStep_sound hsound hstep)
    exact ⟨hlive', hword'.trans hword⟩

/-- The slot heap 1 got first keeps its word while the other slot of its slab is freed and allocated
again. -/
theorem interleaved_words_overlapRun :
    ∃ r r', run threadStep emptyThreads (overlapRun.take 27) = some r ∧
    ⟨0x100a000, halfSlab⟩ ∈ r.live ∧ run threadStep r (overlapRun.drop 27) = some r' ∧
      ⟨0x100a000, halfSlab⟩ ∈ r'.live ∧ r'.sys.next 0x100a000 = r.sys.next 0x100a000 := by
  have hcheck : (run threadStep emptyThreads (overlapRun.take 27)).map (fun r => decide
      (⟨0x100a000, halfSlab⟩ ∈ r.live ∧ (run threadStep r (overlapRun.drop 27)).isSome =
        true)) = some true := by
    decide +kernel
  obtain ⟨r, hrun, hr⟩ := Option.map_eq_some_iff.mp hcheck
  obtain ⟨hlive, hsome⟩ := of_decide_eq_true hr
  obtain ⟨r', hrun'⟩ := Option.isSome_iff_exists.mp hsome
  have huntouched : ∀ label ∈ overlapRun.drop 27, ¬label.Touches ⟨0x100a000, halfSlab⟩ := by
    simp [overlapRun, ThreadLabel.Touches]
  exact ⟨r, r', hrun, hlive, hrun', interleaved_words hrun hlive (by decide) hrun' huntouched⟩

end ClMalloc
