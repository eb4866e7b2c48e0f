import ClMalloc.PprofSide

/-!
# The interval a sample is drawn from and weighted with

A heap copies the sample interval when it is made, and draws all its countdowns from the copy;
a sample is weighted with the interval in force when it is recorded. The two agree for a heap
made under the interval now in force, and only then: a heap that existed before the
configuration keeps the rate it started with.
-/

namespace ClMalloc

open Transition Intrusive

variable {R : Type*} {fl : Floats R} {s s' : ProfSys R} {t h : ℕ} {a : Allocation}

/-- Every sample is weighted with the interval its countdown was drawn from, every countdown after
the first is drawn from the interval in force, and the side table holds samples only. -/
structure ProfSys.Unbiased (s : ProfSys R) : Prop where
  samples : ∀ sample ∈ s.history.samples, sample.drawnFrom = sample.weightedWith
  redraws : ∀ redraw ∈ s.history.redraws, redraw.drawnFrom = redraw.inForce
  recorded : ∀ ptr ∈ s.state.side, ∃ sample ∈ s.history.samples, sample.ptr = ptr

/-- The heap a cell points to, if it does, has the property. -/
def HeapCell.All (p : ℕ → Prop) : HeapCell → Prop
  | .ptr h => p h
  | .null | .destroyed => True

/-- Whether the heap of a cell has a decidable property can be computed. -/
instance (p : ℕ → Prop) [DecidablePred p] : (cell : HeapCell) → Decidable (cell.All p)
  | .ptr h => inferInstanceAs (Decidable (p h))
  | .null | .destroyed => isTrue trivial

/-- The heap was made under the interval now in force. -/
def ProfSys.HeapFresh (s : ProfSys R) (h : ℕ) : Prop := s.history.createdAt h = s.globals.interval

/-- The allocation uses up the countdown of the heap. -/
def ProfSys.Due (fl : Floats R) (s : ProfSys R) (h : ℕ) (layout : Layout) : Prop :=
  s.globals.active = true ∧ ((s.sampler h).check fl (servedBytes layout)).2 = true

/-- The call of `alloc` hands out memory. -/
def GlobalSys.grants (g : GlobalSys) (t : ℕ) (layout : Layout) (malloc reply : Option ℕ) : Bool :=
  layout.size ≠ 0 && match g.alloc t layout malloc reply with
    | .ok (_, some _) => true
    | _ => false

/-- A countdown is used up by memory handed out, and its sample recorded, only on a heap made under
the interval now in force. -/
def ProfSys.SameInterval (fl : Floats R) (s : ProfSys R) : ProfLabel → Prop
  | .alloc t layout malloc reply => s.global.sys.grants t layout malloc reply = true →
    (s.global.sys.cell t).All fun h => s.Due fl h layout → s.HeapFresh h
  | .record t _ => (s.global.sys.cell t).All s.HeapFresh
  | _ => True

/-- Whether a heap is fresh can be computed. -/
instance (s : ProfSys R) : DecidablePred s.HeapFresh := fun h =>
  inferInstanceAs (Decidable (s.history.createdAt h = s.globals.interval))

/-- Whether a countdown is used up can be computed. -/
instance (s : ProfSys R) (h : ℕ) (layout : Layout) : Decidable (s.Due fl h layout) :=
  inferInstanceAs (Decidable (_ ∧ _))

/-- Whether a step keeps to one interval can be computed. -/
instance (s : ProfSys R) : (label : ProfLabel) → Decidable (s.SameInterval fl label)
  | .alloc t layout malloc reply =>
    inferInstanceAs (Decidable (s.global.sys.grants t layout malloc reply = true →
      (s.global.sys.cell t).All fun h => s.Due fl h layout → s.HeapFresh h))
  | .record t _ => inferInstanceAs (Decidable ((s.global.sys.cell t).All s.HeapFresh))
  | .dealloc .. | .other _ | .setPprofConfig _ | .dumpStart _ | .dumpEnd _ => isTrue trivial

/-- A heap's interval, and what its countdown was drawn from, is the interval in force when it was
made. -/
def ProfSys.Copied (s : ProfSys R) (h : ℕ) : Prop :=
  (s.sampler h).interval = s.history.createdAt h ∧ s.history.drawnFrom h = s.history.createdAt h

/-- The heaps of the threads hold copies, and the samples being recorded come from them. -/
structure IntervalInv (s : ProfSys R) : Prop where
  copied : ∀ t h, s.global.sys.cell t = .ptr h → s.Copied h
  pending : ∀ t p, s.recording.lookup t = some p →
    ∃ h, s.global.sys.cell t = .ptr h ∧ p.drawnFrom = s.history.createdAt h
  unbiased : s.Unbiased

/-- A new sampler copies the interval in force. -/
theorem Sampler.new_keeps (fl : Floats R) (seed interval : ℕ) :
    ∃ countdown rng, Sampler.new fl seed interval = ⟨countdown, rng, interval⟩ := ⟨_, _, rfl⟩

/-- What opening a heap does to the copies: the thread's first heap gets one, the others keep
theirs. -/
structure ProfSys.Opened (s s₁ : ProfSys R) (t : ℕ) (sys : GlobalSys) : Prop where
  copied : ∀ t' h, sys.cell t' = .ptr h → s₁.Copied h
  kept : ∀ t' h, s.global.sys.cell t' = .ptr h →
    sys.cell t' = .ptr h ∧ s₁.history.createdAt h = s.history.createdAt h ∧
      s₁.sampler h = s.sampler h
  fresh : ∀ h, sys.cell t = .ptr h → s.global.sys.cell t = .ptr h ∨
    s₁.history.createdAt h = s.globals.interval

/-- `Heap::new` opens a heap. -/
theorem IntervalInv.openHeap (fl : Floats R) {layout : Layout} {malloc reply result : Option ℕ}
    {sys : GlobalSys} (hinv : IntervalInv s)
    (hdiffer : ∀ t₁ t₂ h, sys.cell t₁ = .ptr h → sys.cell t₂ = .ptr h → t₁ = t₂)
    (halloc : s.global.sys.alloc t layout malloc reply = .ok (sys, result)) :
    ProfSys.Opened s (s.openHeap fl t sys) t sys := by
  rcases (GlobalSys.alloc_cell halloc).1 with hsame | ⟨hnull, h, hnew⟩
  · have heq : s.openHeap fl t sys = s := by
      unfold ProfSys.openHeap
      rw [hsame]
      cases s.global.sys.cell t <;> rfl
    rw [heq]
    exact ⟨fun t' h' hcell => hinv.copied t' h' (hsame ▸ hcell),
      fun _ _ hcell => ⟨hsame ▸ hcell, rfl, rfl⟩, fun _ hcell => .inl (hsame ▸ hcell)⟩
  · have hself : sys.cell t = .ptr h := by simp [hnew]
    obtain ⟨countdown, rng, hsampler⟩ :=
      Sampler.new_keeps fl (sys.heaps.heap h).id s.globals.interval
    have heq : s.openHeap fl t sys = { s with
        sampler := Function.update s.sampler h ⟨countdown, rng, s.globals.interval⟩
        history.createdAt := Function.update s.history.createdAt h s.globals.interval
        history.drawnFrom := Function.update s.history.drawnFrom h s.globals.interval } := by
      unfold ProfSys.openHeap
      rw [hnull, hself]
      dsimp only
      rw [hsampler]
    rw [heq]
    have hother {t' h' : ℕ} (ht : t' ≠ t) (hcell : sys.cell t' = .ptr h') : h' ≠ h := by
      rintro rfl
      exact ht (hdiffer t' t h' hcell hself)
    refine ⟨fun t' h' hcell => ?_, fun t' h' hcell => ?_, fun h' hcell => ?_⟩
    · by_cases ht : t' = t
      · subst ht
        obtain rfl := HeapCell.ptr.inj (hself.symm.trans hcell)
        simp [ProfSys.Copied]
      · have hne := hother ht hcell
        rw [hnew, Function.update_of_ne ht] at hcell
        simpa [ProfSys.Copied, hne] using hinv.copied t' h' hcell
    · have ht : t' ≠ t := by
        rintro rfl
        rw [hnull] at hcell
        cases hcell
      have hcell' : sys.cell t' = .ptr h' := by rw [hnew, Function.update_of_ne ht, hcell]
      have hne := hother ht hcell'
      simp [hcell', hne]
    · obtain rfl := HeapCell.ptr.inj (hself.symm.trans hcell)
      simp

/-- A step that grants nothing new to the profiler keeps the books when the cells of the heaps
stay. -/
theorem IntervalInv.congr (hinv : IntervalInv s) (hsampler : s'.sampler = s.sampler)
    (hhistory : s'.history = s.history) (hside : ∀ ptr ∈ s'.state.side, ptr ∈ s.state.side)
    (hrecording : s'.recording = s.recording)
    (hcells : ∀ t h, s'.global.sys.cell t = .ptr h → s.global.sys.cell t = .ptr h)
    (hkept : ∀ t ∈ s'.recording, s'.global.sys.cell t = s.global.sys.cell t) : IntervalInv s' := by
  refine ⟨fun t h hcell => ?_, fun t p hp => ?_, ?_, ?_, fun ptr hptr => ?_⟩
  · unfold ProfSys.Copied
    rw [hsampler, hhistory]
    exact hinv.copied t h (hcells t h hcell)
  · rw [hkept t (AList.lookup_isSome.mp (by rw [hp]; rfl)), hhistory]
    exact hinv.pending t p (hrecording ▸ hp)
  · rw [hhistory]
    exact hinv.unbiased.samples
  · rw [hhistory]
    exact hinv.unbiased.redraws
  · rw [hhistory]
    exact hinv.unbiased.recorded ptr (hside ptr hptr)

/-- A visit to the sampler of a thread's heap keeps the books when a countdown is only used up on a
fresh heap. -/
theorem IntervalInv.sampled (hinv : IntervalInv s) (hcell : s.global.sys.cell t = .ptr h)
    (hfresh : s.Due fl h a.layout → s.HeapFresh h) (hsampled : ProfSys.Sampled fl s s' t h a) :
    IntervalInv s' := by
  have hcopied := hinv.copied t h hcell
  rcases hsampled with ⟨sampler, hinterval, rfl⟩ | ⟨sampler, s₁, hactive, hcheck, rfl, hstart⟩
  · refine ⟨fun t' h' hcell' => ?_, hinv.pending, hinv.unbiased.samples, hinv.unbiased.redraws,
      hinv.unbiased.recorded⟩
    by_cases hh : h' = h
    · subst hh
      simpa [ProfSys.Copied, hinterval] using hcopied
    · simpa [ProfSys.Copied, hh] using hinv.copied t' h' hcell'
  · have hinterval : sampler.interval = (s.sampler h).interval := by
      have hkeeps := (s.sampler h).check_interval fl (servedBytes a.layout)
      rwa [hcheck] at hkeeps
    have hnow : sampler.interval = s.globals.interval := by
      rw [hinterval, hcopied.1]
      exact hfresh ⟨hactive, by rw [hcheck]⟩
    have hbooks : IntervalInv { s with
        sampler := Function.update s.sampler h sampler
        history.drawnFrom := Function.update s.history.drawnFrom h sampler.interval
        history.redraws := ⟨sampler.interval, s.globals.interval⟩ :: s.history.redraws } := by
      refine ⟨fun t' h' hcell' => ?_, hinv.pending, hinv.unbiased.samples, ?_,
        hinv.unbiased.recorded⟩
      · by_cases hh : h' = h
        · subst hh
          simp [ProfSys.Copied, hinterval, hcopied.1]
        · simpa [ProfSys.Copied, hh] using hinv.copied t' h' hcell'
      · simpa [hnow] using hinv.unbiased.redraws
    obtain heq | heq := ProfSys.startRecord_cases _ t _ <;> rw [hstart, heq]
    · exact hbooks
    · refine ⟨hbooks.copied, fun t' p hp => ?_, hbooks.unbiased.samples, hbooks.unbiased.redraws,
        hbooks.unbiased.recorded⟩
      rcases MapSum.lookup_insert_cases hp with ⟨rfl, rfl⟩ | ⟨-, hold⟩
      · exact ⟨h, hcell, hcopied.2⟩
      · exact hbooks.pending t' p hold

/-- An allocation keeps the books when a countdown is only used up on a fresh heap. -/
theorem IntervalInv.alloc {layout : Layout} {malloc reply : Option ℕ} (hinv : IntervalInv s)
    (hready : GlobalReady s'.global.sys s'.global.live)
    (hguard : s.SameInterval fl (.alloc t layout malloc reply))
    (hallocated : ProfSys.Allocated fl s s' t layout malloc reply) : IntervalInv s' := by
  have hopened {sys : GlobalSys} (hkept : s.SamplerOnly (s.openHeap fl t sys))
      (hopen : ProfSys.Opened s (s.openHeap fl t sys) t sys) :
      IntervalInv { s.openHeap fl t sys with global.sys := sys } := by
    refine ⟨hopen.copied, fun t' p hp => ?_, ?_, ?_, ?_⟩
    · simp only [hkept.recording] at hp
      obtain ⟨h, hcell, hdrawn⟩ := hinv.pending t' p hp
      obtain ⟨hcell', hcreated, -⟩ := hopen.kept t' h hcell
      exact ⟨h, hcell', by rw [hdrawn, hcreated]⟩
    · simp only [hkept.samples]
      exact hinv.unbiased.samples
    · simp only [hkept.redraws]
      exact hinv.unbiased.redraws
    · simp only [hkept.samples, hkept.state]
      exact hinv.unbiased.recorded
  rcases hallocated with ⟨sys, result, halloc, -, rfl⟩ | ⟨sys, ptr, h, hsize, halloc, hcell, rfl⟩
  · exact hopened (s.openHeap_kept fl t sys) (hinv.openHeap fl hready.cellsDiffer halloc)
  · have hkept := s.openHeap_kept fl t sys
    have hsampled := ProfSys.maybeSample_cases fl
      (ProfSys.grant { s.openHeap fl t sys with global.sys := sys } ⟨ptr, layout⟩) t h ⟨ptr, layout⟩
    have hsys : (ProfSys.maybeSample fl (ProfSys.grant { s.openHeap fl t sys with
        global.sys := sys } ⟨ptr, layout⟩) t h ⟨ptr, layout⟩).global.sys = sys := by
      rw [hsampled.global]
      rfl
    rw [hsys] at hready
    have hopen := hinv.openHeap fl hready.cellsDiffer halloc
    have hbooks := hopened hkept hopen
    have hgranted : IntervalInv (ProfSys.grant { s.openHeap fl t sys with
        global.sys := sys } ⟨ptr, layout⟩) :=
      ⟨hbooks.copied, hbooks.pending, hbooks.unbiased.samples, hbooks.unbiased.redraws,
        hbooks.unbiased.recorded⟩
    refine hgranted.sampled hcell (fun hdue => ?_) hsampled
    change (s.openHeap fl t sys).history.createdAt h = (s.openHeap fl t sys).globals.interval
    rw [hkept.globals]
    rcases hopen.fresh h hcell with hold | hnew
    · obtain ⟨-, hcreated, hsampler⟩ := hopen.kept t h hold
      rw [hcreated]
      have hgrants : s.global.sys.grants t layout malloc reply = true := by
        simp [GlobalSys.grants, hsize, halloc]
      rw [ProfSys.SameInterval, hold] at hguard
      refine hguard hgrants ⟨?_, ?_⟩
      · rw [← hkept.globals]
        exact hdue.1
      · rw [← hsampler]
        exact hdue.2
    · exact hnew

/-- A free moves no cell. -/
theorem globalStep_dealloc_cell {r r' : GlobalRun} (hstep : globalStep r (.dealloc t a) = some r') :
    r'.sys.cell = r.sys.cell := by
  cases globalStep_cases hstep with
  | deallocEmpty => rfl
  | dealloc _ hdealloc => exact GlobalSys.dealloc_cell hdealloc

/-- The other operations of the allocator take no heap from a thread that is recording. -/
theorem globalStep_quiet_cell {label : GlobalLabel} {global : GlobalRun} (hquiet : s.Quiet label)
    (hstep : globalStep s.global label = some global) :
    (∀ t h, global.sys.cell t = .ptr h → s.global.sys.cell t = .ptr h) ∧
      ∀ t ∈ s.recording, global.sys.cell t = s.global.sys.cell t := by
  cases globalStep_cases hstep with
  | allocEmpty => exact hquiet.elim
  | alloc => exact hquiet.elim
  | allocNull => exact hquiet.elim
  | deallocEmpty => exact hquiet.elim
  | dealloc => exact hquiet.elim
  | exit hexit =>
    obtain ⟨hptr, hkept⟩ := GlobalSys.exit_cell hexit
    refine ⟨hptr, fun t' ht' => hkept t' ?_⟩
    rintro rfl
    exact hquiet ht'
  | write => exact ⟨fun _ _ hcell => hcell, fun _ _ => rfl⟩
  | scribble => exact ⟨fun _ _ hcell => hcell, fun _ _ => rfl⟩

/-- Every step that keeps to one interval keeps the books. -/
theorem IntervalInv.step {label : ProfLabel} (hinv : IntervalInv s)
    (hready : GlobalReady s'.global.sys s'.global.live) (hguard : s.SameInterval fl label)
    (hstep : profStep fl s label = some s') : IntervalInv s' := by
  cases profStep_cases hstep with
  | alloc hallocated => exact hinv.alloc hready hguard hallocated
  | record hpending hrecord =>
    obtain ⟨-, hside⟩ := PprofState.recordSample_maps hrecord
    obtain ⟨h, hcell, hdrawn⟩ := hinv.pending _ _ hpending
    rw [ProfSys.SameInterval, hcell] at hguard
    have hfresh : s.history.createdAt h = s.globals.interval := hguard
    refine ⟨hinv.copied, fun t' p' hp' => ?_, ?_, hinv.unbiased.redraws, fun ptr hptr => ?_⟩
    · exact hinv.pending t' p' (MapSum.lookup_erase_cases hp').2
    · simpa [hdrawn, hfresh] using hinv.unbiased.samples
    · rw [hside, AList.mem_insert] at hptr
      rcases hptr with rfl | hold
      · exact ⟨_, List.mem_cons_self, rfl⟩
      · obtain ⟨sample, hsample, hsptr⟩ := hinv.unbiased.recorded ptr hold
        exact ⟨sample, List.mem_cons_of_mem _ hsample, hsptr⟩
  | @remove t a global state hhanded hglobal hsize hremoves hremove =>
    obtain ⟨-, hgone, hrest⟩ := PprofState.maybeRemoveSample_maps hremove
    have hcell := globalStep_dealloc_cell hglobal
    refine hinv.congr rfl rfl (fun ptr hptr => ?_) rfl (fun _ _ hptr => hcell ▸ hptr) fun _ _ =>
      congrFun hcell _
    -- a record that is left is not at the freed address
    have hne : ptr ≠ a.ptr := by
      rintro rfl
      exact AList.lookup_eq_none.mp hgone hptr
    rwa [← AList.lookup_isSome, ← hrest ptr hne, AList.lookup_isSome]
  | dealloc hhanded hglobal =>
    have hcell := globalStep_dealloc_cell hglobal
    exact hinv.congr rfl rfl (fun _ hptr => hptr) rfl (fun _ _ hptr => hcell ▸ hptr) fun _ _ =>
      congrFun hcell _
  | other hquiet hglobal =>
    obtain ⟨hcells, hkept⟩ := globalStep_quiet_cell hquiet hglobal
    exact hinv.congr rfl rfl (fun _ hptr => hptr) rfl hcells hkept
  | setPprofConfig =>
    exact hinv.congr rfl rfl (fun _ hptr => hptr) rfl (fun _ _ hcell => hcell) fun _ _ => rfl
  | dumpStart =>
    exact hinv.congr rfl rfl (fun _ hptr => hptr) rfl (fun _ _ hcell => hcell) fun _ _ => rfl
  | dumpEnd => exact hinv.congr rfl rfl (fun _ hptr => hptr) rfl (fun _ _ hcell => hcell) fun _ _ =>
    rfl

/-- In a run that samples only on heaps made under the interval in force, every sample is
unbiased. -/
theorem samples_unbiased {R : Type*} (fl : Floats R) {headers : ℕ → SlabHeader}
    {next : ℕ → Option ℕ} {links : Links ℕ QueueHead} {sampler : ℕ → Sampler R}
    {labels : List ProfLabel} {s : ProfSys R}
    (hguard : Meets (profStep fl) (ProfSys.SameInterval fl)
      (.new (.new headers next links) sampler) labels)
    (hrun : run (profStep fl) (.new (.new headers next links) sampler) labels = some s) :
    s.Unbiased := by
  have hready := globalReady_new headers next links
  have hinit : IntervalInv (ProfSys.new (.new headers next links) sampler) := by
    refine ⟨fun t h hcell => HeapCell.noConfusion hcell, ?_, ?_, ?_, ?_⟩
    all_goals simp [ProfSys.new, PprofState.new]
  have hstep (s : ProfSys R) (label : ProfLabel) (s' : ProfSys R)
      (hs : GlobalReady s.global.sys s.global.live ∧ IntervalInv s)
      (hlabel : s.SameInterval fl label) (hstep : profStep fl s label = some s') :
      GlobalReady s'.global.sys s'.global.live ∧ IntervalInv s' := by
    have hready' := profStep_ready hs.1 hstep
    exact ⟨hready', hs.2.step hready' hlabel hstep⟩
  exact (run_invariant_of_meets hstep ⟨hready, hinit⟩ hguard hrun).2.unbiased

/-- A request of two slabs, which is served from a large region. -/
def twoSlabs : Layout := ⟨0x20000, 64, ⟨6, rfl⟩, Nat.le_of_ble_eq_true rfl⟩

/-- The heap of the first thread is made before profiling is configured, that of the second after.
The first thread then asks for a region that is refused. -/
def configuredRun : List ProfLabel :=
  [.alloc 0 line (some 1) (some 0x1000000), .setPprofConfig (some 1), .alloc 1 line (some 2) none,
    .record 1 [3], .alloc 0 twoSlabs none none, .alloc 1 line none none, .record 1 [3],
    .dealloc 0 ⟨0x1000080, line⟩]

/-- Only the second heap samples, at the configured interval. -/
theorem samples_unbiased_configuredRun :
    ∃ s, run (profStep smallestDraws) idleProf configuredRun = some s ∧
    s.history.samples = [⟨0x10100c0, 1, 1⟩, ⟨0x1010080, 1, 1⟩] ∧ s.Unbiased := by
  have hcheck : (run (profStep smallestDraws) idleProf configuredRun).map
      (fun s => s.history.samples) = some [⟨0x10100c0, 1, 1⟩, ⟨0x1010080, 1, 1⟩] := by
      decide +kernel
  obtain ⟨s, hrun, hs⟩ := Option.map_eq_some_iff.mp hcheck
  exact ⟨s, hrun, hs, samples_unbiased smallestDraws (by decide +kernel) hrun⟩

/-- The heap of the thread is made before profiling is configured, and samples afterwards. -/
def earlyHeapRun : List ProfLabel :=
  [.alloc 0 line (some 1) (some 0x1000000), .setPprofConfig (some 1),
    .alloc 0 line none none, .record 0 [1]]

/-- The sample was drawn from the default interval and weighted with the configured one. -/
theorem samples_biased : ∃ s, run (profStep smallestDraws) idleProf earlyHeapRun = some s ∧
    s.history.samples = [⟨0x10000c0, 524288, 1⟩] ∧ s.history.redraws = [⟨524288, 1⟩] ∧
      ¬s.Unbiased := by
  have hcheck : (run (profStep smallestDraws) idleProf earlyHeapRun).map
      (fun s => (s.history.samples, s.history.redraws)) = some ([⟨0x10000c0, 524288, 1⟩],
        [⟨524288, 1⟩]) := by
    decide +kernel
  obtain ⟨s, hrun, hs⟩ := Option.map_eq_some_iff.mp hcheck
  obtain ⟨hsamples, hredraws⟩ := Prod.mk.inj hs
  refine ⟨s, hrun, hsamples, hredraws, fun hunbiased => ?_⟩
  have heq := hunbiased.samples _ (by rw [hsamples]; exact List.mem_singleton_self _)
  exact absurd heq (by decide)

end ClMalloc
