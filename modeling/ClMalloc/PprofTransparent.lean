import ClMalloc.PprofSide
import ClMalloc.PprofClosed

/-!
# The profiler does not disturb the allocator

The steps of the profiled allocator, without the recordings, dumps and configurations among
them, are steps of the allocator alone: it serves and frees the same addresses and keeps the
same books. What the profiler allocates for itself while it records is among these steps.
And the profiler refuses nothing: an allocation, or a free of what the program was handed,
that the allocator can do next it can do with its hooks, and no hook finds a stack without
counters.
-/

namespace ClMalloc

open Transition Intrusive

/-- What the allocator alone does. -/
def ProfLabel.erased : ProfLabel → List GlobalLabel
  | .alloc t layout malloc reply => [.alloc t layout malloc reply]
  | .dealloc t a => [.dealloc t a]
  | .other label => [label]
  | .record _ _ => []
  | .setPprofConfig _ => []
  | .dumpStart _ => []
  | .dumpEnd _ => []

variable {R : Type*} {fl : Floats R} {s s' : ProfSys R} {t : ℕ} {a : Allocation} {r : GlobalRun}
  {layout : Layout} {malloc reply : Option ℕ}

/-- A step of the profiled allocator is what is left of it. -/
theorem profStep_erased {label : ProfLabel} (hstep : profStep fl s label = some s') :
    run globalStep s.global label.erased = some s'.global := by
  have hone {label : GlobalLabel} {global : GlobalRun}
      (hglobal : globalStep s.global label = some global) :
      run globalStep s.global [label] = some global := run_cons_eq_some.mpr ⟨_, hglobal, rfl⟩
  cases profStep_cases hstep with
  | alloc hallocated => exact hone hallocated.global
  | record => rfl
  | remove _ hglobal => exact hone hglobal
  | dealloc _ hglobal => exact hone hglobal
  | other _ hglobal => exact hone hglobal
  | setPprofConfig => rfl
  | dumpStart => rfl
  | dumpEnd => rfl

/-- The sampler does not touch the tables. -/
theorem ProfSys.Allocated.state (hallocated : ProfSys.Allocated fl s s' t layout malloc reply) :
    s'.state = s.state := by
  rcases hallocated with ⟨sys, result, -, -, rfl⟩ | ⟨sys, ptr, h, -, -, -, rfl⟩
  · exact (s.openHeap_kept fl t sys).state
  · rw [(ProfSys.maybeSample_cases fl _ t h _).side.1]
    exact (s.openHeap_kept fl t sys).state

/-- Every step leaves the tables sound. -/
theorem profStep_state_sound (hsound : s.state.Sound) {label : ProfLabel}
    (hstep : profStep fl s label = some s') :
    s'.state.Sound := by
  cases profStep_cases hstep with
  | alloc hallocated =>
    rw [hallocated.state]
    exact hsound
  | @record t frames p state hpending hrecord =>
    obtain ⟨state', hstate', hsound'⟩ :=
      hsound.recordSample fl.unbiasedWeight s.globals.interval frames p.ptr p.size p.classIdx
    rw [hrecord] at hstate'
    cases hstate'
    exact hsound'
  | @remove t a global state hhanded hglobal hsize hremoves hremove =>
    obtain ⟨state', hstate', hsound'⟩ :=
      hsound.maybeRemoveSample fl.unbiasedWeight s.globals.interval a.ptr
    rw [hremove] at hstate'
    cases hstate'
    exact hsound'
  | dealloc => exact hsound
  | other => exact hsound
  | setPprofConfig => exact hsound
  | dumpStart => exact hsound
  | dumpEnd => exact hsound

/-- An allocation the allocator can make it makes with the hook. -/
theorem ProfSys.alloc_enabled
    (hglobal : globalStep s.global (.alloc t layout malloc reply) = some r) :
    ∃ s', profStep fl s (.alloc t layout malloc reply) = some s' ∧ s'.global = r := by
  obtain ⟨s', hs'⟩ : ∃ s', s.alloc fl t layout malloc reply = some s' := by
    simp only [globalStep] at hglobal
    unfold ProfSys.alloc
    split at hglobal <;> cases hglobal
    · rename_i halloc
      simp only [halloc]
      split
      · exact ⟨_, rfl⟩
      · split <;> exact ⟨_, rfl⟩
    · rename_i halloc
      simp only [halloc]
      exact ⟨_, rfl⟩
  have hsame := (ProfSys.alloc_cases hs').global
  rw [hglobal] at hsame
  exact ⟨s', hs', (Option.some.inj hsame).symm⟩

/-- A free the allocator can make it makes with the hook. -/
theorem ProfSys.dealloc_enabled (hsound : s.state.Sound) (hhanded : s.Handed a)
    (hglobal : globalStep s.global (.dealloc t a) = some r) :
    ∃ s', profStep fl s (.dealloc t a) = some s' ∧ s'.global = r := by
  simp only [profStep, if_pos hhanded, ProfSys.dealloc, hglobal]
  by_cases hremoves : a.layout.size ≠ 0 ∧ s.Removes t
  · obtain ⟨state, hstate, -⟩ := hsound.maybeRemoveSample fl.unbiasedWeight s.globals.interval a.ptr
    rw [if_pos hremoves, hstate]
    exact ⟨_, rfl, rfl⟩
  · rw [if_neg hremoves]
    exact ⟨_, rfl, rfl⟩

/-- A run with the profiler is a run without it, and every allocation and every free of an
allocation in the program's hands that the allocator can do next it can do with the profiler, to the
same effect. -/
theorem profiler_transparent (fl : Floats R) {headers : ℕ → SlabHeader} {next : ℕ → Option ℕ}
    {links : Links ℕ QueueHead} {sampler : ℕ → Sampler R} {labels : List ProfLabel}
    (hrun : run (profStep fl) (.new (.new headers next links) sampler) labels = some s) :
    run globalStep (.new headers next links) (labels.flatMap ProfLabel.erased) = some s.global ∧
      (∀ t layout malloc reply r, globalStep s.global (.alloc t layout malloc reply) = some r →
        ∃ s', profStep fl s (.alloc t layout malloc reply) = some s' ∧ s'.global = r) ∧
      ∀ t a r, s.Handed a → globalStep s.global (.dealloc t a) = some r →
        ∃ s', profStep fl s (.dealloc t a) = some s' ∧ s'.global = r := by
  have hsound : s.state.Sound :=
    run_invariant (I := fun s : ProfSys R => s.state.Sound)
      (fun _ _ _ h hstep => profStep_state_sound h hstep)
      PprofState.sound_new hrun
  refine ⟨?_, ?_, ?_⟩
  · exact run_flatMap (g := ProfSys.global) (fun _ _ _ hstep => profStep_erased hstep) hrun
  · exact fun t layout malloc reply r hglobal => ProfSys.alloc_enabled hglobal
  · exact fun t a r hhanded hglobal => ProfSys.dealloc_enabled hsound hhanded hglobal

/-- Two samples, of which one is still being recorded. -/
theorem profiler_transparent_sampledRun :
    ∃ s, run (profStep smallestDraws) idleProf (sampledRun.take 4) = some s ∧
    s.recording.keys = [1] ∧
    run globalStep idleGlobal ((sampledRun.take 4).flatMap ProfLabel.erased) = some s.global ∧
      (∀ t layout malloc reply r, globalStep s.global (.alloc t layout malloc reply) = some r →
        ∃ s', profStep smallestDraws s (.alloc t layout malloc reply) = some s' ∧ s'.global = r) ∧
      ∀ t a r, s.Handed a → globalStep s.global (.dealloc t a) = some r →
        ∃ s', profStep smallestDraws s (.dealloc t a) = some s' ∧ s'.global = r := by
  have hcheck : (run (profStep smallestDraws) idleProf (sampledRun.take 4)).map
      (fun s => decide (s.recording.keys = [1])) = some true := by decide +kernel
  obtain ⟨s, hrun, hs⟩ := Option.map_eq_some_iff.mp hcheck
  exact ⟨s, hrun, of_decide_eq_true hs, profiler_transparent smallestDraws hrun⟩

end ClMalloc
