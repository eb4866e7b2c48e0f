import ClMalloc.PprofSystem
import ClMalloc.PprofLive

/-!
# The side table and the live allocations

A record is made for an allocation that is live, and is taken out again by the free of its
address. The two ends look at different conditions, so a free can leave its record behind:
while profiling is inactive, inside the reentrancy guard, and by a thread without a heap. In
a run where no free of a recorded address does so, the side table is always about the
allocations that are live.
-/

namespace ClMalloc

open Transition Intrusive

variable {R : Type*} {fl : Floats R} {s s' : ProfSys R} {t ptr : ℕ} {a : Allocation}

/-- An allocation that lives at the address is described, and is the one with the number. -/
def ProfSys.Describes (s : ProfSys R) (ptr size classIdx number : ℕ) : Prop :=
  ∃ a ∈ s.global.live, a.ptr = ptr ∧ size = servedBytes a.layout ∧
    classIdx = sampledClass a.layout ∧ number = s.history.born ptr

/-- Each record describes the one allocation that lives at its address, which is the one it was made
for. -/
def ProfSys.Current (s : ProfSys R) : Prop :=
  (∀ ptr record, s.state.side.lookup ptr = some record →
    s.Describes ptr record.size record.classIdx (s.history.sampledFor ptr)) ∧
  (s.global.live.map Allocation.ptr).Nodup

/-- A free of an address with a record reaches `maybe_remove_sample` and gets the guard. -/
def ProfSys.Tracked (s : ProfSys R) : ProfLabel → Prop
  | .dealloc t a => a.layout.size ≠ 0 → a.ptr ∈ s.state.side → s.Removes t
  | _ => True

/-- Whether a step is tracked can be computed. -/
instance (s : ProfSys R) : (label : ProfLabel) → Decidable (s.Tracked label)
  | .dealloc t a =>
    inferInstanceAs (Decidable (a.layout.size ≠ 0 → a.ptr ∈ s.state.side → s.Removes t))
  | .alloc .. | .record .. | .other _ | .setPprofConfig _ | .dumpStart _ | .dumpEnd _ =>
    isTrue trivial

/-- The records and the samples being recorded describe live allocations. -/
structure SideInv (s : ProfSys R) : Prop where
  ready : GlobalReady s.global.sys s.global.live
  records : ∀ ptr record, s.state.side.lookup ptr = some record →
    s.Describes ptr record.size record.classIdx (s.history.sampledFor ptr)
  pending : ∀ t p, s.recording.lookup t = some p → s.Describes p.ptr p.size p.classIdx p.number

/-- What is described stays described while the allocations and their numbers stay. -/
theorem ProfSys.Describes.congr {size classIdx number : ℕ}
    (h : s.Describes ptr size classIdx number) (hlive : s'.global.live = s.global.live)
    (hborn : s'.history.born = s.history.born) :
    s'.Describes ptr size classIdx number := by
  unfold ProfSys.Describes
  rw [hlive, hborn]
  exact h

/-- A new allocation at another address leaves what is described. -/
theorem ProfSys.Describes.grant {size classIdx number : ℕ}
    (h : s.Describes ptr size classIdx number) (hnew : a.ptr ∉ s.global.live.map Allocation.ptr)
    (hlive : s'.global.live = a :: s.global.live)
    (hborn : s'.history.born = Function.update s.history.born a.ptr s.history.allocated) :
    s'.Describes ptr size classIdx number := by
  obtain ⟨b, hb, hptr, hsize, hclass, hnumber⟩ := h
  have hne : ptr ≠ a.ptr := by
    rintro rfl
    exact hnew (hptr ▸ List.mem_map_of_mem hb)
  refine ⟨b, by rw [hlive]; exact List.mem_cons_of_mem _ hb, hptr, hsize, hclass, ?_⟩
  rw [hborn, Function.update_of_ne hne]
  exact hnumber

/-- The free of another address leaves what is described. -/
theorem ProfSys.Describes.free {size classIdx number : ℕ} (h : s.Describes ptr size classIdx number)
    (hne : ptr ≠ a.ptr) (hlive : s'.global.live = s.global.live.erase a)
    (hborn : s'.history.born = s.history.born) : s'.Describes ptr size classIdx number := by
  obtain ⟨b, hb, hptr, hsize, hclass, hnumber⟩ := h
  refine ⟨b, ?_, hptr, hsize, hclass, by rw [hborn]; exact hnumber⟩
  rw [hlive]
  refine (List.mem_erase_of_ne ?_).mpr hb
  rintro rfl
  exact hne hptr.symm

/-- A visit to the sampler keeps the tables and may start to record the allocation. -/
theorem ProfSys.Sampled.side {h : ℕ} (hsampled : ProfSys.Sampled fl s s' t h a) :
    s'.state = s.state ∧ s'.history.born = s.history.born ∧
      s'.history.sampledFor = s.history.sampledFor ∧
      ∀ t' p, s'.recording.lookup t' = some p → s.recording.lookup t' = some p ∨
        (p.ptr = a.ptr ∧ p.size = servedBytes a.layout ∧ p.classIdx = sampledClass a.layout ∧
          p.number = s.history.born a.ptr) := by
  rcases hsampled with ⟨sampler, -, rfl⟩ | ⟨sampler, s₁, -, -, rfl, rfl⟩
  · exact ⟨rfl, rfl, rfl, fun _ _ hp => .inl hp⟩
  · obtain heq | heq := ProfSys.startRecord_cases _ t _ <;> rw [heq]
    · exact ⟨rfl, rfl, rfl, fun _ _ hp => .inl hp⟩
    · refine ⟨rfl, rfl, rfl, fun t' p hp => ?_⟩
      rcases MapSum.lookup_insert_cases hp with ⟨-, rfl⟩ | ⟨-, hold⟩
      · exact .inr ⟨rfl, rfl, rfl, rfl⟩
      · exact .inl hold

/-- An allocation keeps the records current. -/
theorem SideInv.alloc {layout : Layout} {malloc reply : Option ℕ} (hinv : SideInv s)
    (hready : GlobalReady s'.global.sys s'.global.live)
    (hallocated : ProfSys.Allocated fl s s' t layout malloc reply) : SideInv s' := by
  rcases hallocated with ⟨sys, result, -, -, rfl⟩ | ⟨sys, ptr, h, hsize, -, -, rfl⟩
  · have hkept := s.openHeap_kept fl t sys
    refine ⟨hready, fun ptr record hrec => ?_, fun t' p hp => ?_⟩
    · simp only [hkept.state] at hrec
      simp only [hkept.sampledFor]
      exact (hinv.records ptr record hrec).congr (by simp [hkept.global]) hkept.born
    · simp only [hkept.recording] at hp
      exact (hinv.pending t' p hp).congr (by simp [hkept.global]) hkept.born
  · have hkept := s.openHeap_kept fl t sys
    have hsampled := ProfSys.maybeSample_cases fl
      (ProfSys.grant { s.openHeap fl t sys with global.sys := sys } ⟨ptr, layout⟩) t h ⟨ptr, layout⟩
    generalize ProfSys.maybeSample fl _ t h _ = s' at *
    obtain ⟨hstate, hborn, hsampledFor, hrecording⟩ := hsampled.side
    have hlive : s'.global.live = ⟨ptr, layout⟩ :: s.global.live := by
      rw [hsampled.global]
      simp [ProfSys.grant, hkept.global]
    have hborn' : s'.history.born = Function.update s.history.born ptr s.history.allocated := by
      rw [hborn]
      simp [ProfSys.grant, hkept.born, hkept.allocated]
    have hnew : ptr ∉ s.global.live.map Allocation.ptr := by
      have honce := hready.liveOnce
      rw [hlive, List.map_cons, List.nodup_cons] at honce
      exact honce.1
    refine ⟨hready, fun ptr' record hrec => ?_, fun t' p hp => ?_⟩
    · rw [hstate] at hrec
      rw [hsampledFor]
      simp only [ProfSys.grant, hkept.state, hkept.sampledFor] at hrec ⊢
      exact (hinv.records ptr' record hrec).grant hnew hlive hborn'
    · rcases hrecording t' p hp with hold | ⟨hptr, hpsize, hclass, hnumber⟩
      · simp only [ProfSys.grant, hkept.recording] at hold
        exact (hinv.pending t' p hold).grant hnew hlive hborn'
      · refine ⟨⟨ptr, layout⟩, by rw [hlive]; exact List.mem_cons_self, hptr.symm,
          hpsize, hclass, ?_⟩
        rw [hnumber, hptr, hborn]

/-- The free of a live allocation leaves the records at other addresses, and the samples being
recorded, current. -/
theorem SideInv.free (hinv : SideInv s) (hready : GlobalReady s'.global.sys s'.global.live)
    (hhanded : s.Handed a) (hlive : s'.global.live = s.global.live.erase a)
    (hrecording : s'.recording = s.recording) (hhistory : s'.history = s.history)
    (hgone : s'.state.side.lookup a.ptr = none)
    (hrest : ∀ p ≠ a.ptr, s'.state.side.lookup p = s.state.side.lookup p) : SideInv s' := by
  refine ⟨hready, fun ptr record hrec => ?_, fun t' p hp => ?_⟩
  · have hne : ptr ≠ a.ptr := by
      rintro rfl
      rw [hgone] at hrec
      cases hrec
    rw [hrest ptr hne] at hrec
    rw [hhistory]
    exact (hinv.records ptr record hrec).free hne hlive (by rw [hhistory])
  · rw [hrecording] at hp
    exact (hinv.pending t' p hp).free (hhanded ⟨t', p⟩ (AList.mem_lookup_iff.mp hp)) hlive
      (by rw [hhistory])

/-- A free removes the allocation it is given from the live ones. -/
theorem globalStep_dealloc_live {r r' : GlobalRun} (hstep : globalStep r (.dealloc t a) = some r') :
    r'.live = r.live.erase a := by
  cases globalStep_cases hstep with
  | deallocEmpty hlive => exact (List.erase_of_not_mem hlive).symm
  | dealloc => rfl

/-- The other operations of the allocator leave the live allocations. -/
theorem globalStep_quiet_live {label : GlobalLabel} {global : GlobalRun} (hquiet : s.Quiet label)
    (hstep : globalStep s.global label = some global) : global.live = s.global.live := by
  cases globalStep_cases hstep with
  | allocEmpty => exact hquiet.elim
  | alloc => exact hquiet.elim
  | allocNull => exact hquiet.elim
  | deallocEmpty => exact hquiet.elim
  | dealloc => exact hquiet.elim
  | exit => rfl
  | write => rfl
  | scribble => rfl

/-- The tables and what is being recorded stay, and so does what is live. -/
theorem SideInv.congr (hinv : SideInv s) (hready : GlobalReady s'.global.sys s'.global.live)
    (hlive : s'.global.live = s.global.live) (hstate : s'.state = s.state)
    (hrecording : s'.recording = s.recording) (hhistory : s'.history = s.history) : SideInv s' := by
  refine ⟨hready, fun ptr record hrec => ?_, fun t' p hp => ?_⟩
  · rw [hstate] at hrec
    rw [hhistory]
    exact (hinv.records ptr record hrec).congr hlive (by rw [hhistory])
  · rw [hrecording] at hp
    exact (hinv.pending t' p hp).congr hlive (by rw [hhistory])

/-- Every tracked step keeps the records current. -/
theorem SideInv.step {label : ProfLabel} (hinv : SideInv s) (htracked : s.Tracked label)
    (hstep : profStep fl s label = some s') : SideInv s' := by
  have hready := profStep_ready hinv.ready hstep
  cases profStep_cases hstep with
  | alloc hallocated => exact hinv.alloc hready hallocated
  | record hpending hrecord =>
    obtain ⟨-, hside⟩ := PprofState.recordSample_maps hrecord
    refine ⟨hready, fun ptr record hrec => ?_, fun t' p' hp' => ?_⟩
    · simp only [hside] at hrec
      rcases MapSum.lookup_insert_cases hrec with ⟨rfl, rfl⟩ | ⟨hptr, hold⟩
      · simp only [Function.update_self]
        exact (hinv.pending _ _ hpending).congr rfl rfl
      · simp only [Function.update_of_ne hptr]
        exact (hinv.records ptr record hold).congr rfl rfl
    · exact (hinv.pending t' p' (MapSum.lookup_erase_cases hp').2).congr rfl rfl
  | remove hhanded hglobal hsize hremoves hremove =>
    obtain ⟨-, hgone, hrest⟩ := PprofState.maybeRemoveSample_maps hremove
    exact hinv.free hready hhanded (globalStep_dealloc_live hglobal) rfl rfl hgone hrest
  | @dealloc t a global hhanded hglobal hkept =>
    have hlive := globalStep_dealloc_live hglobal
    by_cases hsize : a.layout.size = 0
    · have hnot : a ∉ s.global.live := fun hmem => by
        obtain ⟨lists, hheaps⟩ := hinv.ready.ready
        have := (hheaps.inv.serves a hmem).1
        omega
      rw [List.erase_of_not_mem hnot] at hlive
      exact hinv.congr hready hlive rfl rfl rfl
    · -- the tracked free of a recorded address would have taken the record out
      have hgone : s.state.side.lookup a.ptr = none :=
        AList.lookup_eq_none.mpr fun hmem => hkept ⟨hsize, htracked hsize hmem⟩
      exact hinv.free hready hhanded hlive rfl rfl hgone fun _ _ => rfl
  | other hquiet hglobal =>
    exact hinv.congr hready (globalStep_quiet_live hquiet hglobal) rfl rfl rfl
  | setPprofConfig => exact hinv.congr hready rfl rfl rfl rfl
  | dumpStart => exact hinv.congr hready rfl rfl rfl rfl
  | dumpEnd => exact hinv.congr hready rfl rfl rfl rfl

/-- In a run whose frees of recorded addresses remove the record, the side table is about what is
live. -/
theorem side_table_current {R : Type*} (fl : Floats R) {headers : ℕ → SlabHeader}
    {next : ℕ → Option ℕ} {links : Links ℕ QueueHead} {sampler : ℕ → Sampler R}
    {labels : List ProfLabel} {s : ProfSys R}
    (htracked : Meets (profStep fl) ProfSys.Tracked (.new (.new headers next links) sampler) labels)
    (hrun : run (profStep fl) (.new (.new headers next links) sampler) labels = some s) :
    s.Current := by
  have hinit : SideInv (ProfSys.new (.new headers next links) sampler) :=
    ⟨globalReady_new headers next links, by simp [ProfSys.new, PprofState.new],
      by simp [ProfSys.new]⟩
  have hinv : SideInv s := run_invariant_of_meets
    (fun _ _ _ h hlabel => h.step hlabel) hinit htracked hrun
  exact ⟨hinv.records, hinv.ready.liveOnce⟩

/-- Every countdown drawn is one, the smallest there is. -/
def smallestDraws : Floats Unit := ⟨fun _ => (), fun rng _ => (1, rng), coarseWeight⟩

/-- The allocator before its first call, and no sampler made yet. -/
def idleProf : ProfSys Unit := .new idleGlobal fun _ => ⟨0, (), 0⟩

/-- Two threads sample an allocation each, and the first frees that of the second. -/
def sampledRun : List ProfLabel :=
  [.setPprofConfig (some 1), .alloc 0 line (some 1) (some 0x1000000), .record 0 [1, 2],
    .alloc 1 line (some 2) none, .record 1 [3], .dealloc 0 ⟨0x1010080, line⟩, .setPprofConfig none]

/-- One record is left, of the allocation that is left. -/
theorem side_table_current_sampledRun :
    ∃ s, run (profStep smallestDraws) idleProf sampledRun = some s ∧
    s.state.side.keys = [0x1000080] ∧ s.global.live = [⟨0x1000080, line⟩] ∧ s.Current := by
  have hcheck : (run (profStep smallestDraws) idleProf sampledRun).map (fun s => decide
      (s.state.side.keys = [0x1000080] ∧
        s.global.live = [⟨0x1000080, line⟩])) = some true := by decide +kernel
  obtain ⟨s, hrun, hs⟩ := Option.map_eq_some_iff.mp hcheck
  obtain ⟨hkeys, hlive⟩ := of_decide_eq_true hs
  exact ⟨s, hrun, hkeys, hlive, side_table_current smallestDraws (by decide +kernel) hrun⟩

/-- A sampled allocation is freed by a thread that never allocated. -/
def heaplessFreeRun : List ProfLabel :=
  [.setPprofConfig (some 1), .alloc 0 line (some 1) (some 0x1000000), .record 0 [1],
    .dealloc 1 ⟨0x1000080, line⟩]

/-- Nothing is live any more, but the record of the freed allocation is still there. -/
theorem side_table_stale : ∃ s, run (profStep smallestDraws) idleProf heaplessFreeRun = some s ∧
    s.state.side.keys = [0x1000080] ∧ s.global.live = [] ∧ ¬s.Current := by
  have hcheck : (run (profStep smallestDraws) idleProf heaplessFreeRun).map (fun s => decide
      (s.state.side.keys = [0x1000080] ∧ s.global.live = [])) = some true := by decide +kernel
  obtain ⟨s, hrun, hs⟩ := Option.map_eq_some_iff.mp hcheck
  obtain ⟨hkeys, hlive⟩ := of_decide_eq_true hs
  refine ⟨s, hrun, hkeys, hlive, fun hcurrent => ?_⟩
  have hmem : 0x1000080 ∈ s.state.side :=
    AList.mem_keys.mpr (by rw [hkeys]; exact List.mem_singleton_self _)
  obtain ⟨record, hrec⟩ := Option.isSome_iff_exists.mp (AList.lookup_isSome.mpr hmem)
  obtain ⟨a, ha, -⟩ := hcurrent.1 _ _ hrec
  rw [hlive] at ha
  cases ha

end ClMalloc
