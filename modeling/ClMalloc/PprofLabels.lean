import ClMalloc.PprofClosed
import Mathlib.Data.List.Induction

/-!
# The size class label of a sample

The counters of a stack add up allocations of every size class, while the class of an
allocation is remembered only as long as it is live. The label of a sample is the class of the
first live record of its stack, so it is missing once the allocations of the stack are freed
and says nothing about those of another class. After any calls the labels are right exactly
when every stack with something counted has a live record and all its samples had one class.
-/

namespace ClMalloc

open Transition

/-- The frames and the class of every sample that was recorded. -/
def recordedSamples (calls : List PprofCall) : List (List ℕ × ℕ) :=
  calls.filterMap fun call =>
    match call with
    | .recordSample frames _ _ classIdx => some (frames, classIdx)
    | _ => none

/-- The classes of the samples whose weight went into the counters of a stack. -/
def PprofState.classesOf (st : PprofState) (calls : List PprofCall) (stackId : ℕ) : List ℕ :=
  (recordedSamples calls).filterMap fun sample =>
    if st.stackTable.map.lookup sample.1 = some stackId then some sample.2 else none

/-- The values of the `size_class` labels of a sample. -/
def Proto.Profile.sizeClasses (p : Proto.Profile) (s : Proto.Sample) : List (Option String) :=
  (s.label.filter fun l => p.str l.key = some "size_class").map fun l => p.str l.str

/-- The sample of every stack has one `size_class` label, the class of all samples in its values. -/
def PprofState.LabelsTrue (st : PprofState) (calls : List PprofCall) (p : Proto.Profile) : Prop :=
  List.Forall₂ (fun stack s => ∃ classIdx, p.sizeClasses s = [some (toString classIdx)] ∧
    ∀ c ∈ st.classesOf calls stack.2, c = classIdx) st.reported p.sample

/-- Every stack with something counted has a live record, and its samples had one class. -/
def PprofState.OneLiveClass (st : PprofState) (calls : List PprofCall) : Prop :=
  ∀ stack ∈ st.reported, (∃ e ∈ st.side.entries, e.2.stackId = stack.2) ∧
    ∀ c ∈ st.classesOf calls stack.2, ∀ c' ∈ st.classesOf calls stack.2, c = c'

/-- Whether the condition holds can be computed. -/
instance (st : PprofState) (calls : List PprofCall) : Decidable (st.OneLiveClass calls) :=
  inferInstanceAs (Decidable (∀ stack ∈ st.reported,
    (∃ e ∈ st.side.entries, e.2.stackId = stack.2) ∧
    ∀ c ∈ st.classesOf calls stack.2, ∀ c' ∈ st.classesOf calls stack.2, c = c'))

/-- Every record is that of a recorded sample of its stack. -/
def PprofState.RecordsKnown (st : PprofState) (calls : List PprofCall) : Prop :=
  ∀ ptr record, st.side.lookup ptr = some record →
    ∃ frames, (frames, record.classIdx) ∈ recordedSamples calls ∧
      st.stackTable.map.lookup frames = some record.stackId

/-- A stack keeps its id when another one is interned. -/
theorem StackTable.lookup_intern_of_lookup {t : StackTable} {frames frames' : List ℕ} {id : ℕ}
    (h : t.map.lookup frames' = some id) : (t.intern frames).1.map.lookup frames' = some id := by
  cases hlookup : t.map.lookup frames with
  | some _ => simpa only [StackTable.intern, hlookup] using h
  | none =>
    have hne : frames' ≠ frames := by
      rintro rfl
      rw [hlookup] at h
      cases h
    simpa only [StackTable.intern, hlookup, AList.lookup_insert_ne hne] using h

/-- An interned stack has the id that was returned. -/
theorem StackTable.lookup_intern (t : StackTable) (frames : List ℕ) :
    (t.intern frames).1.map.lookup frames = some (t.intern frames).2 := by
  cases hlookup : t.map.lookup frames with
  | some id => simp only [StackTable.intern, hlookup]
  | none => simp only [StackTable.intern, hlookup, AList.lookup_insert]

section Runs

variable {w : ℕ → ℕ → ℕ} {r r' : PprofRun} {calls : List PprofCall} {call : PprofCall}

/-- A sample recorded so far was recorded before the next call or is the next call. -/
theorem recordedSamples_append (calls : List PprofCall) (call : PprofCall) :
    recordedSamples (calls ++ [call]) = recordedSamples calls ++ recordedSamples [call] :=
      List.filterMap_append

/-- A call leaves every record that of a recorded sample. -/
theorem PprofState.RecordsKnown.step (h : r.state.RecordsKnown calls)
    (hstep : pprofStep w r call = some r') :
    r'.state.RecordsKnown (calls ++ [call]) := by
  intro p record hrecord
  rw [recordedSamples_append]
  cases call with
  | setPprofConfig config =>
    obtain rfl := Option.some.inj hstep
    obtain ⟨frames, hmem, hlookup⟩ := h p record hrecord
    exact ⟨frames, List.mem_append_left _ hmem, hlookup⟩
  | recordSample frames ptr size classIdx =>
    obtain ⟨st', hst', rfl⟩ := Option.map_eq_some_iff.mp hstep
    obtain ⟨hmap, hside⟩ := PprofState.recordSample_maps hst'
    simp only [hmap]
    simp only [hside] at hrecord
    rcases MapSum.lookup_insert_cases hrecord with ⟨-, rfl⟩ | ⟨-, hold⟩
    · exact ⟨frames, List.mem_append_right _ (List.mem_singleton_self _),
        StackTable.lookup_intern _ _⟩
    · obtain ⟨frames', hmem, hlookup⟩ := h p record hold
      exact ⟨frames', List.mem_append_left _ hmem, StackTable.lookup_intern_of_lookup hlookup⟩
  | maybeRemoveSample ptr =>
    obtain ⟨st', hst', rfl⟩ := Option.map_eq_some_iff.mp hstep
    obtain ⟨hmap, hgone, hkept⟩ := PprofState.maybeRemoveSample_maps hst'
    have hp : p ≠ ptr := by
      rintro rfl
      rw [hgone] at hrecord
      cases hrecord
    obtain ⟨frames, hmem, hlookup⟩ := h p record ((hkept p hp).symm.trans hrecord)
    exact ⟨frames, List.mem_append_left _ hmem, by rw [hmap]; exact hlookup⟩

/-- After any calls every record is that of a recorded sample. -/
theorem PprofRun.recordsKnown (hrun : run (pprofStep w) .init calls = some r) :
    r.state.RecordsKnown calls := by
  induction calls using List.reverseRecOn generalizing r with
  | nil =>
    obtain rfl := Option.some.inj hrun
    intro ptr record hrecord
    simp [PprofRun.init, PprofState.new] at hrecord
  | append_singleton calls call ih =>
    rw [run_append] at hrun
    obtain ⟨t, ht, hlast⟩ := Option.bind_eq_some_iff.mp hrun
    obtain ⟨t', hstep, hend⟩ := run_cons_eq_some.mp hlast
    obtain rfl := Option.some.inj hend
    exact (ih ht).step hstep

end Runs

section Labels

variable {resolve : Resolver} {st : PprofState} {now : Option ℕ} {interval : ℕ}
  {calls : List PprofCall}

/-- The class of a live record is one of those recorded for its stack. -/
theorem PprofState.RecordsKnown.mem_classesOf (h : st.RecordsKnown calls)
    {e : (_ : ℕ) × SampleRecord} (he : e ∈ st.side.entries) :
    e.2.classIdx ∈ st.classesOf calls e.2.stackId := by
  obtain ⟨frames, hmem, hlookup⟩ := h e.1 e.2 (lookup_of_mem_entries he)
  exact List.mem_filterMap.mpr ⟨_, hmem, if_pos hlookup⟩

/-- The class of a stack is that of one of its live records. -/
theorem PprofState.classOf_eq_some {stackId c : ℕ} (h : st.classOf stackId = some c) :
    ∃ e ∈ st.side.entries, e.2.stackId = stackId ∧ e.2.classIdx = c := by
  obtain ⟨e, hhead, hclass⟩ := Option.map_eq_some_iff.mp h
  obtain ⟨he, hid⟩ := List.mem_filter.mp (List.mem_of_mem_head? hhead)
  exact ⟨e, he, of_decide_eq_true hid, hclass⟩

/-- A stack with a live record has a class. -/
theorem PprofState.exists_classOf {e : (_ : ℕ) × SampleRecord} (he : e ∈ st.side.entries) :
    ∃ c, st.classOf e.2.stackId = some c := by
  have hmem : e ∈ st.side.entries.filter fun e' => e'.2.stackId = e.2.stackId :=
    List.mem_filter.mpr ⟨he, decide_eq_true rfl⟩
  have hhead := List.head?_eq_some_head (List.ne_nil_of_mem hmem)
  exact ⟨_, by rw [PprofState.classOf, hhead]; rfl⟩

/-- The `size_class` labels of a sample are that of the first record. -/
theorem PprofState.sizeClasses_sampleOf {stack : (_ : List ℕ) × ℕ} (h : stack ∈ st.reported) :
    (st.profile resolve now interval).sizeClasses (st.sampleOf (st.strings resolve) stack) =
      (st.classOf stack.2).toList.map fun c => some (toString c) := by
  cases hclass : st.classOf stack.2 with
  | none => simp [Proto.Profile.sizeClasses, PprofState.sampleOf, hclass]
  | some c =>
    have hkey : (st.profile resolve now interval).str
        ((st.strings resolve).idxOf "size_class" : ℤ) =
        some "size_class" := PprofState.str_idxOf (PprofState.mem_strings_fixed (by decide))
    have hstr : (st.profile resolve now interval).str
        ((st.strings resolve).idxOf (toString c) : ℤ) =
        some (toString c) := PprofState.str_idxOf (PprofState.mem_strings_class h hclass)
    simp only [Proto.Profile.sizeClasses, PprofState.sampleOf, hclass, Option.toList_some,
      List.map_cons, List.map_nil, List.filter_cons, hkey, decide_true, if_true,
      List.filter_nil, hstr]

/-- The labels of the profile of a state are right exactly under the condition. -/
theorem PprofState.RecordsKnown.labelsTrue_iff (h : st.RecordsKnown calls) :
    st.LabelsTrue calls (st.profile resolve now interval) ↔ st.OneLiveClass calls := by
  have hpair : st.LabelsTrue calls (st.profile resolve now interval) ↔ ∀ stack ∈ st.reported,
      ∃ classIdx, ((st.classOf stack.2).toList.map fun c => some (toString c)) =
        [some (toString classIdx)] ∧ ∀ c ∈ st.classesOf calls stack.2, c = classIdx := by
    have hsample : (st.profile resolve now interval).sample = st.reported.map
        (st.sampleOf (st.strings resolve)) := rfl
    rw [PprofState.LabelsTrue, hsample, List.forall₂_map_right_iff, List.forall₂_same]
    refine forall₂_congr fun stack hstack => ?_
    rw [PprofState.sizeClasses_sampleOf hstack]
  rw [hpair]
  unfold PprofState.OneLiveClass
  refine forall₂_congr fun stack hstack => ?_
  constructor
  · rintro ⟨classIdx, hlabel, hall⟩
    refine ⟨?_, fun c hc c' hc' => (hall c hc).trans (hall c' hc').symm⟩
    cases hclass : st.classOf stack.2 with
    | none => simp [hclass] at hlabel
    | some c =>
      obtain ⟨e, he, hid, -⟩ := PprofState.classOf_eq_some hclass
      exact ⟨e, he, hid⟩
  · rintro ⟨⟨e, he, hid⟩, hsame⟩
    obtain ⟨c, hclass⟩ := PprofState.exists_classOf he
    rw [hid] at hclass
    obtain ⟨e', he', hid', hc⟩ := PprofState.classOf_eq_some hclass
    have hmem := h.mem_classesOf he'
    rw [hid', hc] at hmem
    exact ⟨c, by rw [hclass]; rfl, fun c' hc' => hsame c' hc' c hmem⟩

/-- Reordering the tables changes no record. -/
theorem PprofState.RecordsKnown.reordered {st' : PprofState} (h : st.RecordsKnown calls)
    (horder : st.Reordered st') :
    st'.RecordsKnown calls := by
  intro ptr record hrecord
  rw [← AList.perm_lookup horder.side] at hrecord
  obtain ⟨frames, hmem, hlookup⟩ := h ptr record hrecord
  exact ⟨frames, hmem, by rwa [← AList.perm_lookup horder.map]⟩

end Labels

/-- After any calls, in whatever order the tables are iterated over, every sample of a dump has one
`size_class` label that is the class of all allocations in its values exactly when every stack with
something counted has a live record and its samples had one class. -/
theorem class_labels_true_iff (w : ℕ → ℕ → ℕ) (calls : List PprofCall) {r : PprofRun}
    (hrun : run (pprofStep w) .init calls = some r) {st : PprofState}
    (horder : r.state.Reordered st) (resolve : Resolver) (now : Option ℕ) {interval : ℕ}
    (hinterval : interval < 0x10000000000000000) {bytes : List UInt8}
    (hbytes : st.buildProfile resolve now interval = .ok bytes) :
    ∃ p, Proto.Profile.parse bytes = some p ∧ (st.LabelsTrue calls p ↔ st.OneLiveClass calls) := by
  obtain ⟨r', hrun', hsound⟩ := PprofRun.exists_run_sound w calls
  obtain rfl := Option.some.inj (hrun'.symm.trans hrun)
  have hknown := (PprofRun.recordsKnown hrun).reordered horder
  have hparse := PprofState.parse_of_buildProfile (hsound.reordered horder).inRange hinterval hbytes
  exact ⟨st.profile resolve now interval, hparse, hknown.labelsTrue_iff⟩

/-- A run whose dump fits a buffer ends with a dump. -/
theorem PprofRun.exists_dump (w : ℕ → ℕ → ℕ) (calls : List PprofCall) (P : PprofState → Prop)
    [DecidablePred P] (resolve : Resolver) (now : Option ℕ) (interval : ℕ)
    (hinterval : interval < 0x10000000000000000)
    (h : (run (pprofStep w) .init calls).map (fun r =>
      decide
    ((r.state.profile resolve now interval).bytes.length ≤ isizeMax ∧ P r.state)) = some true) :
    ∃ r bytes, run (pprofStep w) .init calls = some r ∧ P r.state ∧
      r.state.buildProfile resolve now interval = .ok bytes := by
  obtain ⟨r', hrun', hsound⟩ := PprofRun.exists_run_sound w calls
  obtain ⟨r, hrun, hr⟩ := Option.map_eq_some_iff.mp h
  obtain rfl := Option.some.inj (hrun'.symm.trans hrun)
  obtain ⟨hlength, hP⟩ := of_decide_eq_true hr
  refine ⟨r', (r'.state.profile resolve now interval).bytes, hrun, hP, ?_⟩
  rw [PprofState.buildProfile_eq hsound.inRange hinterval hsound.hasCounters, if_pos hlength]

/-- The order the tables are in is one of their orders. -/
theorem PprofState.Reordered.refl (st : PprofState) : st.Reordered st :=
  ⟨List.Perm.refl _, rfl, List.Perm.refl _⟩

/-- Two allocations of one stack and class, one of them freed. -/
def sameClassRun : List PprofCall :=
  [.setPprofConfig (some 1), .recordSample [1, 2] 0x1000 64 9, .recordSample [1, 2] 0x2000 64 9,
    .maybeRemoveSample 0x1000]

/-- The label stays right while an allocation of the only class is live. -/
theorem class_labels_true_iff_sameClass :
    ∃ r bytes, run (pprofStep coarseWeight) .init sameClassRun = some r ∧
      r.state.buildProfile (fun _ => []) none 1 = .ok bytes ∧
      ∃ p, Proto.Profile.parse bytes = some p ∧ r.state.LabelsTrue sameClassRun p := by
  obtain ⟨r, bytes, hrun, hone, hbytes⟩ := PprofRun.exists_dump coarseWeight sameClassRun
    (fun st => st.OneLiveClass sameClassRun) (fun _ => []) none 1 (by decide) (by decide +kernel)
  obtain ⟨p, hparse, hiff⟩ := class_labels_true_iff coarseWeight sameClassRun hrun (.refl _)
    (fun _ => []) none (by decide) hbytes
  exact ⟨r, bytes, hrun, hbytes, p, hparse, hiff.mpr hone⟩

/-- The labels of the dump after a run are wrong when the condition fails. -/
theorem PprofRun.exists_labels_false (w : ℕ → ℕ → ℕ) (calls : List PprofCall)
    (h : (run (pprofStep w) .init calls).map (fun r =>
      decide ((r.state.profile (fun _ => []) none 1).bytes.length ≤ isizeMax ∧
        ¬r.state.OneLiveClass calls)) = some true) :
    ∃ r bytes p, run (pprofStep w) .init calls = some r ∧
      r.state.buildProfile (fun _ => []) none 1 = .ok bytes ∧
      Proto.Profile.parse bytes = some p ∧ ¬r.state.LabelsTrue calls p := by
  obtain ⟨r', hrun', hsound⟩ := PprofRun.exists_run_sound w calls
  obtain ⟨r, bytes, hrun, hnot, hbytes⟩ :=
    PprofRun.exists_dump w calls (fun st => ¬st.OneLiveClass calls)
    (fun _ => []) none 1 (by decide) h
  obtain rfl := Option.some.inj (hrun'.symm.trans hrun)
  have hparse := PprofState.parse_of_buildProfile hsound.inRange (by decide) hbytes
  exact ⟨r', bytes, _, hrun, hbytes, hparse,
    fun hlabels => hnot ((PprofRun.recordsKnown hrun).labelsTrue_iff.mp hlabels)⟩

/-- An allocation that is freed. -/
def freedRun : List PprofCall :=
  [.setPprofConfig (some 1), .recordSample [1, 2] 0x1000 64 9, .maybeRemoveSample 0x1000]

/-- Two allocations of one stack in different classes. -/
def twoClassRun : List PprofCall :=
  [.setPprofConfig (some 1), .recordSample [1, 2] 0x1000 64 9, .recordSample [1, 2] 0x2000 16 4]

/-- The values of a freed allocation have no label, and those of two classes are reported under
one. -/
theorem class_labels_false :
    (∃ r bytes p, run (pprofStep coarseWeight) .init freedRun = some r ∧
      r.state.buildProfile (fun _ => []) none 1 = .ok bytes ∧ Proto.Profile.parse bytes = some p ∧
      ¬r.state.LabelsTrue freedRun p) ∧
    ∃ r bytes p, run (pprofStep coarseWeight) .init twoClassRun = some r ∧
      r.state.buildProfile (fun _ => []) none 1 = .ok bytes ∧ Proto.Profile.parse bytes = some p ∧
      ¬r.state.LabelsTrue twoClassRun p :=
  ⟨PprofRun.exists_labels_false _ _ (by decide +kernel),
    PprofRun.exists_labels_false _ _ (by decide +kernel)⟩

end ClMalloc
