import ClMalloc.Metrics
import Mathlib.Data.List.AList

/-!
# The heap profiler

A heap's `Sampler` counts the bytes it serves down to the next sample. A sample interns its
call stack in the `StackTable`, adds its weight to the counters of the stack and leaves a
record under its address in the `SideTable`; the free of the address takes the record out
and the weight back. The weight is computed from the size and from the sample interval in
force at either end. A hash map is the list of its entries in the order it iterates over them.
-/

namespace ClMalloc

/-- `DEFAULT_SAMPLE_INTERVAL`. -/
def defaultSampleInterval : ℕ := 512 * 1024

/-- The values of the type `StackId`, a `u32`. -/
def stackIdLimit : ℕ := 0x100000000

/-- `cast_signed` of a `u64`. -/
def castSigned (n : ℕ) : ℤ := i64 n

/-- `PROF_ACTIVE` and `SAMPLE_INTERVAL`. -/
structure PprofGlobals where
  active : Bool
  interval : ℕ
  deriving DecidableEq

/-- The values the two statics start with. -/
def PprofGlobals.init : PprofGlobals := ⟨false, defaultSampleInterval⟩

/-- `set_pprof_config`; the assertion fires before either store, so a failed call changes
nothing. -/
def PprofGlobals.setPprofConfig (g : PprofGlobals) : Option ℕ → PprofGlobals
  | some sampleInterval => if 0 < sampleInterval then ⟨true, sampleInterval⟩ else g
  | none => { g with active := false }

/-- What the profiler computes with floating point or takes from the random number generator. -/
structure Floats (R : Type*) where
  seedFromU64 : ℕ → R
  geometric : R → ℕ → ℕ × R
  unbiasedWeight : ℕ → ℕ → ℕ

/-- The sampler of a heap. -/
structure Sampler (R : Type*) where
  countdown : ℤ
  rng : R
  interval : ℕ

section Sampler

variable {R : Type*} (fl : Floats R)

/-- `Sampler::new`, reading the sample interval in force. -/
def Sampler.new (seed interval : ℕ) : Sampler R :=
  let (countdown, rng) := fl.geometric (fl.seedFromU64 seed) interval
  ⟨castSigned countdown, rng, interval⟩

/-- `Sampler::reset`. -/
def Sampler.reset (s : Sampler R) : Sampler R :=
  let (countdown, rng) := fl.geometric s.rng s.interval
  { s with countdown := castSigned countdown, rng := rng }

/-- `Sampler::check`. -/
def Sampler.check (s : Sampler R) (size : ℕ) : Sampler R × Bool :=
  let s := { s with countdown := i64 (s.countdown - i64 size) }
  if s.countdown ≤ 0 then (s.reset fl, true) else (s, false)

end Sampler

/-- What is counted for a call stack. -/
structure StackCounters where
  allocCount : ℕ
  allocBytes : ℕ
  liveCount : ℤ
  liveBytes : ℤ
  deriving DecidableEq

/-- The counters a stack is interned with. -/
def StackCounters.zero : StackCounters := ⟨0, 0, 0, 0⟩

/-- The additions of `record_sample`. -/
def StackCounters.onSample (c : StackCounters) (weight size : ℕ) : StackCounters where
  allocCount := u64 (c.allocCount + weight)
  allocBytes := u64 (c.allocBytes + u64 (weight * size))
  liveCount := i64 (c.liveCount + castSigned weight)
  liveBytes := i64 (c.liveBytes + castSigned (u64 (weight * size)))

/-- The subtractions of `maybe_remove_sample`. -/
def StackCounters.onRemove (c : StackCounters) (weight size : ℕ) : StackCounters :=
  { c with
    liveCount := i64 (c.liveCount - castSigned weight)
    liveBytes := i64 (c.liveBytes - castSigned (u64 (weight * size))) }

/-- The call stacks seen so far with the index of their counters. -/
structure StackTable where
  map : AList fun _ : List ℕ => ℕ
  counters : List StackCounters

/-- `StackTable::new`. -/
def StackTable.new : StackTable := ⟨∅, []⟩

/-- `StackTable::intern`. -/
def StackTable.intern (t : StackTable) (frames : List ℕ) : StackTable × ℕ :=
  let nextId := t.counters.length % stackIdLimit
  match t.map.lookup frames with
  | some id => (t, id)
  | none => (⟨t.map.insert frames nextId, t.counters ++ [.zero]⟩, nextId)

/-- What is remembered of a sampled allocation. -/
structure SampleRecord where
  stackId : ℕ
  size : ℕ
  classIdx : ℕ
  deriving DecidableEq

/-- `SideTable`. -/
abbrev SideTable := AList fun _ : ℕ => SampleRecord

/-- The tables behind the `PPROF` mutex. -/
structure PprofState where
  stackTable : StackTable
  side : SideTable

/-- `PprofState::new`. -/
def PprofState.new : PprofState := ⟨.new, ∅⟩

variable (w : ℕ → ℕ → ℕ)

/-- `record_sample` inside the reentrancy guard, given the trace; an index out of bounds has no
result. -/
def PprofState.recordSample (st : PprofState) (interval : ℕ) (frames : List ℕ)
    (ptr size classIdx : ℕ) :
    Option PprofState :=
  let (table, stackId) := st.stackTable.intern frames
  match table.counters[stackId]? with
  | some counters =>
    let counters := counters.onSample (w size interval) size
    some ⟨{ table with counters := table.counters.set stackId counters },
      st.side.insert ptr ⟨stackId, size, classIdx⟩⟩
  | none => none

/-- `maybe_remove_sample` inside the reentrancy guard. -/
def PprofState.maybeRemoveSample (st : PprofState) (interval ptr : ℕ) : Option PprofState :=
  match st.side.lookup ptr with
  | some record =>
    match st.stackTable.counters[record.stackId]? with
    | some counters =>
      let counters := counters.onRemove (w record.size interval) record.size
      some ⟨{ st.stackTable with counters := st.stackTable.counters.set record.stackId counters },
        st.side.erase ptr⟩
    | none => none
  | none => some st

variable {w} {st st' : PprofState} {interval ptr size classIdx : ℕ} {frames : List ℕ}

/-- A sample interns its stack and leaves one record at its address. -/
theorem PprofState.recordSample_maps
    (h : st.recordSample w interval frames ptr size classIdx = some st') :
    st'.stackTable.map = (st.stackTable.intern frames).1.map ∧
      st'.side = st.side.insert ptr ⟨(st.stackTable.intern frames).2, size, classIdx⟩ := by
  unfold PprofState.recordSample at h
  dsimp only at h
  split at h <;> cases h
  exact ⟨rfl, rfl⟩

/-- A removal leaves the stacks, no record at its address and the other records as they were. -/
theorem PprofState.maybeRemoveSample_maps (h : st.maybeRemoveSample w interval ptr = some st') :
    st'.stackTable.map = st.stackTable.map ∧ st'.side.lookup ptr = none ∧
      ∀ p ≠ ptr, st'.side.lookup p = st.side.lookup p := by
  unfold PprofState.maybeRemoveSample at h
  split at h
  · split at h <;> cases h
    exact ⟨rfl, AList.lookup_erase _ _, fun p hp => AList.lookup_erase_ne hp⟩
  · rename_i hnone
    cases h
    exact ⟨rfl, hnone, fun _ _ => rfl⟩

end ClMalloc
