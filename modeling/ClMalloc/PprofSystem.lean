import ClMalloc.Pprof
import ClMalloc.GlobalMetrics
import ClMalloc.GlobalSound

/-!
# The allocator with its profiler

Each operation of the global allocator runs with the hooks of the profiler. An allocation
that uses up the countdown of its heap enters the reentrancy guard of its thread and is
recorded in a step of its own: taking the trace and growing the tables allocate, so other
operations of the same thread run in between, under the guard. A dump holds the guard too.
A free takes the record out when profiling is active, the thread has a heap and the guard is
free. What the allocator does not keep, such as which allocation a record was made for, is
in the history.
-/

namespace ClMalloc

open Intrusive

/-- The class index a sample is labelled with. -/
def sampledClass (layout : Layout) : ℕ := (classIndex layout).getD 255

/-- A sample that a thread is recording, with its number among the allocations and where its
countdown came from. -/
structure Pending where
  ptr : ℕ
  size : ℕ
  classIdx : ℕ
  number : ℕ
  drawnFrom : ℕ
  deriving DecidableEq

/-- A recorded sample: where its countdown was drawn from and what it was weighted with. -/
structure Sample where
  ptr : ℕ
  drawnFrom : ℕ
  weightedWith : ℕ
  deriving DecidableEq

/-- A countdown drawn to replace one used up: what it was drawn from and the interval in force. -/
structure Redraw where
  drawnFrom : ℕ
  inForce : ℕ
  deriving DecidableEq

/-- How many allocations there were, the last one at each address, the one the last record at each
address was made for, the interval in force when each heap was made, what its countdown was drawn
from, and all samples and redraws. -/
structure ProfHistory where
  allocated : ℕ
  born : ℕ → ℕ
  sampledFor : ℕ → ℕ
  createdAt : ℕ → ℕ
  drawnFrom : ℕ → ℕ
  samples : List Sample
  redraws : List Redraw

/-- The allocator, the two statics, the samplers of the heaps, the guards of the threads, the
samples being recorded and the tables. -/
structure ProfSys (R : Type*) where
  global : GlobalRun
  globals : PprofGlobals
  sampler : ℕ → Sampler R
  inPprof : ℕ → Bool
  recording : AList fun _ : ℕ => Pending
  state : PprofState
  history : ProfHistory

/-- An operation of the allocator, the end of a recording with the trace it took, a configuration,
or a dump. -/
inductive ProfLabel
  | alloc (t : ℕ) (layout : Layout) (malloc reply : Option ℕ)
  | record (t : ℕ) (frames : List ℕ)
  | dealloc (t : ℕ) (a : Allocation)
  | other (label : GlobalLabel)
  | setPprofConfig (config : Option ℕ)
  | dumpStart (t : ℕ)
  | dumpEnd (t : ℕ)

variable {R : Type*} (fl : Floats R)

/-- `Heap::new` gives the heap a sampler when a thread gets its first heap. -/
def ProfSys.openHeap (s : ProfSys R) (t : ℕ) (sys : GlobalSys) : ProfSys R :=
  match s.global.sys.cell t, sys.cell t with
  | .null, .ptr h =>
    { s with
      sampler := Function.update s.sampler h (.new fl (sys.heaps.heap h).id s.globals.interval)
      history.createdAt := Function.update s.history.createdAt h s.globals.interval
      history.drawnFrom := Function.update s.history.drawnFrom h s.globals.interval }
  | _, _ => s

/-- The allocator has given the thread an allocation. -/
def ProfSys.grant (s : ProfSys R) (a : Allocation) : ProfSys R :=
  { s with
    global.live := a :: s.global.live
    history.allocated := s.history.allocated + 1
    history.born := Function.update s.history.born a.ptr s.history.allocated }

/-- The start of `record_sample`: nothing when the thread is in the guard. -/
def ProfSys.startRecord (s : ProfSys R) (t : ℕ) (p : Pending) : ProfSys R :=
  if s.inPprof t then s
  else { s with inPprof := Function.update s.inPprof t true, recording := s.recording.insert t p }

/-- `Heap::maybe_sample` on the heap of the thread. -/
def ProfSys.maybeSample (s : ProfSys R) (t h : ℕ) (a : Allocation) : ProfSys R :=
  if s.globals.active then
    let (sampler, hit) := (s.sampler h).check fl (servedBytes a.layout)
    let p : Pending := ⟨a.ptr, servedBytes a.layout, sampledClass a.layout, s.history.born a.ptr,
      s.history.drawnFrom h⟩
    if hit then
      let s := { s with
        sampler := Function.update s.sampler h sampler
        history.drawnFrom := Function.update s.history.drawnFrom h sampler.interval
        history.redraws := ⟨sampler.interval, s.globals.interval⟩ :: s.history.redraws }
      s.startRecord t p
    else { s with sampler := Function.update s.sampler h sampler }
  else s

/-- `GlobalAlloc::alloc`, up to the start of a recording. -/
def ProfSys.alloc (s : ProfSys R) (t : ℕ) (layout : Layout) (malloc reply : Option ℕ) :
    Option (ProfSys R) :=
  match s.global.sys.alloc t layout malloc reply with
  | .ok (sys, result) =>
    let s := { s.openHeap fl t sys with global.sys := sys }
    match result with
    | some ptr =>
      if layout.size = 0 then some s
      else
        let a : Allocation := ⟨ptr, layout⟩
        match sys.cell t with
        | .ptr h => some ((s.grant a).maybeSample fl t h a)
        | _ => some (s.grant a)
    | none => some s
  | .error _ => none

/-- The rest of `record_sample`; the guard is released. -/
def ProfSys.record (s : ProfSys R) (t : ℕ) (frames : List ℕ) : Option (ProfSys R) :=
  match s.recording.lookup t with
  | some p =>
    match s.state.recordSample fl.unbiasedWeight s.globals.interval frames p.ptr
      p.size p.classIdx with
    | some state => some { s with
        state := state
        inPprof := Function.update s.inPprof t false
        recording := s.recording.erase t
        history.sampledFor := Function.update s.history.sampledFor p.ptr p.number
        history.samples := ⟨p.ptr, p.drawnFrom, s.globals.interval⟩ :: s.history.samples }
    | none => none
  | none => none

/-- The thread's free reaches `maybe_remove_sample` and gets the guard. -/
def ProfSys.Removes (s : ProfSys R) (t : ℕ) : Prop :=
  s.globals.active = true ∧ (∃ h, s.global.sys.cell t = .ptr h) ∧ s.inPprof t = false

/-- Whether a cell points to a heap can be computed. -/
instance (cell : HeapCell) : Decidable (∃ h, cell = .ptr h) :=
  match cell with
  | .null => isFalse (by simp)
  | .ptr h => isTrue ⟨h, rfl⟩
  | .destroyed => isFalse (by simp)

/-- Whether a free removes its record can be computed. -/
instance (s : ProfSys R) (t : ℕ) : Decidable (s.Removes t) :=
  inferInstanceAs (Decidable (s.globals.active = true ∧ (∃ h, s.global.sys.cell t = .ptr h) ∧
    s.inPprof t = false))

/-- `GlobalAlloc::dealloc`: the hook of `Heap::dealloc`, then the free. -/
def ProfSys.dealloc (s : ProfSys R) (t : ℕ) (a : Allocation) : Option (ProfSys R) :=
  match globalStep s.global (.dealloc t a) with
  | some global =>
    if a.layout.size ≠ 0 ∧ s.Removes t then
      (s.state.maybeRemoveSample fl.unbiasedWeight s.globals.interval a.ptr).map fun state =>
        { s with global := global, state := state }
    else some { s with global := global }
  | none => none

/-- The label is not an allocation or a free, and no thread that is recording ends. -/
def ProfSys.Quiet (s : ProfSys R) : GlobalLabel → Prop
  | .alloc .. | .dealloc .. => False
  | .exit t => t ∉ s.recording
  | .write .. | .scribble .. => True

/-- Whether a label is quiet can be computed. -/
instance (s : ProfSys R) : (label : GlobalLabel) → Decidable (s.Quiet label)
  | .alloc .. | .dealloc .. => isFalse id
  | .exit t => inferInstanceAs (Decidable (t ∉ s.recording))
  | .write .. | .scribble .. => isTrue trivial

/-- The program does not have the allocation a thread is still recording. -/
def ProfSys.Handed (s : ProfSys R) (a : Allocation) : Prop :=
  ∀ e ∈ s.recording.entries, e.2.ptr ≠ a.ptr

/-- Whether an allocation has been handed out can be computed. -/
instance (s : ProfSys R) (a : Allocation) : Decidable (s.Handed a) :=
  inferInstanceAs (Decidable (∀ e ∈ s.recording.entries, e.2.ptr ≠ a.ptr))

/-- One step of the allocator with its profiler. -/
def profStep (s : ProfSys R) : ProfLabel → Option (ProfSys R)
  | .alloc t layout malloc reply => s.alloc fl t layout malloc reply
  | .record t frames => s.record fl t frames
  | .dealloc t a => if s.Handed a then s.dealloc fl t a else none
  | .other label =>
    if s.Quiet label then (globalStep s.global label).map fun global => { s with global := global }
      else none
  | .setPprofConfig config => some { s with globals := s.globals.setPprofConfig config }
  | .dumpStart t =>
    if s.inPprof t then none else some { s with inPprof := Function.update s.inPprof t true }
  | .dumpEnd t =>
    if s.inPprof t ∧ t ∉ s.recording then some { s with
      inPprof := Function.update s.inPprof t false } else none

/-- Nothing has been allocated, profiled or configured. -/
def ProfSys.new (global : GlobalRun) (sampler : ℕ → Sampler R) : ProfSys R where
  global := global
  globals := .init
  sampler := sampler
  inPprof := fun _ => false
  recording := ∅
  state := .new
  history := ⟨0, fun _ => 0, fun _ => 0, fun _ => 0, fun _ => 0, [], []⟩

variable {fl} {s s' : ProfSys R} {t h : ℕ} {layout : Layout} {malloc reply : Option ℕ}
  {a : Allocation}

/-- What giving a heap a sampler can change. -/
structure ProfSys.SamplerOnly (s s' : ProfSys R) : Prop where
  global : s'.global = s.global
  globals : s'.globals = s.globals
  inPprof : s'.inPprof = s.inPprof
  recording : s'.recording = s.recording
  state : s'.state = s.state
  allocated : s'.history.allocated = s.history.allocated
  born : s'.history.born = s.history.born
  sampledFor : s'.history.sampledFor = s.history.sampledFor
  samples : s'.history.samples = s.history.samples
  redraws : s'.history.redraws = s.history.redraws

/-- Opening a heap changes samplers only. -/
theorem ProfSys.openHeap_kept (fl : Floats R) (s : ProfSys R) (t : ℕ) (sys : GlobalSys) :
    s.SamplerOnly (s.openHeap fl t sys) := by
  unfold ProfSys.openHeap
  split <;> exact ⟨rfl, rfl, rfl, rfl, rfl, rfl, rfl, rfl, rfl, rfl⟩

/-- What a visit to the sampler changes: nothing, the countdown, or a new countdown with, outside
the guard, the start of a recording. -/
inductive ProfSys.Sampled (fl : Floats R) (s s' : ProfSys R) (t h : ℕ) (a : Allocation) : Prop
  | quiet (sampler : Sampler R) (hinterval : sampler.interval = (s.sampler h).interval)
    (heq : s' = { s with sampler := Function.update s.sampler h sampler })
  | hit (sampler : Sampler R) (s₁ : ProfSys R) (hactive : s.globals.active = true)
    (hcheck : (s.sampler h).check fl (servedBytes a.layout) = (sampler, true))
    (heq : s₁ = { s with
      sampler := Function.update s.sampler h sampler
      history.drawnFrom := Function.update s.history.drawnFrom h sampler.interval
      history.redraws := ⟨sampler.interval, s.globals.interval⟩ :: s.history.redraws })
    (hstart : s' = s₁.startRecord t
      ⟨a.ptr, servedBytes a.layout, sampledClass a.layout, s.history.born a.ptr,
        s.history.drawnFrom h⟩)

/-- A new countdown leaves the interval. -/
theorem Sampler.reset_keeps (fl : Floats R) (sampler : Sampler R) :
    ∃ countdown rng, sampler.reset fl = ⟨countdown, rng, sampler.interval⟩ := ⟨_, _, rfl⟩

/-- A sampler keeps its interval. -/
theorem Sampler.check_interval (fl : Floats R) (sampler : Sampler R) (size : ℕ) :
    (sampler.check fl size).1.interval = sampler.interval := by
  unfold Sampler.check
  generalize i64 (sampler.countdown - i64 size) = left
  obtain ⟨countdown, rng, hreset⟩ := Sampler.reset_keeps fl { sampler with countdown := left }
  simp only [hreset]
  split <;> rfl

/-- `maybe_sample` visits the sampler. -/
theorem ProfSys.maybeSample_cases (fl : Floats R) (s : ProfSys R) (t h : ℕ) (a : Allocation) :
    ProfSys.Sampled fl s (s.maybeSample fl t h a) t h a := by
  unfold ProfSys.maybeSample
  by_cases hactive : s.globals.active = true
  · rw [if_pos hactive]
    have hinterval := (s.sampler h).check_interval fl (servedBytes a.layout)
    rcases hcheck : (s.sampler h).check fl (servedBytes a.layout) with ⟨sampler, hit⟩
    rw [hcheck] at hinterval
    cases hit with
    | true => exact .hit sampler _ hactive hcheck rfl rfl
    | false => exact .quiet sampler hinterval rfl
  · rw [if_neg hactive]
    exact .quiet (s.sampler h) rfl (by rw [Function.update_eq_self])

/-- The start of a recording outside the guard adds it; inside the guard nothing happens. -/
theorem ProfSys.startRecord_cases (s : ProfSys R) (t : ℕ) (p : Pending) :
    s.startRecord t p = s ∨ s.startRecord t p =
      { s with inPprof := Function.update s.inPprof t true,
               recording := s.recording.insert t p } := by
  unfold ProfSys.startRecord
  split
  · exact .inl rfl
  · exact .inr rfl

/-- What an allocation does. -/
inductive ProfSys.Allocated (fl : Floats R) (s s' : ProfSys R) (t : ℕ) (layout : Layout)
    (malloc reply : Option ℕ) :
    Prop
  | nothing (sys : GlobalSys) (result : Option ℕ)
    (halloc : s.global.sys.alloc t layout malloc reply = .ok (sys, result))
    (hnone : result = none ∨ layout.size = 0)
    (heq : s' = { s.openHeap fl t sys with global.sys := sys })
  | granted (sys : GlobalSys) (ptr h : ℕ) (hsize : layout.size ≠ 0)
    (halloc : s.global.sys.alloc t layout malloc reply = .ok (sys, some ptr))
    (hcell : sys.cell t = .ptr h)
    (heq : s' = (ProfSys.grant { s.openHeap fl t sys with
      global.sys := sys } ⟨ptr, layout⟩).maybeSample fl t h ⟨ptr, layout⟩)

/-- An allocation grants nothing, or an allocation that its heap's sampler sees. -/
theorem ProfSys.alloc_cases (halloc : s.alloc fl t layout malloc reply = some s') :
    ProfSys.Allocated fl s s' t layout malloc reply := by
  unfold ProfSys.alloc at halloc
  split at halloc <;> try contradiction
  case h_1 sys result hserved =>
    dsimp only at halloc
    split at halloc
    case h_1 ptr =>
      by_cases hsize : layout.size = 0
      · rw [if_pos hsize] at halloc
        cases halloc
        exact .nothing sys _ hserved (.inr hsize) rfl
      · rw [if_neg hsize] at halloc
        obtain ⟨h, hcell⟩ := (GlobalSys.alloc_cell hserved).2 hsize (by simp)
        rw [hcell] at halloc
        cases halloc
        exact .granted sys ptr h hsize hserved hcell rfl
    case h_2 =>
      cases halloc
      exact .nothing sys _ hserved (.inl rfl) rfl

/-- The start of a recording touches neither the allocator nor the tables. -/
theorem ProfSys.startRecord_global (s : ProfSys R) (t : ℕ) (p : Pending) :
    (s.startRecord t p).global = s.global := by
  rcases s.startRecord_cases t p with heq | heq <;> rw [heq]

/-- The sampler does not touch the allocator. -/
theorem ProfSys.Sampled.global (hsampled : ProfSys.Sampled fl s s' t h a) :
    s'.global = s.global := by
  rcases hsampled with ⟨sampler, -, rfl⟩ | ⟨sampler, s₁, -, -, rfl, rfl⟩
  · rfl
  · rw [ProfSys.startRecord_global]

/-- The allocator under the profiler does what it does without it. -/
theorem ProfSys.Allocated.global (hallocated : ProfSys.Allocated fl s s' t layout malloc reply) :
    globalStep s.global (.alloc t layout malloc reply) = some s'.global := by
  rcases hallocated with ⟨sys, result, halloc, hnone, rfl⟩ | ⟨sys, ptr, h, hsize, halloc, -, rfl⟩
  · have hglobal := (s.openHeap_kept fl t sys).global
    simp only [globalStep, halloc, hglobal]
    cases result with
    | none => rfl
    | some ptr =>
      have hzero : layout.size = 0 := hnone.resolve_left (by simp)
      simp [hzero]
  · have hglobal := (s.openHeap_kept fl t sys).global
    rw [((ProfSys.maybeSample_cases fl _ t h _).global)]
    simp [globalStep, halloc, hsize, ProfSys.grant, hglobal]

/-- What a step of the profiled allocator can do. A free takes the record out or leaves the
tables. -/
inductive ProfStepped (fl : Floats R) (s : ProfSys R) : ProfLabel → ProfSys R → Prop
  | alloc {t : ℕ} {layout : Layout} {malloc reply : Option ℕ} {s' : ProfSys R}
    (hallocated : ProfSys.Allocated fl s s' t layout malloc reply) :
    ProfStepped fl s (.alloc t layout malloc reply) s'
  | record {t : ℕ} {frames : List ℕ} {p : Pending}
      {state : PprofState} (hpending : s.recording.lookup t = some p)
    (hrecord : s.state.recordSample fl.unbiasedWeight s.globals.interval frames p.ptr p.size
      p.classIdx = some state) :
    ProfStepped fl s (.record t frames) { s with
      state := state
      inPprof := Function.update s.inPprof t false
      recording := s.recording.erase t
      history.sampledFor := Function.update s.history.sampledFor p.ptr p.number
      history.samples := ⟨p.ptr, p.drawnFrom, s.globals.interval⟩ :: s.history.samples }
  | remove {t : ℕ} {a : Allocation} {global : GlobalRun} {state : PprofState} (hhanded : s.Handed a)
    (hglobal : globalStep s.global (.dealloc t a) = some global) (hsize : a.layout.size ≠ 0)
    (hremoves : s.Removes t)
    (hremove : s.state.maybeRemoveSample fl.unbiasedWeight s.globals.interval a.ptr = some state) :
    ProfStepped fl s (.dealloc t a) { s with global := global, state := state }
  | dealloc {t : ℕ} {a : Allocation} {global : GlobalRun} (hhanded : s.Handed a)
    (hglobal : globalStep s.global (.dealloc t a) = some global)
    (hkept : ¬(a.layout.size ≠ 0 ∧ s.Removes t)) :
    ProfStepped fl s (.dealloc t a) { s with global := global }
  | other {label : GlobalLabel} {global : GlobalRun} (hquiet : s.Quiet label)
    (hglobal : globalStep s.global label = some global) :
    ProfStepped fl s (.other label) { s with global := global }
  | setPprofConfig {config : Option ℕ} :
    ProfStepped fl s (.setPprofConfig config) { s with globals := s.globals.setPprofConfig config }
  | dumpStart {t : ℕ} (hfree : s.inPprof t = false) :
    ProfStepped fl s (.dumpStart t) { s with inPprof := Function.update s.inPprof t true }
  | dumpEnd {t : ℕ} (hheld : s.inPprof t = true) (hrecording : t ∉ s.recording) :
    ProfStepped fl s (.dumpEnd t) { s with inPprof := Function.update s.inPprof t false }

/-- Every step does one of these. -/
theorem profStep_cases {label : ProfLabel} (hstep : profStep fl s label = some s') :
    ProfStepped fl s label s' := by
  cases label with
  | alloc t layout malloc reply => exact .alloc (ProfSys.alloc_cases hstep)
  | record t frames =>
    simp only [profStep, ProfSys.record] at hstep
    split at hstep <;> try contradiction
    case h_1 p hpending =>
      split at hstep <;> cases hstep
      exact .record hpending ‹_›
  | dealloc t a =>
    simp only [profStep, ProfSys.dealloc] at hstep
    split at hstep <;> try contradiction
    case isTrue hhanded =>
      split at hstep <;> try contradiction
      case h_1 global hglobal =>
        split at hstep
        case isTrue hremoves =>
          obtain ⟨state, hremove, rfl⟩ := Option.map_eq_some_iff.mp hstep
          exact .remove hhanded hglobal hremoves.1 hremoves.2 hremove
        case isFalse hkept =>
          cases hstep
          exact .dealloc hhanded hglobal hkept
  | other label =>
    simp only [profStep] at hstep
    split at hstep <;> try contradiction
    case isTrue hquiet =>
      obtain ⟨global, hglobal, rfl⟩ := Option.map_eq_some_iff.mp hstep
      exact .other hquiet hglobal
  | setPprofConfig config =>
    cases hstep
    exact .setPprofConfig
  | dumpStart t =>
    simp only [profStep] at hstep
    split at hstep <;> cases hstep
    exact .dumpStart (Bool.eq_false_iff.mpr ‹_›)
  | dumpEnd t =>
    simp only [profStep] at hstep
    split at hstep <;> cases hstep
    rename_i hheld
    exact .dumpEnd hheld.1 hheld.2

/-- Every step of the profiled allocator is a step of the allocator or leaves it alone. -/
theorem profStep_global {label : ProfLabel} (hstep : profStep fl s label = some s') :
    s'.global = s.global ∨ ∃ label, globalStep s.global label = some s'.global := by
  cases profStep_cases hstep with
  | alloc hallocated => exact .inr ⟨_, hallocated.global⟩
  | record => exact .inl rfl
  | remove _ hglobal => exact .inr ⟨_, hglobal⟩
  | dealloc _ hglobal => exact .inr ⟨_, hglobal⟩
  | other _ hglobal => exact .inr ⟨_, hglobal⟩
  | setPprofConfig => exact .inl rfl
  | dumpStart => exact .inl rfl
  | dumpEnd => exact .inl rfl

/-- The heaps stay ready under the profiler. -/
theorem profStep_ready {label : ProfLabel} (hready : GlobalReady s.global.sys s.global.live)
    (hstep : profStep fl s label = some s') : GlobalReady s'.global.sys s'.global.live := by
  rcases profStep_global hstep with heq | ⟨label, hglobal⟩
  · rw [heq]
    exact hready
  · exact globalStep_ready hready hglobal

end ClMalloc
