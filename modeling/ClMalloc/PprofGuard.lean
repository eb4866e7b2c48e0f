import ClMalloc.Lib.Transition
import Mathlib.Data.List.Basic
import Mathlib.Algebra.BigOperators.Group.List.Basic
import Mathlib.Algebra.Ring.Nat

/-!
# The reentrancy guard of the profiler and its mutex

The profiler runs inside the allocator and allocates itself: taking a trace grows a vector,
interning grows the tables under the mutex, and a dump builds a profile under it. Each of
these allocations and frees comes back to the hooks of the profiler on the same thread. The
flag `IN_PPROF` turns them away, so no thread waits for the mutex it holds. A dump goes on
even when it finds the flag set, which it does when the writer of another dump calls it; by
then that dump has released the mutex.
-/

namespace ClMalloc

open Transition

/-- The functions of the profiler that take the mutex. -/
inductive PprofFn
  | recordSample
  | maybeRemoveSample
  | dump
  deriving DecidableEq

/-- Where a call is: it takes a trace, waits for the mutex, holds it, or writes what it built under
it. -/
inductive PprofPoint
  | trace
  | lock
  | locked
  | write
  deriving DecidableEq

/-- A call that has not returned, with whether it acquired the guard. -/
structure PprofFrame where
  fn : PprofFn
  guard : Bool
  point : PprofPoint
  deriving DecidableEq

/-- The flag and the calls of each thread, innermost first, and who holds the mutex. -/
structure PprofThreads where
  inPprof : ℕ → Bool
  frames : ℕ → List PprofFrame
  holder : Option ℕ

/-- No thread is in the profiler. -/
def PprofThreads.new : PprofThreads := ⟨fun _ => false, fun _ => [], none⟩

/-- A call starts: `ReentrancyGuard::acquire` sets the flag and gives the guard if it was clear. -/
def PprofThreads.enter (s : PprofThreads) (t : ℕ) (fn : PprofFn) (point : PprofPoint) :
    PprofThreads :=
  { s with
    inPprof := Function.update s.inPprof t true
    frames := Function.update s.frames t (⟨fn, !s.inPprof t, point⟩ :: s.frames t) }

/-- A hook returns at once when it does not get the guard. -/
def PprofThreads.hook (s : PprofThreads) (t : ℕ) (fn : PprofFn) (point : PprofPoint) :
    PprofThreads :=
  if s.inPprof t then s else s.enter t fn point

/-- The innermost call goes on. -/
def PprofThreads.goto (s : PprofThreads) (t : ℕ) (frame : PprofFrame) (rest : List PprofFrame)
    (point : PprofPoint) (holder : Option ℕ) : PprofThreads :=
  { s with frames := Function.update s.frames t ({ frame with point := point } :: rest),
           holder := holder }

/-- The innermost call returns, and drops the guard if it has it. -/
def PprofThreads.leave (s : PprofThreads) (t : ℕ) (frame : PprofFrame) (rest : List PprofFrame)
    (holder : Option ℕ) : PprofThreads where
  inPprof := if frame.guard then Function.update s.inPprof t false else s.inPprof
  frames := Function.update s.frames t rest
  holder := holder

/-- The next step of the innermost call of a thread. -/
def PprofThreads.advance (s : PprofThreads) (t : ℕ) : Option PprofThreads :=
  match s.frames t with
  | [] => none
  | frame :: rest =>
    match frame.point with
    | .trace => some (s.goto t frame rest .lock s.holder)
    | .lock => if s.holder = none then some (s.goto t frame rest .locked (some t)) else none
    | .locked =>
      match frame.fn with
      | .dump => some (s.goto t frame rest .write none)
      | _ => some (s.leave t frame rest none)
    | .write => some (s.leave t frame rest s.holder)

/-- The program, or the writer of a dump, may call `dump`. -/
def PprofThreads.CanDump (s : PprofThreads) (t : ℕ) : Prop :=
  ∀ frame ∈ (s.frames t).head?, frame.point = .write

/-- Whether a thread may call `dump` can be computed. -/
instance (s : PprofThreads) (t : ℕ) : Decidable (s.CanDump t) :=
  match h : (s.frames t).head? with
  | none => isTrue (by simp [PprofThreads.CanDump, h])
  | some frame => decidable_of_iff (frame.point = .write) (by simp [PprofThreads.CanDump, h])

/-- An allocation whose countdown is used up or not, a free while profiling is active, a call of
`dump`, or the next step of a thread. -/
inductive GuardLabel
  | alloc (t : ℕ) (sampled : Bool)
  | dealloc (t : ℕ)
  | dump (t : ℕ)
  | advance (t : ℕ)
  deriving DecidableEq

/-- The thread a label is about. -/
def GuardLabel.thread : GuardLabel → ℕ
  | .alloc t _ => t
  | .dealloc t => t
  | .dump t => t
  | .advance t => t

/-- One step; a thread can allocate and free wherever it is in the profiler. -/
def guardStep (s : PprofThreads) : GuardLabel → Option PprofThreads
  | .alloc t sampled => some (if sampled then s.hook t .recordSample .trace else s)
  | .dealloc t => some (s.hook t .maybeRemoveSample .lock)
  | .dump t => if s.CanDump t then some (s.enter t .dump .lock) else none
  | .advance t => s.advance t

/-- The calls of a thread whose flag is as given: the outer ones are dumps that write, and each
return leaves the flag as the call found it. -/
def Nested : List PprofFrame → Bool → Prop
  | [], inPprof => inPprof = false
  | frame :: rest, inPprof =>
    inPprof = true ∧ (∀ outer ∈ rest, outer.point = .write) ∧ Nested rest (!frame.guard)

/-- The innermost call of the thread holds the mutex. -/
def PprofThreads.Holds (s : PprofThreads) (t : ℕ) : Prop :=
  ∃ frame ∈ (s.frames t).head?, frame.point = .locked

/-- The calls of every thread are nested, and the mutex is with the thread that has it. -/
structure PprofThreads.Sound (s : PprofThreads) : Prop where
  nested : ∀ t, Nested (s.frames t) (s.inPprof t)
  holder : ∀ t, s.holder = some t ↔ s.Holds t

variable {s s' : PprofThreads} {t : ℕ} {frame : PprofFrame} {rest : List PprofFrame}
  {label : GuardLabel}

/-- A change of one thread keeps soundness when that thread stays nested and the mutex goes where it
should. -/
theorem PprofThreads.Sound.change (h : s.Sound) (hothers : ∀ t' ≠ t, s'.frames t' = s.frames t')
    (hflags : ∀ t' ≠ t, s'.inPprof t' = s.inPprof t')
    (hnested : Nested (s'.frames t) (s'.inPprof t)) (hself : s'.holder = some t ↔ s'.Holds t)
    (hholder : ∀ t' ≠ t, s'.holder = some t' ↔ s.holder = some t') :
    s'.Sound where
  nested := fun t' => by
    by_cases ht : t' = t
    · subst ht
      exact hnested
    · rw [hothers t' ht, hflags t' ht]
      exact h.nested t'
  holder := fun t' => by
    by_cases ht : t' = t
    · subst ht
      exact hself
    · rw [hholder t' ht, h.holder t']
      simp only [PprofThreads.Holds, hothers t' ht]

/-- A new call keeps soundness: where it starts, the calls around it write. -/
theorem PprofThreads.Sound.enter (h : s.Sound) (hcan : s.CanDump t) {fn : PprofFn}
    {point : PprofPoint} (hpoint : point ≠ .locked) : (s.enter t fn point).Sound := by
  have hnested := h.nested t
  have hfree : s.holder ≠ some t := by
    rw [ne_eq, h.holder]
    rintro ⟨frame, hframe, hlocked⟩
    rw [hcan frame hframe] at hlocked
    cases hlocked
  have houter : ∀ outer ∈ s.frames t, outer.point = .write := by
    cases hframes : s.frames t with
    | nil => simp
    | cons frame rest =>
      rw [hframes] at hnested
      have hfirst := hcan frame (by simp [hframes])
      intro outer hin
      rcases List.mem_cons.mp hin with rfl | hrest
      · exact hfirst
      · exact hnested.2.1 outer hrest
  apply h.change (t := t)
  · intro t' ht
    exact Function.update_of_ne ht _ _
  · intro t' ht
    exact Function.update_of_ne ht _ _
  · simp only [PprofThreads.enter, Function.update_self]
    exact ⟨rfl, houter, by simpa using hnested⟩
  · simp [PprofThreads.enter, PprofThreads.Holds, hfree, hpoint]
  · exact fun _ _ => Iff.rfl

/-- A thread outside the profiler has its flag clear, and may dump. -/
theorem Nested.eq_nil {frames : List PprofFrame} (h : Nested frames false) : frames = [] := by
  cases frames with
  | nil => rfl
  | cons frame rest => exact absurd h.1 (by simp)

/-- A hook keeps soundness. -/
theorem PprofThreads.Sound.hook (h : s.Sound) (t : ℕ) (fn : PprofFn) {point : PprofPoint}
    (hpoint : point ≠ .locked) : (s.hook t fn point).Sound := by
  unfold PprofThreads.hook
  split
  · exact h
  · rename_i hclear
    have hnil := Nested.eq_nil (by simpa [hclear] using h.nested t)
    exact h.enter (by simp [PprofThreads.CanDump, hnil]) hpoint

/-- The next step of a call keeps soundness. -/
theorem PprofThreads.Sound.advance (h : s.Sound) (hstep : s.advance t = some s') : s'.Sound := by
  unfold PprofThreads.advance at hstep
  cases hframes : s.frames t with
  | nil => simp [hframes] at hstep
  | cons frame rest =>
    have hnested := h.nested t
    rw [hframes] at hnested
    obtain ⟨hflag, houter, hrest⟩ := hnested
    have hholder : s.holder = some t ↔ frame.point = .locked := by
      rw [h.holder t]
      simp [PprofThreads.Holds, hframes]
    -- going on leaves the thread nested, and so does returning
    have hgoto {point : PprofPoint} {holder : Option ℕ} (hself : holder = some t ↔ point = .locked)
        (hothers : ∀ t' ≠ t, holder = some t' ↔ s.holder = some t') :
        (s.goto t frame rest point holder).Sound := by
      apply h.change (t := t)
      · exact fun t' ht => Function.update_of_ne ht _ _
      · exact fun _ _ => rfl
      · simp only [PprofThreads.goto, Function.update_self]
        exact ⟨hflag, houter, hrest⟩
      · simpa [PprofThreads.goto, PprofThreads.Holds] using hself
      · exact hothers
    have hleave {holder : Option ℕ} (hself : holder ≠ some t)
        (hothers : ∀ t' ≠ t, holder = some t' ↔ s.holder = some t') :
        (s.leave t frame rest holder).Sound := by
      have hafter : (s.leave t frame rest holder).inPprof t = !frame.guard := by
        cases hguard : frame.guard with
        | true => simp [PprofThreads.leave, hguard]
        | false => simp [PprofThreads.leave, hguard, hflag]
      apply h.change (t := t)
      · exact fun t' ht => Function.update_of_ne ht _ _
      · intro t' ht
        cases hguard : frame.guard with
        | true => simp [PprofThreads.leave, hguard, ht]
        | false => simp [PprofThreads.leave, hguard]
      · rw [hafter]
        simpa [PprofThreads.leave] using hrest
      · refine iff_of_false hself ?_
        rintro ⟨outer, hin, hlocked⟩
        have hmem : outer ∈ rest := by
          simp only [PprofThreads.leave, Function.update_self] at hin
          exact List.mem_of_mem_head? hin
        rw [houter outer hmem] at hlocked
        cases hlocked
      · exact hothers
    simp only [hframes] at hstep
    cases hpoint : frame.point with
    | trace =>
      simp only [hpoint] at hstep hholder
      cases hstep
      exact hgoto (by simpa using hholder) fun _ _ => Iff.rfl
    | lock =>
      simp only [hpoint] at hstep
      split at hstep <;> cases hstep
      rename_i hfree
      exact hgoto (by simp) fun t' ht => by simp [hfree, Ne.symm ht]
    | locked =>
      simp only [hpoint] at hstep hholder
      have hmine : s.holder = some t := hholder.mpr trivial
      have hothers (t' : ℕ) (ht : t' ≠ t) : none = some t' ↔ s.holder = some t' := by
        simp [hmine, Ne.symm ht]
      split at hstep <;> cases hstep
      · exact hgoto (by simp) hothers
      · exact hleave (by simp) hothers
    | write =>
      simp only [hpoint] at hstep hholder
      cases hstep
      exact hleave (by simpa using hholder) fun _ _ => Iff.rfl

/-- Every step keeps soundness. -/
theorem PprofThreads.Sound.step (h : s.Sound) (hstep : guardStep s label = some s') : s'.Sound := by
  cases label with
  | alloc t sampled =>
    cases hstep
    split
    · exact h.hook t .recordSample (by simp)
    · exact h
  | dealloc t =>
    cases hstep
    exact h.hook t .maybeRemoveSample (by simp)
  | dump t =>
    simp only [guardStep] at hstep
    split at hstep <;> cases hstep
    exact h.enter ‹_› (by simp)
  | advance t => exact h.advance hstep

/-- Before the first step everything is sound. -/
theorem PprofThreads.sound_new : PprofThreads.new.Sound :=
  ⟨fun _ => rfl, fun _ => by simp [PprofThreads.new, PprofThreads.Holds]⟩

/-- How far a call is from its end. -/
def PprofPoint.left : PprofPoint → ℕ
  | .trace => 4
  | .lock => 3
  | .locked => 2
  | .write => 1

/-- How far a thread is from leaving the profiler. -/
def PprofThreads.left (s : PprofThreads) (t : ℕ) : ℕ :=
  ((s.frames t).map fun frame => frame.point.left).sum

/-- A thread in the profiler goes on unless another thread holds the mutex. -/
theorem PprofThreads.Sound.goes_on (h : s.Sound) (hbusy : s.frames t ≠ [])
    (hfree : s.holder = none ∨ s.holder = some t) :
    ∃ s', guardStep s (.advance t) = some s' ∧ s'.left t < s.left t ∧
      (s'.holder = none ∨ s'.holder = some t) ∧ ∀ t' ≠ t, s'.frames t' = s.frames t' := by
  obtain ⟨frame, rest, hframes⟩ := List.exists_cons_of_ne_nil hbusy
  have hholder : s.holder = some t ↔ frame.point = .locked := by
    rw [h.holder t]
    simp [PprofThreads.Holds, hframes]
  have hgoto {point : PprofPoint} {holder : Option ℕ} : ∀ t' ≠ t,
      (s.goto t frame rest point holder).frames t' = s.frames t' :=
        fun t' ht => Function.update_of_ne ht _ _
  have hleave {holder : Option ℕ} : ∀ t' ≠ t,
      (s.leave t frame rest holder).frames t' = s.frames t' :=
    fun t' ht => Function.update_of_ne ht _ _
  simp only [guardStep, PprofThreads.advance, hframes]
  cases hpoint : frame.point with
  | trace =>
    refine ⟨_, rfl, ?_, hfree, hgoto⟩
    simp [PprofThreads.left, PprofThreads.goto, hframes, hpoint, PprofPoint.left]
  | lock =>
    have hnone : s.holder = none := hfree.resolve_right (by simp [hholder, hpoint])
    refine ⟨_, if_pos hnone, ?_, .inr rfl, hgoto⟩
    simp [PprofThreads.left, PprofThreads.goto, hframes, hpoint, PprofPoint.left]
  | locked =>
    cases hfn : frame.fn with
    | dump =>
      refine ⟨_, rfl, ?_, .inl rfl, hgoto⟩
      simp [PprofThreads.left, PprofThreads.goto, hframes, hpoint, PprofPoint.left]
    | recordSample =>
      refine ⟨_, rfl, ?_, .inl rfl, hleave⟩
      simp [PprofThreads.left, PprofThreads.leave, hframes, hpoint, PprofPoint.left]
    | maybeRemoveSample =>
      refine ⟨_, rfl, ?_, .inl rfl, hleave⟩
      simp [PprofThreads.left, PprofThreads.leave, hframes, hpoint, PprofPoint.left]
  | write =>
    refine ⟨_, rfl, ?_, hfree, hleave⟩
    simp [PprofThreads.left, PprofThreads.leave, hframes, hpoint, PprofPoint.left]

/-- A thread that nothing keeps from the mutex leaves the profiler. -/
theorem PprofThreads.Sound.finish (h : s.Sound) (hfree : s.holder = none ∨ s.holder = some t) :
    ∃ n s', run guardStep s (List.replicate n (.advance t)) = some s' ∧ s'.frames t = [] ∧
      s'.holder = none ∧ ∀ t' ≠ t, s'.frames t' = s.frames t' := by
  induction hleft : s.left t using Nat.strongRecOn generalizing s with
  | ind left ih =>
    by_cases hidle : s.frames t = []
    · have hnot : s.holder ≠ some t := by
        rw [ne_eq, h.holder]
        simp [PprofThreads.Holds, hidle]
      exact ⟨0, s, rfl, hidle, hfree.resolve_right hnot, fun _ _ => rfl⟩
    · obtain ⟨s₁, hstep, hless, hfree₁, hothers₁⟩ := h.goes_on hidle hfree
      obtain ⟨n, s', hrun, hdone, hnone, hothers⟩ :=
        ih (s₁.left t) (hleft ▸ hless) (h.step hstep) hfree₁ rfl
      refine ⟨n + 1, s', run_cons_eq_some.mpr ⟨s₁, hstep, hrun⟩, hdone, hnone, fun t' ht => ?_⟩
      rw [hothers t' ht, hothers₁ t' ht]

/-- Threads that are in the profiler leave it one after the other. -/
theorem PprofThreads.Sound.quiesce (h : s.Sound) (hfree : s.holder = none) {busy : List ℕ}
    (hbusy : ∀ t, t ∉ busy → s.frames t = []) :
    ∃ labels s', (∀ label ∈ labels, ∃ t, label = .advance t) ∧ run guardStep s labels = some s' ∧
      ∀ t, s'.frames t = [] := by
  induction busy generalizing s with
  | nil => exact ⟨[], s, by simp, rfl, fun t => hbusy t List.not_mem_nil⟩
  | cons t busy ih =>
    obtain ⟨n, s₁, hrun₁, hdone, hnone, hothers⟩ := h.finish (t := t) (.inl hfree)
    have hsound : s₁.Sound := run_invariant (fun _ _ _ h hstep => h.step hstep) h hrun₁
    obtain ⟨labels, s', hlabels, hrun, hidle⟩ := ih hsound hnone fun t' ht' => by
      by_cases heq : t' = t
      · rw [heq, hdone]
      · rw [hothers t' heq]
        exact hbusy t' (by simp [heq, ht'])
    refine ⟨List.replicate n (.advance t) ++ labels, s', fun label hin => ?_, ?_, hidle⟩
    · rcases List.mem_append.mp hin with hin | hin
      · exact ⟨t, List.eq_of_mem_replicate hin⟩
      · exact hlabels label hin
    · rw [run_append, hrun₁]
      exact hrun

/-- A step leaves the calls of the other threads. -/
theorem frames_of_step (hstep : guardStep s label = some s') (hother : label.thread ≠ t) :
    s'.frames t = s.frames t := by
  have hhook (t' : ℕ) (ht : t' ≠ t) (fn : PprofFn) (point : PprofPoint) :
      (s.hook t' fn point).frames t = s.frames t := by
    unfold PprofThreads.hook
    split
    · rfl
    · exact Function.update_of_ne (Ne.symm ht) _ _
  cases label with
  | alloc t' sampled =>
    cases hstep
    split
    · exact hhook t' hother _ _
    · rfl
  | dealloc t' =>
    cases hstep
    exact hhook t' hother _ _
  | dump t' =>
    simp only [guardStep] at hstep
    split at hstep <;> cases hstep
    exact Function.update_of_ne (Ne.symm hother) _ _
  | advance t' =>
    simp only [guardStep, PprofThreads.advance] at hstep
    split at hstep <;> try contradiction
    split at hstep
    · cases hstep
      exact Function.update_of_ne (Ne.symm hother) _ _
    · split at hstep <;> cases hstep
      exact Function.update_of_ne (Ne.symm hother) _ _
    · split at hstep <;> cases hstep <;> exact Function.update_of_ne (Ne.symm hother) _ _
    · cases hstep
      exact Function.update_of_ne (Ne.symm hother) _ _

/-- A thread no label is about is not in the profiler. -/
theorem frames_of_run {labels : List GuardLabel} (hrun : run guardStep s labels = some s')
    (hnot : t ∉ labels.map GuardLabel.thread) : s'.frames t = s.frames t := by
  induction labels generalizing s with
  | nil =>
    cases hrun
    rfl
  | cons label labels ih =>
    obtain ⟨s₁, hstep, hrest⟩ := run_cons_eq_some.mp hrun
    simp only [List.map_cons, List.mem_cons, not_or] at hnot
    rw [ih hrest hnot.2, frames_of_step hstep (Ne.symm hnot.1)]

/-- In every interleaving of threads that allocate and free inside the profiler too: the flag is set
exactly inside it, no thread waits for the mutex it holds, no two hold it, and all threads can leave
the profiler. -/
theorem pprof_guard_sound {labels : List GuardLabel} (hrun : run guardStep .new labels = some s) :
    (∀ t, s.inPprof t = true ↔ s.frames t ≠ []) ∧
      (∀ t, ∀ frame ∈ s.frames t, frame.point = .lock → s.holder ≠ some t) ∧
      (∀ t t', s.Holds t → s.Holds t' → t = t') ∧
      ∃ labels' s', (∀ label ∈ labels', ∃ t, label = .advance t) ∧
        run guardStep s labels' = some s' ∧ ∀ t, s'.frames t = [] := by
  have hsound : s.Sound := run_invariant
    (fun _ _ _ h hstep => h.step hstep) PprofThreads.sound_new hrun
  refine ⟨fun t => ?_, fun t waiting hin hlock => ?_, fun t t' ht ht' => ?_, ?_⟩
  · have hnested := hsound.nested t
    cases hframes : s.frames t with
    | nil =>
      rw [hframes] at hnested
      have hclear : s.inPprof t = false := hnested
      simp [hclear]
    | cons frame rest =>
      rw [hframes] at hnested
      simpa using hnested.1
  · rw [ne_eq, hsound.holder]
    rintro ⟨frame, hframe, hlocked⟩
    have hnested := hsound.nested t
    obtain ⟨rest, hframes⟩ : ∃ rest, s.frames t = frame :: rest := by
      cases hframes : s.frames t with
      | nil => simp [hframes] at hframe
      | cons first rest =>
        rw [hframes, List.head?_cons, Option.mem_some_iff] at hframe
        exact ⟨rest, by rw [hframe]⟩
    rw [hframes] at hnested hin
    rcases List.mem_cons.mp hin with rfl | hrest
    · rw [hlock] at hlocked
      cases hlocked
    · rw [hnested.2.1 waiting hrest] at hlock
      cases hlock
  · have hfirst := (hsound.holder t).mpr ht
    rw [(hsound.holder t').mpr ht', Option.some.injEq] at hfirst
    exact hfirst.symm
  · have hbusy (t : ℕ) (ht : t ∉ labels.map GuardLabel.thread) : s.frames t = [] :=
      frames_of_run hrun ht
    cases hholder : s.holder with
    | none => exact hsound.quiesce hholder hbusy
    | some t =>
      -- the holder goes first
      obtain ⟨n, s₁, hrun₁, hdone, hnone, hothers⟩ := hsound.finish (t := t) (.inr hholder)
      have hsound₁ : s₁.Sound := run_invariant (fun _ _ _ h hstep => h.step hstep) hsound hrun₁
      obtain ⟨labels', s', hlabels', hrun', hidle⟩ := hsound₁.quiesce hnone fun t' ht' => by
        by_cases heq : t' = t
        · rw [heq, hdone]
        · rw [hothers t' heq]
          exact hbusy t' ht'
      refine ⟨List.replicate n (.advance t) ++ labels', s', fun label hin => ?_, ?_, hidle⟩
      · rcases List.mem_append.mp hin with hin | hin
        · exact ⟨t, List.eq_of_mem_replicate hin⟩
        · exact hlabels' label hin
      · rw [run_append, hrun₁]
        exact hrun'

/-- Thread 1 builds a profile under the mutex and allocates there, thread 2 waits with a sample, and
the writer of thread 3's dump dumps again. -/
def nestedDumpRun : List GuardLabel :=
  [.dump 3, .advance 3, .advance 3, .dump 3, .dump 1, .advance 1, .alloc 1 true, .dealloc 1,
    .alloc 2 true, .advance 2, .dealloc 2]

/-- Three threads are in the profiler, and one of them holds the mutex. -/
theorem pprof_guard_sound_nestedDump :
    ∃ s, run guardStep .new nestedDumpRun = some s ∧ s.holder = some 1 ∧
    (s.frames 1).length = 1 ∧ (s.frames 2).length = 1 ∧ (s.frames 3).length = 2 ∧
    (∀ t, s.inPprof t = true ↔ s.frames t ≠ []) ∧
      (∀ t, ∀ frame ∈ s.frames t, frame.point = .lock → s.holder ≠ some t) ∧
      (∀ t t', s.Holds t → s.Holds t' → t = t') ∧
      ∃ labels' s', (∀ label ∈ labels', ∃ t, label = .advance t) ∧
        run guardStep s labels' = some s' ∧ ∀ t, s'.frames t = [] := by
  have hcheck : (run guardStep .new nestedDumpRun).map (fun s => decide (s.holder = some 1 ∧
      (s.frames 1).length = 1 ∧ (s.frames 2).length = 1 ∧
        (s.frames 3).length = 2)) = some true := by decide +kernel
  obtain ⟨s, hrun, hs⟩ := Option.map_eq_some_iff.mp hcheck
  obtain ⟨hholder, hfirst, hsecond, hthird⟩ := of_decide_eq_true hs
  exact ⟨s, hrun, hholder, hfirst, hsecond, hthird, pprof_guard_sound hrun⟩

end ClMalloc
