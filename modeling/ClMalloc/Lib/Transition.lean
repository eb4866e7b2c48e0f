import Mathlib.Logic.Basic

/-!
# Runs of a labelled step function

A system is a function from a state and a label to the next state; a label that is not
enabled has no next state. A run executes labels in order. Two rules carry every
reachability argument: an invariant preserved by each step holds after the whole run,
and an invariant preserved only by the steps a guard admits holds after each run whose
labels all meet the guard.
-/

namespace Transition

variable {S A : Type*}

/-- Execute the labels in order, stopping without a result at the first one not enabled. -/
def run (step : S → A → Option S) : S → List A → Option S
  | s, [] => some s
  | s, a :: rest => (step s a).bind fun s' => run step s' rest

/-- Every label of the run is taken in a state where the guard admits it. -/
def Meets (step : S → A → Option S) (guard : S → A → Prop) : S → List A → Prop
  | _, [] => True
  | s, a :: rest => guard s a ∧ ∀ s', step s a = some s' → Meets step guard s' rest

/-- A run over a nonempty label list is one step followed by the run of the rest. -/
theorem run_cons_eq_some {step : S → A → Option S} {s s' : S} {a : A} {rest : List A} :
    run step s (a :: rest) = some s' ↔ ∃ t, step s a = some t ∧ run step t rest = some s' :=
  Option.bind_eq_some_iff

/-- The first label meets the guard and the rest do after the step it takes. -/
theorem meets_cons {step : S → A → Option S} {guard : S → A → Prop} {s : S} {a : A}
    {rest : List A} :
    Meets step guard s (a :: rest) ↔
      guard s a ∧ (match step s a with | some s' => Meets step guard s' rest | none => True) := by
  cases h : step s a <;> simp [Meets, h]

/-- A run that meets a guard meets every weaker one. -/
theorem Meets.mono {step : S → A → Option S} {guard guard' : S → A → Prop}
    (hguard : ∀ s a, guard s a → guard' s a) {s : S} {labels : List A}
    (h : Meets step guard s labels) :
    Meets step guard' s labels := by
  induction labels generalizing s with
  | nil => trivial
  | cons a rest ih => exact ⟨hguard s a h.1, fun s' hs' => ih (h.2 s' hs')⟩

/-- Every run meets the guard that admits everything. -/
theorem meets_true (step : S → A → Option S) (s : S) (labels : List A) :
    Meets step (fun _ _ => True) s labels := by
  induction labels generalizing s with
  | nil => trivial
  | cons a rest ih => exact ⟨trivial, fun s' _ => ih s'⟩

/-- Whether a run meets a decidable guard can be computed. -/
instance decidableMeets (step : S → A → Option S) (guard : S → A → Prop)
    [∀ s a, Decidable (guard s a)] :
    (s : S) → (labels : List A) → Decidable (Meets step guard s labels)
  | _, [] => isTrue trivial
  | s, a :: rest =>
    match h : step s a with
    | some s' =>
      have := decidableMeets step guard s' rest
      decidable_of_iff (guard s a ∧ Meets step guard s' rest) (by simp [meets_cons, h])
    | none => decidable_of_iff (guard s a) (by simp [meets_cons, h])

/-- Running a concatenation is running its two parts in order. -/
theorem run_append (step : S → A → Option S) (s : S) (left right : List A) :
    run step s (left ++ right) = (run step s left).bind fun t => run step t right := by
  induction left generalizing s with
  | nil => rfl
  | cons a rest ih =>
    simp only [List.cons_append, run, Option.bind_assoc]
    congr 1
    funext t
    exact ih t

/-- A system whose steps are simulated one for one has its runs simulated too. -/
theorem run_map {T B : Type*} {step : S → A → Option S} {step' : T → B → Option T} {f : A → B}
    {g : S → T} (hstep : ∀ s a s', step s a = some s' → step' (g s) (f a) = some (g s')) {s s' : S}
    {labels : List A} (hrun : run step s labels = some s') :
    run step' (g s) (labels.map f) = some (g s') := by
  induction labels generalizing s with
  | nil =>
    obtain rfl := Option.some.inj hrun
    rfl
  | cons a rest ih =>
    obtain ⟨t, ht, hrest⟩ := run_cons_eq_some.mp hrun
    exact run_cons_eq_some.mpr ⟨g t, hstep s a t ht, ih hrest⟩

/-- A system whose steps are simulated by runs has its runs simulated too. -/
theorem run_flatMap {T B : Type*} {step : S → A → Option S} {step' : T → B → Option T}
    {f : A → List B} {g : S → T}
    (hstep : ∀ s a s', step s a = some s' → run step' (g s) (f a) = some (g s')) {s s' : S}
    {labels : List A} (hrun : run step s labels = some s') :
    run step' (g s) (labels.flatMap f) = some (g s') := by
  induction labels generalizing s with
  | nil =>
    obtain rfl := Option.some.inj hrun
    rfl
  | cons a rest ih =>
    obtain ⟨t, ht, hrest⟩ := run_cons_eq_some.mp hrun
    rw [List.flatMap_cons, run_append, hstep s a t ht]
    exact ih hrest

/-- A concatenation meets the guard when its first part does and, from where that ends, its
second. -/
theorem meets_append {step : S → A → Option S} {guard : S → A → Prop} {s : S}
    {left right : List A} :
    Meets step guard s (left ++ right) ↔
      Meets step guard s left ∧ ∀ t, run step s left = some t → Meets step guard t right := by
  induction left generalizing s with
  | nil => simp [Meets, run]
  | cons a rest ih =>
    simp only [List.cons_append, Meets, ih, run_cons_eq_some]
    constructor
    · rintro ⟨hguard, hrest⟩
      refine ⟨⟨hguard, fun s' hs' => (hrest s' hs').1⟩, ?_⟩
      rintro t ⟨s', hs', hrun⟩
      exact (hrest s' hs').2 t hrun
    · rintro ⟨⟨hguard, hrest⟩, hright⟩
      exact ⟨hguard, fun s' hs' => ⟨hrest s' hs', fun t hrun => hright t ⟨s', hs', hrun⟩⟩⟩

/-- A run meets the guard when every label does in the state the labels before it lead to. -/
theorem meets_of_forall_split {step : S → A → Option S} {guard : S → A → Prop} {s : S}
    {labels : List A}
    (h : ∀ done a rest, labels = done ++ a :: rest → ∀ t, run step s done = some t → guard t a) :
    Meets step guard s labels := by
  induction labels generalizing s with
  | nil => trivial
  | cons a rest ih =>
    refine ⟨h [] a rest rfl s rfl, fun s' hs' => ih fun done b rest' hrest t hrun => ?_⟩
    exact h (a :: done) b rest' (by rw [hrest, List.cons_append]) t
      (run_cons_eq_some.mpr ⟨s', hs', hrun⟩)

/-- A guard that follows from another one wherever an invariant holds is met by the same runs. -/
theorem Meets.mono_of_invariant {step : S → A → Option S} {guard guard' : S → A → Prop}
    {I : S → Prop} (hguard : ∀ s a, I s → guard s a → guard' s a)
    (hstep : ∀ s a s', I s → guard' s a → step s a = some s' → I s') {s : S} {labels : List A}
    (hs : I s) (h : Meets step guard s labels) : Meets step guard' s labels := by
  induction labels generalizing s with
  | nil => trivial
  | cons a rest ih =>
    have hnow := hguard s a hs h.1
    exact ⟨hnow, fun s' hs' => ih (hstep s a s' hs hnow hs') (h.2 s' hs')⟩

/-- A guard that an invariant gives is met by every run. -/
theorem meets_of_invariant {step : S → A → Option S} {guard : S → A → Prop} {I : S → Prop}
    (hguard : ∀ s a, I s → guard s a) (hstep : ∀ s a s', I s → step s a = some s' → I s') {s : S}
    (hs : I s) (labels : List A) : Meets step guard s labels :=
  (meets_true step s labels).mono_of_invariant (fun s a hs _ => hguard s a hs)
    (fun s a s' hs _ => hstep s a s' hs) hs

/-- A system meets a guard over the labels a system it projects to meets its own guard over, when
the guards agree wherever an invariant holds that admitted steps keep. -/
theorem meets_iff_of_project {T : Type*} {step : S → A → Option S} {step' : T → A → Option T}
    {f : S → T} {guard : S → A → Prop} {guard' : T → A → Prop} {I : S → Prop} {P : A → Prop}
    (hproject : ∀ s a, step' (f s) a = (step s a).map f)
    (hguard : ∀ s a, I s → P a → (guard s a ↔ guard' (f s) a))
    (hstep : ∀ s a s', I s → P a → guard s a → step s a = some s' → I s') {s : S} {labels : List A}
    (hs : I s) (hlabels : ∀ a ∈ labels, P a) :
    Meets step guard s labels ↔ Meets step' guard' (f s) labels := by
  induction labels generalizing s with
  | nil => exact Iff.rfl
  | cons a rest ih =>
    have ha := hlabels a List.mem_cons_self
    have hrest : ∀ b ∈ rest, P b := fun b hb => hlabels b (List.mem_cons_of_mem _ hb)
    rw [meets_cons, meets_cons, ← hguard s a hs ha, hproject]
    apply and_congr_right
    intro hnow
    cases hs' : step s a with
    | none => exact Iff.rfl
    | some s' => exact ih (hstep s a s' hs ha hnow hs') hrest

/-- Every step of a list of labels that each keep an invariant ends where the invariant holds. -/
theorem meets_of_keeps {step : S → A → Option S} {I : S → Prop} {labels : List A}
    (hstep : ∀ a ∈ labels, ∀ s s', I s → step s a = some s' → I s') {s : S} (hs : I s) :
    Meets step (fun s a => ∀ s', step s a = some s' → I s') s labels := by
  induction labels generalizing s with
  | nil => trivial
  | cons a rest ih =>
    refine ⟨fun s' => hstep a List.mem_cons_self s s' hs, fun s' hs' => ih ?_ ?_⟩
    · exact fun b hb => hstep b (List.mem_cons_of_mem _ hb)
    · exact hstep a List.mem_cons_self s s' hs hs'

/-- An invariant kept by every admitted step holds at the end of a run that meets the guard. -/
theorem run_invariant_of_meets {step : S → A → Option S} {guard : S → A → Prop} {I : S → Prop}
    (hstep : ∀ s a s', I s → guard s a → step s a = some s' → I s')
    {s s' : S} {labels : List A} (hs : I s) (hmeets : Meets step guard s labels)
    (hrun : run step s labels = some s') : I s' := by
  induction labels generalizing s with
  | nil =>
    simp only [run, Option.some.injEq] at hrun
    exact hrun ▸ hs
  | cons a rest ih =>
    obtain ⟨t, ht, hrest⟩ := run_cons_eq_some.mp hrun
    exact ih (hstep s a t hs hmeets.1 ht) (hmeets.2 t ht) hrest

/-- An invariant kept by each label of the run holds at its end. -/
theorem run_invariant_of_labels {step : S → A → Option S} {I : S → Prop} {labels : List A}
    (hstep : ∀ a ∈ labels, ∀ s s', I s → step s a = some s' → I s') {s s' : S} (hs : I s)
    (hrun : run step s labels = some s') : I s' :=
  run_invariant_of_meets (fun _ _ s' _ hguard hstep => hguard s' hstep) hs
    (meets_of_keeps hstep hs) hrun

/-- When every admitted step is enabled and keeps an invariant, a run that meets the guard ends
where it holds. -/
theorem exists_run_of_meets {step : S → A → Option S} {guard : S → A → Prop} {I : S → Prop}
    (hstep : ∀ s a, I s → guard s a → ∃ s', step s a = some s' ∧ I s') {s : S} {labels : List A}
    (hs : I s) (hmeets : Meets step guard s labels) : ∃ s', run step s labels = some s' ∧ I s' := by
  induction labels generalizing s with
  | nil => exact ⟨s, rfl, hs⟩
  | cons a rest ih =>
    obtain ⟨t, ht, hinv⟩ := hstep s a hs hmeets.1
    obtain ⟨s', hrun, hs'⟩ := ih hinv (hmeets.2 t ht)
    exact ⟨s', run_cons_eq_some.mpr ⟨t, ht, hrun⟩, hs'⟩

/-- When every step is enabled wherever an invariant holds and keeps it, every run ends where it
holds. -/
theorem exists_run_of_total {step : S → A → Option S} {I : S → Prop}
    (hstep : ∀ s a, I s → ∃ s', step s a = some s' ∧ I s') {s : S} (hs : I s) (labels : List A) :
    ∃ s', run step s labels = some s' ∧ I s' :=
  exists_run_of_meets (fun s a hs _ => hstep s a hs) hs (meets_true step s labels)

/-- An invariant kept by every step holds at the end of every run. -/
theorem run_invariant {step : S → A → Option S} {I : S → Prop}
    (hstep : ∀ s a s', I s → step s a = some s' → I s')
    {s s' : S} {labels : List A} (hs : I s) (hrun : run step s labels = some s') : I s' :=
  run_invariant_of_meets (fun s a s' hs _ => hstep s a s' hs) hs (meets_true step s labels) hrun

end Transition
