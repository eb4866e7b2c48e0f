import ClMalloc.AbandonedInvariant
import ClMalloc.Lib.Linearizable

/-!
# The abandoned list seems atomic to the threads that share it

An atomic list takes one slab at a time and gives all it has to one adopter. The code
abandons a slab in three steps or more, and an adopter walks its chain slab by slab while
others abandon and adopt. Every thread sees what it would see of the atomic list: a slab is
abandoned at the exchange, and an adoption happens at the swap, or at the load that finds
nothing.
-/

namespace ClMalloc

open Transition Intrusive Placement Linearizable

/-- The operations of the abandoned list of one size class. -/
inductive AbandonOp
  | abandonSlab (slab : ℕ)
  | adoptAll
  deriving DecidableEq

/-- The result of an operation. -/
inductive AbandonResult
  | abandoned
  | adopted (slabs : List ℕ)
  deriving DecidableEq

/-- An operation of the atomic list. -/
def abandonApply (slabs : List ℕ) : AbandonOp → AbandonResult × List ℕ
  | .abandonSlab slab => (.abandoned, slab :: slabs)
  | .adoptAll => (.adopted slabs, [])

/-- What the atomic list allows. -/
def AbandonSpec (slabs : List ℕ) (op : AbandonOp) (r : AbandonResult) (slabs' : List ℕ) : Prop :=
  abandonApply slabs op = (r, slabs')

/-- The calls and returns of a step: an adopter returns with the slabs it walked. -/
def abandonEvents (s : AbandonSys) : AbandonLabel → List (Event ℕ AbandonOp AbandonResult)
  | .create _ _ => []
  | .release _ _ => []
  | .relink _ _ _ => []
  | .abandonSlab t slab => [.call t (.abandonSlab slab)]
  | .adoptAll t => [.call t .adoptAll]
  | .advance t spurious =>
    match s.call t with
    | .cas _ current => if s.head = current ∧ spurious = false then [.ret t .abandoned] else []
    | .adoptLoad => if s.head = none then [.ret t (.adopted [])] else []
    | .walking none => [.ret t (.adopted (s.walked t))]
    | _ => []

/-- Where a thread is for the atomic list: an adoption is done when the walk begins. -/
def AbandonCall.phase (k : AbandonCall) (taken : List ℕ) : Phase AbandonOp AbandonResult :=
  match k with
  | .idle => .idle
  | .loadHead slab => .called (.abandonSlab slab)
  | .setLink slab _ => .called (.abandonSlab slab)
  | .cas slab _ => .called (.abandonSlab slab)
  | .adoptLoad => .called .adoptAll
  | .adoptSwap => .called .adoptAll
  | .walking _ => .done (.adopted taken)

/-- The atomic list the abandoned list stands for. -/
def AbandonSys.atomic (s : AbandonSys) : Atomic (List ℕ) ℕ AbandonOp AbandonResult where
  state := s.since
  phase t := (s.call t).phase (s.taken t)

variable {s s' : AbandonSys} {place : ℕ → Option AbandonPlace} {t slab : ℕ} {k : AbandonCall}

/-- The atomic list when one thread moves on. -/
theorem AbandonSys.atomic_goto (s s' : AbandonSys) (hcall : s'.call = Function.update s.call t k)
    (htaken : ∀ t' ≠ t, s'.taken t' = s.taken t') :
    s'.atomic = Atomic.goto { s.atomic with state := s'.since } t (k.phase (s'.taken t)) := by
  unfold AbandonSys.atomic Atomic.goto
  congr 1
  funext t'
  by_cases ht : t' = t
  · subst ht
    simp [hcall]
  · simp [hcall, ht, htaken t' ht]

/-- A thread moves on and the atomic list does not notice. -/
theorem AbandonSys.atomic_quiet (s s' : AbandonSys) (hcall : s'.call = Function.update s.call t k)
    (htaken : s'.taken = s.taken) (hsince : s'.since = s.since)
    (hphase : k.phase (s.taken t) = (s.call t).phase (s.taken t)) : s'.atomic = s.atomic := by
  rw [s.atomic_goto s' hcall fun t' _ => by rw [htaken], htaken, hphase, hsince]
  exact Atomic.goto_self rfl

/-- The atomic list follows the steps of the two operations. -/
theorem AbandonInv.runs_advance (h : AbandonInv s place) {spurious : Bool}
    (hstep : s.advance t spurious = some s') :
    Runs AbandonSpec s.atomic (abandonEvents s (.advance t spurious)) s'.atomic := by
  simp only [abandonEvents]
  cases hcall : s.call t with
  | idle => simp [AbandonSys.advance, hcall] at hstep
  | loadHead slab =>
    simp only [AbandonSys.advance, hcall] at hstep
    cases hstep
    rw [s.atomic_quiet (s.goto t (.setLink slab s.head)) rfl rfl rfl (by rw [hcall]; rfl)]
    exact .refl _
  | setLink slab current =>
    simp only [AbandonSys.advance, hcall] at hstep
    cases hstep
    rw [s.atomic_quiet ((s.setNextLink slab current).goto t (.cas slab current)) rfl rfl rfl
      (by rw [hcall]; rfl)]
    exact .refl _
  | cas slab current =>
    simp only [AbandonSys.advance, hcall] at hstep
    by_cases hcas : s.head = current ∧ spurious = false
    · simp only [if_pos hcas] at hstep ⊢
      cases hstep
      rw [s.atomic_goto ((s.push t slab).goto t .idle) rfl fun _ _ => rfl]
      have hcalled : s.atomic.phase t = .called (.abandonSlab slab) := by
        simp [AbandonSys.atomic, hcall, AbandonCall.phase]
      exact runs_commit_ret hcalled (by rfl)
    · simp only [if_neg hcas] at hstep ⊢
      cases hstep
      rw [s.atomic_quiet (s.goto t (.setLink slab s.head)) rfl rfl rfl (by rw [hcall]; rfl)]
      exact .refl _
  | adoptLoad =>
    simp only [AbandonSys.advance, hcall] at hstep
    cases hstep
    by_cases hempty : s.head = none
    · simp only [if_pos hempty]
      have hchain := h.chain
      rw [hempty] at hchain
      have hnone := hchain.eq_nil
      rw [s.atomic_goto (s.goto t .idle) rfl fun _ _ => rfl]
      have hcalled : s.atomic.phase t = .called .adoptAll := by
        simp [AbandonSys.atomic, hcall, AbandonCall.phase]
      have hspec : AbandonSpec s.since .adoptAll (.adopted []) s.since := by
        unfold AbandonSpec
        rw [hnone]
        rfl
      exact runs_commit_ret hcalled hspec
    · simp only [if_neg hempty]
      rw [s.atomic_quiet (s.goto t .adoptSwap) rfl rfl rfl (by rw [hcall]; rfl)]
      exact .refl _
  | adoptSwap =>
    simp only [AbandonSys.advance, hcall] at hstep
    cases hstep
    rw [s.atomic_goto ((s.swap t).goto t (.walking s.head)) rfl fun t' ht =>
      Function.update_of_ne ht _ _]
    have hcalled : s.atomic.phase t = .called .adoptAll := by
      simp [AbandonSys.atomic, hcall, AbandonCall.phase]
    have htaken : ((s.swap t).goto t (.walking s.head)).taken t = s.since :=
      Function.update_self _ _ _
    rw [htaken]
    exact runs_commit hcalled (by rfl)
  | walking cursor =>
    cases cursor with
    | none =>
      simp only [AbandonSys.advance, hcall] at hstep
      cases hstep
      obtain ⟨hchain, htaken⟩ := h.walks t none hcall
      rw [hchain.eq_nil, List.append_nil] at htaken
      rw [s.atomic_goto (s.goto t .idle) rfl fun _ _ => rfl]
      apply runs_ret
      simp [AbandonSys.atomic, hcall, AbandonCall.phase, htaken]
    | some slab =>
      simp only [AbandonSys.advance, hcall] at hstep
      cases hstep
      rw [s.atomic_quiet ((s.walk t slab).goto t (.walking (s.nextLink slab))) rfl rfl rfl
        (by rw [hcall]; rfl)]
      exact .refl _

/-- The atomic list follows every step. -/
theorem AbandonInv.runs_step (h : AbandonInv s place) {label : AbandonLabel}
    (hstep : abandonStep s label = some s') :
    Runs AbandonSpec s.atomic (abandonEvents s label) s'.atomic := by
  cases label with
  | create t slab =>
    simp only [abandonStep] at hstep
    split at hstep <;> cases hstep
    exact .refl _
  | release t slab =>
    simp only [abandonStep] at hstep
    split at hstep <;> cases hstep
    exact .refl _
  | relink t slab next =>
    simp only [abandonStep] at hstep
    split at hstep <;> cases hstep
    exact .refl _
  | abandonSlab t slab =>
    simp only [abandonStep] at hstep
    split at hstep <;> cases hstep
    rename_i hpre
    rw [s.atomic_goto (s.goto t (.loadHead slab)) rfl fun _ _ => rfl]
    apply runs_call
    simp [AbandonSys.atomic, hpre.1, AbandonCall.phase]
  | adoptAll t =>
    simp only [abandonStep] at hstep
    split at hstep <;> cases hstep
    rename_i hidle
    rw [s.atomic_goto (s.goto t .adoptLoad) rfl fun _ _ => rfl]
    apply runs_call
    simp [AbandonSys.atomic, hidle, AbandonCall.phase]
  | advance t spurious => exact h.runs_advance hstep

/-- In every interleaving the threads see what they could see of an atomic list: every adopter gets
the slabs abandoned since the adoption before it, newest first. The chain in memory is the list. -/
theorem abandoned_linearizable (labels : List AbandonLabel)
    (hrun : run abandonStep AbandonSys.new labels = some s) :
    Runs AbandonSpec (.new []) (history abandonStep abandonEvents AbandonSys.new labels) s.atomic ∧
      Chain s.nextLink s.head s.atomic.state := by
  obtain ⟨o, hruns, ⟨place, hinv⟩, rfl⟩ := runs_of_simulation (fun _ _ => True)
    (fun s o => (∃ place, AbandonInv s place) ∧ o = s.atomic)
    (fun s o label s' hrel _ hstep => by
      obtain ⟨⟨place, hinv⟩, rfl⟩ := hrel
      exact ⟨_, hinv.runs_step hstep, hinv.step hstep, rfl⟩)
    ⟨⟨_, abandonInv_new⟩, rfl⟩ (meets_true abandonStep _ labels) hrun
  exact ⟨hruns, hinv.chain⟩

/-- Thread 1 adopts slab 10 and abandons it again while thread 0 remembers it as the head. -/
theorem abandoned_linearizable_rememberedHead : ∃ s : AbandonSys,
    run abandonStep AbandonSys.new rememberedHeadRun = some s ∧
      history abandonStep abandonEvents AbandonSys.new rememberedHeadRun =
        [.call 0 (.abandonSlab 10), .ret 0 .abandoned, .call 0 (.abandonSlab 20), .call 1 .adoptAll,
          .ret 1 (.adopted [10]), .call 1 (.abandonSlab 10), .ret 1 .abandoned, .ret 0 .abandoned] ∧
      Runs AbandonSpec (.new []) (history abandonStep abandonEvents AbandonSys.new
        rememberedHeadRun) s.atomic ∧
      Chain s.nextLink s.head s.atomic.state := by
  have heval : (run abandonStep AbandonSys.new rememberedHeadRun).isSome = true := by decide +kernel
  obtain ⟨s, hrun⟩ := Option.isSome_iff_exists.mp heval
  exact ⟨s, hrun, by decide +kernel, abandoned_linearizable rememberedHeadRun hrun⟩

end ClMalloc
