import ClMalloc.Abandoned

/-!
# Abandonment loses no slab and adopts none twice

A push may remember a head that was adopted, relinked into its adopter's queues and abandoned
again before the compare-exchange. That is harmless: the exchange succeeds only on the
current head, and the slab being pushed is still in its owner's hands, so the link written
before the exchange is the one the new chain needs. The chain is therefore always the list
of pushes since the last swap, and a swap hands that list whole to one adopter.
-/

namespace ClMalloc

open Intrusive Placement

variable {s s' : AbandonSys} {place : ℕ → Option AbandonPlace} {t slab : ℕ} {k : AbandonCall}

/-- A slab in some thread's hands is in no chain. -/
theorem AbandonInv.notMem_chains (h : AbandonInv s place) (hslab : slab ∈ s.owned t) :
    slab ∉ s.since ∧ ∀ t', slab ∉ s.ahead t' := by
  constructor
  · intro hin
    have := h.placed.unique (show slab ∈ s.lists (.owner t) from hslab)
      (show slab ∈ s.lists .chain from hin)
    simp at this
  · intro t' hin
    have := h.placed.unique (show slab ∈ s.lists (.owner t) from hslab)
      (show slab ∈ s.lists (.adopter t') from hin)
    simp at this

/-- A slab has one owner. -/
theorem AbandonInv.owner_unique (h : AbandonInv s place) {t' : ℕ} (hslab : slab ∈ s.owned t)
    (hslab' : slab ∈ s.owned t') : t = t' := by
  have := h.placed.unique (show slab ∈ s.lists (.owner t) from hslab)
    (show slab ∈ s.lists (.owner t') from hslab')
  simpa using this

/-- A slab is ahead of at most one adopter, and then not in the abandoned chain. -/
theorem AbandonInv.ahead_unique (h : AbandonInv s place) (hslab : slab ∈ s.ahead t) :
    slab ∉ s.since ∧ ∀ t', slab ∈ s.ahead t' → t' = t := by
  constructor
  · intro hin
    have := h.placed.unique (show slab ∈ s.lists (.adopter t) from hslab)
      (show slab ∈ s.lists .chain from hin)
    simp at this
  · intro t' hin
    have := h.placed.unique (show slab ∈ s.lists (.adopter t') from hin)
      (show slab ∈ s.lists (.adopter t) from hslab)
    simpa using this

/-- When an adopter takes a slab that is ahead of it, the others stay ahead. -/
theorem AbandonInv.exists_ahead_erase (h : AbandonInv s place) (hslab : slab ∈ s.ahead t) {q : ℕ} :
    (∃ t', q ∈ Function.update s.ahead t ((s.ahead t).erase slab) t') ↔ q ≠ slab ∧
      ∃ t', q ∈ s.ahead t' := by
  have hnodup : (s.ahead t).Nodup := h.placed.nodup (.adopter t)
  constructor
  · rintro ⟨t', hin⟩
    by_cases ht : t' = t
    · subst ht
      rw [Function.update_self, hnodup.mem_erase_iff] at hin
      exact ⟨hin.1, t', hin.2⟩
    · rw [Function.update_of_ne ht] at hin
      refine ⟨?_, t', hin⟩
      rintro rfl
      exact ht ((h.ahead_unique hslab).2 t' hin)
  · rintro ⟨hne, t', hin⟩
    refine ⟨t', ?_⟩
    by_cases ht : t' = t
    · subst ht
      rw [Function.update_self, hnodup.mem_erase_iff]
      exact ⟨hne, hin⟩
    · rwa [Function.update_of_ne ht]

/-- What a thread must be able to say about the point it moves to. -/
structure AbandonSys.CallOk (s : AbandonSys) (t : ℕ) (k : AbandonCall) : Prop where
  inHand : ∀ slab, k.slab = some slab → slab ∈ s.owned t
  linked : ∀ slab current, k = .cas slab current → s.nextLink slab = current
  walks : ∀ cursor, k = .walking cursor →
    Chain s.nextLink cursor (s.ahead t) ∧ s.taken t = s.walked t ++ s.ahead t
  resting : (∀ cursor, k ≠ .walking cursor) → s.ahead t = []

/-- A thread that moves to another point, without a write. -/
theorem AbandonInv.goto (h : AbandonInv s place) (hk : s.CallOk t k) :
    AbandonInv (s.goto t k) place where
  placed := h.placed
  present := h.present
  present_nodup := h.present_nodup
  chain := h.chain
  walks := fun t' cursor hcall => by
    by_cases ht : t' = t
    · subst ht
      exact hk.walks cursor (by simpa [AbandonSys.goto] using hcall)
    · exact h.walks t' cursor (by simpa [AbandonSys.goto, ht] using hcall)
  resting := fun t' hcall => by
    by_cases ht : t' = t
    · subst ht
      exact hk.resting (by simpa [AbandonSys.goto] using hcall)
    · exact h.resting t' (by simpa [AbandonSys.goto, ht] using hcall)
  inHand := fun t' slab hcall => by
    by_cases ht : t' = t
    · subst ht
      exact hk.inHand slab (by simpa [AbandonSys.goto] using hcall)
    · exact h.inHand t' slab (by simpa [AbandonSys.goto, ht] using hcall)
  linked := fun t' slab current hcall => by
    by_cases ht : t' = t
    · subst ht
      exact hk.linked slab current (by simpa [AbandonSys.goto] using hcall)
    · exact h.linked t' slab current (by simpa [AbandonSys.goto, ht] using hcall)
  logged := h.logged
  alternates := h.alternates

/-- A point at which the thread neither links a slab nor walks. -/
theorem AbandonInv.callOk (h : AbandonInv s place)
    (hhand : ∀ slab, k.slab = some slab → slab ∈ s.owned t)
    (hcas : ∀ slab current, k ≠ .cas slab current) (hk : ∀ cursor, k ≠ .walking cursor)
    (hcall : ∀ cursor, s.call t ≠ .walking cursor) : s.CallOk t k where
  inHand := hhand
  linked := fun slab current heq => absurd heq (hcas slab current)
  walks := fun cursor heq => absurd heq (hk cursor)
  resting := fun _ => h.resting t hcall

/-- The owner of a slab that is not being linked writes its link. -/
theorem AbandonInv.setNextLink (h : AbandonInv s place) (hslab : slab ∈ s.owned t)
    (hcas : ∀ current, s.call t ≠ .cas slab current) (next : Option ℕ) :
    AbandonInv (s.setNextLink slab next) place where
  placed := h.placed
  present := h.present
  present_nodup := h.present_nodup
  chain := h.chain.update_of_notMem (h.notMem_chains hslab).1 next
  walks := fun t' cursor hcall => by
    obtain ⟨hchain, htaken⟩ := h.walks t' cursor hcall
    exact ⟨hchain.update_of_notMem ((h.notMem_chains hslab).2 t') next, htaken⟩
  resting := h.resting
  inHand := h.inHand
  linked := fun t' slab' current hcall => by
    have hne : slab' ≠ slab := by
      rintro rfl
      have howned : slab' ∈ s.owned t' :=
        h.inHand t' slab' (by rw [show s.call t' = _ from hcall]; rfl)
      have ht : t' = t := h.owner_unique howned hslab
      subst ht
      exact hcas current hcall
    change Function.update s.nextLink slab next slab' = current
    rw [Function.update_of_ne hne]
    exact h.linked t' slab' current hcall
  logged := h.logged
  alternates := h.alternates

/-- A successful exchange puts the slab on top of the chain. -/
theorem AbandonInv.push (h : AbandonInv s place) (hslab : slab ∈ s.owned t)
    (hidle : s.call t = .idle) (hlink : s.nextLink slab = s.head) :
    AbandonInv (s.push t slab) (relocate place [slab] (some .chain)) where
  placed := by
    have hmoved := h.placed.pass (.owner t) .chain (by simp) hslab
    convert hmoved using 1
    funext place
    cases place with
    | chain => simp [AbandonSys.lists, AbandonSys.push]
    | adopter t' => simp [AbandonSys.lists, AbandonSys.push]
    | owner t' => by_cases ht : t' = t <;> simp [AbandonSys.lists, AbandonSys.push, ht]
  present := fun q => by
    rw [h.placed.isSome_relocate (.owner t) (List.forall_mem_singleton.mpr hslab)]
    exact h.present q
  present_nodup := h.present_nodup
  chain := h.chain.cons hlink
  walks := h.walks
  resting := h.resting
  inHand := fun t' slab' hcall => by
    have hcall' : (s.call t').slab = some slab' := hcall
    have hne : t' ≠ t := by
      rintro rfl
      simp [hidle, AbandonCall.slab] at hcall'
    simpa [AbandonSys.push, hne] using h.inHand t' slab' hcall'
  linked := h.linked
  logged := fun q => by
    change lastIsPush (.pushed slab :: s.log) q = true ↔ q ∈ slab :: s.since ∨ ∃ t', q ∈ s.ahead t'
    rw [lastIsPush_pushed, h.logged, List.mem_cons, or_assoc]
  alternates := h.alternates.push

/-- The swap hands the whole chain to the adopter. -/
theorem AbandonInv.swap (h : AbandonInv s place) (hcall : s.call t = .adoptSwap) :
    AbandonInv ((s.swap t).goto t (.walking s.head))
      (relocate place (s.lists .chain) (some (.adopter t))) where
  placed := by
    have hahead : s.ahead t = [] := h.resting t (by simp [hcall])
    have hmoved := h.placed.passAll .chain (.adopter t) (by simp)
    convert hmoved using 1
    funext place
    cases place with
    | chain => simp [AbandonSys.lists, AbandonSys.swap, AbandonSys.goto]
    | adopter t' =>
      by_cases ht : t' = t
      · subst ht
        simp [AbandonSys.lists, AbandonSys.swap, AbandonSys.goto, hahead]
      · simp [AbandonSys.lists, AbandonSys.swap, AbandonSys.goto, ht]
    | owner t' => simp [AbandonSys.lists, AbandonSys.swap, AbandonSys.goto]
  present := fun q => by
    rw [h.placed.isSome_relocate .chain fun q hq => hq]
    exact h.present q
  present_nodup := h.present_nodup
  chain := rfl
  walks := fun t' cursor hwalk => by
    by_cases ht : t' = t
    · subst ht
      have hcursor : s.head = cursor := by simpa [AbandonSys.goto] using hwalk
      subst hcursor
      simpa [AbandonSys.swap, AbandonSys.goto] using h.chain
    · simpa [AbandonSys.swap, AbandonSys.goto, ht] using
        h.walks t' cursor (by simpa [AbandonSys.goto, AbandonSys.swap, ht] using hwalk)
  resting := fun t' hrest => by
    have ht : t' ≠ t := by
      rintro rfl
      simp [AbandonSys.goto] at hrest
    simpa [AbandonSys.swap, AbandonSys.goto, ht] using
      h.resting t' (by simpa [AbandonSys.goto, AbandonSys.swap, ht] using hrest)
  inHand := fun t' slab hhand => by
    have ht : t' ≠ t := by
      rintro rfl
      simp [AbandonSys.goto, AbandonCall.slab] at hhand
    exact h.inHand t' slab (by simpa [AbandonSys.goto, AbandonSys.swap, ht] using hhand)
  linked := fun t' slab current hcas => by
    have ht : t' ≠ t := by
      rintro rfl
      simp [AbandonSys.goto] at hcas
    exact h.linked t' slab current (by simpa [AbandonSys.goto, AbandonSys.swap, ht] using hcas)
  logged := fun q => by
    have hahead : s.ahead t = [] := h.resting t (by simp [hcall])
    change lastIsPush s.log q = true ↔ q ∈ [] ∨ ∃ t', q ∈ Function.update s.ahead t s.since t'
    rw [h.logged]
    constructor
    · rintro (hin | ⟨t', hin⟩)
      · exact .inr ⟨t, by simpa using hin⟩
      · refine .inr ⟨t', ?_⟩
        have ht : t' ≠ t := by
          rintro rfl
          simp [hahead] at hin
        simpa [ht] using hin
    · rintro (hin | ⟨t', hin⟩)
      · simp at hin
      · by_cases ht : t' = t
        · subst ht
          exact .inl (by simpa using hin)
        · exact .inr ⟨t', by simpa [ht] using hin⟩
  alternates := h.alternates

/-- One step of the walk passes the first slab of the private chain to the adopter. -/
theorem AbandonInv.walk (h : AbandonInv s place) (hcall : s.call t = .walking (some slab)) :
    AbandonInv ((s.walk t slab).goto t (.walking (s.nextLink slab)))
      (relocate place [slab] (some (.owner t))) := by
  obtain ⟨hchain, htaken⟩ := h.walks t _ hcall
  obtain ⟨rest, hahead, hrest⟩ := hchain.exists_cons
  have hslab : slab ∈ s.ahead t := by simp [hahead]
  have herase : (s.ahead t).erase slab = rest := by simp [hahead]
  have hother (t' : ℕ) (ht : t' ≠ t) :
      ((s.walk t slab).goto t (.walking (s.nextLink slab))).call t' = s.call t' := by
    simp [AbandonSys.goto, AbandonSys.walk, ht]
  refine
    { placed := ?_
      present := fun q => ?_
      present_nodup := h.present_nodup
      chain := h.chain
      walks := fun t' cursor hwalk => ?_
      resting := fun t' hresting => ?_
      inHand := fun t' slab' hhand => ?_
      linked := fun t' slab' current hcas => ?_
      logged := fun q => ?_
      alternates := h.alternates.pop ((h.logged slab).mpr (.inr ⟨t, hslab⟩)) }
  · have hmoved := h.placed.pass (.adopter t) (.owner t) (by simp) hslab
    convert hmoved using 1
    funext place
    cases place with
    | chain => simp [AbandonSys.lists, AbandonSys.walk, AbandonSys.goto]
    | adopter t' => by_cases ht : t' = t <;>
        simp [AbandonSys.lists, AbandonSys.walk, AbandonSys.goto, ht]
    | owner t' => by_cases ht : t' = t <;>
        simp [AbandonSys.lists, AbandonSys.walk, AbandonSys.goto, ht]
  · rw [h.placed.isSome_relocate (.adopter t) (List.forall_mem_singleton.mpr hslab)]
    exact h.present q
  · by_cases ht : t' = t
    · subst ht
      have hcursor : s.nextLink slab = cursor := by simpa [AbandonSys.goto] using hwalk
      subst hcursor
      simp only [AbandonSys.walk, AbandonSys.goto, Function.update_self, herase]
      exact ⟨hrest, by rw [htaken, hahead, List.append_assoc]; rfl⟩
    · rw [hother t' ht] at hwalk
      simpa [AbandonSys.walk, AbandonSys.goto, ht] using h.walks t' cursor hwalk
  · have ht : t' ≠ t := by
      rintro rfl
      simp [AbandonSys.goto] at hresting
    rw [hother t' ht] at hresting
    simpa [AbandonSys.walk, AbandonSys.goto, ht] using h.resting t' hresting
  · have ht : t' ≠ t := by
      rintro rfl
      simp [AbandonSys.goto, AbandonCall.slab] at hhand
    rw [hother t' ht] at hhand
    simpa [AbandonSys.walk, AbandonSys.goto, ht] using h.inHand t' slab' hhand
  · have ht : t' ≠ t := by
      rintro rfl
      simp [AbandonSys.goto] at hcas
    rw [hother t' ht] at hcas
    exact h.linked t' slab' current hcas
  · change lastIsPush (.popped slab :: s.log) q = true ↔
      q ∈ s.since ∨ ∃ t', q ∈ Function.update s.ahead t ((s.ahead t).erase slab) t'
    have hsince (hin : q ∈ s.since) : q ≠ slab := by
      rintro rfl
      exact (h.ahead_unique hslab).1 hin
    rw [lastIsPush_popped, h.logged, h.exists_ahead_erase hslab]
    tauto

/-- A new slab starts in its owner's hands. -/
theorem AbandonInv.create (h : AbandonInv s place) (hslab : slab ∉ s.present) :
    AbandonInv { s with
      owned := Function.update s.owned t (slab :: s.owned t)
      present := slab :: s.present } (relocate place [slab] (some (.owner t))) where
  placed := by
    have hfree : place slab = none := by simpa [h.present slab] using hslab
    have hgiven := h.placed.enter (.owner t) (List.nodup_singleton slab) (by simpa using hfree)
    convert hgiven using 1
    funext place
    cases place with
    | chain => simp [AbandonSys.lists]
    | adopter t' => simp [AbandonSys.lists]
    | owner t' => by_cases ht : t' = t <;> simp [AbandonSys.lists, ht]
  present := fun q => by
    by_cases hq : q = slab
    · subst hq
      simp [relocate]
    · simpa [hq, relocate] using h.present q
  present_nodup := List.nodup_cons.mpr ⟨hslab, h.present_nodup⟩
  chain := h.chain
  walks := h.walks
  resting := h.resting
  inHand := fun t' slab' hcall => by
    have hin := h.inHand t' slab' hcall
    by_cases ht : t' = t
    · subst ht
      simp [hin]
    · simpa [ht] using hin
  linked := h.linked
  logged := h.logged
  alternates := h.alternates

/-- The owner of a slab it is not abandoning hands it back to the pool. -/
theorem AbandonInv.release (h : AbandonInv s place) (hfree : s.Free t slab) :
    AbandonInv { s with
      owned := Function.update s.owned t ((s.owned t).erase slab)
      present := s.present.erase slab } (relocate place [slab] none) where
  placed := by
    have htaken := h.placed.erase (.owner t) hfree.1
    convert htaken using 1
    funext place
    cases place with
    | chain => simp [AbandonSys.lists]
    | adopter t' => simp [AbandonSys.lists]
    | owner t' => by_cases ht : t' = t <;> simp [AbandonSys.lists, ht]
  present := fun q => by
    change q ∈ s.present.erase slab ↔ _
    rw [h.present_nodup.mem_erase_iff]
    by_cases hq : q = slab
    · subst hq
      simp [relocate]
    · simpa [hq, relocate] using h.present q
  present_nodup := h.present_nodup.erase slab
  chain := h.chain
  walks := h.walks
  resting := h.resting
  inHand := fun t' slab' hcall => by
    have hin := h.inHand t' slab' hcall
    by_cases ht : t' = t
    · subst ht
      have hne : slab' ≠ slab := by
        rintro rfl
        exact hfree.2 hcall
      simpa [List.mem_erase_of_ne hne] using hin
    · simpa [ht] using hin
  linked := h.linked
  logged := h.logged
  alternates := h.alternates

/-- The next step of an operation keeps the invariant. -/
theorem AbandonInv.advance (h : AbandonInv s place) {spurious : Bool}
    (hstep : s.advance t spurious = some s') :
    ∃ place', AbandonInv s' place' := by
  unfold AbandonSys.advance at hstep
  split at hstep
  case h_1 hcall => simp at hstep
  case h_2 slab hcall =>
    cases hstep
    have hslab : slab ∈ s.owned t := h.inHand t slab (by rw [hcall]; rfl)
    exact ⟨place, h.goto (h.callOk (by simpa [AbandonCall.slab] using hslab) (by simp) (by simp)
      (by simp [hcall]))⟩
  case h_3 slab current hcall =>
    cases hstep
    have hslab : slab ∈ s.owned t := h.inHand t slab (by rw [hcall]; rfl)
    refine ⟨place, (h.setNextLink hslab (by simp [hcall]) current).goto
      ⟨?_, ?_, by simp, fun _ => ?_⟩⟩
    · rintro _ ⟨⟩
      exact hslab
    · simp [AbandonSys.setNextLink]
    · exact h.resting t (by simp [hcall])
  case h_4 slab current hcall =>
    have hslab : slab ∈ s.owned t := h.inHand t slab (by rw [hcall]; rfl)
    split at hstep
    case isTrue hcas =>
      cases hstep
      have hlink : s.nextLink slab = s.head := by
        rw [hcas.1]
        exact h.linked t slab current hcall
      have hidle : AbandonInv (s.goto t .idle) place :=
        h.goto (h.callOk (by simp [AbandonCall.slab]) (by simp) (by simp) (by simp [hcall]))
      exact ⟨relocate place [slab] (some .chain),
        hidle.push hslab (by simp [AbandonSys.goto]) hlink⟩
    case isFalse =>
      cases hstep
      exact ⟨place,
        h.goto (h.callOk (by simpa [AbandonCall.slab] using hslab) (by simp) (by simp)
          (by simp [hcall]))⟩
  case h_5 hcall =>
    cases hstep
    refine ⟨place, h.goto (h.callOk ?_ ?_ ?_ (by simp [hcall]))⟩ <;>
      by_cases hnone : s.head = none <;> simp [hnone, AbandonCall.slab]
  case h_6 hcall =>
    cases hstep
    exact ⟨_, h.swap hcall⟩
  case h_7 hcall =>
    cases hstep
    refine ⟨place, h.goto ⟨by simp [AbandonCall.slab], by simp, by simp, fun _ => ?_⟩⟩
    exact (h.walks t none hcall).1.eq_nil
  case h_8 slab hcall =>
    cases hstep
    exact ⟨_, h.walk hcall⟩

/-- Every step keeps the invariant. -/
theorem AbandonInv.step (h : AbandonInv s place) {label : AbandonLabel}
    (hstep : abandonStep s label = some s') :
    ∃ place', AbandonInv s' place' := by
  cases label with
  | create t slab =>
    simp only [abandonStep] at hstep
    split at hstep <;> try contradiction
    case isTrue hslab =>
      cases hstep
      exact ⟨_, h.create hslab⟩
  | release t slab =>
    simp only [abandonStep] at hstep
    split at hstep <;> try contradiction
    case isTrue hfree =>
      cases hstep
      exact ⟨_, h.release hfree⟩
  | relink t slab next =>
    simp only [abandonStep] at hstep
    split at hstep <;> try contradiction
    case isTrue hfree =>
      cases hstep
      refine ⟨place, h.setNextLink hfree.1 (fun current hcas => ?_) next⟩
      exact hfree.2 (by rw [hcas]; rfl)
  | abandonSlab t slab =>
    simp only [abandonStep] at hstep
    split at hstep <;> try contradiction
    case isTrue hpre =>
      cases hstep
      exact ⟨place,
        h.goto (h.callOk (by simpa [AbandonCall.slab] using hpre.2) (by simp) (by simp)
          (by simp [hpre.1]))⟩
  | adoptAll t =>
    simp only [abandonStep] at hstep
    split at hstep <;> try contradiction
    case isTrue hidle =>
      cases hstep
      exact ⟨place, h.goto (h.callOk (by simp [AbandonCall.slab]) (by simp) (by simp)
        (by simp [hidle]))⟩
  | advance t spurious => exact h.advance hstep

/-- What the pointers reach is what the lists hold. -/
theorem AbandonInv.at_iff (h : AbandonInv s place) (place : AbandonPlace) :
    s.At place slab ↔ slab ∈ s.lists place := by
  cases place with
  | chain => exact h.chain.reaches_iff
  | adopter t =>
    constructor
    · rintro ⟨cursor, hcall, hreach⟩
      exact (h.walks t cursor hcall).1.reaches_iff.mp hreach
    · intro hin
      by_cases hcall : ∃ cursor, s.call t = .walking cursor
      · obtain ⟨cursor, hcall⟩ := hcall
        exact ⟨cursor, hcall, (h.walks t cursor hcall).1.reaches_iff.mpr hin⟩
      · have hnil := h.resting t fun cursor heq => hcall ⟨cursor, heq⟩
        simp [AbandonSys.lists, hnil] at hin
  | owner t => exact Iff.rfl

/-- The invariant gives the exclusive places and the chains. -/
theorem AbandonInv.sound (h : AbandonInv s place) : s.Sound where
  place := fun slab hslab => by
    simp only [h.at_iff]
    exact h.placed.existsUnique ((h.present slab).mp hslab)
  absent := fun slab hslab place hat => by
    have hplace := h.placed.mem_iff.mp ((h.at_iff place).mp hat)
    exact hslab ((h.present slab).mpr (by simp [hplace]))
  chain := h.chain
  walk := fun t cursor hcall => by
    obtain ⟨hchain, htaken⟩ := h.walks t cursor hcall
    exact ⟨s.ahead t, htaken, hchain⟩
  adoptedOnce := fun _ _ _ _ hlog => h.alternates.pushed_between hlog

/-- In every run, every slab is in one place, the chains end, and none is adopted twice in a row. -/
theorem abandoned_sound (labels : List AbandonLabel)
    (hrun : Transition.run abandonStep AbandonSys.new labels = some s) : s.Sound := by
  obtain ⟨place, hinv⟩ : ∃ place, AbandonInv s place := by
    refine Transition.run_invariant (I := fun s => ∃ place, AbandonInv s place) ?_
      ⟨_, abandonInv_new⟩ hrun
    rintro s label s' ⟨place, hinv⟩ hstep
    exact hinv.step hstep
  exact hinv.sound

/-- Thread 0 remembers slab 10 as the head while thread 1 adopts it, relinks it and abandons it
again. -/
def rememberedHeadRun : List AbandonLabel :=
  [.create 0 10, .create 0 20,
    .abandonSlab 0 10, .advance 0 false, .advance 0 false, .advance 0 false,
    .abandonSlab 0 20, .advance 0 false, .advance 0 false, .advance 0 true, .advance 0 false,
    .adoptAll 1, .advance 1 false, .advance 1 false, .advance 1 false, .advance 1 false,
    .relink 1 10 (some 20), .relink 1 10 none,
    .abandonSlab 1 10, .advance 1 false, .advance 1 false, .advance 1 false,
    .advance 0 false]

/-- The exchange that finds the remembered head back in place builds the right chain. -/
theorem abandoned_sound_rememberedHead : ∃ s : AbandonSys,
    Transition.run abandonStep AbandonSys.new rememberedHeadRun = some s ∧
      s.head = some 20 ∧ s.since = [20, 10] ∧ s.Sound := by
  have heval : (Transition.run abandonStep AbandonSys.new rememberedHeadRun).map
      (fun s => decide (s.head = some 20 ∧ s.since = [20, 10])) = some true := by
    decide +kernel
  obtain ⟨s, hrun, hs⟩ := Option.map_eq_some_iff.mp heval
  obtain ⟨hhead, hsince⟩ := of_decide_eq_true hs
  exact ⟨s, hrun, hhead, hsince, abandoned_sound rememberedHeadRun hrun⟩

end ClMalloc
