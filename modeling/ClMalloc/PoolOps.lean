import ClMalloc.PoolCoreInvariant

/-!
# Pool calls run to their end

When no other thread interferes, a pool call is its critical sections and page-allocator
calls one after the other. The thread is idle before and after; what it owns changes by the
page the call returns or takes, and nothing else about the threads changes.
-/

namespace ClMalloc

/-- `alloc_slab` with `alloc_slab_slow`, given the page allocator's answer should it be asked. -/
def PoolCore.allocSlabToEnd (c : PoolCore) (t : ℕ) (reply : Option ℕ) :
    Option (PoolCore × Option ℕ) :=
  match c.allocSlab t with
  | some (c, some page) => some (c, some page)
  | some (c, none) =>
    match c.osAlloc t reply with
    | some c =>
      match c.call t with
      | .mapped base =>
        match c.allocSlabSlow t base with
        | (c, some page) => some (c, some page)
        | (c, none) => some (c.osDealloc t base segmentSize, none)
      | _ => some (c, none)
    | none => none
  | none => none

/-- `purge_excess`. -/
def PoolCore.purgeExcess (c : PoolCore) (t : ℕ) : Option PoolCore :=
  match c.purgeTake t with
  | some c =>
    match c.call t with
    | .purged _ buf => c.purgeReturn t buf
    | _ => none
  | none => none

/-- `dealloc_slab` with the release of the segment or the purge it decides on. -/
def PoolCore.deallocSlabToEnd (c : PoolCore) (t page : ℕ) : Option PoolCore :=
  match c.deallocSlab t page with
  | some c =>
    match c.call t with
    | .releasing base => some (c.osDealloc t base segmentSize)
    | .purging => c.purgeExcess t
    | _ => some c
  | none => none

variable {X : Type} [DecidableEq X] {c c' : PoolCore} {extra : X → List ℕ}
  {kind : ℕ → PageKind (Tag X)} {t : ℕ}

/-- The thread is where it was after going somewhere and coming back. -/
theorem update_update_idle {k : PoolCall} (hcall : c.call t = .idle) :
    Function.update (Function.update c.call t k) t .idle = c.call := by
  rw [Function.update_idem, ← hcall, Function.update_eq_self]

/-- A purge started by an otherwise idle thread ends and keeps the accounting. -/
theorem CoreInv.purgeExcess (h : CoreInv c extra kind) (hcall : c.call t = .purging) :
    ∃ c' kind', c.purgeExcess t = some c' ∧ CoreInv c' extra kind' ∧
      c'.call = Function.update c.call t .idle ∧ c'.owned = c.owned ∧ c'.large = c.large := by
  obtain ⟨pool, buf, kind₁, heq, hinv⟩ := h.purgeTake hcall
  have hbuf : (PoolCore.setCall { c with pool := pool } t (.purged buf buf)).call t =
    .purged buf buf := by
    simp [PoolCore.setCall]
  obtain ⟨pool', kind₂, heq', hinv'⟩ := hinv.purgeReturn hbuf
  refine ⟨_, kind₂, ?_, hinv', ?_, rfl, rfl⟩
  · rw [PoolCore.purgeExcess, heq]
    simp only [hbuf]
    exact heq'
  · simp [PoolCore.setCall, Function.update_idem]

/-- `dealloc_slab` ends, takes the page from the thread and keeps the accounting. -/
theorem CoreInv.deallocSlabToEnd (h : CoreInv c extra kind) (hcall : c.call t = .idle) {p : ℕ}
    (hp : p ∈ c.owned t) :
    ∃ c' kind', c.deallocSlabToEnd t p = some c' ∧ CoreInv c' extra kind' ∧ c'.call = c.call ∧
      c'.owned = Function.update c.owned t ((c.owned t).erase p) ∧ c'.large = c.large := by
  obtain ⟨pool, k, kind₁, heq, hinv, hk⟩ := h.deallocSlab hcall hp
  have hthere : ((PoolCore.take { c with pool := pool } t p).setCall t k).call t = k := by
    simp [PoolCore.setCall, PoolCore.take]
  unfold PoolCore.deallocSlabToEnd
  rw [heq]
  simp only [hthere]
  rcases hk with ⟨base, rfl⟩ | rfl | rfl
  · refine ⟨_, kind₁, rfl, hinv.osDealloc segmentExtent (by rw [hthere]; rfl), ?_, rfl, rfl⟩
    exact update_update_idle hcall
  · obtain ⟨c', kind₂, heq', hinv', hcall', howned, hlarge⟩ := hinv.purgeExcess hthere
    refine ⟨c', kind₂, heq', hinv', ?_, howned, hlarge⟩
    rw [hcall']
    exact update_update_idle hcall
  · refine ⟨_, kind₁, rfl, hinv, ?_, rfl, rfl⟩
    change Function.update c.call t .idle = c.call
    rw [← hcall, Function.update_eq_self]

/-- What the thread owns after `alloc_slab` returned. -/
def PoolCore.ownedAfter (c : PoolCore) (t : ℕ) : Option ℕ → ℕ → List ℕ
  | some page => Function.update c.owned t (page :: c.owned t)
  | none => c.owned

/-- `alloc_slab` hands the thread the page it returns and keeps the accounting. -/
theorem CoreInv.allocSlabToEnd (h : CoreInv c extra kind) (hcall : c.call t = .idle)
    {reply result : Option ℕ} (hstep : c.allocSlabToEnd t reply = some (c', result)) :
    ∃ kind', CoreInv c' extra kind' ∧ c'.call = c.call ∧ c'.owned = c.ownedAfter t result ∧
      c'.large = c.large := by
  unfold PoolCore.allocSlabToEnd at hstep
  rcases h.allocSlab hcall with ⟨pool, page, kind', heq, hinv⟩ | ⟨pool, heq, hinv⟩
  · rw [heq] at hstep
    obtain ⟨rfl, rfl⟩ := Prod.mk.inj (Option.some.inj hstep)
    exact ⟨kind', hinv, rfl, rfl, rfl⟩
  · rw [heq] at hstep
    simp only at hstep
    split at hstep <;> try contradiction
    rename_i c₁ hreply
    have hthere : (PoolCore.setCall { c with pool := pool } t .mapping).call t = .mapping := by
      simp [PoolCore.setCall]
    have hinv₁ := hinv.osAlloc hthere hreply
    cases reply with
    | none =>
      obtain rfl := Option.some.inj hreply
      simp only [PoolCore.setCall, Function.update_self, Option.some.injEq, Prod.mk.injEq] at hstep
      obtain ⟨rfl, rfl⟩ := hstep
      exact ⟨kind, hinv₁, update_update_idle hcall, rfl, rfl⟩
    | some base =>
      simp only [PoolCore.osAlloc] at hreply
      split at hreply <;> try contradiction
      obtain rfl := Option.some.inj hreply
      have hmapped : (PoolCore.setCall { PoolCore.setCall { c with pool := pool } t .mapping with
          os := c.os.alloc base segmentExtent } t (.mapped base)).call t = .mapped base := by
        simp [PoolCore.setCall]
      simp only [PoolCore.setCall, Function.update_self] at hstep
      rcases hinv₁.allocSlabSlow hmapped with ⟨pool', kind', heq', hinv'⟩ | ⟨pool', heq', hinv'⟩
      · simp only [PoolCore.setCall] at heq'
        rw [heq'] at hstep
        obtain ⟨rfl, rfl⟩ := Prod.mk.inj (Option.some.inj hstep)
        refine ⟨kind', hinv', ?_, rfl, rfl⟩
        simp only [PoolCore.give, Function.update_idem]
        rw [← hcall, Function.update_eq_self]
      · simp only [PoolCore.setCall] at heq'
        rw [heq'] at hstep
        obtain ⟨rfl, rfl⟩ := Prod.mk.inj (Option.some.inj hstep)
        refine ⟨kind, hinv'.osDealloc segmentExtent (by simp [PoolCore.setCall, PoolCall.region]),
          ?_, rfl, rfl⟩
        simp only [PoolCore.osDealloc, PoolCore.setCall, Function.update_idem]
        rw [← hcall, Function.update_eq_self]

end ClMalloc
