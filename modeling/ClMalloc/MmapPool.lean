import ClMalloc.MmapAllocator
import ClMalloc.PagePool
import ClMalloc.Slab

/-!
# The pool on the mmap backend

Here the requests of the pool go to the mmap backend, and the rest of the process maps and
unmaps pages of its own. The memory is a byte for every address: a new mapping is zero, a
purged page is zero again, holders write the pages and large regions they have, and the pool
writes links into the first word of the pages on its lists. Nothing the backend answers is
refused by the page allocator's contract, so a run on the backend is a run on the contract;
the bytes of every region held are mapped. The steps are those of the pool: its lock sections,
the requests between them, and whole calls on the slab cache and the abandoned lists.
-/

namespace ClMalloc

open Transition

/-- `Layout::new::<Segment>()`. -/
def segmentLayout : Layout := ⟨segmentSize, slabSize, ⟨16, rfl⟩, Nat.le_of_ble_eq_true rfl⟩

/-- The pool, the mapped pages, those that the rest of the process has mapped, and the bytes of the
memory. -/
structure MmapPool where
  pool : PagePool
  os : Mappings
  foreign : Finset ℕ
  bytes : ℕ → ℕ

/-- A new pool in a process that has some pages mapped. -/
def MmapPool.new (os : Mappings) (bytes : ℕ → ℕ) : MmapPool := ⟨.new, os, os.mapped, bytes⟩

/-- Make the pages zero. -/
def zeroPages (page : ℕ) (bytes : ℕ → ℕ) (pages : Finset ℕ) (p : ℕ) : ℕ :=
  if p / page ∈ pages then 0 else bytes p

/-- `MmapAllocator::purge`: `MADV_DONTNEED` needs a page boundary, and drops the pages that meet the
range. -/
def purgeBytes (page : ℕ) (bytes : ℕ → ℕ) (addr len : ℕ) : ℕ → ℕ :=
  if page ∣ addr then zeroPages page bytes (PageMap.range page addr len) else bytes

/-- Who may use the memory of a page or a large region: a thread, the users of a cached or abandoned
slab, a caller. -/
inductive Holder
  | thread (t : ℕ)
  | cached
  | abandoned (classIdx : ℕ)
  | caller (base size : ℕ)
  deriving DecidableEq

/-- The holder may use the byte. -/
def PagePool.Has (s : PagePool) : Holder → ℕ → Prop
  | .thread t, p => slabMask p ∈ s.core.owned t
  | .cached, p => slabMask p ∈ s.slabCache
  | .abandoned classIdx, p => slabMask p ∈ s.abandoned classIdx
  | .caller base size, p => (base, size) ∈ s.core.large ∧ base ≤ p ∧ p < base + size

/-- Whether a holder may use a byte can be computed. -/
instance decidableHas (s : PagePool) : (h : Holder) → (p : ℕ) → Decidable (s.Has h p)
  | .thread t, p => inferInstanceAs (Decidable (slabMask p ∈ s.core.owned t))
  | .cached, p => inferInstanceAs (Decidable (slabMask p ∈ s.slabCache))
  | .abandoned classIdx, p => inferInstanceAs (Decidable (slabMask p ∈ s.abandoned classIdx))
  | .caller base size, p =>
    inferInstanceAs (Decidable ((base, size) ∈ s.core.large ∧ base ≤ p ∧ p < base + size))

/-- The page is on one of the pool's lists. -/
def PagePool.Listed (s : PagePool) (page : ℕ) : Prop :=
  page ∈ s.core.pool.dirtyList.pages ∨ page ∈ s.core.pool.cleanList.pages

/-- Whether a page is listed can be computed. -/
instance (s : PagePool) (page : ℕ) :
    Decidable (s.Listed page) := inferInstanceAs (Decidable (_ ∨ _))

/-- The steps of the pool that call the page allocator. -/
def PagePoolLabel.backend : PagePoolLabel → Bool
  | .core (.osAlloc ..) | .core (.osAllocLarge ..) | .core (.osDealloc _) | .core (.purgePage _) =>
    true
  | _ => false

/-- One atomic step: a call of the backend, with what `mmap` answers; any other step of the pool; a
write of a holder; a write of a link; and what the rest of the process does with its own pages. -/
inductive MmapLabel
  | alloc (t : ℕ) (raw : Option ℕ)
  | allocLarge (t : ℕ) (layout : Layout) (raw : Option ℕ)
  | dealloc (t : ℕ) (layout : Layout)
  | purge (t : ℕ)
  | pool (l : PagePoolLabel)
  | write (h : Holder) (p v : ℕ)
  | link (page i v : ℕ)
  | map (raw len : ℕ)
  | unmap (n : ℕ)
  | store (p v : ℕ)
  deriving DecidableEq

/-- Call `MmapAllocator::alloc`, and hand its result to the step of the pool that asked. -/
def MmapPool.request (s : MmapPool) (layout : Layout) (raw : Option ℕ) (l : Option ℕ → PoolLabel) :
    Option MmapPool :=
  if ∀ r ∈ raw, s.os.MayReturn r (layout.size + layout.align) then do
    let (os, reply) ← s.os.alloc layout raw
    let pool ← pagePoolStep s.pool (.core (l reply))
    let fresh := raw.elim ∅ fun r => PageMap.range s.os.page r (layout.size + layout.align)
    some { s with pool := pool, os := os, bytes := zeroPages s.os.page s.bytes fresh }
  else none

/-- A region goes back with the layout it was requested with; the rest of the process leaves the
pool's pages alone. -/
def mmapStep (s : MmapPool) : MmapLabel → Option MmapPool
  | .alloc t raw => s.request segmentLayout raw fun reply => .osAlloc t reply
  | .allocLarge t layout raw => s.request layout raw fun reply =>
    .osAllocLarge t layout.size layout.align reply
  | .dealloc t layout =>
    match (s.pool.core.call t).returning with
    | some (base, extent) =>
      if layout.size = extent.size then
        (pagePoolStep s.pool (.core (.osDealloc t))).map fun pool =>
          { s with pool := pool, os := s.os.dealloc base layout }
      else none
    | none => none
  | .purge t =>
    match s.pool.core.call t with
    | .purged (page :: _) _ =>
      (pagePoolStep s.pool (.core (.purgePage t))).map fun pool =>
        { s with pool := pool, bytes := purgeBytes s.os.page s.bytes page slabSize }
    | _ => none
  | .pool l => if l.backend then none else (pagePoolStep s.pool l).map fun pool =>
    { s with pool := pool }
  | .write h p v => if s.pool.Has h p then some { s with bytes := Function.update s.bytes p v }
      else none
  | .link page i v =>
    if s.pool.Listed page ∧ i < 8 then some { s with bytes := Function.update s.bytes (page + i) v }
      else none
  | .map raw len =>
    if s.os.MayReturn raw len then
      some { s with
        os := s.os.mmap raw len
        foreign := s.foreign ∪ PageMap.range s.os.page raw len
        bytes := zeroPages s.os.page s.bytes (PageMap.range s.os.page raw len) }
    else none
  | .unmap n =>
    if n ∈ s.foreign then
      some { s with os := s.os.munmap (n * s.os.page) s.os.page, foreign := s.foreign.erase n }
    else none
  | .store p v =>
    if p / s.os.page ∈ s.foreign then some { s with bytes := Function.update s.bytes p v } else none

/-- The step of the pool on the contract that a step on the backend is. -/
def MmapLabel.contract : MmapLabel → List PagePoolLabel
  | .alloc t raw => [.core (.osAlloc t (raw.map (alignedAddr segmentLayout)))]
  | .allocLarge t layout raw =>
    [.core (.osAllocLarge t layout.size layout.align (raw.map (alignedAddr layout)))]
  | .dealloc t _ => [.core (.osDealloc t)]
  | .purge t => [.core (.purgePage t)]
  | .pool l => [l]
  | _ => []

/-- A request to the backend: the layout, what `mmap` answers, and the step of the pool that takes
the result. -/
inductive MmapLabel.Asks : MmapLabel → Layout → Option ℕ → (Option ℕ → PoolLabel) → Prop
  | segment (t : ℕ) (raw : Option ℕ) : Asks (.alloc t raw) segmentLayout raw (.osAlloc t)
  | large (t : ℕ) (layout : Layout) (raw : Option ℕ) :
    Asks (.allocLarge t layout raw) layout raw (.osAllocLarge t layout.size layout.align)

/-- What each step does, and when. -/
inductive MmapStepped (s : MmapPool) : MmapLabel → MmapPool → Prop
  | refused {l : MmapLabel} {layout : Layout} {ask : Option ℕ → PoolLabel} {pool : PagePool}
    (hasks : l.Asks layout none ask) (hpool : pagePoolStep s.pool (.core (ask none)) = some pool) :
    MmapStepped s l { s with pool := pool }
  | granted {l : MmapLabel} {layout : Layout} {raw : ℕ} {ask : Option ℕ → PoolLabel}
      {pool : PagePool}
    (hasks : l.Asks layout (some raw) ask) (hmay : s.os.MayReturn raw (layout.size + layout.align))
    (hpool : pagePoolStep s.pool (.core (ask (some (alignedAddr layout raw)))) = some pool) :
    MmapStepped s l { s with
      pool := pool
      os := s.os.trimmed layout raw
      bytes := zeroPages s.os.page s.bytes
        (PageMap.range s.os.page raw (layout.size + layout.align)) }
  | dealloc {t base : ℕ} {layout : Layout} {extent : Extent} {pool : PagePool}
    (hreturning : (s.pool.core.call t).returning = some (base, extent))
    (hsize : layout.size = extent.size)
    (hpool : pagePoolStep s.pool (.core (.osDealloc t)) = some pool) :
    MmapStepped s (.dealloc t layout) { s with pool := pool, os := s.os.dealloc base layout }
  | purge {t page : ℕ} {todo buf : List ℕ}
      {pool : PagePool} (hcall : s.pool.core.call t = .purged (page :: todo) buf)
    (hpool : pagePoolStep s.pool (.core (.purgePage t)) = some pool) :
    MmapStepped s (.purge t) { s with
      pool := pool, bytes := purgeBytes s.os.page s.bytes page slabSize }
  | pool {l : PagePoolLabel} {pool : PagePool} (hl : l.backend = false)
      (hpool : pagePoolStep s.pool l = some pool) :
    MmapStepped s (.pool l) { s with pool := pool }
  | write {h : Holder} {p v : ℕ} (hhas : s.pool.Has h p) :
    MmapStepped s (.write h p v) { s with bytes := Function.update s.bytes p v }
  | link {page i v : ℕ} (hlisted : s.pool.Listed page) (hi : i < 8) :
    MmapStepped s (.link page i v) { s with bytes := Function.update s.bytes (page + i) v }
  | map {raw len : ℕ} (hmay : s.os.MayReturn raw len) :
    MmapStepped s (.map raw len) { s with
      os := s.os.mmap raw len
      foreign := s.foreign ∪ PageMap.range s.os.page raw len
      bytes := zeroPages s.os.page s.bytes (PageMap.range s.os.page raw len) }
  | unmap {n : ℕ} (hforeign : n ∈ s.foreign) :
    MmapStepped s (.unmap n) { s with
      os := s.os.munmap (n * s.os.page) s.os.page
      foreign := s.foreign.erase n }
  | store {p v : ℕ} (hforeign : p / s.os.page ∈ s.foreign) :
    MmapStepped s (.store p v) { s with bytes := Function.update s.bytes p v }

section Stepped

variable {s s' : MmapPool} {l : MmapLabel} {layout : Layout} {raw : Option ℕ}
  {ask : Option ℕ → PoolLabel}

/-- Without pages nothing becomes zero. -/
@[simp] theorem zeroPages_empty (page : ℕ) (bytes : ℕ → ℕ) : zeroPages page bytes ∅ = bytes := by
  funext p
  simp [zeroPages]

/-- A request that the backend answers is one of two steps. -/
theorem MmapPool.request_cases (hasks : l.Asks layout raw ask)
    (hstep : s.request layout raw ask = some s') :
    MmapStepped s l s' := by
  unfold MmapPool.request at hstep
  split at hstep <;> try contradiction
  rename_i hmay
  obtain ⟨⟨os, reply⟩, halloc, hstep⟩ := Option.bind_eq_some_iff.mp hstep
  obtain ⟨pool, hpool, hstep⟩ := Option.bind_eq_some_iff.mp hstep
  obtain rfl := Option.some.inj hstep
  cases raw with
  | none =>
    unfold Mappings.alloc at halloc
    obtain ⟨size, -, halloc⟩ := Option.bind_eq_some_iff.mp halloc
    obtain ⟨rfl, rfl⟩ := Prod.mk.injEq _ _ _ _ ▸ Option.some.inj halloc
    simp only [Option.elim_none, zeroPages_empty]
    exact .refused hasks hpool
  | some raw =>
    rw [Mappings.alloc_eq (hmay raw rfl)] at halloc
    obtain ⟨rfl, rfl⟩ := Prod.mk.injEq _ _ _ _ ▸ Option.some.inj halloc
    exact .granted hasks (hmay raw rfl) hpool

/-- Every step is one of these. -/
theorem mmapStep_cases (hstep : mmapStep s l = some s') : MmapStepped s l s' := by
  cases l with
  | alloc t raw => exact MmapPool.request_cases (.segment t raw) hstep
  | allocLarge t layout raw => exact MmapPool.request_cases (.large t layout raw) hstep
  | dealloc t layout =>
    simp only [mmapStep] at hstep
    split at hstep <;> try contradiction
    rename_i hreturning
    split at hstep <;> try contradiction
    rename_i hsize
    obtain ⟨pool, hpool, rfl⟩ := Option.map_eq_some_iff.mp hstep
    exact .dealloc hreturning hsize hpool
  | purge t =>
    simp only [mmapStep] at hstep
    split at hstep <;> try contradiction
    rename_i hcall
    obtain ⟨pool, hpool, rfl⟩ := Option.map_eq_some_iff.mp hstep
    exact .purge hcall hpool
  | pool l =>
    simp only [mmapStep] at hstep
    split at hstep <;> try contradiction
    rename_i hl
    obtain ⟨pool, hpool, rfl⟩ := Option.map_eq_some_iff.mp hstep
    exact .pool (Bool.eq_false_of_not_eq_true hl) hpool
  | write h p v =>
    simp only [mmapStep] at hstep
    split at hstep <;> cases hstep
    exact .write ‹_›
  | link page i v =>
    simp only [mmapStep] at hstep
    split at hstep <;> cases hstep
    rename_i hguard
    exact .link hguard.1 hguard.2
  | map raw len =>
    simp only [mmapStep] at hstep
    split at hstep <;> cases hstep
    exact .map ‹_›
  | unmap n =>
    simp only [mmapStep] at hstep
    split at hstep <;> cases hstep
    exact .unmap ‹_›
  | store p v =>
    simp only [mmapStep] at hstep
    split at hstep <;> cases hstep
    exact .store ‹_›

/-- A step on the backend is a step of the pool on the contract, or none. -/
theorem mmapStep_contract (hstep : mmapStep s l = some s') :
    run pagePoolStep s.pool l.contract = some s'.pool := by
  cases mmapStep_cases hstep with
  | refused hasks hpool =>
    cases hasks with
    | segment t => simpa [MmapLabel.contract, run] using hpool
    | large t layout => simpa [MmapLabel.contract, run] using hpool
  | granted hasks hmay hpool =>
    cases hasks with
    | segment t => simpa [MmapLabel.contract, run] using hpool
    | large t layout => simpa [MmapLabel.contract, run] using hpool
  | dealloc hreturning hsize hpool => simpa [MmapLabel.contract, run] using hpool
  | purge hcall hpool => simpa [MmapLabel.contract, run] using hpool
  | pool hl hpool => simpa [MmapLabel.contract, run] using hpool
  | _ => rfl

end Stepped

section Answers

variable {s s' : PagePool} {layout : Layout} {raw : Option ℕ} {ask : Option ℕ → PoolLabel}
  {l : MmapLabel} {base : ℕ}

/-- A refused request leaves what is held. -/
theorem MmapLabel.Asks.os_none (hasks : l.Asks layout raw ask)
    (hstep : pagePoolStep s (.core (ask none)) = some s') : s'.core.os = s.core.os := by
  obtain ⟨c, hc, rfl⟩ := Option.map_eq_some_iff.mp hstep
  cases hasks with
  | segment t => cases poolStep_cases hc with | osRefuse hcall => rfl
  | large t layout => cases poolStep_cases hc with | osRefuseLarge hcall => rfl

/-- The region of an answer that the contract admits becomes held. -/
theorem MmapLabel.Asks.os_some (hasks : l.Asks layout raw ask)
    (hstep : pagePoolStep s (.core (ask (some base))) = some s') :
    ∃ extent, extent.size = layout.size ∧ 0 < layout.size ∧
      s'.core.os = s.core.os.alloc base extent := by
  obtain ⟨c, hc, rfl⟩ := Option.map_eq_some_iff.mp hstep
  cases hasks with
  | segment t => cases poolStep_cases hc with | osAlloc hcall hanswer =>
    exact ⟨segmentExtent, rfl, by decide, rfl⟩
  | large t layout => cases poolStep_cases hc with | osAllocLarge hcall hsize hanswer =>
    exact ⟨_, rfl, hsize, rfl⟩

/-- A step that does not call the backend leaves what is held. -/
theorem pagePoolStep_os {l : PagePoolLabel} (hl : l.backend = false)
    (hstep : pagePoolStep s l = some s') :
    s'.core.os = s.core.os := by
  cases l with
  | core l =>
    obtain ⟨c, hc, rfl⟩ := Option.map_eq_some_iff.mp hstep
    cases poolStep_cases hc <;> first | rfl | cases hl
  | cacheSlab t page =>
    simp only [pagePoolStep] at hstep
    split at hstep <;> try contradiction
    unfold PagePool.cacheSlab PoolCore.deallocSlab at hstep
    split at hstep
    · obtain ⟨c, hc, rfl⟩ := Option.map_eq_some_iff.mp hstep
      split at hc <;> cases hc <;> rfl
    · obtain rfl := Option.some.inj hstep
      rfl
  | uncacheSlab t =>
    simp only [pagePoolStep] at hstep
    split at hstep <;> try contradiction
    obtain rfl := Option.some.inj hstep
    unfold PagePool.uncacheSlab
    split <;> rfl
  | abandonSlab t classIdx page =>
    simp only [pagePoolStep] at hstep
    split at hstep <;> cases hstep
    rfl
  | adoptAll t classIdx =>
    simp only [pagePoolStep] at hstep
    split at hstep <;> cases hstep
    rfl

end Answers

end ClMalloc
