import ClMalloc.PoolHolders
import ClMalloc.PageAllocator
import ClMalloc.Lib.Transition

/-!
# Threads interleaving at the pool's lock

A thread inside a pool call is at one of the points where it does not hold the lock: it is
about to map a segment, has mapped a segment or a large region, is about to give one back,
or is purging pages in its own buffer. Every critical section and every page-allocator call
is one step, and the steps of different threads interleave freely. `owned` records the pages
each thread has been handed and not yet returned, `large` the large regions in use.
-/

namespace ClMalloc

/-- Where a thread is in a pool call, between two critical sections. -/
inductive PoolCall
  | idle
  | mapping
  | mapped (base : ℕ)
  | rejected (base : ℕ)
  | releasing (base : ℕ)
  | purging
  | purged (todo buf : List ℕ)
  | largeMapped (base size : ℕ)
  | largeFreeing (base size : ℕ)
  deriving DecidableEq

/-- The pages in the thread's purge buffer. -/
def PoolCall.buffer : PoolCall → List ℕ
  | .purged _ buf => buf
  | _ => []

/-- What `alloc_slab_slow` asks the page allocator for. -/
def segmentExtent : Extent := ⟨segmentSize, .segment⟩

/-- The region the thread alone holds: not yet registered or handed out, or about to be given
back. -/
def PoolCall.region : PoolCall → Option (ℕ × Extent)
  | .mapped base => some (base, segmentExtent)
  | .rejected base => some (base, segmentExtent)
  | .releasing base => some (base, segmentExtent)
  | .largeMapped base size => some (base, ⟨size, .large⟩)
  | .largeFreeing base size => some (base, ⟨size, .large⟩)
  | _ => none

/-- The pool, the threads using it, and the page allocator beneath. -/
structure PoolCore where
  pool : PoolState
  call : ℕ → PoolCall
  owned : ℕ → List ℕ
  large : List (ℕ × ℕ)
  os : PageOs

/-- A new pool that no thread uses. -/
def PoolCore.new : PoolCore := ⟨.new, fun _ => .idle, fun _ => [], [], .new⟩

/-- Move a thread to another point. -/
def PoolCore.setCall (c : PoolCore) (t : ℕ) (call : PoolCall) : PoolCore :=
  { c with call := Function.update c.call t call }

/-- Hand a page to a thread. -/
def PoolCore.give (c : PoolCore) (t page : ℕ) : PoolCore :=
  { c with owned := Function.update c.owned t (page :: c.owned t) }

/-- Take a page from a thread. -/
def PoolCore.take (c : PoolCore) (t page : ℕ) : PoolCore :=
  { c with owned := Function.update c.owned t ((c.owned t).erase page) }

/-- `alloc_slab`, up to the page it returns or to the release of the lock before mapping. -/
def PoolCore.allocSlab (c : PoolCore) (t : ℕ) : Option (PoolCore × Option ℕ) :=
  match allocSlabLocked c.pool with
  | some (pool, some page) => some ({ c with pool := pool }.give t page, some page)
  | some (pool, none) => some ({ c with pool := pool }.setCall t .mapping, none)
  | none => none

/-- The page allocator's answer to a segment request. -/
def PoolCore.osAlloc (c : PoolCore) (t : ℕ) : Option ℕ → Option PoolCore
  | none => some (c.setCall t .idle)
  | some base =>
    if c.os.Admits base segmentSize slabSize then
      some ({ c with os := c.os.alloc base segmentExtent }.setCall t (.mapped base))
    else none

/-- The critical section of `alloc_slab_slow`. -/
def PoolCore.allocSlabSlow (c : PoolCore) (t base : ℕ) : PoolCore × Option ℕ :=
  match allocSlabSlowLocked c.pool base with
  | (pool, some page) => (({ c with pool := pool }.give t page).setCall t .idle, some page)
  | (pool, none) => ({ c with pool := pool }.setCall t (.rejected base), none)

/-- Give a region back to the page allocator. -/
def PoolCore.osDealloc (c : PoolCore) (t base size : ℕ) : PoolCore :=
  { c with os := c.os.dealloc base size }.setCall t .idle

/-- The critical section of `dealloc_slab`, and where it leaves the thread. -/
def PoolCore.deallocSlab (c : PoolCore) (t page : ℕ) : Option PoolCore :=
  match deallocSlabLocked c.pool page with
  | some (pool, .release base) =>
    some (({ c with pool := pool }.take t page).setCall t (.releasing base))
  | some (pool, .purge) => some (({ c with pool := pool }.take t page).setCall t .purging)
  | some (pool, .done) => some (({ c with pool := pool }.take t page).setCall t .idle)
  | none => none

/-- The first critical section of `purge_excess`. -/
def PoolCore.purgeTake (c : PoolCore) (t : ℕ) : Option PoolCore :=
  match purgeTakeLocked c.pool with
  | some (pool, buf) => some ({ c with pool := pool }.setCall t (.purged buf buf))
  | none => none

/-- The second critical section of `purge_excess`. -/
def PoolCore.purgeReturn (c : PoolCore) (t : ℕ) (buf : List ℕ) : Option PoolCore :=
  match purgeReturnLocked c.pool buf with
  | some pool => some ({ c with pool := pool }.setCall t .idle)
  | none => none

/-- The page allocator's answer to the request of `alloc_large`. -/
def PoolCore.osAllocLarge (c : PoolCore) (t size align : ℕ) : Option ℕ → Option PoolCore
  | none => some c
  | some base =>
    if 0 < size ∧ c.os.Admits base size align then
      some ({ c with os := c.os.alloc base ⟨size, .large⟩ }.setCall t (.largeMapped base size))
    else none

/-- The critical section of `alloc_large`; the region now belongs to the caller. -/
def PoolCore.allocLarge (c : PoolCore) (t base size : ℕ) : PoolCore :=
  { c with pool := allocLargeLocked c.pool size, large := (base, size) :: c.large }.setCall t .idle

/-- The critical section of `dealloc_large`; the caller has given the region up. -/
def PoolCore.deallocLarge (c : PoolCore) (t base size : ℕ) : PoolCore :=
  { c with
    pool := deallocLargeLocked c.pool size
    large := c.large.erase (base, size) }.setCall t (.largeFreeing base size)

/-- One atomic step of one thread. -/
inductive PoolLabel
  | allocSlab (t : ℕ)
  | osAlloc (t : ℕ) (reply : Option ℕ)
  | allocSlabSlow (t : ℕ)
  | osDealloc (t : ℕ)
  | deallocSlab (t page : ℕ)
  | purgeTake (t : ℕ)
  | purgePage (t : ℕ)
  | purgeReturn (t : ℕ)
  | osAllocLarge (t size align : ℕ) (reply : Option ℕ)
  | allocLarge (t : ℕ)
  | deallocLarge (t base size : ℕ)
  deriving DecidableEq

/-- A thread takes a step only at the point of its call where the step belongs. -/
def poolStep (c : PoolCore) : PoolLabel → Option PoolCore
  | .allocSlab t =>
    match c.call t with
    | .idle => (c.allocSlab t).map Prod.fst
    | _ => none
  | .osAlloc t reply =>
    match c.call t with
    | .mapping => c.osAlloc t reply
    | _ => none
  | .allocSlabSlow t =>
    match c.call t with
    | .mapped base => some (c.allocSlabSlow t base).1
    | _ => none
  | .osDealloc t =>
    match c.call t with
    | .rejected base => some (c.osDealloc t base segmentSize)
    | .releasing base => some (c.osDealloc t base segmentSize)
    | .largeFreeing base size => some (c.osDealloc t base size)
    | _ => none
  | .deallocSlab t page =>
    match c.call t with
    | .idle => if page ∈ c.owned t then c.deallocSlab t page else none
    | _ => none
  | .purgeTake t =>
    match c.call t with
    | .purging => c.purgeTake t
    | _ => none
  | .purgePage t =>
    match c.call t with
    | .purged (_ :: todo) buf => some (c.setCall t (.purged todo buf))
    | _ => none
  | .purgeReturn t =>
    match c.call t with
    | .purged [] buf => c.purgeReturn t buf
    | _ => none
  | .osAllocLarge t size align reply =>
    match c.call t with
    | .idle => c.osAllocLarge t size align reply
    | _ => none
  | .allocLarge t =>
    match c.call t with
    | .largeMapped base size => some (c.allocLarge t base size)
    | _ => none
  | .deallocLarge t base size =>
    match c.call t with
    | .idle => if (base, size) ∈ c.large then some (c.deallocLarge t base size) else none
    | _ => none

/-- The thread that takes the step. -/
def PoolLabel.thread : PoolLabel → ℕ
  | .allocSlab t | .osAlloc t _ | .allocSlabSlow t | .osDealloc t | .deallocSlab t _ | .purgeTake t
  | .purgePage t | .purgeReturn t | .osAllocLarge t _ _ _ | .allocLarge t | .deallocLarge t _ _ => t

/-- Where `dealloc_slab` leaves the thread. -/
def PoolCall.after : DeallocOutcome → PoolCall
  | .release base => .releasing base
  | .purge => .purging
  | .done => .idle

/-- The region the thread is about to give back. -/
def PoolCall.returning : PoolCall → Option (ℕ × Extent)
  | .rejected base | .releasing base => some (base, segmentExtent)
  | .largeFreeing base size => some (base, ⟨size, .large⟩)
  | _ => none

/-- A thread about to give a region back has no purge buffer. -/
theorem PoolCall.buffer_of_returning {call : PoolCall} {region : ℕ × Extent}
    (h : call.returning = some region) :
    call.buffer = [] := by
  cases call <;> first | rfl | cases h

/-- What each step does, and when. -/
inductive PoolStepped (c : PoolCore) : PoolLabel → PoolCore → Prop
  | allocSlab {t page : ℕ} {pool : PoolState} (hcall : c.call t = .idle)
    (h : allocSlabLocked c.pool = some (pool, some page)) :
    PoolStepped c (.allocSlab t) (PoolCore.give { c with pool := pool } t page)
  | allocSlabNone {t : ℕ} {pool : PoolState} (hcall : c.call t = .idle)
    (h : allocSlabLocked c.pool = some (pool, none)) :
    PoolStepped c (.allocSlab t) (PoolCore.setCall { c with pool := pool } t .mapping)
  | osRefuse {t : ℕ} (hcall : c.call t = .mapping) :
      PoolStepped c (.osAlloc t none) (c.setCall t .idle)
  | osAlloc {t base : ℕ} (hcall : c.call t = .mapping)
      (hanswer : c.os.Admits base segmentSize slabSize) :
    PoolStepped c (.osAlloc t (some base))
      (PoolCore.setCall { c with os := c.os.alloc base segmentExtent } t (.mapped base))
  | allocSlabSlow {t base page : ℕ} {pool : PoolState} (hcall : c.call t = .mapped base)
    (h : allocSlabSlowLocked c.pool base = (pool, some page)) :
    PoolStepped c (.allocSlabSlow t) ((PoolCore.give { c with
      pool := pool } t page).setCall t .idle)
  | allocSlabSlowNone {t base : ℕ} {pool : PoolState} (hcall : c.call t = .mapped base)
    (h : allocSlabSlowLocked c.pool base = (pool, none)) :
    PoolStepped c (.allocSlabSlow t) (PoolCore.setCall { c with pool := pool } t (.rejected base))
  | osDealloc {t base : ℕ} {extent : Extent}
      (hreturning : (c.call t).returning = some (base, extent)) :
    PoolStepped c (.osDealloc t) (c.osDealloc t base extent.size)
  | deallocSlab {t page : ℕ} {pool : PoolState}
      {outcome : DeallocOutcome} (hcall : c.call t = .idle)
    (hpage : page ∈ c.owned t) (h : deallocSlabLocked c.pool page = some (pool, outcome)) :
    PoolStepped c (.deallocSlab t page) ((PoolCore.take { c with
      pool := pool } t page).setCall t (.after outcome))
  | purgeTake {t : ℕ} {pool : PoolState} {buf : List ℕ} (hcall : c.call t = .purging)
    (h : purgeTakeLocked c.pool = some (pool, buf)) :
    PoolStepped c (.purgeTake t) (PoolCore.setCall { c with pool := pool } t (.purged buf buf))
  | purgePage {t page : ℕ} {todo buf : List ℕ} (hcall : c.call t = .purged (page :: todo) buf) :
    PoolStepped c (.purgePage t) (c.setCall t (.purged todo buf))
  | purgeReturn {t : ℕ} {pool : PoolState} {buf : List ℕ} (hcall : c.call t = .purged [] buf)
    (h : purgeReturnLocked c.pool buf = some pool) :
    PoolStepped c (.purgeReturn t) (PoolCore.setCall { c with pool := pool } t .idle)
  | osRefuseLarge {t size align : ℕ} (hcall : c.call t = .idle) :
      PoolStepped c (.osAllocLarge t size align none) c
  | osAllocLarge {t size align base : ℕ} (hcall : c.call t = .idle) (hsize : 0 < size)
    (hanswer : c.os.Admits base size align) :
    PoolStepped c (.osAllocLarge t size align (some base))
      (PoolCore.setCall { c with os := c.os.alloc base ⟨size, .large⟩ } t (.largeMapped base size))
  | allocLarge {t base size : ℕ} (hcall : c.call t = .largeMapped base size) :
    PoolStepped c (.allocLarge t) (c.allocLarge t base size)
  | deallocLarge {t base size : ℕ} (hcall : c.call t = .idle) (hlarge : (base, size) ∈ c.large) :
    PoolStepped c (.deallocLarge t base size) (c.deallocLarge t base size)

section Stepped

variable {c c' : PoolCore} {l : PoolLabel} {t : ℕ}

/-- Every step is one of these. -/
theorem poolStep_cases (hstep : poolStep c l = some c') : PoolStepped c l c' := by
  cases l with
  | allocSlab t =>
    simp only [poolStep] at hstep
    split at hstep <;> try contradiction
    rename_i hcall
    obtain ⟨⟨c₁, result⟩, hsection, rfl⟩ := Option.map_eq_some_iff.mp hstep
    unfold PoolCore.allocSlab at hsection
    split at hsection <;> cases hsection
    · exact .allocSlab hcall ‹_›
    · exact .allocSlabNone hcall ‹_›
  | osAlloc t reply =>
    simp only [poolStep] at hstep
    split at hstep <;> try contradiction
    rename_i hcall
    cases reply with
    | none =>
      cases hstep
      exact .osRefuse hcall
    | some base =>
      simp only [PoolCore.osAlloc] at hstep
      split at hstep <;> cases hstep
      exact .osAlloc hcall ‹_›
  | allocSlabSlow t =>
    simp only [poolStep] at hstep
    split at hstep <;> try contradiction
    rename_i hcall
    cases hstep
    unfold PoolCore.allocSlabSlow
    split
    · exact .allocSlabSlow hcall ‹_›
    · exact .allocSlabSlowNone hcall ‹_›
  | osDealloc t =>
    simp only [poolStep] at hstep
    split at hstep <;> cases hstep
    case h_1 base hcall =>
      have hreturning : (c.call t).returning = some (base, segmentExtent) := by rw [hcall]; rfl
      exact .osDealloc hreturning
    case h_2 base hcall =>
      have hreturning : (c.call t).returning = some (base, segmentExtent) := by rw [hcall]; rfl
      exact .osDealloc hreturning
    case h_3 base size hcall =>
      have hreturning : (c.call t).returning = some (base, ⟨size, .large⟩) := by rw [hcall]; rfl
      exact .osDealloc hreturning
  | deallocSlab t page =>
    simp only [poolStep] at hstep
    split at hstep <;> try contradiction
    rename_i hcall
    split at hstep <;> try contradiction
    rename_i hpage
    unfold PoolCore.deallocSlab at hstep
    split at hstep <;> cases hstep
    case h_1 pool base heq => exact .deallocSlab hcall hpage heq
    case h_2 pool heq => exact .deallocSlab hcall hpage heq
    case h_3 pool heq => exact .deallocSlab hcall hpage heq
  | purgeTake t =>
    simp only [poolStep] at hstep
    split at hstep <;> try contradiction
    rename_i hcall
    unfold PoolCore.purgeTake at hstep
    split at hstep <;> cases hstep
    exact .purgeTake hcall ‹_›
  | purgePage t =>
    simp only [poolStep] at hstep
    split at hstep <;> cases hstep
    exact .purgePage ‹_›
  | purgeReturn t =>
    simp only [poolStep] at hstep
    split at hstep <;> try contradiction
    rename_i hcall
    unfold PoolCore.purgeReturn at hstep
    split at hstep <;> cases hstep
    exact .purgeReturn hcall ‹_›
  | osAllocLarge t size align reply =>
    simp only [poolStep] at hstep
    split at hstep <;> try contradiction
    rename_i hcall
    cases reply with
    | none =>
      cases hstep
      exact .osRefuseLarge hcall
    | some base =>
      simp only [PoolCore.osAllocLarge] at hstep
      split at hstep <;> cases hstep
      rename_i hanswer
      exact .osAllocLarge hcall hanswer.1 hanswer.2
  | allocLarge t =>
    simp only [poolStep] at hstep
    split at hstep <;> cases hstep
    exact .allocLarge ‹_›
  | deallocLarge t base size =>
    simp only [poolStep] at hstep
    split at hstep <;> try contradiction
    rename_i hcall
    split at hstep <;> cases hstep
    exact .deallocLarge hcall ‹_›

/-- What a step does to the data behind the lock: one critical section, or a count of large bytes at
most. -/
inductive PoolSection (c : PoolCore) : PoolLabel → PoolState → Prop
  | allocSlab {t : ℕ} {pool : PoolState}
      {result : Option ℕ} (h : allocSlabLocked c.pool = some (pool, result)) :
    PoolSection c (.allocSlab t) pool
  | allocSlabSlow {t base : ℕ} (hcall : c.call t = .mapped base) :
    PoolSection c (.allocSlabSlow t) (allocSlabSlowLocked c.pool base).1
  | deallocSlab {t page : ℕ} {pool : PoolState} {outcome : DeallocOutcome} (hp : page ∈ c.owned t)
    (h : deallocSlabLocked c.pool page = some (pool, outcome)) :
    PoolSection c (.deallocSlab t page) pool
  | purgeTake {t : ℕ} {pool : PoolState}
      {buf : List ℕ} (h : purgeTakeLocked c.pool = some (pool, buf)) :
    PoolSection c (.purgeTake t) pool
  | purgeReturn {t : ℕ} {pool : PoolState} {buf : List ℕ} (hcall : c.call t = .purged [] buf)
    (h : purgeReturnLocked c.pool buf = some pool) : PoolSection c (.purgeReturn t) pool
  | count {l : PoolLabel} (bytes : ℕ) : PoolSection c l { c.pool with largeMappedBytes := bytes }

/-- Every step runs at most one critical section. -/
theorem poolStep_section (hstep : poolStep c l = some c') : PoolSection c l c'.pool := by
  cases poolStep_cases hstep with
  | allocSlab hcall h => exact .allocSlab h
  | allocSlabNone hcall h => exact .allocSlab h
  | @allocSlabSlow t base page pool hcall h =>
    have hsection : PoolSection c (.allocSlabSlow t) (allocSlabSlowLocked c.pool base).1 :=
      .allocSlabSlow hcall
    rwa [h] at hsection
  | @allocSlabSlowNone t base pool hcall h =>
    have hsection : PoolSection c (.allocSlabSlow t) (allocSlabSlowLocked c.pool base).1 :=
      .allocSlabSlow hcall
    rwa [h] at hsection
  | deallocSlab hcall hpage h => exact .deallocSlab hpage h
  | purgeTake hcall h => exact .purgeTake h
  | purgeReturn hcall h => exact .purgeReturn hcall h
  | _ => exact .count _

/-- A step moves only the thread that takes it, and changes only what that thread owns. -/
theorem poolStep_frame (ht : t ≠ l.thread) (hstep : poolStep c l = some c') :
    c'.call t = c.call t ∧ c'.owned t = c.owned t := by
  cases poolStep_cases hstep <;> rw [PoolLabel.thread] at ht <;>
    simp [PoolCore.setCall, PoolCore.give, PoolCore.take, PoolCore.osDealloc, PoolCore.allocLarge,
      PoolCore.deallocLarge, ht]

end Stepped

/-- Who holds an outstanding page: a thread, a purge buffer, or a place outside the core. -/
inductive Tag (X : Type)
  | owned (t : ℕ)
  | buffer (t : ℕ)
  | other (x : X)
  deriving DecidableEq

/-- The pages under each tag; the places outside the core are supplied. -/
def PoolCore.holder {X : Type} (c : PoolCore) (extra : X → List ℕ) : Tag X → List ℕ
  | .owned t => c.owned t
  | .buffer t => (c.call t).buffer
  | .other x => extra x

/-- Who owns a region held from the page allocator. -/
inductive RegionOwner
  | table
  | thread (t : ℕ)
  | caller

/-- The segment table owns the registered segments, a thread the region of its call, callers the
large regions. -/
def PoolCore.Owns (c : PoolCore) : RegionOwner → ℕ → Extent → Prop
  | .table, base, extent =>
    extent = segmentExtent ∧ ∃ i < c.pool.segmentCount, c.pool.segments i = base
  | .thread t, base, extent => (c.call t).region = some (base, extent)
  | .caller, base, extent => extent.purpose = .large ∧ (base, extent.size) ∈ c.large

/-- The pages left to purge are in the buffer, and a mapped segment satisfies its layout. -/
def PoolCall.Ok : PoolCall → Prop
  | .purged todo buf => ∀ p ∈ todo, p ∈ buf
  | .mapped base => slabSize ∣ base ∧ 0 < base
  | _ => True

/-- Every page is where the map says, and every region held from the page allocator has one
owner. -/
structure CoreInv {X : Type} (c : PoolCore) (extra : X → List ℕ) (kind : ℕ → PageKind (Tag X)) :
    Prop where
  pool : PoolInv c.pool kind
  keyed : Keyed (c.holder extra) kind
  calls : ∀ t, (c.call t).Ok
  large_nodup : c.large.Nodup
  regions : RegionInv c.os c.Owns

end ClMalloc
