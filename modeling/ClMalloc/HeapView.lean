import ClMalloc.HeapLife
import ClMalloc.HeapProgram

/-!
# What the thread of a heap knows

A heap is used by one thread. Its bins and queues, the slabs in the hands of its operation and
the part of their headers that only an owner writes do not change unless that thread changes
them; the allocation an operation has obtained or is freeing is its own too. A view is this
knowledge. The views agree with a state if the invariant of the heaps holds, every view is
right about what it knows, and the slabs in hand and the allocations are divided between the
threads and the program. Agreement also says that no slot is lost, and that the words of the
program's allocations are as the program left them.
-/

namespace ClMalloc

open Threads Intrusive Placement

/-- The part of a header that only the owner of the slab writes. -/
def SlabHeader.ownPart (header : SlabHeader) : SlabHeader := { header with remoteHead := none }

/-- The owner's part has the class. -/
@[simp] theorem SlabHeader.ownPart_sizeClassIndex (header : SlabHeader) :
    header.ownPart.sizeClassIndex = header.sizeClassIndex := rfl

/-- The owner's part has the id. -/
@[simp] theorem SlabHeader.ownPart_heapId (header : SlabHeader) :
    header.ownPart.heapId = header.heapId := rfl

/-- The owner's part tells what is available. -/
@[simp] theorem SlabHeader.ownPart_freeCount (header : SlabHeader) :
    header.ownPart.freeCount = header.freeCount := rfl

/-- The owner's part tells whether all slots are available. -/
@[simp] theorem SlabHeader.ownPart_isFullyFree (header : SlabHeader) :
    header.ownPart.isFullyFree = header.isFullyFree := rfl

/-- The class, the id and the counts of a slab are in its owner's part. -/
theorem SlabHeader.ownPart_congr {a b : SlabHeader} (heq : a.ownPart = b.ownPart) :
    a.sizeClassIndex = b.sizeClassIndex ∧ a.heapId = b.heapId ∧ a.freeCount = b.freeCount ∧
      a.slotCount = b.slotCount := by
  have hparts (f : SlabHeader → ℕ) : f a.ownPart = f b.ownPart := congrArg f heq
  exact ⟨hparts SlabHeader.sizeClassIndex, hparts SlabHeader.heapId, hparts SlabHeader.freeCount,
    hparts SlabHeader.slotCount⟩

/-- Whether all slots are available is in the owner's part. -/
theorem SlabHeader.isFullyFree_congr {a b : SlabHeader} (heq : a.ownPart = b.ownPart) :
    a.isFullyFree = b.isFullyFree := by
  rw [← SlabHeader.ownPart_isFullyFree, heq, SlabHeader.ownPart_isFullyFree]

/-- Where a heap is in its life. -/
inductive HeapPhase
  | gone
  | alive
  | ending
  deriving DecidableEq

/-- What the thread of a heap knows: the links are those of the slabs in hand. -/
structure HeapView where
  phase : HeapPhase
  id : ℕ
  bins : ℕ → Option ℕ
  queues : Queue → ℕ → List ℕ
  hand : List ℕ
  header : ℕ → SlabHeader
  next : ℕ → Option ℕ
  prev : ℕ → Option (Cell ℕ QueueHead)
  pending : List Allocation

/-- The slab is the heap's. -/
def HeapView.Has (v : HeapView) (slab : ℕ) : Prop :=
  (∃ c, v.bins c = some slab) ∨ (∃ queue c, slab ∈ v.queues queue c) ∨ slab ∈ v.hand

/-- The view is right. -/
structure HeapView.Sees (v : HeapView) (h : ℕ) (s : HeapSys) (lists : SlabPlace → List ℕ) :
    Prop where
  id : (s.heap h).id = v.id
  bins : (s.heap h).bins = v.bins
  queues : ∀ queue c, lists (.queue ⟨h, queue, c⟩) = v.queues queue c
  header : ∀ p, v.Has p → (s.headers p).ownPart = v.header p
  links : ∀ p ∈ v.hand, s.links.next p = v.next p ∧ s.links.prev p = v.prev p

/-- What the program has: heaps, allocations, and what it last knew to be in their first words. -/
structure HeapContext where
  handles : List ℕ
  live : List Allocation
  words : ℕ → Option ℕ

/-- The allocations of the program and those of the threads. -/
def HeapContext.owned (ctx : HeapContext) (views : ℕ → HeapView) : Option ℕ → List Allocation
  | none => ctx.live
  | some h => (views h).pending

/-- A slab in the hands of heap `h` carries the id of no other live heap. -/
structure HeapSys.Carried (s : HeapSys) (handles : List ℕ) (h slab : ℕ) : Prop where
  range : (s.headers slab).sizeClassIndex < numClasses
  old : (s.headers slab).heapId < s.nextHeapId
  others : ∀ h' ∈ handles, h' ≠ h → (s.headers slab).heapId ≠ (s.heap h').id

instance (a : Allocation) (page : ℕ) :
    Decidable (a.ServedFrom page) := inferInstanceAs (Decidable (_ ∧ _))

/-- Every slot of a held slab is free or serves one of the allocations. -/
def HeapSys.Balanced (s : HeapSys) (allocs : List Allocation) : Prop :=
  ∀ p, s.pool.Held p → allocs.countP (fun a => a.ServedFrom p) + s.freeTotal p =
    (s.headers p).slotCount

/-- The views agree with the state. -/
structure HeapSys.Agrees (s : HeapSys) (ctx : HeapContext) (views : ℕ → HeapView)
    (lists : SlabPlace → List ℕ) (roster : List ℕ) (allocs : List Allocation) (busy : Option ℕ) :
    Prop where
  inv : HeapInv s allocs lists roster ctx.handles busy
  sees : ∀ h, (views h).Sees h s lists
  hands : Divided (lists .hand) fun h => (views h).hand
  carried : ∀ h, ∀ p ∈ (views h).hand, s.Carried ctx.handles h p
  roster : ∀ h, h ∈ roster ↔ (views h).phase ≠ .gone
  handles : ∀ h, h ∈ ctx.handles ↔ (views h).phase = .alive
  owned : Divided allocs (ctx.owned views)
  balanced : s.Balanced allocs
  kept : ∀ a ∈ ctx.live, (classIndex a.layout).isSome = true → s.next a.ptr = ctx.words a.ptr

/-- The views fit the state; the page allocator is to blame for an unlawful answer. -/
def heapRules : Discipline (Option ℕ) HeapSys HeapFault ℕ HeapView HeapContext where
  holds := fun ctx s views => ∃ lists roster allocs, s.Agrees ctx views lists roster allocs none
  blames := fun reply fault => fault = .badReply ∧ reply ≠ none

variable {s s' : HeapSys} {ctx : HeapContext} {views : ℕ → HeapView}
  {lists lists' : SlabPlace → List ℕ} {roster : List ℕ} {allocs allocs' : List Allocation}
  {busy busy' : Option ℕ} {h h' c slab p : ℕ} {v v' : HeapView}

/-- The hands when one view is exchanged. -/
theorem hands_update (views : ℕ → HeapView) (h : ℕ) (v : HeapView) :
    (fun h' => (Function.update views h v h').hand) = Function.update
      (fun h' => (views h').hand) h v.hand := by
  funext h'
  by_cases hh : h' = h
  · subst hh
    simp
  · simp [hh]

/-- The allocations when one view is exchanged. -/
theorem HeapContext.owned_update (ctx : HeapContext) (views : ℕ → HeapView) (h : ℕ) (v : HeapView) :
    ctx.owned (Function.update views h v) = Function.update (ctx.owned views)
      (some h) v.pending := by
  funext owner
  cases owner with
  | none => simp [HeapContext.owned]
  | some h' =>
    by_cases hh : h' = h
    · subst hh
      simp [HeapContext.owned]
    · simp [HeapContext.owned, hh]

/-- A slab a view has is in one of the heap's places, or in its hands. -/
theorem HeapView.Sees.place (hsees : v.Sees h s lists)
    (hinv : HeapInv s allocs lists roster ctx.handles busy) (hhas : v.Has slab) :
    (∃ place c, place.owner = some (h, c) ∧ slab ∈ lists place) ∨ slab ∈ v.hand := by
  rcases hhas with ⟨c, hbin⟩ | ⟨queue, c, hqueue⟩ | hhand
  · exact .inl ⟨.bin h c, c, rfl, hinv.mem_bin.mpr (by rw [hsees.bins, hbin])⟩
  · exact .inl ⟨.queue ⟨h, queue, c⟩, c, rfl, by rwa [hsees.queues]⟩
  · exact .inr hhand

/-- The slabs in the heap's places are slabs its view has. -/
theorem HeapView.Sees.has (hsees : v.Sees h s lists)
    (hinv : HeapInv s allocs lists roster ctx.handles busy) {place : SlabPlace}
    (howner : place.owner = some (h, c)) (hslab : slab ∈ lists place) : v.Has slab := by
  cases place with
  | bin h' c' =>
    obtain ⟨rfl, rfl⟩ : h' = h ∧ c' = c := by simpa [SlabPlace.owner] using howner
    exact .inl ⟨c', by rw [← hsees.bins, hinv.mem_bin.mp hslab]⟩
  | queue head =>
    obtain ⟨h', queue, c'⟩ := head
    obtain ⟨rfl, rfl⟩ : h' = h ∧ c' = c := by simpa [SlabPlace.owner] using howner
    exact .inr (.inl ⟨queue, c', by rwa [← hsees.queues]⟩)
  | hand => simp [SlabPlace.owner] at howner

/-- What a view has is in use. -/
theorem HeapSys.Agrees.inUse (hagrees : s.Agrees ctx views lists roster allocs busy)
    (hhas : (views h).Has slab) :
    slab ∈ s.pool.inUse := by
  rw [hagrees.inv.inUse]
  rcases (hagrees.sees h).place hagrees.inv hhas with ⟨place, c, -, hslab⟩ | hhand
  · exact ⟨place, hslab⟩
  · exact ⟨.hand, (hagrees.hands.mem_iff slab).mpr ⟨h, hhand⟩⟩

/-- A slab is had by one heap. -/
theorem HeapSys.Agrees.has_unique (hagrees : s.Agrees ctx views lists roster allocs busy)
    (hhas : (views h).Has slab) (hhas' : (views h').Has slab) : h = h' := by
  have hseparate := hagrees.inv.separate
  have hhand {h : ℕ} (hin : slab ∈ (views h).hand) : slab ∈ lists .hand :=
    (hagrees.hands.mem_iff slab).mpr ⟨h, hin⟩
  rcases (hagrees.sees h).place hagrees.inv hhas with ⟨place, c, howner, hslab⟩ | hslab
  · rcases (hagrees.sees h').place hagrees.inv hhas' with ⟨place', c', howner', hslab'⟩ | hslab'
    · obtain rfl := hseparate.unique hslab hslab'
      rw [howner] at howner'
      simpa using congrArg (Option.map Prod.fst) howner'
    · obtain rfl := hseparate.unique hslab (hhand hslab')
      simp [SlabPlace.owner] at howner
  · rcases (hagrees.sees h').place hagrees.inv hhas' with ⟨place', c', howner', hslab'⟩ | hslab'
    · obtain rfl := hseparate.unique hslab' (hhand hslab)
      simp [SlabPlace.owner] at howner'
    · exact hagrees.hands.separate.unique hslab hslab'

/-- What an action of heap `h` leaves as it is: the other heaps, and the slabs in use that are not
its own. -/
structure HeapSys.Spares (s s' : HeapSys) (lists lists' : SlabPlace → List ℕ) (h : ℕ)
    (v : HeapView) : Prop where
  ids : ∀ h', (s'.heap h').id = (s.heap h').id
  bins : ∀ h', h' ≠ h → (s'.heap h').bins = (s.heap h').bins
  queues : ∀ head : QueueHead, head.heap ≠ h → lists' (.queue head) = lists (.queue head)
  slabs : ∀ p ∈ s.pool.inUse, ¬v.Has p → (s'.headers p).ownPart = (s.headers p).ownPart ∧
    s'.links.next p = s.links.next p ∧ s'.links.prev p = s.links.prev p
  nextHeapId : s'.nextHeapId = s.nextHeapId

/-- What is carried depends on the owner's part of the header and on the ids. -/
theorem HeapSys.Carried.congr {handles : List ℕ} (hcarried : s.Carried handles h slab)
    (hheader : (s'.headers slab).ownPart = (s.headers slab).ownPart)
    (hids : ∀ h', (s'.heap h').id = (s.heap h').id) (hnext : s'.nextHeapId = s.nextHeapId) :
    s'.Carried handles h slab := by
  obtain ⟨hclass, hid, -, -⟩ := SlabHeader.ownPart_congr hheader
  refine ⟨by rw [hclass]; exact hcarried.range, by rw [hid, hnext]; exact hcarried.old,
    fun h' hh' hne => ?_⟩
  rw [hid, hids]
  exact hcarried.others h' hh' hne

/-- An action of heap `h` that keeps the invariant, spares the others and leaves `v'` known keeps
agreement. -/
theorem HeapSys.Agrees.act
    (hagrees : s.Agrees ctx (Function.update views h v) lists roster allocs busy)
    (hinv : HeapInv s' allocs' lists' roster ctx.handles busy') (hsees : v'.Sees h s' lists')
    (hphase : v'.phase = v.phase) (hspares : s.Spares s' lists lists' h v)
    (hhands : Divided (lists' .hand) (Function.update (fun h' => (views h').hand) h v'.hand))
    (hcarried : ∀ p ∈ v'.hand, s'.Carried ctx.handles h p)
    (howned : Divided allocs' (Function.update (ctx.owned views) (some h) v'.pending))
    (hbalanced : s'.Balanced allocs')
    (hkept : ∀ a ∈ ctx.live, (classIndex a.layout).isSome = true → s'.next a.ptr = s.next a.ptr) :
    s'.Agrees ctx (Function.update views h v') lists' roster allocs' busy' := by
  have hother (h' : ℕ) (hh : h' ≠ h) (p : ℕ) (hp : (views h').Has p) :
      p ∈ s.pool.inUse ∧ ¬v.Has p := by
    have hp' : (Function.update views h v h').Has p := by rwa [Function.update_of_ne hh]
    refine ⟨hagrees.inUse hp', fun hv => hh ?_⟩
    exact hagrees.has_unique hp' (by rwa [Function.update_self])
  have hview (h' : ℕ) (hh : h' ≠ h) : Function.update views h v h' = views h' :=
    Function.update_of_ne hh _ _
  refine
    { inv := hinv
      sees := (Function.forall_update_iff views fun h' w => w.Sees h' s' lists').mpr
        ⟨hsees, fun h' hh => ?_⟩
      hands := by rw [hands_update]; exact hhands
      carried := (Function.forall_update_iff views fun h' w => ∀ p ∈ w.hand,
        s'.Carried ctx.handles h' p).mpr ⟨hcarried, fun h' hh p hp => ?_⟩
      roster := fun h' => ?_
      handles := fun h' => ?_
      owned := by rw [HeapContext.owned_update]; exact howned
      balanced := hbalanced
      kept := fun a ha hclass => (hkept a ha hclass).trans (hagrees.kept a ha hclass) }
  · have hold := hagrees.sees h'
    rw [hview h' hh] at hold
    refine ⟨(hspares.ids h').trans hold.id, (hspares.bins h' hh).trans hold.bins,
      fun queue c => ?_, fun p hp => ?_, fun p hp => ?_⟩
    · exact (hspares.queues ⟨h', queue, c⟩ hh).trans (hold.queues queue c)
    · obtain ⟨hin, hnot⟩ := hother h' hh p hp
      exact (hspares.slabs p hin hnot).1.trans (hold.header p hp)
    · obtain ⟨hin, hnot⟩ := hother h' hh p (.inr (.inr hp))
      obtain ⟨-, hnext, hprev⟩ := hspares.slabs p hin hnot
      exact ⟨hnext.trans (hold.links p hp).1, hprev.trans (hold.links p hp).2⟩
  · have hold := hagrees.carried h'
    rw [hview h' hh] at hold
    obtain ⟨hin, hnot⟩ := hother h' hh p (.inr (.inr hp))
    exact (hold p hp).congr (hspares.slabs p hin hnot).1 hspares.ids hspares.nextHeapId
  · rw [hagrees.roster]
    by_cases hh : h' = h
    · subst hh
      rw [Function.update_self, Function.update_self, hphase]
    · rw [Function.update_of_ne hh, Function.update_of_ne hh]
  · rw [hagrees.handles]
    by_cases hh : h' = h
    · subst hh
      rw [Function.update_self, Function.update_self, hphase]
    · rw [Function.update_of_ne hh, Function.update_of_ne hh]

end ClMalloc
