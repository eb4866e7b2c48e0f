import ClMalloc.SlabInvariant
import ClMalloc.Lib.Transition

/-!
# One slab under its owner and any number of remote frees

A remote free loads the remote head, writes it into the slot and tries to exchange the head;
the exchange may fail spuriously and the loop retries with the head it saw. The owner
allocates, frees locally, and drains: the drain swaps the remote head to null and then walks
the chain one node a step, while pushes keep arriving. Whoever holds a slot may write to it.
The owner's role passes from heap to heap between its operations. `live` lists the slots that
were handed out and whose free has not started; no step of the code reads it.
-/

namespace ClMalloc

open Intrusive Placement

/-- Where the owner is: outside, or in the walk of `drain_remote`. -/
inductive OwnerCall
  | idle
  | draining (cursor : Option ℕ) (count : ℕ)
  deriving DecidableEq

/-- Where a thread is in `TreiberStack::push`. -/
inductive FreeCall
  | idle
  | loadHead (slot : ℕ)
  | writeNext (slot : ℕ) (head : Option ℕ)
  | cas (slot : ℕ) (head : Option ℕ)
  deriving DecidableEq

/-- The slot a thread is freeing. -/
def FreeCall.slot : FreeCall → Option ℕ
  | .idle => none
  | .loadHead slot | .writeNext slot _ | .cas slot _ => some slot

/-- The slab, its memory, its owner and the remote threads. -/
structure SlabSys where
  base : ℕ
  header : SlabHeader
  next : ℕ → Option ℕ
  owner : OwnerCall
  call : ℕ → FreeCall
  live : List ℕ

/-- A slab right after `Slab::init`; the memory behind the header holds anything. -/
def SlabSys.init (base sizeClassIndex heapId : ℕ) (memory : ℕ → Option ℕ) : SlabSys where
  base := base
  header := .init sizeClassIndex heapId
  next := memory
  owner := .idle
  call := fun _ => .idle
  live := []

/-- `Slab::alloc`. -/
def SlabSys.alloc (s : SlabSys) : SlabSys :=
  match s.header.alloc s.next s.base with
  | some (slot, header) => { s with header := header, live := slot :: s.live }
  | none => s

/-- `Slab::dealloc_local`. -/
def SlabSys.deallocLocal (s : SlabSys) (slot : ℕ) : SlabSys :=
  { s with
    next := Function.update s.next slot s.header.localList.head
    header := s.header.deallocLocal slot
    live := s.live.erase slot }

/-- The swap of `drain_remote`. -/
def SlabSys.swapDrain (s : SlabSys) : SlabSys :=
  { s with header := { s.header with remoteHead := none },
           owner := .draining s.header.remoteHead 0 }

/-- One round of the walk: read the link, push the slot, go on from the link. -/
def SlabSys.drainNode (s : SlabSys) : OwnerCall → Option SlabSys
  | .idle => none
  | .draining none _ => some { s with owner := .idle }
  | .draining (some slot) count =>
    some { s with
      next := Function.update s.next slot s.header.localList.head
      header := s.header.deallocLocal slot
      owner := .draining (s.next slot) (u16 (count + 1)) }

/-- Move a thread to its next step. -/
def SlabSys.goto (s : SlabSys) (t : ℕ) (k : FreeCall) : SlabSys :=
  { s with call := Function.update s.call t k }

/-- The next step of a remote free. -/
def SlabSys.advance (s : SlabSys) (t : ℕ) (spurious : Bool) : FreeCall → Option SlabSys
  | .idle => none
  | .loadHead slot => some (s.goto t (.writeNext slot s.header.remoteHead))
  | .writeNext slot head =>
    some (SlabSys.goto { s with next := Function.update s.next slot head } t (.cas slot head))
  | .cas slot head =>
    if s.header.remoteHead = head ∧ spurious = false then
      some (SlabSys.goto { s with header := s.header.deallocRemote slot } t .idle)
    else some (s.goto t (.writeNext slot s.header.remoteHead))

/-- One step of the owner, of a remote thread, or of the program that uses the slots. -/
inductive SlabLabel
  | alloc
  | deallocLocal (slot : ℕ)
  | drainRemote
  | drainNode
  | setHeapId (id : ℕ)
  | write (slot : ℕ) (value : Option ℕ)
  | deallocRemote (t slot : ℕ)
  | advance (t : ℕ) (spurious : Bool)
  deriving DecidableEq

/-- The owner runs one operation at a time; only slots in use are written or freed. -/
def slabStep (s : SlabSys) : SlabLabel → Option SlabSys
  | .alloc => if s.owner = .idle then some s.alloc else none
  | .deallocLocal slot => if s.owner = .idle ∧ slot ∈ s.live then some (s.deallocLocal slot)
      else none
  | .drainRemote => if s.owner = .idle then some s.swapDrain else none
  | .drainNode => s.drainNode s.owner
  | .setHeapId id =>
    if s.owner = .idle then some { s with header := { s.header with heapId := id } } else none
  | .write slot value =>
    if slot ∈ s.live then some { s with next := Function.update s.next slot value } else none
  | .deallocRemote t slot =>
    if s.call t = .idle ∧ slot ∈ s.live then
      some (SlabSys.goto { s with live := s.live.erase slot } t (.loadHead slot))
    else none
  | .advance t spurious => s.advance t spurious (s.call t)

/-- The five states a slot can be in. -/
inductive SlotState
  | used
  | localList
  | remote
  | draining
  | bump
  deriving DecidableEq

/-- The slot with an index, as the header describes it. -/
def SlabSys.slot (s : SlabSys) (i : ℕ) : ℕ := s.base + s.header.slotsOffset + i * s.header.slotSize

/-- The slot is in the state, as the pointers and counters have it. -/
def SlabSys.At (s : SlabSys) : SlotState → ℕ → Prop
  | .used, slot => slot ∈ s.live ∨ ∃ t, (s.call t).slot = some slot
  | .localList, slot => Reaches s.next s.header.localList.head slot
  | .remote, slot => Reaches s.next s.header.remoteHead slot
  | .draining, slot => ∃ cursor count, s.owner = .draining cursor count ∧ Reaches s.next cursor slot
  | .bump, slot =>
    ∃ i, s.header.slotCount - s.header.bumpRemaining ≤ i ∧ i < s.header.slotCount ∧ slot = s.slot i

/-- Every slot is in one state, the lists end, the counters are exact, and no counter wraps. -/
structure SlabSys.Sound (s : SlabSys) : Prop where
  state : ∀ i < s.header.slotCount, ∃! state, s.At state (s.slot i)
  onlySlots : ∀ state slot, s.At state slot → ∃ i < s.header.slotCount, slot = s.slot i
  liveOnce : s.live.Nodup
  localEnds : ∃ nodes, Chain s.next s.header.localList.head nodes ∧
    s.header.localList.len = nodes.length
  remoteEnds : ∃ nodes, Chain s.next s.header.remoteHead nodes
  drainEnds : ∀ cursor count, s.owner = .draining cursor count → ∃ nodes, Chain s.next cursor nodes
  counters : s.header.localList.len + s.header.bumpRemaining ≤ s.header.slotCount
  sumExact : s.header.freeCount = s.header.localList.len + s.header.bumpRemaining
  popExact : s.header.localList.head ≠ none → 0 < s.header.localList.len
  pushExact : ∀ state slot, (state = .used ∨ state = .draining) → s.At state slot →
    s.header.localList.len + 1 < 65536
  countExact : ∀ cursor count, s.owner = .draining cursor count → count ≤ s.header.localList.len
  fullyFree : s.header.isFullyFree = true → (∀ slot, ¬s.At .used slot) ∧ s.header.remoteHead = none

/-- The slots of the chain being drained, and the count of the drain. -/
def OwnerCall.Ok (k : OwnerCall) (next : ℕ → Option ℕ) (len : ℕ) (chain : List ℕ) : Prop :=
  match k with
  | .idle => chain = []
  | .draining cursor count => Chain next cursor chain ∧ count ≤ len

/-- The places of the slots agree with the slab, its owner and the remote threads. -/
structure SlabSysInv (classIdx : ℕ) (s : SlabSys) (lists : SlotPlace → List ℕ)
    (place : ℕ → Option SlotPlace) :
    Prop where
  slab : SlabInv s.base classIdx s.header s.next lists place
  live : lists .live = s.live
  freeing : ∀ t, lists (.freeing t) = (s.call t).slot.toList
  drain : s.owner.Ok s.next s.header.localList.len (lists .drain)
  linked : ∀ t slot head, s.call t = .cas slot head → s.next slot = head

/-- A new slab satisfies the invariant. -/
theorem slabSysInv_init (base classIdx heapId : ℕ) (memory : ℕ → Option ℕ) :
    SlabSysInv classIdx (SlabSys.init base classIdx heapId memory) (freshSlots base classIdx)
      fun p => if p ∈ slabSlots base (classSize classIdx) then some .bump else none where
  slab := slabInv_init base classIdx heapId memory
  live := rfl
  freeing := fun _ => rfl
  drain := rfl
  linked := by simp [SlabSys.init]

variable {s s' : SlabSys} {classIdx t slot : ℕ} {lists : SlotPlace → List ℕ}
  {place : ℕ → Option SlotPlace}

/-- The slot a thread is freeing is in its hands. -/
theorem SlabSysInv.mem_freeing (hinv : SlabSysInv classIdx s lists place)
    (hslot : (s.call t).slot = some slot) :
    slot ∈ lists (.freeing t) := by
  rw [hinv.freeing, hslot]
  simp

/-- A slot that is in use or being freed by another thread is not being linked by this one. -/
theorem SlabSysInv.ne_linking (hinv : SlabSysInv classIdx s lists place) {src : SlotPlace}
    (hslot : slot ∈ lists src) (hsrc : src ≠ .freeing t) {slot' : ℕ} {head : Option ℕ}
    (hcall : s.call t = .cas slot' head) : slot' ≠ slot := by
  rintro rfl
  exact hsrc (hinv.slab.placed.unique hslot (hinv.mem_freeing (by rw [hcall]; rfl)))

/-- The owner hands out a slot. -/
theorem SlabSysInv.alloc (hinv : SlabSysInv classIdx s lists place) (hidle : s.owner = .idle) :
    ∃ lists' place', SlabSysInv classIdx s.alloc lists' place' := by
  unfold SlabSys.alloc
  split
  case h_1 slot header halloc =>
    obtain ⟨src, hsrc, hslot, -, hslab⟩ := hinv.slab.alloc halloc
    have hne (tag : SlotPlace) (hlocal : tag ≠ .localList) (hbump : tag ≠ .bump) : tag ≠ src := by
      rcases hsrc with rfl | rfl
      · exact hlocal
      · exact hbump
    have hdrain := hinv.drain
    rw [hidle] at hdrain
    refine ⟨_, _, hslab, ?_, fun t => ?_, ?_, hinv.linked⟩
    · rw [transfer_dst, hinv.live]
    · rw [transfer_of_ne (hne _ (by simp) (by simp)) (by simp)]
      exact hinv.freeing t
    · change s.owner.Ok _ _ _
      rw [hidle, transfer_of_ne (hne _ (by simp) (by simp)) (by simp)]
      exact hdrain
  case h_2 => exact ⟨lists, place, hinv⟩

/-- The owner frees a slot in use. -/
theorem SlabSysInv.deallocLocal (hinv : SlabSysInv classIdx s lists place) (hidle : s.owner = .idle)
    (hslot : slot ∈ s.live) :
    ∃ lists' place', SlabSysInv classIdx (s.deallocLocal slot) lists' place' := by
  rw [← hinv.live] at hslot
  have hslab := (hinv.slab.pushLocal hslot ⟨by simp, by simp, by simp⟩).1
  have hdrain := hinv.drain
  rw [hidle] at hdrain
  refine ⟨_, _, hslab, ?_, fun t => ?_, ?_, fun t slot' head hcall => ?_⟩
  · rw [transfer_src (by simp), hinv.live]
    rfl
  · rw [transfer_of_ne (by simp) (by simp)]
    exact hinv.freeing t
  · change s.owner.Ok _ _ _
    rw [hidle, transfer_of_ne (by simp) (by simp)]
    exact hdrain
  · change Function.update s.next slot s.header.localList.head slot' = head
    rw [Function.update_of_ne (hinv.ne_linking hslot (by simp) hcall)]
    exact hinv.linked t slot' head hcall

/-- The swap starts a drain of the whole remote stack. -/
theorem SlabSysInv.swapDrain (hinv : SlabSysInv classIdx s lists place) (hidle : s.owner = .idle) :
    ∃ lists' place', SlabSysInv classIdx s.swapDrain lists' place' := by
  have hdrain := hinv.drain
  rw [hidle] at hdrain
  refine ⟨_, _, hinv.slab.swapRemote, hinv.live, hinv.freeing, ⟨?_, Nat.zero_le _⟩, hinv.linked⟩
  rw [Function.update_self, show lists .drain = [] from hdrain, List.append_nil]
  exact hinv.slab.remoteChain

/-- One round of the walk moves the first slot of the chain to the local list. -/
theorem SlabSysInv.drainNode (hinv : SlabSysInv classIdx s lists place)
    (hstep : s.drainNode s.owner = some s') :
    ∃ lists' place', SlabSysInv classIdx s' lists' place' := by
  have hdrain := hinv.drain
  cases howner : s.owner with
  | idle => simp [howner, SlabSys.drainNode] at hstep
  | draining cursor count =>
    rw [howner] at hdrain hstep
    obtain ⟨hchain, hcount⟩ := hdrain
    cases cursor with
    | none =>
      cases hstep
      exact ⟨lists, place, hinv.slab, hinv.live, hinv.freeing, hchain.eq_nil, hinv.linked⟩
    | some slot =>
      cases hstep
      obtain ⟨rest, hlist, hrest⟩ := hchain.exists_cons
      have hslot : slot ∈ lists .drain := by simp [hlist]
      have hnodup : slot ∉ rest := by
        have := hinv.slab.placed.nodup .drain
        rw [hlist, List.nodup_cons] at this
        exact this.1
      have hslab := (hinv.slab.pushLocal hslot ⟨by simp, by simp, by simp⟩).1
      have hbound : s.header.localList.len + 1 < 0x10000 := by
        have hlt := hinv.slab.freeCount_lt hslot (by simp) (by simp)
        have hfree := hinv.slab.freeCount_eq.1
        have hslots := (slabSlots_length s.base classIdx).2
        omega
      refine ⟨_, _, hslab, ?_, fun t => ?_, ⟨?_, ?_⟩, fun t slot' head hcall => ?_⟩
      · rw [transfer_of_ne (by simp) (by simp)]
        exact hinv.live
      · rw [transfer_of_ne (by simp) (by simp)]
        exact hinv.freeing t
      · rw [transfer_src (by simp), show (lists .drain).erase slot = rest by simp [hlist]]
        exact hrest.update_of_notMem hnodup _
      · change u16 (count + 1) ≤ u16 (s.header.localList.len + 1)
        rw [u16, u16, Nat.mod_eq_of_lt hbound, Nat.mod_eq_of_lt (by omega)]
        omega
      · change Function.update s.next slot s.header.localList.head slot' = head
        rw [Function.update_of_ne (hinv.ne_linking hslot (by simp) hcall)]
        exact hinv.linked t slot' head hcall

/-- A remote free that moves on without freeing a different slot. -/
theorem SlabSysInv.goto (hinv : SlabSysInv classIdx s lists place) {k : FreeCall}
    (hslot : k.slot = (s.call t).slot)
    (hlinked : ∀ slot head, k = .cas slot head → s.next slot = head) :
    SlabSysInv classIdx (s.goto t k) lists place where
  slab := hinv.slab
  live := hinv.live
  freeing := fun t' => by
    rw [hinv.freeing]
    by_cases ht : t' = t
    · subst ht
      simp [SlabSys.goto, hslot]
    · simp [SlabSys.goto, ht]
  drain := hinv.drain
  linked := fun t' slot head hcall => by
    by_cases ht : t' = t
    · subst ht
      exact hlinked slot head (by simpa [SlabSys.goto] using hcall)
    · exact hinv.linked t' slot head (by simpa [SlabSys.goto, ht] using hcall)

/-- Whoever holds a slot may write to it. -/
theorem SlabSysInv.write (hinv : SlabSysInv classIdx s lists place) {src : SlotPlace}
    (hslot : slot ∈ lists src) (hsrc : src.Loose) (hdrain : src ≠ .drain)
    (hcas : ∀ t head, s.call t ≠ .cas slot head) (value : Option ℕ) :
    SlabSysInv classIdx { s with next := Function.update s.next slot value } lists place where
  slab := hinv.slab.write hslot hsrc.1 hsrc.2.1 value
  live := hinv.live
  freeing := hinv.freeing
  drain := by
    have hok := hinv.drain
    cases howner : s.owner with
    | idle => simpa [howner, OwnerCall.Ok] using hok
    | draining cursor count =>
      rw [howner] at hok
      exact ⟨hok.1.update_of_notMem (hinv.slab.placed.notMem hslot hdrain) value, hok.2⟩
  linked := fun t slot' head hcall => by
    have hne : slot' ≠ slot := by
      rintro rfl
      exact hcas t head hcall
    change Function.update s.next slot value slot' = head
    rw [Function.update_of_ne hne]
    exact hinv.linked t slot' head hcall

/-- A slot passes from the program, or from one thread, to a thread or to the remote stack. -/
theorem SlabSysInv.relabel (hinv : SlabSysInv classIdx s lists place) {src dst : SlotPlace}
    {k : FreeCall} {header : SlabHeader} {live : List ℕ} {place' : ℕ → Option SlotPlace}
    (hslab : SlabInv s.base classIdx header s.next (transfer lists src dst slot) place')
    (hlen : header.localList = s.header.localList) (hsrc : src ≠ .drain) (hdst : dst ≠ .drain)
    (hlive : transfer lists src dst slot .live = live)
    (hfreeing : transfer lists src dst slot (.freeing t) = k.slot.toList)
    (hother : ∀ t', t' ≠ t → .freeing t' ≠ src ∧ .freeing t' ≠ dst)
    (hcas : ∀ slot head, k ≠ .cas slot head) :
    SlabSysInv classIdx (SlabSys.goto { s with header := header, live := live } t k)
      (transfer lists src dst slot) place' where
  slab := hslab
  live := hlive
  freeing := fun t' => by
    by_cases ht : t' = t
    · subst ht
      simpa [SlabSys.goto] using hfreeing
    · rw [transfer_of_ne (hother t' ht).1 (hother t' ht).2, hinv.freeing]
      simp [SlabSys.goto, ht]
  drain := by
    rw [transfer_of_ne hsrc.symm hdst.symm]
    change s.owner.Ok s.next header.localList.len _
    rw [hlen]
    exact hinv.drain
  linked := fun t' slot head hcall => by
    by_cases ht : t' = t
    · subst ht
      exact absurd (by simpa [SlabSys.goto] using hcall) (hcas slot head)
    · exact hinv.linked t' slot head (by simpa [SlabSys.goto, ht] using hcall)

/-- A step of a remote free keeps the invariant. -/
theorem SlabSysInv.advance (hinv : SlabSysInv classIdx s lists place) {spurious : Bool}
    (hstep : s.advance t spurious (s.call t) = some s') :
    ∃ lists' place', SlabSysInv classIdx s' lists' place' := by
  cases hcall : s.call t with
  | idle => simp [hcall, SlabSys.advance] at hstep
  | loadHead slot =>
    rw [hcall] at hstep
    cases hstep
    exact ⟨lists, place, hinv.goto (by rw [hcall]; rfl) (by simp)⟩
  | writeNext slot head =>
    rw [hcall] at hstep
    cases hstep
    have hslot : slot ∈ lists (.freeing t) := hinv.mem_freeing (by rw [hcall]; rfl)
    have hcas (t' : ℕ) (head' : Option ℕ) : s.call t' ≠ .cas slot head' := by
      intro hother
      have ht := hinv.slab.placed.unique hslot (hinv.mem_freeing (t := t') (by rw [hother]; rfl))
      cases ht
      simp [hcall] at hother
    have hwritten := hinv.write hslot ⟨by simp, by simp, by simp⟩ (by simp) hcas head
    refine ⟨lists, place, hwritten.goto (by rw [hcall]; rfl) ?_⟩
    rintro slot' head' ⟨⟩
    simp
  | cas slot head =>
    rw [hcall] at hstep
    have hslot : slot ∈ lists (.freeing t) := hinv.mem_freeing (by rw [hcall]; rfl)
    simp only [SlabSys.advance] at hstep
    split at hstep
    case isTrue hsuccess =>
      cases hstep
      have hlink : s.next slot = s.header.remoteHead := by
        rw [hsuccess.1]
        exact hinv.linked t slot head hcall
      have hslab := hinv.slab.pushRemote hslot ⟨by simp, by simp, by simp⟩ hlink
      refine ⟨_, _, hinv.relabel hslab rfl (by simp) (by simp) ?_ ?_ ?_ (by simp)⟩
      · rw [transfer_of_ne (by simp) (by simp)]
        exact hinv.live
      · rw [transfer_src (by simp), hinv.freeing, hcall]
        simp [FreeCall.slot]
      · intro t' ht
        simpa using ht
    case isFalse =>
      cases hstep
      exact ⟨lists, place, hinv.goto (by rw [hcall]; rfl) (by simp)⟩

/-- A thread starts to free a slot in use. -/
theorem SlabSysInv.deallocRemote (hinv : SlabSysInv classIdx s lists place)
    (hidle : s.call t = .idle) (hslot : slot ∈ s.live) :
    ∃ lists' place', SlabSysInv classIdx (SlabSys.goto { s with
      live := s.live.erase slot } t (.loadHead slot))
      lists' place' := by
  rw [← hinv.live] at hslot
  have hdst : (SlotPlace.freeing t).Loose := ⟨by simp, by simp, by simp⟩
  have hslab := hinv.slab.pass hslot ⟨by simp, by simp, by simp⟩ hdst (by simp)
  refine ⟨_, _, hinv.relabel (k := .loadHead slot) hslab rfl (by simp) (by simp) ?_ ?_ ?_ (by simp)⟩
  · rw [transfer_src (by simp), hinv.live]
  · rw [transfer_dst, hinv.freeing, hidle]
    rfl
  · intro t' ht
    simpa using ht

/-- Every step keeps the invariant. -/
theorem SlabSysInv.step (hinv : SlabSysInv classIdx s lists place) {label : SlabLabel}
    (hstep : slabStep s label = some s') :
    ∃ lists' place', SlabSysInv classIdx s' lists' place' := by
  cases label with
  | alloc =>
    simp only [slabStep] at hstep
    split at hstep <;> try contradiction
    case isTrue hidle =>
      cases hstep
      exact hinv.alloc hidle
  | deallocLocal slot =>
    simp only [slabStep] at hstep
    split at hstep <;> try contradiction
    case isTrue hpre =>
      cases hstep
      exact hinv.deallocLocal hpre.1 hpre.2
  | drainRemote =>
    simp only [slabStep] at hstep
    split at hstep <;> try contradiction
    case isTrue hidle =>
      cases hstep
      exact hinv.swapDrain hidle
  | drainNode => exact hinv.drainNode hstep
  | setHeapId id =>
    simp only [slabStep] at hstep
    split at hstep <;> try contradiction
    cases hstep
    exact ⟨lists, place, hinv.slab.congr rfl rfl rfl rfl rfl rfl rfl rfl, hinv.live,
      hinv.freeing, hinv.drain, hinv.linked⟩
  | write slot value =>
    simp only [slabStep] at hstep
    split at hstep <;> try contradiction
    case isTrue hlive =>
      cases hstep
      rw [← hinv.live] at hlive
      refine ⟨lists, place, hinv.write hlive ⟨by simp, by simp, by simp⟩ (by simp)
        (fun t head hcall => ?_) value⟩
      exact hinv.ne_linking hlive (by simp) hcall rfl
  | deallocRemote t slot =>
    simp only [slabStep] at hstep
    split at hstep <;> try contradiction
    case isTrue hpre =>
      cases hstep
      exact hinv.deallocRemote hpre.1 hpre.2
  | advance t spurious => exact hinv.advance hstep

/-- The state a place belongs to. -/
def SlotPlace.state : SlotPlace → SlotState
  | .live | .freeing _ => .used
  | .localList => .localList
  | .remote => .remote
  | .drain => .draining
  | .bump => .bump

/-- The slots of the slab, by index. -/
theorem SlabSysInv.mem_slots_iff (hinv : SlabSysInv classIdx s lists place) :
    slot ∈ slabSlots s.base (classSize classIdx) ↔ ∃ i < s.header.slotCount, slot = s.slot i := by
  simp only [slabSlots, List.mem_map, List.mem_range, SlabSys.slot, slotAddr, hinv.slab.slotCount,
    hinv.slab.slotsOffset, hinv.slab.slotSize, eq_comm]

/-- What the pointers and counters say is what the places say. -/
theorem SlabSysInv.at_iff (hinv : SlabSysInv classIdx s lists place) (state : SlotState) :
    s.At state slot ↔ ∃ tag, tag.state = state ∧ slot ∈ lists tag := by
  cases state with
  | used =>
    constructor
    · rintro (hlive | ⟨t, hcall⟩)
      · exact ⟨.live, rfl, by rwa [hinv.live]⟩
      · exact ⟨.freeing t, rfl, hinv.mem_freeing hcall⟩
    · rintro ⟨tag, hstate, hslot⟩
      cases tag with
      | live => exact .inl (by rwa [hinv.live] at hslot)
      | freeing t => exact .inr ⟨t, by simpa [hinv.freeing] using hslot⟩
      | localList | remote | drain | bump => simp [SlotPlace.state] at hstate
  | localList =>
    refine hinv.slab.localChain.reaches_iff.trans ⟨fun hslot => ⟨.localList, rfl, hslot⟩, ?_⟩
    rintro ⟨tag, hstate, hslot⟩
    cases tag <;> simp [SlotPlace.state] at hstate
    exact hslot
  | remote =>
    refine hinv.slab.remoteChain.reaches_iff.trans ⟨fun hslot => ⟨.remote, rfl, hslot⟩, ?_⟩
    rintro ⟨tag, hstate, hslot⟩
    cases tag <;> simp [SlotPlace.state] at hstate
    exact hslot
  | draining =>
    have hdrain := hinv.drain
    constructor
    · rintro ⟨cursor, count, howner, hreach⟩
      rw [howner] at hdrain
      exact ⟨.drain, rfl, hdrain.1.reaches_iff.mp hreach⟩
    · rintro ⟨tag, hstate, hslot⟩
      cases tag <;> simp [SlotPlace.state] at hstate
      cases howner : s.owner with
      | idle =>
        rw [howner] at hdrain
        rw [show lists .drain = [] from hdrain] at hslot
        simp at hslot
      | draining cursor count =>
        rw [howner] at hdrain
        exact ⟨cursor, count, howner, hdrain.1.reaches_iff.mpr hslot⟩
  | bump =>
    have hbump : s.At .bump slot ↔ slot ∈ lists .bump := by
      have hle := hinv.slab.remaining_le
      simp only [SlabSys.At, hinv.slab.bump, uncarved, List.mem_map, List.mem_range'_1,
        SlabSys.slot, slotAddr, hinv.slab.slotCount, hinv.slab.slotsOffset, hinv.slab.slotSize,
        Nat.sub_add_cancel hle, and_assoc, eq_comm]
    refine hbump.trans ⟨fun hslot => ⟨.bump, rfl, hslot⟩, ?_⟩
    rintro ⟨tag, hstate, hslot⟩
    cases tag <;> simp [SlotPlace.state] at hstate
    exact hslot

/-- The invariant gives the partition of the slots and the exact counters. -/
theorem SlabSysInv.sound (hinv : SlabSysInv classIdx s lists place) : s.Sound := by
  obtain ⟨hsum, hle⟩ := hinv.slab.freeCount_eq
  have hslots := (slabSlots_length s.base classIdx).2
  refine
    { state := fun i hi => ?_
      onlySlots := fun state slot hat => ?_
      liveOnce := hinv.live ▸ hinv.slab.placed.nodup .live
      localEnds := ⟨_, hinv.slab.localChain, hinv.slab.localLen⟩
      remoteEnds := ⟨_, hinv.slab.remoteChain⟩
      drainEnds := fun cursor count howner => ?_
      counters := hinv.slab.slotCount ▸ hle
      sumExact := hsum
      popExact := fun hhead => ?_
      pushExact := fun state slot hstate hat => ?_
      countExact := fun cursor count howner => ?_
      fullyFree := fun hfree => ⟨fun slot hat => ?_, ?_⟩ }
  · have hslot := (hinv.slab.slots _).mpr (hinv.mem_slots_iff.mpr ⟨i, hi, rfl⟩)
    obtain ⟨tag, htag, hunique⟩ := hinv.slab.placed.existsUnique hslot
    refine ⟨tag.state, (hinv.at_iff _).mpr ⟨tag, rfl, htag⟩, fun state hat => ?_⟩
    obtain ⟨tag', rfl, htag'⟩ := (hinv.at_iff state).mp hat
    rw [hunique tag' htag']
  · obtain ⟨tag, -, htag⟩ := (hinv.at_iff state).mp hat
    exact hinv.mem_slots_iff.mp (hinv.slab.mem_slots htag)
  · have hdrain := hinv.drain
    rw [howner] at hdrain
    exact ⟨_, hdrain.1⟩
  · have hchain := hinv.slab.localChain
    obtain ⟨slot, hslot⟩ := Option.ne_none_iff_exists'.mp hhead
    rw [hslot] at hchain
    obtain ⟨rest, hlist, -⟩ := hchain.exists_cons
    rw [hinv.slab.localLen, hlist]
    simp
  · obtain ⟨tag, htag, hmem⟩ := (hinv.at_iff state).mp hat
    have htags : tag ≠ .localList ∧ tag ≠ .bump := by
      rcases hstate with rfl | rfl <;> cases tag <;> simp [SlotPlace.state] at htag ⊢
    have hlt := hinv.slab.freeCount_lt hmem htags.1 htags.2
    omega
  · have hdrain := hinv.drain
    rw [howner] at hdrain
    exact hdrain.2
  · obtain ⟨tag, htag, hmem⟩ := (hinv.at_iff .used).mp hat
    rw [hinv.slab.eq_nil_of_isFullyFree hfree (by rintro rfl; simp [SlotPlace.state] at htag)
      (by rintro rfl; simp [SlotPlace.state] at htag)] at hmem
    simp at hmem
  · have hchain := hinv.slab.remoteChain
    rw [hinv.slab.eq_nil_of_isFullyFree hfree (by simp) (by simp)] at hchain
    exact hchain

/-- In every run on a slab of any class, every slot is in one state and the counters are exact. -/
theorem slab_sound (base classIdx heapId : ℕ) (memory : ℕ → Option ℕ) (labels : List SlabLabel)
    (hrun : Transition.run slabStep (SlabSys.init base classIdx heapId memory) labels = some s) :
    s.Sound := by
  obtain ⟨lists, place, hinv⟩ : ∃ lists place, SlabSysInv classIdx s lists place := by
    refine Transition.run_invariant (I := fun s => ∃ lists place,
      SlabSysInv classIdx s lists place) ?_ ⟨_, _, slabSysInv_init base classIdx heapId memory⟩ hrun
    rintro s label s' ⟨lists, place, hinv⟩ hstep
    exact hinv.step hstep
  exact hinv.sound

/-- Three slots of 16384 bytes: thread 0 remembers a remote head that is drained, handed out again
and freed again before its exchange, which then succeeds; at the end everything is drained. -/
def rememberedRemoteRun : List SlabLabel :=
  [.alloc, .alloc, .alloc, .deallocLocal 114688,
    .deallocRemote 1 98304, .advance 1 false, .advance 1 false, .advance 1 false,
    .deallocRemote 0 81920, .advance 0 false, .advance 0 false,
    .drainRemote, .drainNode, .drainNode, .alloc, .write 98304 (some 7), .setHeapId 2,
    .deallocRemote 1 98304, .advance 1 false, .advance 1 false, .advance 1 true, .advance 1 false,
      .advance 1 false,
    .advance 0 false,
    .drainRemote, .drainNode, .drainNode, .drainNode]

/-- The exchange that finds the remembered head back in place loses no slot. -/
theorem slab_sound_rememberedRemote : ∃ s : SlabSys,
    Transition.run slabStep (SlabSys.init 65536 44 1 fun _ => none) rememberedRemoteRun = some s ∧
      s.header.isFullyFree = true ∧ s.header.localList = ⟨some 98304, 3⟩ ∧ s.Sound := by
  have heval : (Transition.run slabStep
      (SlabSys.init 65536 44 1 fun _ => none) rememberedRemoteRun).map
      (fun s => decide (s.header.isFullyFree = true ∧ s.header.localList = ⟨some 98304, 3⟩)) =
      some true := by
    decide +kernel
  obtain ⟨s, hrun, hs⟩ := Option.map_eq_some_iff.mp heval
  obtain ⟨hfree, hlist⟩ := of_decide_eq_true hs
  exact ⟨s, hrun, hfree, hlist, slab_sound 65536 44 1 (fun _ => none) rememberedRemoteRun hrun⟩

end ClMalloc
