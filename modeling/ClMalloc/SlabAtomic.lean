import ClMalloc.SlabConcurrent
import ClMalloc.SlabWhole
import ClMalloc.Lib.Linearizable

/-!
# A slab seems atomic to its owner and to remote threads

An atomic slab recycles the slots that were freed last, carves fresh ones when there are
none, and collects remote frees until a drain takes them all. The slab of the code does a
remote free in three steps or more, and a drain in as many as there are slots to recover,
while remote frees keep arriving. Its callers see what they would see of the atomic slab: a
remote free takes effect at its exchange, and a drain at the swap it starts with.
-/

namespace ClMalloc

open Transition Intrusive Placement Linearizable

/-- The slots of a slab that nobody uses: those to recycle, those never carved, and those freed
remotely. -/
structure FreeSlots where
  recycled : List ℕ
  fresh : List ℕ
  remote : List ℕ
  deriving DecidableEq

/-- The operations of a slab. -/
inductive SlabOp
  | alloc
  | deallocLocal (slot : ℕ)
  | deallocRemote (slot : ℕ)
  | drainRemote
  deriving DecidableEq

/-- The result of an operation. -/
inductive SlabResult
  | slot (slot : Option ℕ)
  | freed
  | drained (count : ℕ)
  deriving DecidableEq

/-- An operation of the atomic slab. -/
def FreeSlots.apply (x : FreeSlots) : SlabOp → SlabResult × FreeSlots
  | .alloc =>
    match x.recycled, x.fresh with
    | slot :: recycled, _ => (.slot (some slot), { x with recycled := recycled })
    | [], slot :: fresh => (.slot (some slot), { x with fresh := fresh })
    | [], [] => (.slot none, x)
  | .deallocLocal slot => (.freed, { x with recycled := slot :: x.recycled })
  | .deallocRemote slot => (.freed, { x with remote := slot :: x.remote })
  | .drainRemote =>
    (.drained x.remote.length, { x with recycled := x.remote.reverse ++ x.recycled, remote := [] })

/-- What the atomic slab allows. -/
def SlabSpec (x : FreeSlots) (op : SlabOp) (r : SlabResult) (x' : FreeSlots) : Prop :=
  x.apply op = (r, x')

/-- The calls and returns of a step; the owner is the caller `none`. -/
def slabEvents (s : SlabSys) : SlabLabel → List (Event (Option ℕ) SlabOp SlabResult)
  | .alloc => [.call none .alloc, .ret none (.slot ((s.header.alloc s.next s.base).map Prod.fst))]
  | .deallocLocal slot => [.call none (.deallocLocal slot), .ret none .freed]
  | .drainRemote => [.call none .drainRemote]
  | .drainNode =>
    match s.owner with
    | .draining none count => [.ret none (.drained count)]
    | _ => []
  | .setHeapId _ => []
  | .write _ _ => []
  | .deallocRemote t slot => [.call (some t) (.deallocRemote slot)]
  | .advance t spurious =>
    match s.call t with
    | .cas _ head => if s.header.remoteHead = head ∧ spurious = false then [.ret (some t) .freed]
        else []
    | _ => []

/-- The slots a drain has yet to push. -/
def SlabSys.drainSlots (s : SlabSys) : List ℕ :=
  match s.owner with
  | .idle => []
  | .draining cursor _ => walk s.next s.header.slotCount cursor

/-- The free slots of the slab: those of the drain in progress count as recycled. -/
def SlabSys.freeSlots (s : SlabSys) : FreeSlots where
  recycled := s.drainSlots.reverse ++ s.header.localSlots s.next
  fresh := uncarved s.base s.header.slotSize s.header.bumpRemaining
  remote := s.header.remoteSlots s.next

/-- Where the owner is for the atomic slab: a drain is done when it starts to walk. -/
def SlabSys.ownerPhase (s : SlabSys) : Phase SlabOp SlabResult :=
  match s.owner with
  | .idle => .idle
  | .draining _ count => .done (.drained (count + s.drainSlots.length))

/-- Where a remote thread is for the atomic slab. -/
def FreeCall.phase (k : FreeCall) : Phase SlabOp SlabResult :=
  match k.slot with
  | none => .idle
  | some slot => .called (.deallocRemote slot)

/-- The atomic slab the slab stands for. -/
def SlabSys.atomic (s : SlabSys) : Atomic FreeSlots (Option ℕ) SlabOp SlabResult where
  state := s.freeSlots
  phase
    | none => s.ownerPhase
    | some t => (s.call t).phase

variable {s s' : SlabSys} {classIdx t slot count : ℕ} {cursor : Option ℕ}
  {lists : SlotPlace → List ℕ} {place : ℕ → Option SlotPlace}

/-- The slots to drain are a chain no longer than the slab. -/
theorem SlabInv.walk_drain (hinv : SlabInv s.base classIdx s.header s.next lists place)
    {start : Option ℕ} (hchain : Chain s.next start (lists .drain)) :
    walk s.next s.header.slotCount start = lists .drain := by
  have hcount := hinv.count_le (hinv.placed.nodup .drain) fun p hp => ⟨.drain, by simp, by simp, hp⟩
  apply hchain.walk_eq
  rw [hinv.slotCount]
  omega

/-- The walk of the drain finds the slots in its place. -/
theorem SlabSysInv.drainSlots_eq (hinv : SlabSysInv classIdx s lists place) :
    s.drainSlots = lists .drain := by
  have hdrain := hinv.drain
  unfold SlabSys.drainSlots
  cases howner : s.owner with
  | idle =>
    rw [howner] at hdrain
    exact hdrain.symm
  | draining cursor count =>
    rw [howner] at hdrain
    exact hinv.slab.walk_drain hdrain.1

/-- The free slots are those of four places. -/
theorem SlabInv.freeSlots_eq (hinv : SlabInv s.base classIdx s.header s.next lists place)
    (hdrain : s.drainSlots = lists .drain) :
    s.freeSlots = ⟨(lists .drain).reverse ++ lists .localList, lists .bump, lists .remote⟩ := by
  obtain ⟨hlocal, hremote⟩ := hinv.walks
  simp only [SlabSys.freeSlots, hdrain, hlocal, hremote, hinv.bump, hinv.slotSize]

/-- The header after `alloc`. -/
def SlabHeader.afterAlloc (h : SlabHeader) (next : ℕ → Option ℕ) (base : ℕ) : SlabHeader :=
  match h.alloc next base with
  | some (_, h') => h'
  | none => h

/-- `alloc` recycles, carves or fails as the atomic slab does. -/
theorem SlabInv.alloc_apply {base : ℕ} {h : SlabHeader} {next : ℕ → Option ℕ}
    (hinv : SlabInv base classIdx h next lists place) :
    ∃ lists' place', SlabInv base classIdx (h.afterAlloc next base) next lists' place' ∧
      lists' .drain = lists .drain ∧
      FreeSlots.apply ⟨lists .localList, lists .bump, lists .remote⟩ .alloc =
        (.slot ((h.alloc next base).map Prod.fst),
          ⟨lists' .localList, lists' .bump, lists' .remote⟩) := by
  have hchain := hinv.localChain
  cases hhead : h.localList.head with
  | some slot =>
    obtain ⟨-, -, hpop⟩ := hinv.popLocal hhead
    rw [hhead] at hchain
    obtain ⟨rest, hlist, -⟩ := hchain.exists_cons
    have halloc : h.alloc next base =
        some (slot, { h with localList := ⟨next slot, u16 (h.localList.len + 0xffff)⟩ }) := by
      simp only [SlabHeader.alloc, SlotFreeList.pop, hhead]
    refine ⟨_, _, by rw [SlabHeader.afterAlloc, halloc]; exact hpop,
      transfer_of_ne (by simp) (by simp), ?_⟩
    rw [halloc, transfer_src (by simp), transfer_of_ne (by simp) (by simp),
      transfer_of_ne (by simp) (by simp), hlist]
    simp [FreeSlots.apply]
  | none =>
    rw [hhead] at hchain
    have hlist := hchain.eq_nil
    by_cases hremaining : 0 < h.bumpRemaining
    · obtain ⟨hslot, hdec, hcarve⟩ := hinv.carve hremaining
      have halloc : h.alloc next base = some (base + h.bumpCursor,
          { h with
            bumpCursor := u16 (h.bumpCursor + h.slotSize)
            bumpRemaining := u16 (h.bumpRemaining + 0xffff) }) := by
        simp only [SlabHeader.alloc, SlotFreeList.pop, hhead, if_pos hremaining]
      have hle := hinv.remaining_le
      have hbump : lists .bump = (base + h.bumpCursor) ::
          uncarved base (classSize classIdx) (u16 (h.bumpRemaining + 0xffff)) := by
        obtain ⟨rest, hrest⟩ : ∃ rest, u16 (h.bumpRemaining + 0xffff) = rest := ⟨_, rfl⟩
        have hremaining' : h.bumpRemaining = rest + 1 := by omega
        rw [hinv.bump, hinv.cursor hremaining, hrest, hremaining', uncarved_succ (by omega),
          slotAddr, Nat.add_assoc]
      refine ⟨_, _, by rw [SlabHeader.afterAlloc, halloc]; exact hcarve,
        transfer_of_ne (by simp) (by simp), ?_⟩
      rw [halloc, transfer_src (by simp), transfer_of_ne (by simp) (by simp),
        transfer_of_ne (by simp) (by simp), hlist, hbump]
      simp [FreeSlots.apply]
    · have halloc : h.alloc next base = none := by
        simp only [SlabHeader.alloc, SlotFreeList.pop, hhead, if_neg hremaining]
      have hbump := hinv.bump
      rw [show h.bumpRemaining = 0 by omega] at hbump
      refine ⟨lists, place, by rw [SlabHeader.afterAlloc, halloc]; exact hinv, rfl, ?_⟩
      rw [halloc, hlist, hbump]
      rfl

/-- The state of an atomic slab whose callers stay where they are. -/
theorem SlabSys.atomic_eq (s s' : SlabSys) (howner : s'.ownerPhase = s.ownerPhase)
    (hcall : s'.call = s.call) :
    s'.atomic = { s.atomic with state := s'.freeSlots } := by
  unfold SlabSys.atomic
  congr 1
  funext caller
  cases caller with
  | none => exact howner
  | some t => simp only [hcall]

/-- The atomic slab when the owner moves on. -/
theorem SlabSys.atomic_owner (s s' : SlabSys) {p : Phase SlabOp SlabResult}
    (howner : s'.ownerPhase = p) (hcall : s'.call = s.call) :
    s'.atomic = Atomic.goto { s.atomic with state := s'.freeSlots } none p := by
  unfold SlabSys.atomic Atomic.goto
  congr 1
  funext caller
  cases caller with
  | none => simpa using howner
  | some t => simp [hcall]

/-- The atomic slab when a remote thread moves on. -/
theorem SlabSys.atomic_thread (s s' : SlabSys) {k : FreeCall}
    (howner : s'.ownerPhase = s.ownerPhase) (hcall : s'.call = Function.update s.call t k) :
    s'.atomic = Atomic.goto { s.atomic with state := s'.freeSlots } (some t) k.phase := by
  unfold SlabSys.atomic Atomic.goto
  congr 1
  funext caller
  cases caller with
  | none => simpa using howner
  | some t' =>
    by_cases ht : t' = t
    · subst ht
      simp [hcall]
    · simp [hcall, ht]

/-- An idle owner has nothing to drain. -/
theorem SlabSys.drainSlots_idle (hidle : s.owner = .idle) :
    s.drainSlots = [] := by simp [SlabSys.drainSlots, hidle]

/-- The atomic slab follows `alloc`. -/
theorem SlabSysInv.runs_alloc (hinv : SlabSysInv classIdx s lists place) (hidle : s.owner = .idle) :
    Runs SlabSpec s.atomic (slabEvents s .alloc) s.alloc.atomic := by
  obtain ⟨lists', place', hinv', hdrain', happly⟩ := hinv.slab.alloc_apply
  have hdrain := s.drainSlots_idle hidle
  have hnone : lists .drain = [] := hinv.drainSlots_eq ▸ hdrain
  have hfree := hinv.slab.freeSlots_eq (hdrain.trans hnone.symm)
  have hframe : s.alloc.header = s.header.afterAlloc s.next s.base ∧ s.alloc.base = s.base ∧
      s.alloc.next = s.next ∧ s.alloc.owner = s.owner ∧ s.alloc.call = s.call := by
    unfold SlabSys.alloc SlabHeader.afterAlloc
    split <;> simp_all
  obtain ⟨hheader, hbase, hnext, howner, hcall⟩ := hframe
  have hfree' : s.alloc.freeSlots = ⟨lists' .localList, lists' .bump, lists' .remote⟩ := by
    rw [← hheader, ← hnext, ← hbase] at hinv'
    have hslots := hinv'.freeSlots_eq (((s.alloc.drainSlots_idle (howner.trans hidle)).trans
      hnone.symm).trans
      hdrain'.symm)
    rw [hslots, hdrain', hnone]
    rfl
  have hphase : s.alloc.ownerPhase = s.ownerPhase := by
    simp only [SlabSys.ownerPhase, howner, hidle]
  rw [s.atomic_eq s.alloc hphase hcall]
  apply runs_whole
  · simp [SlabSys.atomic, SlabSys.ownerPhase, hidle]
  · change s.freeSlots.apply .alloc = _
    rw [hfree, hfree', hnone]
    exact happly

/-- The atomic slab follows a local free. -/
theorem SlabSysInv.runs_deallocLocal (hinv : SlabSysInv classIdx s lists place)
    (hidle : s.owner = .idle) (hslot : slot ∈ s.live) :
    Runs SlabSpec s.atomic (slabEvents s (.deallocLocal slot)) (s.deallocLocal slot).atomic := by
  rw [← hinv.live] at hslot
  have hpush := (hinv.slab.pushLocal hslot ⟨by simp, by simp, by simp⟩).1
  have hdrain := s.drainSlots_idle hidle
  have hnone : lists .drain = [] := hinv.drainSlots_eq ▸ hdrain
  have hfree := hinv.slab.freeSlots_eq (hdrain.trans hnone.symm)
  have hdrain' : (s.deallocLocal slot).drainSlots = [] := SlabSys.drainSlots_idle hidle
  have hfree' : (s.deallocLocal slot).freeSlots = ⟨slot :: lists .localList, lists .bump,
      lists .remote⟩ := by
    have hsame : transfer lists .live .localList slot .drain = [] :=
      (transfer_of_ne (by simp) (by simp)).trans hnone
    rw [SlabInv.freeSlots_eq hpush (hdrain'.trans hsame.symm), hsame, transfer_dst,
      transfer_of_ne (by simp) (by simp), transfer_of_ne (by simp) (by simp)]
    rfl
  have hphase : (s.deallocLocal slot).ownerPhase = s.ownerPhase := by
    simp [SlabSys.ownerPhase, SlabSys.deallocLocal, hidle]
  rw [s.atomic_eq (s.deallocLocal slot) hphase rfl]
  apply runs_whole
  · simp [SlabSys.atomic, SlabSys.ownerPhase, hidle]
  · change s.freeSlots.apply _ = _
    rw [hfree, hfree', hnone]
    rfl

/-- The atomic slab drains when the swap does. -/
theorem SlabSysInv.runs_drainRemote (hinv : SlabSysInv classIdx s lists place)
    (hidle : s.owner = .idle) :
    Runs SlabSpec s.atomic (slabEvents s .drainRemote) s.swapDrain.atomic := by
  have hdrain := s.drainSlots_idle hidle
  have hnone : lists .drain = [] := hinv.drainSlots_eq ▸ hdrain
  have hfree := hinv.slab.freeSlots_eq (hdrain.trans hnone.symm)
  have hwalk : s.swapDrain.drainSlots = lists .remote := hinv.slab.walks.2
  have hfree' : s.swapDrain.freeSlots = ⟨(lists .remote).reverse ++ lists .localList,
      lists .bump, []⟩ := by
    rw [SlabInv.freeSlots_eq hinv.slab.swapRemote (hwalk.trans (by simp [hnone]))]
    simp [hnone]
  have hphase : s.swapDrain.ownerPhase = .done (.drained (lists .remote).length) := by
    change Phase.done (SlabResult.drained (0 + s.swapDrain.drainSlots.length)) = _
    rw [hwalk, Nat.zero_add]
  rw [s.atomic_owner s.swapDrain hphase rfl]
  apply runs_call_commit
  · simp [SlabSys.atomic, SlabSys.ownerPhase, hidle]
  · change s.freeSlots.apply _ = _
    rw [hfree, hfree', hnone]
    rfl

/-- A slot that the drain pushes counted as recycled before. -/
theorem SlabSysInv.atomic_drainNode (hinv : SlabSysInv classIdx s lists place)
    (howner : s.owner = .draining (some slot) count) (hstep : s.drainNode s.owner = some s') :
    s'.atomic = s.atomic := by
  have hdrain := hinv.drain
  rw [howner] at hdrain hstep
  obtain ⟨hchain, hcount⟩ := hdrain
  obtain ⟨rest, hlist, hrest⟩ := hchain.exists_cons
  have hslot : slot ∈ lists .drain := by simp [hlist]
  have hnodup : slot ∉ rest := by
    have hall := hinv.slab.placed.nodup .drain
    rw [hlist, List.nodup_cons] at hall
    exact hall.1
  have hs := (Option.some.inj hstep).symm
  have hpush : SlabInv s'.base classIdx s'.header s'.next (transfer lists .drain .localList slot)
      (relocate place [slot] (some .localList)) := by
    rw [hs]
    exact (hinv.slab.pushLocal hslot ⟨by simp, by simp, by simp⟩).1
  have hleft : transfer lists .drain .localList slot .drain = rest := by
    rw [transfer_src (by simp), hlist]
    simp
  have hslots : s.drainSlots = slot :: rest := hinv.drainSlots_eq.trans hlist
  have hslots' : s'.drainSlots = rest := by
    have hchain' : Chain s'.next (s.next slot) rest := by
      rw [hs]
      exact hrest.update_of_notMem hnodup _
    have hwalk := hpush.walk_drain (hleft.symm ▸ hchain')
    rw [hs] at hwalk ⊢
    exact hwalk.trans hleft
  have hfree : s'.freeSlots = s.freeSlots := by
    rw [hpush.freeSlots_eq (hslots'.trans hleft.symm), hinv.slab.freeSlots_eq hinv.drainSlots_eq,
      hleft, hlist, transfer_dst, transfer_of_ne (by simp) (by simp),
      transfer_of_ne (by simp) (by simp)]
    simp
  have hphase : s'.ownerPhase = s.ownerPhase := by
    have hbound : s.header.localList.len + 1 < 0x10000 := by
      have hlt := hinv.slab.freeCount_lt hslot (by simp) (by simp)
      have hfreeCount := hinv.slab.freeCount_eq.1
      have hsmall := (slabSlots_length s.base classIdx).2
      omega
    have hexact : u16 (count + 1) = count + 1 := Nat.mod_eq_of_lt (by omega)
    have howner' : s'.owner = .draining (s.next slot) (u16 (count + 1)) := by rw [hs]
    simp only [SlabSys.ownerPhase, howner, howner', hslots, hslots', hexact, List.length_cons]
    congr 2
    omega
  rw [s.atomic_eq s' hphase (by rw [hs]), hfree]
  rfl

/-- The atomic slab does nothing while the drain walks, and returns with it. -/
theorem SlabSysInv.runs_drainNode (hinv : SlabSysInv classIdx s lists place)
    (hstep : s.drainNode s.owner = some s') :
    Runs SlabSpec s.atomic (slabEvents s .drainNode) s'.atomic := by
  cases howner : s.owner with
  | idle => simp [howner, SlabSys.drainNode] at hstep
  | draining cursor count =>
    cases cursor with
    | none =>
      have hdrain := hinv.drain
      rw [howner] at hdrain hstep
      cases hstep
      have hnone := hdrain.1.eq_nil
      have hslots : s.drainSlots = [] := hinv.drainSlots_eq.trans hnone
      have hfree : SlabSys.freeSlots { s with owner := .idle } = s.freeSlots := by
        rw [hinv.slab.freeSlots_eq hinv.drainSlots_eq,
          SlabInv.freeSlots_eq (s := { s with owner := .idle }) hinv.slab hnone.symm]
      have hevents : slabEvents s .drainNode = [.ret none (.drained count)] := by
        simp [slabEvents, howner]
      rw [s.atomic_owner { s with owner := .idle } (p := .idle) rfl rfl, hfree, hevents]
      apply runs_ret
      simp [SlabSys.atomic, SlabSys.ownerPhase, howner, hslots]
    | some slot =>
      have hevents : slabEvents s .drainNode = [] := by simp [slabEvents, howner]
      rw [hinv.atomic_drainNode howner hstep, hevents]
      exact .refl _

/-- A step that changes neither the lists nor where anyone is. -/
theorem SlabSysInv.atomic_same (hinv : SlabSysInv classIdx s lists place)
    (hinv' : SlabSysInv classIdx s' lists place) (howner : s'.owner = s.owner)
    (hcall : ∀ t, (s'.call t).slot = (s.call t).slot) : s'.atomic = s.atomic := by
  have hslots : s'.drainSlots = s.drainSlots := hinv'.drainSlots_eq.trans hinv.drainSlots_eq.symm
  have hfree : s'.freeSlots = s.freeSlots := by
    rw [hinv'.slab.freeSlots_eq hinv'.drainSlots_eq, hinv.slab.freeSlots_eq hinv.drainSlots_eq]
  unfold SlabSys.atomic
  rw [hfree]
  congr 1
  funext caller
  cases caller with
  | none => simp only [SlabSys.ownerPhase, howner, hslots]
  | some t => simp only [FreeCall.phase, hcall t]

/-- Moving a thread without freeing a different slot changes no thread's slot. -/
theorem call_goto_slot {k : FreeCall} (hslot : k.slot = (s.call t).slot) (t' : ℕ) :
    ((s.goto t k).call t').slot = (s.call t').slot := by
  by_cases ht : t' = t
  · subst ht
    simp [SlabSys.goto, hslot]
  · simp [SlabSys.goto, ht]

/-- A thread that starts to free a slot calls the atomic slab. -/
theorem SlabSys.runs_deallocRemote (hidle : s.call t = .idle) :
    Runs SlabSpec s.atomic (slabEvents s (.deallocRemote t slot))
      (SlabSys.goto { s with live := s.live.erase slot } t (.loadHead slot)).atomic := by
  rw [s.atomic_thread (SlabSys.goto { s with
    live := s.live.erase slot } t (.loadHead slot)) rfl rfl]
  apply runs_call
  simp [SlabSys.atomic, FreeCall.phase, FreeCall.slot, hidle]

/-- The atomic slab frees a slot when the exchange succeeds. -/
theorem SlabSysInv.runs_advance (hinv : SlabSysInv classIdx s lists place) {spurious : Bool}
    (hstep : s.advance t spurious (s.call t) = some s') :
    Runs SlabSpec s.atomic (slabEvents s (.advance t spurious)) s'.atomic := by
  cases hcall : s.call t with
  | idle => simp [hcall, SlabSys.advance] at hstep
  | loadHead slot =>
    rw [hcall] at hstep
    cases hstep
    have hgoto := hinv.goto (k := .writeNext slot s.header.remoteHead) (t := t)
      (by rw [hcall]; rfl) (by simp)
    rw [hinv.atomic_same hgoto rfl (call_goto_slot (by rw [hcall]; rfl))]
    simp only [slabEvents, hcall]
    exact .refl _
  | writeNext slot head =>
    rw [hcall] at hstep
    cases hstep
    have hslot : slot ∈ lists (.freeing t) := hinv.mem_freeing (by rw [hcall]; rfl)
    have hcas (t' : ℕ) (head' : Option ℕ) : s.call t' ≠ .cas slot head' := by
      intro hother
      have ht := hinv.slab.placed.unique hslot (hinv.mem_freeing (t := t') (by rw [hother]; rfl))
      cases ht
      simp [hcall] at hother
    have hwritten := hinv.write hslot ⟨by simp, by simp, by simp⟩ (by simp) hcas head
    have hgoto := hwritten.goto (k := .cas slot head) (t := t) (by rw [hcall]; rfl)
      (by rintro _ _ ⟨⟩; simp)
    rw [hinv.atomic_same hgoto rfl (call_goto_slot (by rw [hcall]; rfl))]
    simp only [slabEvents, hcall]
    exact .refl _
  | cas slot head =>
    rw [hcall] at hstep
    simp only [slabEvents, hcall]
    have hslot : slot ∈ lists (.freeing t) := hinv.mem_freeing (by rw [hcall]; rfl)
    by_cases hsuccess : s.header.remoteHead = head ∧ spurious = false
    · simp only [SlabSys.advance, if_pos hsuccess] at hstep ⊢
      cases hstep
      have hlink : s.next slot = s.header.remoteHead := by
        rw [hsuccess.1]
        exact hinv.linked t slot head hcall
      have hslab := hinv.slab.pushRemote hslot ⟨by simp, by simp, by simp⟩ hlink
      obtain ⟨s₁, hs₁⟩ : ∃ s₁, s₁ = SlabSys.goto { s with
        header := s.header.deallocRemote slot } t .idle := ⟨_, rfl⟩
      rw [← hs₁]
      have hdrain : s₁.drainSlots = transfer lists (.freeing t) .remote slot .drain := by
        rw [hs₁, transfer_of_ne (by simp) (by simp)]
        exact hinv.drainSlots_eq
      have hfree : s₁.freeSlots =
          ⟨(lists .drain).reverse ++ lists .localList, lists .bump, slot :: lists .remote⟩ := by
        have hslots := SlabInv.freeSlots_eq (s := s₁) (by rw [hs₁]; exact hslab) hdrain
        rw [hslots, transfer_dst, transfer_of_ne (by simp) (by simp),
          transfer_of_ne (by simp) (by simp), transfer_of_ne (by simp) (by simp)]
      rw [s.atomic_thread s₁ (by rw [hs₁]; rfl) (by rw [hs₁]; rfl)]
      have hcalled : s.atomic.phase (some t) = .called (.deallocRemote slot) := by
        simp [SlabSys.atomic, FreeCall.phase, FreeCall.slot, hcall]
      have hspec : SlabSpec s.freeSlots (.deallocRemote slot) .freed s₁.freeSlots := by
        unfold SlabSpec
        rw [hfree, hinv.slab.freeSlots_eq hinv.drainSlots_eq]
        rfl
      exact runs_commit_ret hcalled hspec
    · simp only [SlabSys.advance, if_neg hsuccess] at hstep ⊢
      cases hstep
      have hgoto := hinv.goto (k := .writeNext slot s.header.remoteHead) (t := t)
        (by rw [hcall]; rfl) (by simp)
      rw [hinv.atomic_same hgoto rfl (call_goto_slot (by rw [hcall]; rfl))]
      exact .refl _

/-- The atomic slab follows every step. -/
theorem SlabSysInv.runs_step (hinv : SlabSysInv classIdx s lists place) {label : SlabLabel}
    (hstep : slabStep s label = some s') :
    Runs SlabSpec s.atomic (slabEvents s label) s'.atomic := by
  cases label with
  | alloc =>
    simp only [slabStep] at hstep
    split at hstep <;> cases hstep
    exact hinv.runs_alloc ‹_›
  | deallocLocal slot =>
    simp only [slabStep] at hstep
    split at hstep <;> cases hstep
    rename_i hpre
    exact hinv.runs_deallocLocal hpre.1 hpre.2
  | drainRemote =>
    simp only [slabStep] at hstep
    split at hstep <;> cases hstep
    exact hinv.runs_drainRemote ‹_›
  | drainNode => exact hinv.runs_drainNode hstep
  | setHeapId id =>
    simp only [slabStep] at hstep
    split at hstep <;> cases hstep
    exact .refl _
  | write slot value =>
    simp only [slabStep] at hstep
    split at hstep <;> cases hstep
    rename_i hlive
    rw [← hinv.live] at hlive
    have hwritten := hinv.write hlive ⟨by simp, by simp, by simp⟩ (by simp)
      (fun t head hcall => hinv.ne_linking hlive (by simp) hcall rfl) value
    rw [hinv.atomic_same hwritten rfl fun _ => rfl]
    exact .refl _
  | deallocRemote t slot =>
    simp only [slabStep] at hstep
    split at hstep <;> cases hstep
    rename_i hpre
    exact SlabSys.runs_deallocRemote hpre.1
  | advance t spurious => exact hinv.runs_advance hstep

/-- In every interleaving the owner and the remote threads see what they could see of an atomic
slab, and the free slots in memory are those that the atomic slab ends with. -/
theorem slab_linearizable (base classIdx heapId : ℕ) (memory : ℕ → Option ℕ)
    (labels : List SlabLabel)
    (hrun : run slabStep (SlabSys.init base classIdx heapId memory) labels = some s) :
    Runs SlabSpec (.new ⟨[], slabSlots base (classSize classIdx), []⟩)
      (history slabStep slabEvents (SlabSys.init base classIdx heapId memory) labels) s.atomic := by
  have hinit := slabSysInv_init base classIdx heapId memory
  have hnew : (SlabSys.init base classIdx heapId memory).atomic =
      .new ⟨[], slabSlots base (classSize classIdx), []⟩ := by
    have hfree := hinit.slab.freeSlots_eq hinit.drainSlots_eq
    unfold SlabSys.atomic
    rw [hfree]
    unfold Atomic.new
    congr 1
    funext caller
    cases caller <;> rfl
  rw [← hnew]
  obtain ⟨o, hruns, -, rfl⟩ := runs_of_simulation (fun _ _ => True)
    (fun s o => (∃ lists place, SlabSysInv classIdx s lists place) ∧ o = s.atomic)
    (fun s o label s' hrel _ hstep => by
      obtain ⟨⟨lists, place, hinv⟩, rfl⟩ := hrel
      exact ⟨_, hinv.runs_step hstep, hinv.step hstep, rfl⟩)
    ⟨⟨_, _, hinit⟩, rfl⟩ (meets_true slabStep _ labels) hrun
  exact hruns

/-- A drain returns while a remote free that started before it is still under way. -/
theorem slab_linearizable_rememberedRemote : ∃ s : SlabSys,
    run slabStep (SlabSys.init 65536 44 1 fun _ => none) (rememberedRemoteRun.take 14) = some s ∧
      s.freeSlots = ⟨[98304, 114688], [], []⟩ ∧
      Runs SlabSpec (.new ⟨[], slabSlots 65536 (classSize 44), []⟩)
        (history slabStep slabEvents (SlabSys.init 65536 44 1 fun _ => none)
          (rememberedRemoteRun.take 14)) s.atomic := by
  have heval : (run slabStep (SlabSys.init 65536 44 1 fun _ => none)
      (rememberedRemoteRun.take 14)).map
      (fun s => decide (s.freeSlots = ⟨[98304, 114688], [], []⟩)) = some true := by decide +kernel
  obtain ⟨s, hrun, hs⟩ := Option.map_eq_some_iff.mp heval
  exact ⟨s, hrun, of_decide_eq_true hs, slab_linearizable 65536 44 1 (fun _ => none) _ hrun⟩

end ClMalloc
