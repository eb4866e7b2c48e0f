import ClMalloc.Lib.Chain
import ClMalloc.Lib.Placement

/-!
# Doubly linked lists whose back links point at cells

Each node has a forward link and a back link; the back link names the cell that holds the
node, which is the forward link of the node before it or the head of a list. A node can
therefore be unlinked without knowing its list. `DList m cell nodes` says that `cell` holds
the first of `nodes`, each forward link the next one and the last one null, and that every
node's back link names the cell that holds it.
-/

namespace Intrusive

open Placement

/-- A place that holds a forward pointer. -/
inductive Cell (N H : Type*)
  | next (n : N)
  | head (h : H)
  deriving DecidableEq

/-- The links of all nodes and the heads of all lists. -/
structure Links (N H : Type*) where
  next : N → Option N
  prev : N → Option (Cell N H)
  head : H → Option N

variable {N H : Type*}

/-- What a cell holds. -/
def Links.read (m : Links N H) : Cell N H → Option N
  | .next n => m.next n
  | .head h => m.head h

/-- The forward link of a node is a cell. -/
@[simp] theorem Links.read_next (m : Links N H) (n : N) : m.read (.next n) = m.next n := rfl

/-- The head of a list is a cell. -/
@[simp] theorem Links.read_head (m : Links N H) (h : H) : m.read (.head h) = m.head h := rfl

/-- The cell holds the first node, and so on to the end; back links name the holding cells. -/
def DList (m : Links N H) : Cell N H → List N → Prop
  | cell, [] => m.read cell = none
  | cell, n :: rest => m.read cell = some n ∧ m.prev n = some cell ∧ DList m (.next n) rest

variable {m m' : Links N H} {cell cell' : Cell N H} {h h' : H} {n b : N} {nodes rest : List N}

/-- The empty list is a cell that holds null. -/
@[simp] theorem dlist_nil : DList m cell [] ↔ m.read cell = none := Iff.rfl

/-- A nonempty list is its first node, held and linked back, and the list behind it. -/
@[simp] theorem dlist_cons :
    DList m cell (n :: rest) ↔ m.read cell = some n ∧ m.prev n = some cell ∧
      DList m (.next n) rest :=
  Iff.rfl

/-- The first node of a list is what its cell holds. -/
theorem DList.read_eq (hl : DList m cell nodes) : m.read cell = nodes.head? := by
  cases nodes with
  | nil => exact hl
  | cons n rest => exact hl.1

/-- A cell starts one list. -/
theorem DList.unique {left right : List N} (hl : DList m cell left) (hr : DList m cell right) :
    left = right := by
  induction left generalizing cell right with
  | nil =>
    have hread := hr.read_eq
    rw [show m.read cell = none from hl] at hread
    exact (List.head?_eq_none_iff.mp hread.symm).symm
  | cons n rest ih =>
    cases right with
    | nil =>
      have hread := hl.1
      rw [show m.read cell = none from hr] at hread
      simp at hread
    | cons k rest' =>
      have hread := hr.1
      rw [hl.1, Option.some.injEq] at hread
      subst hread
      rw [ih hl.2.2 hr.2.2]

/-- The back link of a node names the first cell or the forward link of another node of the list. -/
theorem DList.prev_eq (hl : DList m cell nodes) (hn : n ∈ nodes) :
    m.prev n = some cell ∨ ∃ b ∈ nodes, m.prev n = some (.next b) := by
  induction nodes generalizing cell with
  | nil => simp at hn
  | cons k rest ih =>
    obtain ⟨-, hprev, hrest⟩ := hl
    rcases List.mem_cons.mp hn with rfl | hmem
    · exact .inl hprev
    · rcases ih hrest hmem with hk | ⟨b, hb, hprevb⟩
      · exact .inr ⟨k, List.mem_cons_self, hk⟩
      · exact .inr ⟨b, List.mem_cons_of_mem _ hb, hprevb⟩

/-- A node of a list has a back link. -/
theorem DList.prev_ne_none (hl : DList m cell nodes) (hn : n ∈ nodes) : m.prev n ≠ none := by
  rcases hl.prev_eq hn with hprev | ⟨b, -, hprev⟩ <;> simp [hprev]

/-- The forward link of a node leads to another node of the list, behind the first. -/
theorem DList.next_mem (hl : DList m cell nodes) (hn : n ∈ nodes) (hnext : m.next n = some b) :
    b ∈ nodes.tail := by
  induction nodes generalizing cell with
  | nil => simp at hn
  | cons k rest ih =>
    obtain ⟨-, -, hrest⟩ := hl
    rcases List.mem_cons.mp hn with rfl | hmem
    · have hread := hrest.read_eq
      rw [Links.read_next, hnext] at hread
      exact List.mem_of_mem_head? hread.symm
    · exact List.mem_of_mem_tail (ih hrest hmem)

/-- The forward link of a node is the first of those behind it. -/
theorem DList.next_eq {before after : List N} (hl : DList m cell (before ++ n :: after)) :
    m.next n = after.head? := by
  induction before generalizing cell with
  | nil => exact hl.2.2.read_eq
  | cons k before ih => exact ih hl.2.2

/-- The forward links of a list, followed from its cell, meet its nodes. -/
theorem DList.chain (hl : DList m cell nodes) : Chain m.next (m.read cell) nodes := by
  induction nodes generalizing cell with
  | nil => exact hl
  | cons n rest ih => exact ⟨hl.1, ih hl.2.2⟩

/-- The cell that holds the node behind the given ones. -/
def holder (cell : Cell N H) : List N → Cell N H
  | [] => cell
  | n :: rest => holder (.next n) rest

/-- Every node is held by the first cell or by the forward link of the node before it, and linked
back to it. -/
theorem DList.held {before after : List N} (hl : DList m cell (before ++ n :: after)) :
    m.read (holder cell before) = some n ∧ m.prev n = some (holder cell before) := by
  induction before generalizing cell with
  | nil => exact ⟨hl.1, hl.2.1⟩
  | cons k before ih => exact ih hl.2.2

/-- A list only reads its first cell and the links of its nodes. -/
theorem DList.congr (hl : DList m cell nodes) (hread : m'.read cell = m.read cell)
    (hlinks : ∀ n ∈ nodes, m'.next n = m.next n ∧ m'.prev n = m.prev n) : DList m' cell nodes := by
  induction nodes generalizing cell with
  | nil => exact hread.trans hl
  | cons k rest ih =>
    obtain ⟨hcell, hprev, hrest⟩ := hl
    obtain ⟨hnextk, hprevk⟩ := hlinks k List.mem_cons_self
    exact ⟨hread.trans hcell, hprevk.trans hprev,
      ih hrest hnextk fun n hn => hlinks n (List.mem_cons_of_mem _ hn)⟩

variable [DecidableEq N] [DecidableEq H]

/-- Write a cell. -/
def Links.write (m : Links N H) : Cell N H → Option N → Links N H
  | .next n, value => { m with next := Function.update m.next n value }
  | .head h, value => { m with head := Function.update m.head h value }

/-- Write a forward link. -/
def Links.setNext (m : Links N H) (n : N) (value : Option N) : Links N H := m.write (.next n) value

/-- Write a back link. -/
def Links.setPrev (m : Links N H) (n : N) (value : Option (Cell N H)) : Links N H :=
  { m with prev := Function.update m.prev n value }

/-- Write the back link of a node, if there is one. -/
def Links.setPrevOf (m : Links N H) (node : Option N) (value : Cell N H) : Links N H :=
  match node with
  | some n => m.setPrev n (some value)
  | none => m

/-- Link a node in front of a list. -/
def Links.push (m : Links N H) (h : H) (n : N) : Links N H :=
  let old := m.head h
  let m := m.setNext n old
  let m := m.setPrev n (some (.head h))
  let m := m.setPrevOf old (.next n)
  m.write (.head h) (some n)

/-- Unlink the first node of a list and clear its links. -/
def Links.pop (m : Links N H) (h : H) : Option (N × Links N H) :=
  match m.head h with
  | none => none
  | some n =>
    let new := m.next n
    let m := m.write (.head h) new
    let m := m.setPrevOf new (.head h)
    some (n, (m.setNext n none).setPrev n none)

/-- Unlink a node from whatever list holds it and clear its links; a null back link is a fault. -/
def Links.remove (m : Links N H) (n : N) : Option (Links N H) :=
  match m.prev n with
  | none => none
  | some cell =>
    let next := m.next n
    let m := m.write cell next
    let m := m.setPrevOf next cell
    some ((m.setNext n none).setPrev n none)

/-- The links after a node held by `cell` was taken out. -/
def Links.unlink (m : Links N H) (cell : Cell N H) (n : N) : Links N H :=
  (((m.write cell (m.next n)).setPrevOf (m.next n) cell).setNext n none).setPrev n none

/-- Removing a node unlinks it from the cell its back link names. -/
theorem Links.remove_eq (hprev : m.prev n = some cell) : m.remove n = some (m.unlink cell n) := by
  simp [Links.remove, hprev, Links.unlink]

/-- Popping unlinks the first node from the head. -/
theorem Links.pop_eq (hhead : m.head h = some n) : m.pop h = some (n, m.unlink (.head h) n) := by
  simp [Links.pop, hhead, Links.unlink]

omit [DecidableEq H] in
/-- Only the given node's back link changes. -/
theorem Links.setPrevOf_apply (m : Links N H) (node : Option N) :
    (m.setPrevOf node cell).next = m.next ∧ (m.setPrevOf node cell).head = m.head ∧
      ∀ k, (m.setPrevOf node cell).prev k = if node = some k then some cell else m.prev k := by
  cases node with
  | none => simp [Links.setPrevOf]
  | some j =>
    refine ⟨rfl, rfl, fun k => ?_⟩
    by_cases hk : k = j
    · subst hk
      simp [Links.setPrevOf, Links.setPrev]
    · simp [Links.setPrevOf, Links.setPrev, hk, Ne.symm hk]

/-- The forward links after unlinking. -/
theorem Links.unlink_next (m : Links N H) (cell : Cell N H) (n k : N) :
    (m.unlink cell n).next k = if k = n then none else if cell = .next k then m.next n
      else m.next k := by
  simp only [Links.unlink, Links.setPrev, Links.setNext, Links.write, (Links.setPrevOf_apply _ _).1]
  by_cases hk : k = n
  · simp [hk]
  · cases cell with
    | next j =>
      by_cases hj : k = j
      · subst hj
        simp [hk]
      · simp [hk, hj, Ne.symm hj]
    | head h => simp [hk]

/-- The heads after unlinking. -/
theorem Links.unlink_head (m : Links N H) (cell : Cell N H) (n : N) (h : H) :
    (m.unlink cell n).head h = if cell = .head h then m.next n else m.head h := by
  simp only [Links.unlink, Links.setPrev, Links.setNext, Links.write,
    (Links.setPrevOf_apply _ _).2.1]
  cases cell with
  | next j => simp
  | head h' =>
    by_cases hh : h = h'
    · subst hh
      simp
    · simp [hh, Ne.symm hh]

/-- The back links after unlinking. -/
theorem Links.unlink_prev (m : Links N H) (cell : Cell N H) (n k : N) :
    (m.unlink cell n).prev k =
      if k = n then none else if m.next n = some k then some cell else m.prev k := by
  have hwrite : (m.write cell (m.next n)).prev = m.prev := by cases cell <;> rfl
  have hclear : ((m.write cell (m.next n)).setPrevOf (m.next n) cell).prev k =
      if m.next n = some k then some cell else m.prev k := by
    rw [(Links.setPrevOf_apply _ _).2.2, hwrite]
  by_cases hk : k = n
  · simp [Links.unlink, Links.setPrev, hk]
  · simpa [Links.unlink, Links.setPrev, Links.setNext, Links.write, hk] using hclear

/-- What a cell holds after unlinking, unless it is the unlinked node's own. -/
theorem Links.unlink_read (m : Links N H) (hne : cell' ≠ .next n) :
    (m.unlink cell n).read cell' = if cell = cell' then m.next n else m.read cell' := by
  cases cell' with
  | next k =>
    have hk : k ≠ n := by
      rintro rfl
      exact hne rfl
    simp [Links.unlink_next, hk]
  | head h => simp [Links.unlink_head]

/-- Unlinking a node of the list leaves the list without it. -/
theorem DList.unlink (hl : DList m cell nodes) (hnodup : nodes.Nodup)
    (hcell : ∀ k ∈ nodes, cell ≠ .next k) (hn : n ∈ nodes) (hprev : m.prev n = some cell') :
    DList (m.unlink cell' n) cell (nodes.erase n) := by
  induction nodes generalizing cell with
  | nil => simp at hn
  | cons k rest ih =>
    obtain ⟨hread, hprevk, hrest⟩ := hl
    obtain ⟨hk, hnodup'⟩ := List.nodup_cons.mp hnodup
    by_cases hkn : k = n
    · subst hkn
      obtain rfl : cell = cell' := by
        rw [hprevk] at hprev
        exact Option.some.inj hprev
      have hne := hcell k List.mem_cons_self
      have hfirst : (m.unlink cell k).read cell = m.next k := by simp [Links.unlink_read m hne]
      rw [List.erase_cons_head]
      cases rest with
      | nil => exact hfirst.trans hrest
      | cons b rest =>
        obtain ⟨hreadb, hprevb, hrestb⟩ := hrest
        obtain ⟨hb, -⟩ := List.nodup_cons.mp hnodup'
        have hbk : b ≠ k := by
          rintro rfl
          simp at hk
        have hnext : m.next k = some b := hreadb
        refine ⟨hfirst.trans hreadb, ?_, hrestb.congr ?_ fun j hj => ?_⟩
        · rw [Links.unlink_prev, if_neg hbk, if_pos hnext]
        · rw [Links.read_next, Links.read_next, Links.unlink_next, if_neg hbk,
            if_neg (hcell b (by simp))]
        · have hjk : j ≠ k := by
            rintro rfl
            exact hk (List.mem_cons_of_mem _ hj)
          have hjb : b ≠ j := by
            rintro rfl
            exact hb hj
          simp [Links.unlink_next, Links.unlink_prev, hjk, hcell j (by simp [hj]), hnext, hjb]
    · have hmem : n ∈ rest := (List.mem_cons.mp hn).resolve_left (Ne.symm hkn)
      have hcell' : cell' ≠ cell := by
        rintro rfl
        rcases hrest.prev_eq hmem with hback | ⟨b, hb, hback⟩
        · rw [hback] at hprev
          exact hcell k List.mem_cons_self (Option.some.inj hprev).symm
        · rw [hback] at hprev
          exact hcell b (List.mem_cons_of_mem _ hb) (Option.some.inj hprev).symm
      have hnextn : m.next n ≠ some k := by
        intro hnext
        exact hk (List.mem_of_mem_tail (hrest.next_mem hmem hnext))
      rw [List.erase_cons_tail (by simpa using hkn)]
      refine ⟨?_, ?_, ih hrest hnodup' (fun j hj heq => ?_) hmem⟩
      · rw [Links.unlink_read m (hcell n (by simp [hmem])), if_neg hcell', hread]
      · rw [Links.unlink_prev, if_neg hkn, if_neg hnextn, hprevk]
      · cases heq
        exact hk hj

/-- Unlinking a node leaves the lists that do not hold it alone. -/
theorem DList.unlink_other (hl : DList m (.head h') rest) (hnodes : DList m (.head h) nodes)
    (hhead : h ≠ h') (hn : n ∈ nodes) (hprev : m.prev n = some cell)
    (hdisjoint : nodes.Disjoint rest) :
    DList (m.unlink cell n) (.head h') rest := by
  have hcell : ∀ j ∈ rest, cell ≠ .next j := by
    rintro j hj rfl
    rcases hnodes.prev_eq hn with hback | ⟨b, hb, hback⟩
    · simp [hprev] at hback
    · rw [hprev, Option.some.injEq, Cell.next.injEq] at hback
      exact hdisjoint hb (hback ▸ hj)
  have hcellHead : cell ≠ .head h' := by
    rintro rfl
    rcases hnodes.prev_eq hn with hback | ⟨b, -, hback⟩
    · rw [hprev, Option.some.injEq, Cell.head.injEq] at hback
      exact hhead hback.symm
    · simp [hprev] at hback
  refine hl.congr ?_ fun j hj => ?_
  · simp [Links.unlink_head, hcellHead]
  · have hjn : j ≠ n := by
      rintro rfl
      exact hdisjoint hn hj
    have hnext : m.next n ≠ some j := fun hnext =>
      hdisjoint (List.mem_of_mem_tail (hnodes.next_mem hn hnext)) hj
    simp [Links.unlink_next, Links.unlink_prev, hjn, hcell j hj, hnext]

/-- The forward links after a push. -/
theorem Links.push_next (m : Links N H) (h : H) (n k : N) :
    (m.push h n).next k = if k = n then m.head h else m.next k := by
  simp only [Links.push, Links.write, (Links.setPrevOf_apply _ _).1, Links.setPrev, Links.setNext]
  by_cases hk : k = n <;> simp [hk]

/-- The heads after a push. -/
theorem Links.push_head (m : Links N H) (h h' : H) (n : N) :
    (m.push h n).head h' = if h' = h then some n else m.head h' := by
  simp only [Links.push, Links.write, (Links.setPrevOf_apply _ _).2.1, Links.setPrev, Links.setNext]
  by_cases hh : h' = h <;> simp [hh]

/-- The back links after a push. -/
theorem Links.push_prev (m : Links N H) (h : H) (n k : N) :
    (m.push h n).prev k =
      if m.head h = some k then some (.next n) else if k = n then some (.head h) else m.prev k := by
  simp only [Links.push, Links.write, (Links.setPrevOf_apply _ _).2.2, Links.setPrev, Links.setNext]
  by_cases hk : k = n <;> simp [hk]

/-- A node of no list, pushed, is the first of its list. -/
theorem DList.push (hl : DList m (.head h) nodes) (hn : n ∉ nodes) (hnodup : nodes.Nodup) :
    DList (m.push h n) (.head h) (n :: nodes) := by
  have hhead : m.head h = nodes.head? := hl.read_eq
  have hne : m.head h ≠ some n := by
    intro heq
    exact hn (List.mem_of_mem_head? (hhead ▸ heq))
  refine ⟨by simp [Links.push_head], by simp [Links.push_prev, hne], ?_⟩
  cases nodes with
  | nil =>
    simp only [List.head?_nil] at hhead
    simp [Links.push_next, hhead]
  | cons k rest =>
    obtain ⟨-, -, hrest⟩ := hl
    obtain ⟨hk, -⟩ := List.nodup_cons.mp hnodup
    simp only [List.head?_cons] at hhead
    have hkn : k ≠ n := by
      rintro rfl
      simp at hn
    refine ⟨by simp [Links.push_next, hhead], by simp [Links.push_prev, hhead],
      hrest.congr ?_ fun j hj => ?_⟩
    · simp [Links.push_next, hkn]
    · have hjn : j ≠ n := by
        rintro rfl
        simp [hj] at hn
      have hkj : k ≠ j := by
        rintro rfl
        exact hk hj
      simp [Links.push_next, Links.push_prev, hjn, hhead, hkj]

/-- A push leaves the lists that share no node with it alone. -/
theorem DList.push_other (hl : DList m (.head h') rest) (hnodes : DList m (.head h) nodes)
    (hhead : h' ≠ h) (hn : n ∉ rest) (hdisjoint : nodes.Disjoint rest) :
    DList (m.push h n) (.head h') rest := by
  refine hl.congr ?_ fun j hj => ?_
  · simp [Links.push_head, hhead]
  · have hjn : j ≠ n := by
      rintro rfl
      exact hn hj
    have hfirst : m.head h ≠ some j := by
      intro heq
      have hread : m.head h = nodes.head? := hnodes.read_eq
      exact hdisjoint (List.mem_of_mem_head? (hread ▸ heq)) hj
    simp [Links.push_next, Links.push_prev, hjn, hfirst]

/-- Every head starts the list it should. -/
def Linked (m : Links N H) (lists : H → List N) : Prop := ∀ h, DList m (.head h) (lists h)

variable {lists : H → List N}

/-- The nodes of other lists, and of none, keep their links when a node of `h` is unlinked. -/
theorem Linked.unlink_frame (hlinked : Linked m lists) (hn : n ∈ lists h)
    (hprev : m.prev n = some cell) {k : N} (hk : k ∉ lists h) :
    (m.unlink cell n).next k = m.next k ∧ (m.unlink cell n).prev k = m.prev k := by
  have hkn : k ≠ n := by
    rintro rfl
    exact hk hn
  have hcell : cell ≠ .next k := by
    rintro rfl
    rcases (hlinked h).prev_eq hn with hback | ⟨b, hb, hback⟩
    · simp [hprev] at hback
    · rw [hprev, Option.some.injEq, Cell.next.injEq] at hback
      exact hk (hback ▸ hb)
  have hnext : m.next n ≠ some k := fun hnext =>
    hk (List.mem_of_mem_tail ((hlinked h).next_mem hn hnext))
  simp [Links.unlink_next, Links.unlink_prev, hkn, hcell, hnext]

/-- The heads of other lists stay when a node of `h` is unlinked. -/
theorem Linked.unlink_head (hlinked : Linked m lists) (hn : n ∈ lists h)
    (hprev : m.prev n = some cell) (hne : h' ≠ h) : (m.unlink cell n).head h' = m.head h' := by
  rw [Links.unlink_head, if_neg]
  rintro rfl
  rcases (hlinked h).prev_eq hn with hback | ⟨b, -, hback⟩
  · rw [hprev, Option.some.injEq, Cell.head.injEq] at hback
    exact hne hback
  · simp [hprev] at hback

/-- A node of a list is unlinked from the cell that holds it, and its links are cleared. -/
theorem Linked.unlink (hlinked : Linked m lists) (hsep : Separate lists) (hn : n ∈ lists h)
    (hprev : m.prev n = some cell) :
    Linked (m.unlink cell n) (Function.update lists h ((lists h).erase n)) ∧
      (m.unlink cell n).next n = none ∧ (m.unlink cell n).prev n = none := by
  refine ⟨fun h' => ?_, by simp [Links.unlink_next], by simp [Links.unlink_prev]⟩
  by_cases hh : h' = h
  · subst hh
    rw [Function.update_self]
    exact (hlinked h').unlink (hsep.nodup h') (by simp) hn hprev
  · rw [Function.update_of_ne hh]
    exact (hlinked h').unlink_other (hlinked h) (Ne.symm hh) hn hprev
      (hsep.disjoint h h' (Ne.symm hh))

/-- `remove` succeeds on every node of a list. -/
theorem Linked.remove (hlinked : Linked m lists) (hsep : Separate lists) (hn : n ∈ lists h) :
    ∃ m', m.remove n = some m' ∧ Linked m' (Function.update lists h ((lists h).erase n)) ∧
      m'.next n = none ∧ m'.prev n = none ∧
      ∀ k, k ∉ lists h → m'.next k = m.next k ∧ m'.prev k = m.prev k := by
  obtain ⟨cell, hcell⟩ := Option.ne_none_iff_exists'.mp ((hlinked h).prev_ne_none hn)
  obtain ⟨hlinked', hnext, hprev⟩ := hlinked.unlink hsep hn hcell
  exact ⟨m.unlink cell n, Links.remove_eq hcell, hlinked', hnext, hprev,
    fun k hk => hlinked.unlink_frame hn hcell hk⟩

/-- `pop` unlinks the first node of a list from its head. -/
theorem Linked.pop_cons (hlinked : Linked m lists) (hlist : lists h = n :: rest) :
    m.pop h = some (n, m.unlink (.head h) n) ∧ m.prev n = some (.head h) := by
  have hl := hlinked h
  rw [hlist] at hl
  exact ⟨Links.pop_eq hl.1, hl.2.1⟩

/-- `pop` finds nothing in an empty list. -/
theorem Linked.pop_nil (hlinked : Linked m lists) (hlist : lists h = []) : m.pop h = none := by
  have hl := hlinked h
  rw [hlist, dlist_nil, Links.read_head] at hl
  simp [Links.pop, hl]

/-- `push` puts a node of no list in front. -/
theorem Linked.push (hlinked : Linked m lists) (hsep : Separate lists) (hn : ∀ h', n ∉ lists h') :
    Linked (m.push h n) (Function.update lists h (n :: lists h)) := by
  intro h'
  by_cases hh : h' = h
  · subst hh
    rw [Function.update_self]
    exact (hlinked h').push (hn h') (hsep.nodup h')
  · rw [Function.update_of_ne hh]
    exact (hlinked h').push_other (hlinked h) hh (hn h') (hsep.disjoint h h' (Ne.symm hh))

/-- The other nodes keep their links in a push. -/
theorem Linked.push_frame (hlinked : Linked m lists) {k : N} (hk : k ∉ lists h) (hne : k ≠ n) :
    (m.push h n).next k = m.next k ∧ (m.push h n).prev k = m.prev k := by
  have hfirst : m.head h ≠ some k := by
    intro heq
    have hread : m.head h = (lists h).head? := (hlinked h).read_eq
    exact hk (List.mem_of_mem_head? (hread ▸ heq))
  simp [Links.push_next, Links.push_prev, hne, hfirst]

omit [DecidableEq N] [DecidableEq H] in
/-- Links of nodes in no list may change. -/
theorem Linked.congr (hlinked : Linked m lists) (hhead : m'.head = m.head)
    (hlinks : ∀ h, ∀ n ∈ lists h, m'.next n = m.next n ∧ m'.prev n = m.prev n) : Linked m' lists :=
  fun h => (hlinked h).congr (by simp [hhead]) (hlinks h)

end Intrusive
