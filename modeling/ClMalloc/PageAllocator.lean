import Mathlib.Data.List.Perm.Basic
import Mathlib.Data.List.Range
import Mathlib.Data.List.Nodup
import Mathlib.Logic.Function.Basic

/-!
# The page allocator's contract

The backend chooses addresses; the model only records what it has handed out. A request
may be answered by any region that satisfies the layout, is not null, does not wrap the
address space, and is disjoint from every region still held. Each successful request is a
new acquisition with its own number, so a reused address counts again; segments and large
regions are numbered separately. Giving back a region that is not held is recorded as a
fault.
-/

namespace ClMalloc

/-- What a region was requested for. -/
inductive Purpose
  | segment
  | large
  deriving DecidableEq

/-- The size of a region and what it was requested for. -/
structure Extent where
  size : ℕ
  purpose : Purpose
  deriving DecidableEq

/-- A region held from the page allocator, with the number of its acquisition. -/
structure Region where
  base : ℕ
  extent : Extent
  acquisition : ℕ
  deriving DecidableEq

/-- Two regions share no byte. -/
def Region.Apart (r s : Region) : Prop :=
  r.base + r.extent.size ≤ s.base ∨ s.base + s.extent.size ≤ r.base

/-- Being disjoint is symmetric. -/
instance : Std.Symm Region.Apart := ⟨fun _ _ => Or.symm⟩

/-- What the page allocator has handed out and got back. -/
structure PageOs where
  regions : List Region
  acquired : Purpose → ℕ
  returned : Purpose → List ℕ
  faults : ℕ

/-- Nothing handed out yet. -/
def PageOs.new : PageOs := ⟨[], fun _ => 0, fun _ => [], 0⟩

/-- The answers the contract allows for a request of `size` bytes aligned to `align`. -/
def PageOs.Admits (os : PageOs) (base size align : ℕ) : Prop :=
  0 < base ∧ align ∣ base ∧ base + size < 0x10000000000000000 ∧
    ∀ r ∈ os.regions, base + size ≤ r.base ∨ r.base + r.extent.size ≤ base

/-- Whether an answer is allowed can be computed. -/
instance (os : PageOs) (base size align : ℕ) : Decidable (os.Admits base size align) := by
  unfold PageOs.Admits
  infer_instance

/-- Hand out the region at `base`. -/
def PageOs.alloc (os : PageOs) (base : ℕ) (extent : Extent) : PageOs :=
  { os with
    regions := ⟨base, extent, os.acquired extent.purpose⟩ :: os.regions
    acquired := Function.update os.acquired extent.purpose (os.acquired extent.purpose + 1) }

/-- The record of a held region with this address and size. -/
def PageOs.lookup (os : PageOs) (base size : ℕ) : Option Region :=
  os.regions.find? fun r => decide (r.base = base ∧ r.extent.size = size)

/-- Take the region back; a region that is not held is a fault. -/
def PageOs.dealloc (os : PageOs) (base size : ℕ) : PageOs :=
  match os.lookup base size with
  | some r =>
    { os with
      regions := os.regions.erase r
      returned := Function.update os.returned r.extent.purpose
        (r.acquisition :: os.returned r.extent.purpose) }
  | none => { os with faults := os.faults + 1 }

/-- A region with this address and extent is held. -/
def PageOs.Holds (os : PageOs) (base : ℕ) (extent : Extent) : Prop :=
  ∃ r ∈ os.regions, r.base = base ∧ r.extent = extent

/-- The numbers of the acquisitions still held for a purpose. -/
def PageOs.heldNumbers (os : PageOs) (purpose : Purpose) : List ℕ :=
  (os.regions.filter fun r => r.extent.purpose = purpose).map Region.acquisition

/-- Held regions are disjoint, and every acquisition is either held or was given back once. -/
structure OsInv (os : PageOs) : Prop where
  apart : os.regions.Pairwise Region.Apart
  pos : ∀ r ∈ os.regions, 0 < r.extent.size
  numbers : ∀ purpose, (os.returned purpose ++ os.heldNumbers purpose).Perm
    (List.range (os.acquired purpose))
  noFault : os.faults = 0

variable {os : PageOs} {base align : ℕ} {extent : Extent}

/-- The fresh allocator satisfies its invariant. -/
theorem osInv_new : OsInv PageOs.new where
  apart := List.Pairwise.nil
  pos := by simp [PageOs.new]
  numbers := by simp [PageOs.new, PageOs.heldNumbers]
  noFault := rfl

/-- Distinct held regions are disjoint. -/
theorem OsInv.apart_of_ne (h : OsInv os) {r s : Region} (hr : r ∈ os.regions) (hs : s ∈ os.regions)
    (hne : r ≠ s) : r.Apart s :=
  h.apart.forall hr hs hne

/-- Two held regions at one address are the same record. -/
theorem OsInv.eq_of_base (h : OsInv os) {r s : Region} (hr : r ∈ os.regions) (hs : s ∈ os.regions)
    (hbase : r.base = s.base) : r = s := by
  by_contra hne
  have hap := h.apart_of_ne hr hs hne
  have hr := h.pos r hr
  have hs := h.pos s hs
  unfold Region.Apart at hap
  omega

/-- An admitted answer becomes a held region. -/
theorem OsInv.alloc (h : OsInv os) (hanswer : os.Admits base extent.size align)
    (hsize : 0 < extent.size) :
    OsInv (os.alloc base extent) where
  apart := List.pairwise_cons.mpr ⟨fun r hr => hanswer.2.2.2 r hr, h.apart⟩
  pos := by
    intro r hr
    rcases List.mem_cons.mp hr with rfl | hr
    · exact hsize
    · exact h.pos r hr
  numbers := by
    intro purpose
    have hnum := h.numbers purpose
    by_cases hp : purpose = extent.purpose
    · subst hp
      simp only [PageOs.heldNumbers, PageOs.alloc, List.filter_cons, decide_true, if_true,
        List.map_cons, Function.update_self, List.range_succ] at hnum ⊢
      exact List.perm_middle.trans ((hnum.cons _).trans (List.perm_append_singleton _ _).symm)
    · simp only [PageOs.heldNumbers, PageOs.alloc, List.filter_cons, Ne.symm hp, decide_false,
        Bool.false_eq_true, if_false, Function.update_of_ne hp] at hnum ⊢
      exact hnum
  noFault := h.noFault

/-- The regions held after an allocation are those held before and the new one. -/
theorem holds_alloc {b : ℕ} {e : Extent} :
    (os.alloc base extent).Holds b e ↔ (b = base ∧ e = extent) ∨ os.Holds b e := by
  simp only [PageOs.Holds, PageOs.alloc, List.mem_cons]
  constructor
  · rintro ⟨r, rfl | hr, rfl, rfl⟩
    · exact .inl ⟨rfl, rfl⟩
    · exact .inr ⟨r, hr, rfl, rfl⟩
  · rintro (⟨rfl, rfl⟩ | ⟨r, hr, hb⟩)
    · exact ⟨_, .inl rfl, rfl, rfl⟩
    · exact ⟨r, .inr hr, hb⟩

/-- Looking up a held region finds its record. -/
theorem OsInv.lookup_eq (h : OsInv os) {r : Region} (hr : r ∈ os.regions) :
    os.lookup r.base r.extent.size = some r := by
  cases hfind : os.lookup r.base r.extent.size with
  | none =>
    have := List.find?_eq_none.mp hfind r hr
    simp at this
  | some found =>
    have hprop := List.find?_some hfind
    rw [h.eq_of_base (List.mem_of_find?_eq_some hfind) hr (by simp at hprop; exact hprop.1)]

/-- Giving back a held region removes that acquisition and no other. -/
theorem OsInv.dealloc (h : OsInv os) (hold : os.Holds base extent) :
    OsInv (os.dealloc base extent.size) ∧
      ∀ b e, (os.dealloc base extent.size).Holds b e ↔ os.Holds b e ∧ b ≠ base := by
  obtain ⟨r, hr, rfl, rfl⟩ := hold
  have hperm := List.perm_cons_erase hr
  have hnodup : os.regions.Nodup := h.apart.imp_of_mem fun {a b} ha hb hab heq => by
    subst heq
    have := h.pos a ha
    rcases hab with hab | hab <;> omega
  unfold PageOs.dealloc
  rw [h.lookup_eq hr]
  refine ⟨⟨h.apart.sublist List.erase_sublist, fun s hs => h.pos s (List.mem_of_mem_erase hs),
    ?_, h.noFault⟩, ?_⟩
  · intro purpose
    have hheld := (hperm.filter fun r => decide (r.extent.purpose = purpose)).map Region.acquisition
    refine List.Perm.trans ?_ (h.numbers purpose)
    by_cases hp : purpose = r.extent.purpose
    · subst hp
      simp only [List.filter_cons, decide_true, if_true, List.map_cons] at hheld
      simp only [Function.update_self, PageOs.heldNumbers]
      exact List.perm_middle.symm.trans (hheld.symm.append_left _)
    · simp only [List.filter_cons, Ne.symm hp, decide_false, Bool.false_eq_true, if_false] at hheld
      simp only [Function.update_of_ne hp, PageOs.heldNumbers]
      exact hheld.symm.append_left _
  · intro b e
    simp only [PageOs.Holds, hnodup.mem_erase_iff]
    constructor
    · rintro ⟨q, ⟨hne, hq⟩, rfl, rfl⟩
      exact ⟨⟨q, hq, rfl, rfl⟩, fun hbase => hne (h.eq_of_base hq hr hbase)⟩
    · rintro ⟨⟨q, hq, rfl, rfl⟩, hne⟩
      exact ⟨q, ⟨fun hqr => hne (congrArg Region.base hqr), hq⟩, rfl, rfl⟩

/-- Two held regions are disjoint unless they start at the same address. -/
theorem OsInv.disjoint_of_holds (h : OsInv os) {b b' : ℕ} {e e' : Extent} (hb : os.Holds b e)
    (hb' : os.Holds b' e') (hne : b ≠ b') : b + e.size ≤ b' ∨ b' + e'.size ≤ b := by
  obtain ⟨r, hr, rfl, rfl⟩ := hb
  obtain ⟨q, hq, rfl, rfl⟩ := hb'
  exact h.apart_of_ne hr hq fun heq => hne (congrArg Region.base heq)

/-- An admitted answer is not the address of a region already held. -/
theorem OsInv.fresh_of_admits (h : OsInv os) (hanswer : os.Admits base extent.size align)
    (hsize : 0 < extent.size) (e : Extent) : ¬os.Holds base e := by
  rintro ⟨r, hr, rfl, -⟩
  have hpos := h.pos r hr
  rcases hanswer.2.2.2 r hr with hd | hd <;> omega

/-- Every held region has exactly one owner, and owners own nothing else. -/
structure RegionInv {O : Type} (os : PageOs) (owns : O → ℕ → Extent → Prop) : Prop where
  contract : OsInv os
  held : ∀ b e, os.Holds b e ↔ ∃ o, owns o b e
  unique : ∀ o o' b e e', owns o b e → owns o' b e' → o = o'

variable {O : Type} {owns owns' : O → ℕ → Extent → Prop} {o : O}

/-- What an owner owns is held. -/
theorem RegionInv.holds (h : RegionInv os owns) (ho : owns o base extent) : os.Holds base extent :=
  (h.held base extent).mpr ⟨o, ho⟩

/-- The regions of different owners are disjoint. -/
theorem RegionInv.disjoint (h : RegionInv os owns) {o' : O} {b : ℕ} {e : Extent}
    (ho : owns o base extent) (ho' : owns o' b e) (hne : o ≠ o') :
    base + extent.size ≤ b ∨ b + e.size ≤ base := by
  refine h.contract.disjoint_of_holds (h.holds ho) (h.holds ho') ?_
  rintro rfl
  exact hne (h.unique o o' base extent e ho ho')

/-- Regions owned at one address are the same region. -/
theorem RegionInv.extent_eq (h : RegionInv os owns) {o' : O} {e : Extent} (ho : owns o base extent)
    (ho' : owns o' base e) : e = extent := by
  obtain ⟨r, hr, hb, rfl⟩ := h.holds ho
  obtain ⟨q, hq, hb', rfl⟩ := h.holds ho'
  rw [h.contract.eq_of_base hr hq (hb.trans hb'.symm)]

/-- The same ownership, written differently. -/
theorem RegionInv.congr (h : RegionInv os owns) (howns : ∀ o b e, owns' o b e ↔ owns o b e) :
    RegionInv os owns' where
  contract := h.contract
  held := fun b e => by
    rw [h.held b e]
    simp only [howns]
  unique := fun o o' b e e' ho ho' => h.unique o o' b e e' ((howns _ _ _).mp ho)
    ((howns _ _ _).mp ho')

/-- Another owner's region is at another address. -/
theorem RegionInv.base_ne (h : RegionInv os owns) {o' : O} {b : ℕ} {e : Extent}
    (ho : owns o base extent) (ho' : owns o' b e) (hne : o' ≠ o) : b ≠ base := by
  rintro rfl
  exact hne (h.unique o' o b e extent ho' ho)

/-- An admitted region goes to the owner that asked for it. -/
theorem RegionInv.alloc (h : RegionInv os owns) (hanswer : os.Admits base extent.size align)
    (hsize : 0 < extent.size) (hrest : ∀ o' ≠ o, ∀ b e, owns' o' b e ↔ owns o' b e)
    (hself : ∀ b e, owns' o b e ↔ owns o b e ∨ (b = base ∧ e = extent)) :
    RegionInv (os.alloc base extent) owns' := by
  have howns (o' : O) (b : ℕ) (e : Extent) :
      owns' o' b e ↔ owns o' b e ∨ (o' = o ∧ b = base ∧ e = extent) := by
    by_cases heq : o' = o
    · subst heq
      simp [hself]
    · simp [hrest o' heq, heq]
  have hnew (o' : O) (e : Extent) : ¬owns o' base e := fun ho =>
    h.contract.fresh_of_admits hanswer hsize e (h.holds ho)
  refine ⟨h.contract.alloc hanswer hsize, fun b e => ?_, fun o₁ o₂ b e e' h₁ h₂ => ?_⟩
  · rw [holds_alloc, h.held b e]
    simp only [howns]
    constructor
    · rintro (hb | ⟨o', ho'⟩)
      · exact ⟨o, .inr ⟨rfl, hb⟩⟩
      · exact ⟨o', .inl ho'⟩
    · rintro ⟨o', ho' | ⟨-, hb⟩⟩
      · exact .inr ⟨o', ho'⟩
      · exact .inl hb
  · rcases (howns _ _ _).mp h₁ with h₁ | ⟨ho₁, hb₁, -⟩ <;>
      rcases (howns _ _ _).mp h₂ with h₂ | ⟨ho₂, hb₂, -⟩
    · exact h.unique o₁ o₂ b e e' h₁ h₂
    · exact absurd (hb₂ ▸ h₁) (hnew o₁ e)
    · exact absurd (hb₁ ▸ h₂) (hnew o₂ e')
    · rw [ho₁, ho₂]

/-- An owner gives a region back. -/
theorem RegionInv.dealloc (h : RegionInv os owns) (ho : owns o base extent)
    (hrest : ∀ o' ≠ o, ∀ b e, owns' o' b e ↔ owns o' b e)
    (hself : ∀ b e, owns' o b e ↔ owns o b e ∧ b ≠ base) :
    RegionInv (os.dealloc base extent.size) owns' := by
  have howns (o' : O) (b : ℕ) (e : Extent) : owns' o' b e ↔ owns o' b e ∧ b ≠ base := by
    by_cases heq : o' = o
    · subst heq
      exact hself b e
    · rw [hrest o' heq]
      exact ⟨fun ho' => ⟨ho', h.base_ne ho ho' heq⟩, fun ho' => ho'.1⟩
  obtain ⟨hcontract, hholds⟩ := h.contract.dealloc (h.holds ho)
  refine ⟨hcontract, fun b e => ?_, fun o₁ o₂ b e e' h₁ h₂ =>
    h.unique o₁ o₂ b e e' ((howns _ _ _).mp h₁).1 ((howns _ _ _).mp h₂).1⟩
  rw [hholds b e, h.held b e]
  simp only [howns, exists_and_right]

/-- A region changes owner. -/
theorem RegionInv.transfer (h : RegionInv os owns) (dest : O) (ho : owns o base extent)
    (hdiff : dest ≠ o) (hrest : ∀ o', o' ≠ o → o' ≠ dest → ∀ b e, owns' o' b e ↔ owns o' b e)
    (hself : ∀ b e, owns' o b e ↔ owns o b e ∧ b ≠ base)
    (hdest : ∀ b e, owns' dest b e ↔ owns dest b e ∨ (b = base ∧ e = extent)) :
    RegionInv os owns' := by
  have howns (o' : O) (b : ℕ) (e : Extent) :
      owns' o' b e ↔ (owns o' b e ∧ b ≠ base) ∨ (o' = dest ∧ b = base ∧ e = extent) := by
    by_cases heq : o' = o
    · subst heq
      simp [hself, hdiff.symm]
    · by_cases heq' : o' = dest
      · subst heq'
        rw [hdest]
        refine or_congr ⟨fun ho' => ⟨ho', h.base_ne ho ho' heq⟩, fun ho' => ho'.1⟩ (by simp)
      · simp only [hrest o' heq heq', heq', false_and, or_false]
        exact ⟨fun ho' => ⟨ho', h.base_ne ho ho' heq⟩, fun ho' => ho'.1⟩
  refine ⟨h.contract, fun b e => ?_, fun o₁ o₂ b e e' h₁ h₂ => ?_⟩
  · rw [h.held b e]
    simp only [howns]
    constructor
    · rintro ⟨o', ho'⟩
      by_cases hb : b = base
      · subst hb
        exact ⟨dest, .inr ⟨rfl, rfl, h.extent_eq ho ho'⟩⟩
      · exact ⟨o', .inl ⟨ho', hb⟩⟩
    · rintro ⟨o', ⟨ho', -⟩ | ⟨-, rfl, rfl⟩⟩
      · exact ⟨o', ho'⟩
      · exact ⟨o, ho⟩
  · rcases (howns _ _ _).mp h₁ with ⟨h₁, hne₁⟩ | ⟨ho₁, hb₁, -⟩ <;>
      rcases (howns _ _ _).mp h₂ with ⟨h₂, hne₂⟩ | ⟨ho₂, hb₂, -⟩
    · exact h.unique o₁ o₂ b e e' h₁ h₂
    · exact absurd hb₂ hne₁
    · exact absurd hb₁ hne₂
    · rw [ho₁, ho₂]

end ClMalloc
