import Mathlib.Data.List.Nodup
import Mathlib.Logic.Function.Basic

/-!
# Nodes that are in one place each

Every place keeps a list of its nodes. `Placed lists place` says that the lists are without
repetition and agree with one map from nodes to places, so a node is in at most one list,
once. Nodes enter a place, leave it, or pass from one place to another; each move changes the
lists and the map together.
-/

namespace Placement

variable {N T : Type*} {lists : T → List N} {place : N → Option T} {tag tag' : T} {n : N}
  {ns rest : List N}

/-- The list of each place holds, without repetition, the nodes the map puts there. -/
def Placed (lists : T → List N) (place : N → Option T) : Prop :=
  ∀ tag, (∀ n, n ∈ lists tag ↔ place n = some tag) ∧ (lists tag).Nodup

/-- A node is in the list of its place. -/
theorem Placed.mem_iff (h : Placed lists place) : n ∈ lists tag ↔ place n = some tag := (h tag).1 n

/-- A list has no repetition. -/
theorem Placed.nodup (h : Placed lists place) (tag : T) : (lists tag).Nodup := (h tag).2

/-- A node is in the list of at most one place. -/
theorem Placed.unique (h : Placed lists place) (hn : n ∈ lists tag) (hn' : n ∈ lists tag') :
    tag = tag' := by
  have hplace := h.mem_iff.mp hn
  rw [h.mem_iff.mp hn', Option.some.injEq] at hplace
  exact hplace.symm

/-- A node in one list is in no other. -/
theorem Placed.notMem (h : Placed lists place) (hn : n ∈ lists tag) (hne : tag ≠ tag') :
    n ∉ lists tag' :=
  fun hn' => hne (h.unique hn hn')

/-- A node with a place is in exactly one list. -/
theorem Placed.existsUnique (h : Placed lists place) (hn : (place n).isSome = true) :
    ∃! tag, n ∈ lists tag := by
  obtain ⟨tag, htag⟩ := Option.isSome_iff_exists.mp hn
  exact ⟨tag, h.mem_iff.mpr htag, fun other hother => h.unique hother (h.mem_iff.mpr htag)⟩

/-- Two places hold different nodes. -/
theorem Placed.disjoint (h : Placed lists place) (hne : tag ≠ tag') :
    (lists tag).Disjoint (lists tag') :=
  fun _ hn hn' => hne (h.unique hn hn')

variable [DecidableEq N] [DecidableEq T]

/-- The map after the listed nodes went to one place, or away. -/
def relocate (place : N → Option T) (ns : List N) (dest : Option T) : N → Option T :=
  fun n => if n ∈ ns then dest else place n

/-- Nodes without a place enter one. -/
theorem Placed.enter (h : Placed lists place) (tag : T) (hnodup : ns.Nodup)
    (hfree : ∀ n ∈ ns, place n = none) :
    Placed (Function.update lists tag (ns ++ lists tag)) (relocate place ns (some tag)) := by
  have hnew (tg : T) (n : N) (hn : n ∈ ns) : n ∉ lists tg := by
    rw [h.mem_iff, hfree n hn]
    simp
  intro tg
  by_cases htg : tg = tag
  · subst htg
    rw [Function.update_self]
    refine ⟨fun n => ?_, List.nodup_append.mpr ⟨hnodup, h.nodup tg, ?_⟩⟩
    · rw [List.mem_append, h.mem_iff, relocate]
      by_cases hn : n ∈ ns <;> simp [hn]
    · rintro a ha b hb rfl
      exact hnew tg a ha hb
  · rw [Function.update_of_ne htg]
    refine ⟨fun n => ?_, h.nodup tg⟩
    rw [relocate]
    by_cases hn : n ∈ ns
    · simp [hn, hnew tg n hn, Ne.symm htg]
    · simp [hn, h.mem_iff]

/-- Nodes leave their place. -/
theorem Placed.leave (h : Placed lists place) (tag : T) (hns : ∀ n ∈ ns, n ∈ lists tag)
    (hrest : rest.Nodup) (hmem : ∀ n, n ∈ rest ↔ n ∈ lists tag ∧ n ∉ ns) :
    Placed (Function.update lists tag rest) (relocate place ns none) := by
  intro tg
  by_cases htg : tg = tag
  · subst htg
    rw [Function.update_self]
    refine ⟨fun n => ?_, hrest⟩
    rw [hmem, h.mem_iff, relocate]
    by_cases hn : n ∈ ns <;> simp [hn]
  · rw [Function.update_of_ne htg]
    refine ⟨fun n => ?_, h.nodup tg⟩
    rw [relocate]
    by_cases hn : n ∈ ns
    · simp [hn, h.notMem (hns n hn) (Ne.symm htg)]
    · simp [hn, h.mem_iff]

/-- Nodes pass from one place to another. -/
theorem Placed.move (h : Placed lists place) (tag : T) {tag' : T} (hne : tag' ≠ tag)
    (hnodup : ns.Nodup) (hns : ∀ n ∈ ns, n ∈ lists tag) (hrest : rest.Nodup)
    (hmem : ∀ n, n ∈ rest ↔ n ∈ lists tag ∧ n ∉ ns) :
    Placed (Function.update (Function.update lists tag rest) tag' (ns ++ lists tag'))
      (relocate place ns (some tag')) := by
  have hleft := h.leave tag hns hrest hmem
  have hmoved := hleft.enter tag' hnodup fun n hn => by simp [relocate, hn]
  have htwice : relocate (relocate place ns none) ns (some tag') = relocate place ns
      (some tag') := by
    funext n
    by_cases hn : n ∈ ns <;> simp [relocate, hn]
  rwa [Function.update_of_ne hne, htwice] at hmoved

/-- One node leaves its place. -/
theorem Placed.erase (h : Placed lists place) (tag : T) (hn : n ∈ lists tag) :
    Placed (Function.update lists tag ((lists tag).erase n)) (relocate place [n] none) := by
  refine h.leave tag (by simpa using hn) ((h.nodup tag).erase n) fun m => ?_
  rw [(h.nodup tag).mem_erase_iff]
  simp [and_comm]

/-- One node passes from one place to another. -/
theorem Placed.pass (h : Placed lists place) (tag tag' : T) (hne : tag' ≠ tag)
    (hn : n ∈ lists tag) :
    Placed (Function.update (Function.update lists tag ((lists tag).erase n)) tag'
      (n :: lists tag')) (relocate place [n] (some tag')) := by
  refine h.move tag hne (List.nodup_singleton n) (by simpa using hn)
    ((h.nodup tag).erase n) fun m => ?_
  rw [(h.nodup tag).mem_erase_iff]
  simp [and_comm]

/-- All nodes of one place pass to another. -/
theorem Placed.passAll (h : Placed lists place) (tag tag' : T) (hne : tag' ≠ tag) :
    Placed (Function.update (Function.update lists tag []) tag' (lists tag ++ lists tag'))
      (relocate place (lists tag) (some tag')) :=
  h.move tag hne (h.nodup tag) (fun _ hn => hn) List.nodup_nil fun n => by simp

omit [DecidableEq T] in
/-- Nodes that pass from one place to another keep having one. -/
theorem Placed.isSome_relocate (h : Placed lists place) (tag : T) (hns : ∀ n ∈ ns, n ∈ lists tag)
    (dest : T) (n : N) : (relocate place ns (some dest) n).isSome = (place n).isSome := by
  by_cases hn : n ∈ ns
  · simp [relocate, hn, h.mem_iff.mp (hns n hn)]
  · simp [relocate, hn]

/-- The lists after one node passed from a place to another. -/
def transfer (lists : T → List N) (src dst : T) (n : N) : T → List N :=
  Function.update (Function.update lists src ((lists src).erase n)) dst (n :: lists dst)

variable {src dst : T}

/-- A list that takes no part in the transfer. -/
theorem transfer_of_ne (hsrc : tag ≠ src) (hdst : tag ≠ dst) :
    transfer lists src dst n tag = lists tag := by
  simp [transfer, hsrc, hdst]

/-- The destination has the node on top. -/
theorem transfer_dst : transfer lists src dst n dst = n :: lists dst := by simp [transfer]

/-- The source has lost the node. -/
theorem transfer_src (hne : dst ≠ src) : transfer lists src dst n src = (lists src).erase n := by
  simp [transfer, hne.symm]

/-- A node in a list after the transfer was there before, or is the one that came. -/
theorem of_mem_transfer {m : N} (hm : m ∈ transfer lists src dst n tag) :
    (tag = dst ∧ m = n) ∨ m ∈ lists tag := by
  unfold transfer at hm
  by_cases hdst : tag = dst
  · subst hdst
    rw [Function.update_self] at hm
    exact (List.mem_cons.mp hm).imp (fun heq => ⟨rfl, heq⟩) id
  · rw [Function.update_of_ne hdst] at hm
    by_cases hsrc : tag = src
    · subst hsrc
      rw [Function.update_self] at hm
      exact .inr (List.mem_of_mem_erase hm)
    · rw [Function.update_of_ne hsrc] at hm
      exact .inr hm

/-- No node is in two lists, or twice in one. -/
structure Separate (lists : T → List N) : Prop where
  nodup : ∀ tag, (lists tag).Nodup
  disjoint : ∀ tag tag', tag ≠ tag' → (lists tag).Disjoint (lists tag')

omit [DecidableEq N] [DecidableEq T] in
/-- Placed lists are separate. -/
theorem Placed.separate (h : Placed lists place) : Separate lists where
  nodup := h.nodup
  disjoint := fun _ _ hne => h.disjoint hne

omit [DecidableEq N] [DecidableEq T] in
/-- A node of separate lists is in one of them. -/
theorem Separate.unique (h : Separate lists) (hn : n ∈ lists tag) (hn' : n ∈ lists tag') :
    tag = tag' := by
  by_contra hne
  exact h.disjoint tag tag' hne hn hn'

open Classical in
omit [DecidableEq N] [DecidableEq T] in
/-- Separate lists are placed by the list each node is in. -/
theorem Separate.exists_placed (h : Separate lists) : ∃ place, Placed lists place := by
  refine ⟨fun n => if hn : ∃ tag, n ∈ lists tag then some hn.choose else none,
    fun tag => ⟨fun n => ?_, h.nodup tag⟩⟩
  dsimp only
  constructor
  · intro hn
    have hex : ∃ tag, n ∈ lists tag := ⟨tag, hn⟩
    rw [dif_pos hex, h.unique hex.choose_spec hn]
  · intro hplace
    split at hplace
    case isTrue hex =>
      cases hplace
      exact hex.choose_spec
    case isFalse => cases hplace

/-- A transfer keeps lists separate. -/
theorem Separate.transfer (h : Separate lists) (hne : dst ≠ src) (hn : n ∈ lists src) :
    Separate (transfer lists src dst n) := by
  obtain ⟨place, hplace⟩ := h.exists_placed
  exact (hplace.pass src dst hne hn).separate

/-- A transfer keeps the nodes. -/
theorem Separate.mem_transfer (h : Separate lists) (hne : dst ≠ src) (hn : n ∈ lists src) {m : N} :
    (∃ tag, m ∈ Placement.transfer lists src dst n tag) ↔ ∃ tag, m ∈ lists tag := by
  obtain ⟨place, hplace⟩ := h.exists_placed
  have hplace' := hplace.pass src dst hne hn
  calc (∃ tag, m ∈ Placement.transfer lists src dst n tag)
      ↔ (relocate place [n] (some dst) m).isSome = true := by
        rw [Option.isSome_iff_exists]
        exact exists_congr fun tag => hplace'.mem_iff
    _ ↔ (place m).isSome = true := by
      rw [hplace.isSome_relocate src (List.forall_mem_singleton.mpr hn)]
    _ ↔ ∃ tag, m ∈ lists tag := by
        rw [Option.isSome_iff_exists]
        exact exists_congr fun tag => hplace.mem_iff.symm

/-- A node of no list, put in one, keeps them separate. -/
theorem Separate.cons (h : Separate lists) (hn : ∀ tag, n ∉ lists tag) (tag : T) :
    Separate (Function.update lists tag (n :: lists tag)) := by
  obtain ⟨place, hplace⟩ := h.exists_placed
  have hfree : place n = none := by
    by_contra hsome
    obtain ⟨other, hother⟩ := Option.ne_none_iff_exists'.mp hsome
    exact hn other (hplace.mem_iff.mpr hother)
  exact (hplace.enter tag (List.nodup_singleton n) (List.forall_mem_singleton.mpr hfree)).separate

/-- Erasing a node of one list from all of them changes that list only. -/
theorem Separate.erase_eq (h : Separate lists) (hn : n ∈ lists tag) :
    (fun other => (lists other).erase n) = Function.update lists tag ((lists tag).erase n) := by
  funext other
  by_cases heq : other = tag
  · subst heq
    rw [Function.update_self]
  · rw [Function.update_of_ne heq]
    apply List.erase_of_not_mem
    exact fun hother => heq (h.unique hother hn)

/-- Erasing a node keeps lists separate. -/
theorem Separate.erase (h : Separate lists) (hn : n ∈ lists tag) :
    Separate (Function.update lists tag ((lists tag).erase n)) := by
  obtain ⟨place, hplace⟩ := h.exists_placed
  exact (hplace.erase tag hn).separate

/-- The nodes of one list are divided between the lists. -/
structure Divided (all : List N) (lists : T → List N) : Prop where
  separate : Separate lists
  mem_iff : ∀ n, n ∈ all ↔ ∃ tag, n ∈ lists tag

omit [DecidableEq N] [DecidableEq T] in
/-- No nodes are divided between empty lists. -/
theorem divided_nil : Divided ([] : List N) fun _ : T => [] :=
  ⟨⟨fun _ => List.nodup_nil, fun _ _ _ => List.disjoint_nil_left _⟩, by simp⟩

variable {all mine : List N}

omit [DecidableEq N] in
/-- A node that is in one of the lists is in no other. -/
theorem Divided.notMem (h : Divided all (Function.update lists tag mine)) (hn : n ∈ mine)
    (hne : tag' ≠ tag) :
    n ∉ lists tag' := by
  intro hin
  have hmine : n ∈ Function.update lists tag mine tag := by rwa [Function.update_self]
  have hother : n ∈ Function.update lists tag mine tag' := by rwa [Function.update_of_ne hne]
  exact hne (h.separate.unique hother hmine)

omit [DecidableEq N] in
/-- What one of the lists holds is among all. -/
theorem Divided.mem_all (h : Divided all (Function.update lists tag mine)) (hn : n ∈ mine) :
    n ∈ all :=
  (h.mem_iff n).mpr ⟨tag, by rwa [Function.update_self]⟩

omit [DecidableEq N] in
/-- One of the lists is without repetition. -/
theorem Divided.nodup (h : Divided all (Function.update lists tag mine)) : mine.Nodup := by
  have hnodup := h.separate.nodup tag
  rwa [Function.update_self] at hnodup

omit [DecidableEq N] in
/-- A list is exchanged for one whose new nodes were in none. -/
theorem Divided.replace {all' mine' : List N} (h : Divided all (Function.update lists tag mine))
    (hnodup : mine'.Nodup) (hnew : ∀ n ∈ mine', n ∈ mine ∨ n ∉ all)
    (hall : ∀ n, n ∈ all' ↔ n ∈ mine' ∨ (n ∈ all ∧ n ∉ mine)) :
    Divided all' (Function.update lists tag mine') := by
  have hothers (tag' : T) (hne : tag' ≠ tag) (n : N) (hn : n ∈ lists tag') :
      n ∈ all ∧ n ∉ mine := by
    refine ⟨(h.mem_iff n).mpr ⟨tag', by rwa [Function.update_of_ne hne]⟩, fun hin => ?_⟩
    exact h.notMem hin hne hn
  have hapart (tag' : T) (hne : tag' ≠ tag) : (lists tag').Disjoint mine' := by
    intro n hn hin
    obtain ⟨hold, hnot⟩ := hothers tag' hne n hn
    rcases hnew n hin with hmine | hout
    · exact hnot hmine
    · exact hout hold
  refine ⟨⟨fun tag' => ?_, fun tag₁ tag₂ hne => ?_⟩, fun n => ?_⟩
  · by_cases htag : tag' = tag
    · subst htag
      rwa [Function.update_self]
    · have hold := h.separate.nodup tag'
      rwa [Function.update_of_ne htag] at hold ⊢
  · by_cases htag₁ : tag₁ = tag
    · subst htag₁
      rw [Function.update_self, Function.update_of_ne hne.symm]
      exact List.disjoint_comm.mp (hapart tag₂ hne.symm)
    · by_cases htag₂ : tag₂ = tag
      · subst htag₂
        rw [Function.update_of_ne htag₁, Function.update_self]
        exact hapart tag₁ htag₁
      · have hold := h.separate.disjoint tag₁ tag₂ hne
        rw [Function.update_of_ne htag₁, Function.update_of_ne htag₂] at hold
        rwa [Function.update_of_ne htag₁, Function.update_of_ne htag₂]
  · rw [hall, h.mem_iff, Function.exists_update_iff lists fun _ l => n ∈ l,
      Function.exists_update_iff lists fun _ l => n ∈ l]
    constructor
    · rintro (hn | ⟨hn | hn, hnot⟩)
      · exact .inl hn
      · exact absurd hn hnot
      · exact .inr hn
    · rintro (hn | ⟨tag', hne, hn⟩)
      · exact .inl hn
      · exact .inr ⟨.inr ⟨tag', hne, hn⟩, (hothers tag' hne n hn).2⟩

/-- New nodes join one of the lists. -/
theorem Divided.append (h : Divided all (Function.update lists tag mine)) (hns : ns.Nodup)
    (hnew : ns.Disjoint all) :
    Divided (ns ++ all) (Function.update lists tag (ns ++ mine)) := by
  have hapart : ∀ a ∈ ns, ∀ b ∈ mine, a ≠ b := by
    rintro a ha b hb rfl
    exact hnew ha (h.mem_all hb)
  refine h.replace (List.nodup_append.mpr ⟨hns, h.nodup, hapart⟩) (fun n hn => ?_) fun n => ?_
  · rcases List.mem_append.mp hn with hn | hn
    · exact .inr fun hin => hnew hn hin
    · exact .inl hn
  · rw [List.mem_append, List.mem_append]
    by_cases hmine : n ∈ mine
    · simp [hmine, h.mem_all hmine]
    · simp [hmine]

/-- A new node joins one of the lists. -/
theorem Divided.cons (h : Divided all (Function.update lists tag mine)) (hnew : n ∉ all) :
    Divided (n :: all) (Function.update lists tag (n :: mine)) :=
  h.append (List.nodup_singleton n) (List.singleton_disjoint.mpr hnew)

/-- A node leaves its list. -/
theorem Divided.erase (h : Divided all (Function.update lists tag mine)) (hall : all.Nodup)
    (hn : n ∈ mine) :
    Divided (all.erase n) (Function.update lists tag (mine.erase n)) := by
  refine h.replace (h.nodup.erase n) (fun m hm => .inl (List.mem_of_mem_erase hm)) fun m => ?_
  rw [hall.mem_erase_iff, h.nodup.mem_erase_iff]
  by_cases hmine : m ∈ mine
  · simp [hmine, h.mem_all hmine]
  · have hne : m ≠ n := by
      rintro rfl
      exact hmine hn
    simp [hmine, hne]

/-- A node that passes from one list to another leaves the nodes divided. -/
theorem Divided.transfer (h : Divided all lists) (hne : dst ≠ src) (hn : n ∈ lists src) :
    Divided all (transfer lists src dst n) :=
  ⟨h.separate.transfer hne hn, fun m => (h.mem_iff m).trans (h.separate.mem_transfer hne hn).symm⟩

end Placement
