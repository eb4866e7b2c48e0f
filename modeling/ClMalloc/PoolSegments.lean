import ClMalloc.PoolSections

/-!
# Registering and releasing a segment

The slow path of `alloc_slab` appends a segment to the table and hands out its first page;
the other pages become uncarved, or clean when another thread installed a carving segment
meanwhile. `dealloc_slab` returns one page and, when it was the last outstanding page of a
segment the cursor is not in, takes the whole segment out of the lists and the table. The
swap-remove renumbers one segment, so the table afterwards is described by the entries that
survive rather than by their positions.
-/

namespace ClMalloc

open Intrusive

variable {T : Type} {st : PoolState} {kind : ℕ → PageKind T}

/-- A segment the page allocator may hand to the pool: aligned, not null, disjoint from the
registered ones. -/
structure FreshSegment (st : PoolState) (base : ℕ) : Prop where
  pos : 0 < base
  aligned : slabSize ∣ base
  disjoint : ∀ i < st.segmentCount,
    st.segments i + segmentSize ≤ base ∨ base + segmentSize ≤ st.segments i

/-- The map after registering a segment: its first page is handed out, the others take one kind. -/
def registerKind (kind : ℕ → PageKind T) (base : ℕ) (tag : T) (rest : PageKind T) (p : ℕ) :
    PageKind T :=
  if p = base then .out tag else if p ∈ segmentPages base then rest else kind p

/-- The pages of a fresh segment are not yet known to the pool. -/
theorem FreshSegment.outside (hbase : FreshSegment st base) (h : PoolInv st kind) {p : ℕ}
    (hp : p ∈ segmentPages base) : kind p = .outside := by
  by_contra hne
  obtain ⟨i, hi, hmem⟩ := (h.registered p).mp hne
  have hrange := (mem_segmentPages hbase.aligned).mp hp
  have hrange' := (mem_segmentPages (h.base_aligned i hi)).mp hmem
  rcases hbase.disjoint i hi with hd | hd <;> omega

/-- Away from the new segment's pages the map is as before. -/
theorem registerKind_of_notMem {base : ℕ} {tag : T} {rest : PageKind T} {p : ℕ}
    (hp : p ∉ segmentPages base) : registerKind kind base tag rest p = kind p := by
  have hne : p ≠ base := fun heq => hp (heq ▸ base_mem_segmentPages base)
  simp [registerKind, hp, hne]

/-- Exactly the first page of the new segment is outstanding. -/
theorem registerKind_countP_new {base : ℕ} {tag : T} {rest : PageKind T}
    (hrest : rest.isOut = false) :
    (segmentPages base).countP (fun p => (registerKind kind base tag rest p).isOut) = 1 := by
  have hflip := countP_eq_succ_of_flip (f := fun _ => false)
    (g := fun p => (registerKind kind base tag rest p).isOut) (segmentPages_nodup base)
    (base_mem_segmentPages base) rfl (by simp [registerKind, PageKind.isOut])
    (fun p hp hne => by simp [registerKind, hne, hp, hrest])
  simpa using hflip

/-- The table with one more segment, whose first page is counted. -/
def PoolState.appendSegment (st : PoolState) (base : ℕ) : PoolState :=
  { st with
    segments := Function.update st.segments st.segmentCount base
    segmentCount := st.segmentCount + 1
    segOutstanding := Function.update st.segOutstanding st.segmentCount 1 }

/-- The new entry is the last one. -/
@[simp] theorem appendSegment_segments_self (st : PoolState) (base : ℕ) :
    (st.appendSegment base).segments st.segmentCount = base :=
  Function.update_self _ _ _

/-- The other entries keep their positions. -/
theorem appendSegment_segments_of_ne {i : ℕ} (base : ℕ) (hi : i ≠ st.segmentCount) :
    (st.appendSegment base).segments i = st.segments i :=
  Function.update_of_ne hi _ _

/-- A page of the new segment is known to the pool, and no other page becomes known. -/
theorem PoolInv.registered_append (h : PoolInv st kind) {base : ℕ} {tag : T} {rest : PageKind T}
    (hin : rest ≠ .outside) (p : ℕ) :
    registerKind kind base tag rest p ≠ .outside ↔
      ∃ i < st.segmentCount + 1, p ∈ segmentPages ((st.appendSegment base).segments i) := by
  by_cases hp : p ∈ segmentPages base
  · have hne : registerKind kind base tag rest p ≠ .outside := by
      unfold registerKind
      split_ifs <;> simp [hin]
    exact iff_of_true hne ⟨st.segmentCount, Nat.lt_succ_self _, by simpa using hp⟩
  · rw [registerKind_of_notMem hp, h.registered p]
    constructor
    · rintro ⟨i, hi, hmem⟩
      exact ⟨i, by omega, by rwa [appendSegment_segments_of_ne base (by omega)]⟩
    · rintro ⟨i, hi, hmem⟩
      by_cases hlast : i = st.segmentCount
      · subst hlast
        exact absurd (by simpa using hmem) hp
      · exact ⟨i, by omega, by rwa [appendSegment_segments_of_ne base hlast] at hmem⟩

/-- The counters after appending: one page of the new segment, the old counts elsewhere. -/
theorem PoolInv.outstanding_append (h : PoolInv st kind) {base : ℕ} (hbase : FreshSegment st base)
    {tag : T} {rest : PageKind T} (hrest : rest.isOut = false) (i : ℕ)
    (hi : i < st.segmentCount + 1) :
    (st.appendSegment base).segOutstanding i =
      (segmentPages ((st.appendSegment base).segments i)).countP
      fun p => (registerKind kind base tag rest p).isOut := by
  by_cases hlast : i = st.segmentCount
  · subst hlast
    rw [appendSegment_segments_self, registerKind_countP_new hrest]
    exact Function.update_self _ _ _
  · have hlt : i < st.segmentCount := by omega
    rw [appendSegment_segments_of_ne base hlast]
    refine (Function.update_of_ne hlast _ _).trans ?_
    rw [h.outstanding i hlt]
    refine (countP_eq_of_agree fun p hp => ?_).symm
    rw [registerKind_of_notMem]
    exact fun hpb => (h.registered p).mpr ⟨i, hlt, hp⟩ (hbase.outside h hpb)

/-- Every entry of the longer table is an old entry or the new segment. -/
theorem appendSegment_cases {base i : ℕ} (hi : i < st.segmentCount + 1) {P : ℕ → Prop}
    (hold : ∀ j < st.segmentCount, j = i → P (st.segments j))
    (hnew : st.segmentCount = i → P base) :
    P ((st.appendSegment base).segments i) := by
  by_cases hlast : i = st.segmentCount
  · subst hlast
    simpa using hnew rfl
  · rw [appendSegment_segments_of_ne base hlast]
    exact hold i (by omega) rfl

/-- The pages after the first are the segment's pages other than its base. -/
theorem mem_tail_segmentPages {base p : ℕ} :
    p ∈ (segmentPages base).tail ↔ p ∈ segmentPages base ∧ p ≠ base := by
  have hcons : segmentPages base = base :: (segmentPages base).tail := by
    simp [segmentPages, pool_sizes.2.2, List.range_eq_range', List.range'_succ]
  have hnodup := segmentPages_nodup base
  rw [hcons, List.nodup_cons] at hnodup
  constructor
  · intro hp
    exact ⟨List.mem_of_mem_tail hp, ne_of_mem_of_not_mem hp hnodup.1⟩
  · rintro ⟨hp, hne⟩
    rw [hcons] at hp
    exact (List.mem_cons.mp hp).resolve_left hne

/-- The pages of a kind after registering a segment: those of that kind before, and its later pages
if they take it. -/
theorem registerKind_eq_iff {base : ℕ} {tag : T} {rest k : PageKind T} {p : ℕ}
    (houtside : ∀ q ∈ segmentPages base, kind q = .outside) (hin : k ≠ .outside)
    (hout : k ≠ .out tag) :
    registerKind kind base tag rest p = k ↔
      (p ∈ (segmentPages base).tail ∧ rest = k) ∨ kind p = k := by
  rw [mem_tail_segmentPages, registerKind]
  by_cases hb : p = base
  · subst hb
    simp [houtside _ (base_mem_segmentPages p), hin.symm, hout.symm]
  · by_cases hp : p ∈ segmentPages base
    · simp [hb, hp, houtside p hp, hin.symm]
    · simp [hb, hp]

/-- The accounting after appending a segment, for a state that files its other pages under one
kind. -/
theorem PoolInv.append (h : PoolInv st kind) {base : ℕ} (hbase : FreshSegment st base) (tag : T)
    (rest : PageKind T) (hrest : rest.isOut = false) (hin : rest ≠ .outside)
    (hnotDirty : rest ≠ .dirty) (hroom : st.segmentCount < maxSegments) (clean : PageFreeList)
    (cursor last idx : ℕ)
    (hclean : ∀ p, p ∈ clean.pages ↔ registerKind kind base tag rest p = .clean)
    (hclean_nodup : clean.pages.Nodup) (hclean_len : clean.len = clean.pages.length)
    (huncarved : ∀ p, (cursor ≤ p ∧ p < last ∧ slabSize ∣ p) ↔
      registerKind kind base tag rest p = .uncarved)
    (hcarving : cursor < last → idx < st.segmentCount + 1 ∧
      (st.appendSegment base).segments idx ≤ cursor ∧
      last = (st.appendSegment base).segments idx + segmentSize ∧ slabSize ∣ cursor) :
    PoolInv { st.appendSegment base with
      cleanList := clean
      segmentCursor := cursor
      segmentEnd := last
      carvingIdx := idx } (registerKind kind base tag rest) where
  count_le := hroom
  base_pos := fun i hi => appendSegment_cases hi (fun j hj _ => h.base_pos j hj) fun _ => hbase.pos
  base_aligned := fun i hi =>
    appendSegment_cases hi (fun j hj _ => h.base_aligned j hj) fun _ => hbase.aligned
  disjoint := fun i hi j hj hne => by
    refine appendSegment_cases hi (P := fun b => b + segmentSize ≤
      (st.appendSegment base).segments j ∨
      (st.appendSegment base).segments j + segmentSize ≤ b) ?_ ?_
    · rintro _ hi' rfl
      refine appendSegment_cases hj (P := fun b => st.segments _ + segmentSize ≤ b ∨
        b + segmentSize ≤ st.segments _) ?_ ?_
      · rintro _ hj' rfl
        exact h.disjoint _ hi' _ hj' hne
      · exact fun _ => hbase.disjoint _ hi'
    · rintro rfl
      refine appendSegment_cases hj (P := fun b => base + segmentSize ≤ b ∨ b + segmentSize ≤ base)
        ?_ ?_
      · exact fun _ hj' _ => (hbase.disjoint _ hj').symm
      · exact fun heq => absurd heq hne
  unused := fun i hi => by
    change st.segmentCount + 1 ≤ i at hi
    change (st.appendSegment base).segments i = 0 ∧
      Function.update st.segOutstanding st.segmentCount 1 i = 0
    rw [appendSegment_segments_of_ne base (by omega), Function.update_of_ne (by omega)]
    exact h.unused i (by omega)
  registered := h.registered_append hin
  dirty := fun p => by
    change p ∈ st.dirtyList.pages ↔ _
    rw [h.dirty p, registerKind_eq_iff (fun _ hq => hbase.outside h hq) (by simp) (by simp)]
    simp [hnotDirty]
  dirty_nodup := h.dirty_nodup
  dirty_len := h.dirty_len
  clean := hclean
  clean_nodup := hclean_nodup
  clean_len := hclean_len
  uncarved := huncarved
  carving := hcarving
  outstanding := h.outstanding_append hbase hrest

/-- Pushing the later pages from the highest down leaves them in address order at the head. -/
theorem pushSegmentSlabs_eq (l : PageFreeList) (base : ℕ) :
    pushSegmentSlabs l base = ⟨(segmentPages base).tail ++ l.pages, l.len + 31⟩ := by
  have hfold (xs : List ℕ) : xs.reverse.foldl (fun l i => l.push (base + i * slabSize)) l =
      ⟨xs.map (fun i => base + i * slabSize) ++ l.pages, l.len + xs.length⟩ := by
    rw [List.foldl_reverse]
    induction xs with
    | nil => rfl
    | cons i rest ih =>
      rw [List.foldr_cons, ih]
      simp [PageFreeList.push, Nat.add_assoc]
  rw [pushSegmentSlabs, hfold]
  simp [segmentPages, pool_sizes.2.2, List.range_eq_range', List.range'_succ]

/-- The slow path either gives the segment back because the table is full, or registers it. -/
theorem allocSlabSlowLocked_spec (h : PoolInv st kind) {base : ℕ} (hbase : FreshSegment st base)
    (tag : T) :
    (maxSegments ≤ st.segmentCount ∧
      ∃ st', allocSlabSlowLocked st base = (st', none) ∧ PoolInv st' kind ∧ SameTable st st') ∨
    ∃ st' rest, allocSlabSlowLocked st base = (st', some base) ∧
      st'.segments = (st.appendSegment base).segments ∧ st'.segmentCount = st.segmentCount + 1 ∧
      PoolInv st' (registerKind kind base tag rest) ∧ rest.isOut = false ∧
      ((st.segmentCursor < st.segmentEnd ∧ st'.segmentCursor = st.segmentCursor ∧
          st'.segmentEnd = st.segmentEnd) ∨
        (st.segmentEnd ≤ st.segmentCursor ∧ st'.segmentCursor = base + slabSize ∧
          st'.segmentEnd = base + segmentSize)) := by
  by_cases hfull : maxSegments ≤ st.segmentCount
  · exact .inl ⟨hfull, _, if_pos hfull, h.withCounters _ _ _, ⟨rfl, rfl, rfl, rfl⟩⟩
  · right
    have hroom : st.segmentCount < maxSegments := not_le.mp hfull
    have houtside {p : ℕ} (hp : p ∈ segmentPages base) : kind p = .outside := hbase.outside h hp
    by_cases hcur : st.segmentCursor < st.segmentEnd
    · obtain ⟨hidx, hlo, hend, hdvd⟩ := h.carving hcur
      have happ := h.append hbase tag .clean rfl (by simp) (by simp) hroom
        (pushSegmentSlabs st.cleanList base) st.segmentCursor st.segmentEnd st.carvingIdx ?_ ?_ ?_
        ?_ ?_
      · exact ⟨_, .clean, (if_neg hfull).trans (if_pos hcur), rfl, rfl,
          happ.withCounters _ _ _, rfl, .inl ⟨hcur, rfl, rfl⟩⟩
      · intro p
        rw [pushSegmentSlabs_eq, List.mem_append, h.clean p,
          registerKind_eq_iff (fun _ => houtside) (by simp) (by simp)]
        simp
      · rw [pushSegmentSlabs_eq]
        refine List.Nodup.append (segmentPages_nodup base).tail h.clean_nodup ?_
        intro p hp hclean
        have := (h.clean p).mp hclean
        rw [houtside (mem_tail_segmentPages.mp hp).1] at this
        cases this
      · rw [pushSegmentSlabs_eq]
        simp only [List.length_append, List.length_tail, segmentPages_length, h.clean_len]
        omega
      · intro p
        rw [h.uncarved p, registerKind_eq_iff (fun _ => houtside) (by simp) (by simp)]
        simp
      · intro _
        rw [appendSegment_segments_of_ne base (by omega)]
        exact ⟨by omega, hlo, hend, hdvd⟩
    · have hexhausted (p : ℕ) : kind p ≠ .uncarved := by
        rw [ne_eq, ← h.uncarved p]
        omega
      have happ := h.append hbase tag .uncarved rfl (by simp) (by simp) hroom
        st.cleanList (base + slabSize) (base + segmentSize) st.segmentCount
          ?_ h.clean_nodup h.clean_len ?_ ?_
      · exact ⟨_, .uncarved, (if_neg hfull).trans (if_neg hcur), rfl, rfl,
          happ.withCounters _ _ _, rfl, .inr ⟨not_lt.mp hcur, rfl, rfl⟩⟩
      · intro p
        rw [h.clean p, registerKind_eq_iff (fun _ => houtside) (by simp) (by simp)]
        simp
      · intro p
        rw [registerKind_eq_iff (fun _ => houtside) (by simp) (by simp), mem_tail_segmentPages,
          mem_segmentPages hbase.aligned]
        have hal := hbase.aligned
        obtain ⟨hs, hg, -⟩ := pool_sizes
        rw [hs] at hal
        simp only [hs, hg, hexhausted p, and_true, or_false]
        omega
      · intro _
        rw [appendSegment_segments_self]
        exact ⟨Nat.lt_succ_self _, Nat.le_add_right _ _, rfl,
          (Nat.dvd_add_right hbase.aligned).mpr dvd_rfl⟩

end ClMalloc
