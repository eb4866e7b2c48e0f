import ClMalloc.MmapContract

/-!
# What the pool does to memory

Two facts about the bytes behind the pool on the mmap backend. A byte that somebody has is
changed by writes of a holder only: purging, mapping, unmapping and the links of the free
lists touch other bytes. And the bytes that nobody wrote since they were mapped or purged are
zero: those of the uncarved pages, of clean pages but for their link, of the pages in a purge
buffer that are done, and of a region on its way to its owner. Purging works on whole slab
pages, so both need the page size to divide the size of a slab.
-/

namespace ClMalloc

open Transition

/-- The region a thread has just got from the page allocator. -/
def PoolCall.fresh : PoolCall → Option (ℕ × Extent)
  | .mapped base => some (base, segmentExtent)
  | .largeMapped base size => some (base, ⟨size, .large⟩)
  | _ => none

/-- The byte was not written since it was mapped or purged. -/
inductive PagePool.Clear (s : PagePool) (p : ℕ) : Prop
  | uncarved (hlo : s.core.pool.segmentCursor ≤ p) (hhi : p < s.core.pool.segmentEnd)
  | clean (hpage : slabMask p ∈ s.core.pool.cleanList.pages) (hlink : 8 ≤ p % slabSize)
  | purged {t : ℕ} {todo buf : List ℕ} (hcall : s.core.call t = .purged todo buf)
      (hpage : slabMask p ∈ buf)
    (hdone : slabMask p ∉ todo)
  | fresh {t base : ℕ} {extent : Extent} (hcall : (s.core.call t).fresh = some (base, extent))
      (hlo : base ≤ p)
    (hhi : p < base + extent.size)

section Places

variable {X : Type} {c : PoolCore} {extra : X → List ℕ} {kind : ℕ → PageKind (Tag X)} {p q : ℕ}

/-- The page of a byte at an offset in an aligned page. -/
theorem slabMask_add {page i : ℕ} (hpage : slabSize ∣ page) (hi : i < slabSize) :
    slabMask (page + i) = page := by
  unfold slabMask slabSize at *
  omega

/-- A registered page is aligned. -/
theorem CoreInv.aligned_page (h : CoreInv c extra kind) (hkind : kind q ≠ .outside) :
    slabSize ∣ q := by
  obtain ⟨i, hi, hmem⟩ := h.pool.exists_segment hkind
  exact ((mem_segmentPages (h.pool.base_aligned i hi)).mp hmem).2.2

/-- A byte of a registered page lies in a segment of the table. -/
theorem CoreInv.exists_table (h : CoreInv c extra kind) (hkind : kind (slabMask p) ≠ .outside) :
    ∃ base, c.Owns .table base segmentExtent ∧ base ≤ p ∧ p < base + segmentExtent.size := by
  obtain ⟨i, hi, hmem⟩ := h.pool.exists_segment hkind
  have hdvd := h.pool.base_aligned i hi
  obtain ⟨hlo, hhi, hpage⟩ := (mem_segmentPages hdvd).mp hmem
  have hmask := slabMask_le p
  refine ⟨_, ⟨rfl, i, hi, rfl⟩, by omega, ?_⟩
  change p < c.pool.segments i + segmentSize
  unfold segmentSize slabSize at *
  omega

/-- A byte has one owner's region. -/
theorem CoreInv.owner_unique (h : CoreInv c extra kind) {o o' : RegionOwner} {b b' : ℕ}
    {e e' : Extent} (ho : c.Owns o b e) (ho' : c.Owns o' b' e') (hlo : b ≤ p) (hhi : p < b + e.size)
    (hlo' : b' ≤ p) (hhi' : p < b' + e'.size) : o = o' := by
  by_contra hne
  rcases h.regions.disjoint ho ho' hne with hd | hd <;> omega

/-- A byte of a thread's or a caller's region is on no registered page. -/
theorem CoreInv.kind_of_owns (h : CoreInv c extra kind) {o : RegionOwner} {b : ℕ} {e : Extent}
    (ho : c.Owns o b e) (hne : o ≠ .table) (hlo : b ≤ p) (hhi : p < b + e.size) :
    kind (slabMask p) = .outside := by
  by_contra hkind
  obtain ⟨base, htable, hlo', hhi'⟩ := h.exists_table hkind
  exact hne (h.owner_unique ho htable hlo hhi hlo' hhi')

/-- The uncarved bytes are those of the uncarved pages. -/
theorem PoolInv.uncarved_iff {T : Type} {st : PoolState} {kind : ℕ → PageKind T}
    (h : PoolInv st kind) :
    (st.segmentCursor ≤ p ∧ p < st.segmentEnd) ↔ kind (slabMask p) = .uncarved := by
  rw [← h.uncarved]
  have hmask : slabSize ∣ slabMask p := by
    unfold slabMask slabSize
    omega
  have hle := slabMask_le p
  constructor
  · intro ⟨hlo, hhi⟩
    obtain ⟨-, -, -, hdvd⟩ := h.carving (by omega)
    refine ⟨?_, by omega, hmask⟩
    unfold slabSize at *
    omega
  · rintro ⟨hlo, hhi, -⟩
    obtain ⟨hidx, -, hend, -⟩ := h.carving (by omega)
    have hdvd := h.base_aligned _ hidx
    refine ⟨by omega, ?_⟩
    unfold segmentSize slabSize at *
    omega

/-- A thread owns the region it has just got. -/
theorem PoolCore.owns_fresh {t base : ℕ} {extent : Extent}
    (hcall : (c.call t).fresh = some (base, extent)) :
    c.Owns (.thread t) base extent := by
  change (c.call t).region = some (base, extent)
  cases hk : c.call t <;> rw [hk] at hcall <;> first | exact hcall | cases hcall

end Places

section Clear

variable {s s' : PagePool} {kind : ℕ → PageKind (Tag Place)} {p t : ℕ} {h : Holder}

/-- A holder's page is out under a tag that is not a purge buffer, or the byte is in a large region
in use. -/
theorem PagePoolInv.has_cases (hinv : PagePoolInv s kind) (hhas : s.Has h p) :
    (∃ tag, kind (slabMask p) = .out tag ∧ ∀ t, tag ≠ .buffer t) ∨
      ∃ b e, s.core.Owns .caller b e ∧ b ≤ p ∧ p < b + e.size := by
  have hkeyed (tag : Tag Place) := (hinv.core.keyed tag).1 (slabMask p)
  cases h with
  | thread t => exact .inl ⟨.owned t, (hkeyed (.owned t)).mp hhas, by simp⟩
  | cached => exact .inl ⟨.other .cached, (hkeyed (.other .cached)).mp hhas, by simp⟩
  | abandoned i =>
    exact .inl ⟨.other (.abandoned i), (hkeyed (.other (.abandoned i))).mp hhas, by simp⟩
  | caller base size => exact .inr ⟨base, ⟨size, .large⟩, ⟨rfl, hhas.1⟩, hhas.2⟩

/-- Where a clear byte is. -/
theorem PagePoolInv.clear_cases (hinv : PagePoolInv s kind) (hclear : s.Clear p) :
    kind (slabMask p) = .uncarved ∨ (kind (slabMask p) = .clean ∧ 8 ≤ p % slabSize) ∨
      (∃ t, kind (slabMask p) = .out (.buffer t)) ∨
      ∃ t b e, s.core.Owns (.thread t) b e ∧ b ≤ p ∧ p < b + e.size := by
  cases hclear with
  | uncarved hlo hhi => exact .inl (hinv.core.pool.uncarved_iff.mp ⟨hlo, hhi⟩)
  | clean hpage hlink => exact .inr (.inl ⟨(hinv.core.pool.clean _).mp hpage, hlink⟩)
  | @purged t todo buf hcall hpage hdone =>
    refine .inr (.inr (.inl ⟨t, ((hinv.core.keyed (.buffer t)).1 _).mp ?_⟩))
    simpa [PoolCore.holder, hcall, PoolCall.buffer] using hpage
  | fresh hcall hlo hhi => exact .inr (.inr (.inr ⟨_, _, _, PoolCore.owns_fresh hcall, hlo, hhi⟩))

/-- Nobody has a clear byte. -/
theorem PagePoolInv.not_clear_of_has (hinv : PagePoolInv s kind) (hhas : s.Has h p) :
    ¬s.Clear p := by
  intro hclear
  rcases hinv.has_cases hhas with ⟨tag, htag, hbuffer⟩ | ⟨b, e, hcaller, hlo, hhi⟩
  · rcases hinv.clear_cases hclear with hk | ⟨hk, -⟩ | ⟨t, hk⟩ | ⟨t, b, e, howns, hlo, hhi⟩
    · simp [htag] at hk
    · simp [htag] at hk
    · rw [htag, PageKind.out.injEq] at hk
      exact hbuffer t hk
    · have houtside := hinv.core.kind_of_owns howns (by simp) hlo hhi
      simp [htag] at houtside
  · have houtside := hinv.core.kind_of_owns hcaller (by simp) hlo hhi
    rcases hinv.clear_cases hclear with hk | ⟨hk, -⟩ | ⟨t, hk⟩ | ⟨t, b', e', howns, hlo', hhi'⟩
    · simp [houtside] at hk
    · simp [houtside] at hk
    · simp [houtside] at hk
    · have heq := hinv.core.owner_unique hcaller howns hlo hhi hlo' hhi'
      cases heq

/-- The kind of a listed page. -/
theorem PagePoolInv.listed_kind (hinv : PagePoolInv s kind) {page : ℕ} (hlisted : s.Listed page) :
    kind page = .dirty ∨ kind page = .clean :=
  hlisted.imp (hinv.core.pool.dirty page).mp (hinv.core.pool.clean page).mp

/-- The page of a link. -/
theorem PagePoolInv.slabMask_link (hinv : PagePoolInv s kind) {page i : ℕ} (hlisted : s.Listed page)
    (hi : i < 8) :
    slabMask (page + i) = page := by
  apply slabMask_add _ (hi.trans (by decide))
  apply hinv.core.aligned_page
  rcases hinv.listed_kind hlisted with hk | hk <;> simp [hk]

/-- Nobody has the byte of a link. -/
theorem PagePoolInv.not_has_link (hinv : PagePoolInv s kind) {page i : ℕ} (hlisted : s.Listed page)
    (hi : i < 8) :
    ¬s.Has h (page + i) := by
  intro hhas
  have hmask := hinv.slabMask_link hlisted hi
  rcases hinv.has_cases hhas with ⟨tag, htag, -⟩ | ⟨b, e, hcaller, hlo, hhi⟩
  · rw [hmask] at htag
    rcases hinv.listed_kind hlisted with hk | hk <;> simp [hk] at htag
  · have houtside := hinv.core.kind_of_owns hcaller (by simp) hlo hhi
    rw [hmask] at houtside
    rcases hinv.listed_kind hlisted with hk | hk <;> simp [hk] at houtside

/-- The byte of a link is not clear. -/
theorem PagePoolInv.not_clear_link (hinv : PagePoolInv s kind) {page i : ℕ}
    (hlisted : s.Listed page) (hi : i < 8) :
    ¬s.Clear (page + i) := by
  intro hclear
  have hmask := hinv.slabMask_link hlisted hi
  have hoffset : (page + i) % slabSize = i := by
    unfold slabMask at hmask
    have hlt : i < slabSize := hi.trans (by decide)
    have hle := Nat.mod_le (page + i) slabSize
    omega
  have hkind := hinv.listed_kind hlisted
  rcases hinv.clear_cases hclear with hk | ⟨-, hlink⟩ | ⟨t, hk⟩ | ⟨t, b, e, howns, hlo, hhi⟩
  · rw [hmask] at hk
    rcases hkind with hkind | hkind <;> simp [hk] at hkind
  · omega
  · rw [hmask] at hk
    rcases hkind with hkind | hkind <;> simp [hk] at hkind
  · have houtside := hinv.core.kind_of_owns howns (by simp) hlo hhi
    rw [hmask] at houtside
    rcases hkind with hkind | hkind <;> simp [houtside] at hkind

/-- Nobody has a byte of a page in a purge buffer. -/
theorem PagePoolInv.slabMask_ne_of_buffer (hinv : PagePoolInv s kind) (hhas : s.Has h p) {page : ℕ}
    (hpage : page ∈ (s.core.call t).buffer) : slabMask p ≠ page := by
  rintro rfl
  have hkind := ((hinv.core.keyed (.buffer t)).1 (slabMask p)).mp hpage
  rcases hinv.has_cases hhas with ⟨tag, htag, hbuffer⟩ | ⟨b, e, hcaller, hlo, hhi⟩
  · rw [hkind, PageKind.out.injEq] at htag
    exact hbuffer t htag.symm
  · simp [hinv.core.kind_of_owns hcaller (by simp) hlo hhi] at hkind

/-- What a byte in a registered page or in somebody's region is in. -/
theorem CoreInv.exists_held {c : PoolCore} {extra : Place → List ℕ} (hinv : CoreInv c extra kind)
    (hin : kind (slabMask p) ≠ .outside ∨ ∃ o b e, c.Owns o b e ∧ b ≤ p ∧ p < b + e.size) :
    ∃ b e, c.os.Holds b e ∧ b ≤ p ∧ p < b + e.size := by
  rcases hin with hkind | ⟨o, b, e, howns, hbounds⟩
  · obtain ⟨base, htable, hbounds⟩ := hinv.exists_table hkind
    exact ⟨base, segmentExtent, hinv.regions.holds htable, hbounds⟩
  · exact ⟨b, e, hinv.regions.holds howns, hbounds⟩

/-- What somebody has is in a region held. -/
theorem PagePoolInv.held_of_has (hinv : PagePoolInv s kind) (hhas : s.Has h p) :
    ∃ b e, s.core.os.Holds b e ∧ b ≤ p ∧ p < b + e.size := by
  apply hinv.core.exists_held
  rcases hinv.has_cases hhas with ⟨tag, htag, -⟩ | ⟨b, e, hcaller, hbounds⟩
  · exact .inl (by simp [htag])
  · exact .inr ⟨_, b, e, hcaller, hbounds⟩

/-- A clear byte is in a region held. -/
theorem PagePoolInv.held_of_clear (hinv : PagePoolInv s kind) (hclear : s.Clear p) :
    ∃ b e, s.core.os.Holds b e ∧ b ≤ p ∧ p < b + e.size := by
  apply hinv.core.exists_held
  rcases hinv.clear_cases hclear with hk | ⟨hk, -⟩ | ⟨t, hk⟩ | ⟨t, b, e, howns, hbounds⟩
  · exact .inl (by simp [hk])
  · exact .inl (by simp [hk])
  · exact .inl (by simp [hk])
  · exact .inr ⟨_, b, e, howns, hbounds⟩

end Clear

section ClearSteps

variable {X : Type} {c c' : PoolCore} {extra : X → List ℕ} {kind : ℕ → PageKind (Tag X)}
  {pool : PoolState} {l : PoolLabel} {p q t : ℕ}

/-- A critical section leaves a byte uncarved, or it comes from a segment that a thread has just
got. -/
theorem CoreInv.section_uncarved (h : CoreInv c extra kind) (hsection : PoolSection c l pool)
    (hlo : pool.segmentCursor ≤ p) (hhi : p < pool.segmentEnd) :
    (c.pool.segmentCursor ≤ p ∧ p < c.pool.segmentEnd) ∨
      ∃ t base, c.call t = .mapped base ∧ base ≤ p ∧ p < base + segmentSize := by
  have hsame {st' : PoolState} (hcursor : c.pool.segmentCursor ≤ st'.segmentCursor)
      (hend : st'.segmentEnd = c.pool.segmentEnd) (heq : st' = pool) :
      c.pool.segmentCursor ≤ p ∧ p < c.pool.segmentEnd := by
    subst heq
    omega
  cases hsection with
  | @allocSlab t pool result hrun =>
    rcases allocSlabLocked_spec h.pool (.owned t) with ⟨slab, st', heq, -, -, -, htable⟩ |
      ⟨heq, -⟩ <;>
      obtain ⟨rfl, -⟩ := Prod.mk.injEq _ _ _ _ ▸ Option.some.inj (heq.symm.trans hrun)
    · rcases htable with htable | ⟨-, -, -, -, hend, hcursor⟩
      · exact .inl (hsame htable.cursor.ge htable.rangeEnd rfl)
      · exact .inl (hsame (by omega) hend rfl)
    · exact .inl ⟨hlo, hhi⟩
  | @allocSlabSlow t base hcall =>
    rcases allocSlabSlowLocked_spec h.pool (h.fresh hcall) (.owned t) with
      ⟨-, st', heq, -, htable⟩ | ⟨st', rest, heq, -, -, -, -, hcursor⟩
    · exact .inl (hsame htable.cursor.ge htable.rangeEnd (congrArg Prod.fst heq).symm)
    · rcases hcursor with ⟨-, hcursor, hend⟩ | ⟨-, hcursor, hend⟩
      · exact .inl (hsame hcursor.ge hend (congrArg Prod.fst heq).symm)
      · rw [heq, hcursor] at hlo
        rw [heq, hend] at hhi
        exact .inr ⟨t, base, hcall, (Nat.le_add_right base slabSize).trans hlo, hhi⟩
  | @deallocSlab t page pool outcome hp hrun =>
    obtain ⟨seg, st', -, -, ⟨heq, -, hremoved, -, -⟩ | ⟨outcome', heq, -, -, htable, -⟩⟩ :=
      deallocSlabLocked_spec h.pool (((h.keyed (.owned t)).1 page).mp hp) <;>
      obtain ⟨rfl, -⟩ := Prod.mk.injEq _ _ _ _ ▸ Option.some.inj (heq.symm.trans hrun)
    · exact .inl (hsame hremoved.cursor.ge hremoved.rangeEnd rfl)
    · exact .inl (hsame htable.cursor.ge htable.rangeEnd rfl)
  | @purgeTake t pool buf hrun =>
    obtain ⟨st', taken, heq, -, -, -, htable⟩ := purgeTakeLocked_spec h.pool (.buffer t)
    obtain ⟨rfl, -⟩ := Prod.mk.injEq _ _ _ _ ▸ Option.some.inj (heq.symm.trans hrun)
    exact .inl (hsame htable.cursor.ge htable.rangeEnd rfl)
  | @purgeReturn t pool buf hcall hrun =>
    obtain ⟨st', heq, -, htable⟩ := purgeReturnLocked_spec h.pool buf (h.buffer hcall).1
      (h.buffer hcall).2
    exact .inl (hsame htable.cursor.ge htable.rangeEnd (Option.some.inj (heq.symm.trans hrun)))
  | count bytes => exact .inl ⟨hlo, hhi⟩

/-- A critical section leaves a page on the clean list, or takes it from a segment that a thread has
just got or from a purge buffer that is done. -/
theorem CoreInv.section_clean (h : CoreInv c extra kind) (hsection : PoolSection c l pool)
    (hclean : q ∈ pool.cleanList.pages) :
    q ∈ c.pool.cleanList.pages ∨ (∃ t base, c.call t = .mapped base ∧ q ∈ segmentPages base) ∨
      ∃ t buf, c.call t = .purged [] buf ∧ q ∈ buf := by
  have hkept {T : Type} {kind : ℕ → PageKind T} {kind' : ℕ → PageKind T}
      {st' : PoolState} (hpool : PoolInv c.pool kind)
      (hpool' : PoolInv st' kind') (hkind : kind' q = .clean → kind q = .clean) (heq : st' = pool) :
      q ∈ c.pool.cleanList.pages := by
    subst heq
    exact (hpool.clean q).mpr (hkind ((hpool'.clean q).mp hclean))
  cases hsection with
  | @allocSlab t pool result hrun =>
    rcases allocSlabLocked_spec h.pool (.owned t) with ⟨slab, st', heq, -, hpool', -⟩ | ⟨heq, -⟩ <;>
      obtain ⟨rfl, -⟩ := Prod.mk.injEq _ _ _ _ ▸ Option.some.inj (heq.symm.trans hrun)
    · refine .inl (hkept h.pool hpool' (fun hk => ?_) rfl)
      by_cases hq : q = slab
      · simp [hq] at hk
      · rwa [Function.update_of_ne hq] at hk
    · exact .inl hclean
  | @allocSlabSlow t base hcall =>
    rcases allocSlabSlowLocked_spec h.pool (h.fresh hcall) (.owned t) with
      ⟨-, st', heq, hpool', -⟩ | ⟨st', rest, heq, -, -, hpool', -⟩ <;> rw [heq] at hclean
    · exact .inl ((h.pool.clean q).mpr ((hpool'.clean q).mp hclean))
    · have hk := (hpool'.clean q).mp hclean
      by_cases hq : q ∈ segmentPages base
      · exact .inr (.inl ⟨t, base, hcall, hq⟩)
      · have hne : q ≠ base := fun heq => hq (heq ▸ base_mem_segmentPages base)
        rw [registerKind, if_neg hne, if_neg hq] at hk
        exact .inl ((h.pool.clean q).mpr hk)
  | @deallocSlab t page pool outcome hp hrun =>
    obtain ⟨seg, st', -, -, ⟨heq, hpool', -⟩ | ⟨outcome', heq, -, hpool', -⟩⟩ :=
      deallocSlabLocked_spec h.pool (((h.keyed (.owned t)).1 page).mp hp) <;>
      obtain ⟨rfl, -⟩ := Prod.mk.injEq _ _ _ _ ▸ Option.some.inj (heq.symm.trans hrun)
    · refine .inl (hkept h.pool hpool' (fun hk => ?_) rfl)
      unfold releaseKind at hk
      split at hk
      · cases hk
      · exact hk
    · refine .inl (hkept h.pool hpool' (fun hk => ?_) rfl)
      by_cases hq : q = page
      · simp [hq] at hk
      · rwa [Function.update_of_ne hq] at hk
  | @purgeTake t pool buf hrun =>
    obtain ⟨st', taken, heq, -, -, hpool', -⟩ := purgeTakeLocked_spec h.pool (.buffer t)
    obtain ⟨rfl, -⟩ := Prod.mk.injEq _ _ _ _ ▸ Option.some.inj (heq.symm.trans hrun)
    refine .inl (hkept h.pool hpool' (fun hk => ?_) rfl)
    unfold setKind at hk
    split at hk
    · cases hk
    · exact hk
  | @purgeReturn t pool buf hcall hrun =>
    obtain ⟨st', heq, hpool', -⟩ := purgeReturnLocked_spec h.pool buf (h.buffer hcall).1
      (h.buffer hcall).2
    by_cases hq : q ∈ buf
    · exact .inr (.inr ⟨t, buf, hcall, hq⟩)
    · refine .inl (hkept h.pool hpool' (fun hk => ?_) (Option.some.inj (heq.symm.trans hrun)))
      rwa [setKind, if_neg hq] at hk
  | count bytes => exact .inl hclean

/-- A thread is purging a buffer after a step because it was, has just taken it, or has just purged
its next page. -/
theorem poolStep_purged (hstep : poolStep c l = some c') {todo buf : List ℕ}
    (hcall : c'.call t = .purged todo buf) :
    c.call t = .purged todo buf ∨ todo = buf ∨
      ∃ page, l = .purgePage t ∧ c.call t = .purged (page :: todo) buf := by
  by_cases ht : t = l.thread
  · subst ht
    cases poolStep_cases hstep with
    | allocSlab hcall' h => exact .inl hcall
    | osRefuseLarge hcall' => exact .inl hcall
    | @deallocSlab t page pool outcome hcall' hpage h =>
      cases outcome <;> simp [PoolLabel.thread, PoolCore.setCall, PoolCall.after] at hcall
    | purgeTake hcall' h =>
      simp only [PoolLabel.thread, PoolCore.setCall, Function.update_self,
        PoolCall.purged.injEq] at hcall
      exact .inr (.inl (hcall.1.symm.trans hcall.2))
    | @purgePage t page todo' buf' hcall' =>
      simp only [PoolLabel.thread, PoolCore.setCall, Function.update_self,
        PoolCall.purged.injEq] at hcall
      obtain ⟨rfl, rfl⟩ := hcall
      exact .inr (.inr ⟨page, rfl, hcall'⟩)
    | _ =>
      simp [PoolLabel.thread, PoolCore.setCall, PoolCore.osDealloc, PoolCore.allocLarge,
        PoolCore.deallocLarge] at hcall
  · rw [(poolStep_frame ht hstep).1] at hcall
    exact .inl hcall

/-- A thread has just got a region after a step because it had, or because the page allocator
answered. -/
theorem poolStep_fresh (hstep : poolStep c l = some c') {base : ℕ} {extent : Extent}
    (hcall : (c'.call t).fresh = some (base, extent)) :
    (c.call t).fresh = some (base, extent) ∨ (l = .osAlloc t (some base) ∧ extent = segmentExtent) ∨
      ∃ align, l = .osAllocLarge t extent.size align (some base) := by
  by_cases ht : t = l.thread
  · subst ht
    cases poolStep_cases hstep with
    | allocSlab hcall' h => exact .inl hcall
    | osRefuseLarge hcall' => exact .inl hcall
    | osAlloc hcall' hanswer =>
      simp only [PoolLabel.thread, PoolCore.setCall, Function.update_self, PoolCall.fresh,
        Option.some.injEq, Prod.mk.injEq] at hcall
      obtain ⟨rfl, rfl⟩ := hcall
      exact .inr (.inl ⟨rfl, rfl⟩)
    | @osAllocLarge t size align base' hcall' hsize hanswer =>
      simp only [PoolLabel.thread, PoolCore.setCall, Function.update_self, PoolCall.fresh,
        Option.some.injEq, Prod.mk.injEq] at hcall
      obtain ⟨rfl, rfl⟩ := hcall
      exact .inr (.inr ⟨align, rfl⟩)
    | @deallocSlab t page pool outcome hcall' hpage h =>
      cases outcome <;> simp [PoolLabel.thread, PoolCore.setCall, PoolCall.after,
        PoolCall.fresh] at hcall
    | _ =>
      simp [PoolLabel.thread, PoolCore.setCall, PoolCore.osDealloc, PoolCore.allocLarge,
        PoolCore.deallocLarge, PoolCall.fresh] at hcall
  · rw [(poolStep_frame ht hstep).1] at hcall
    exact .inl hcall

end ClearSteps

section PoolSteps

variable {s s' : PagePool} {l : PagePoolLabel} {kind : ℕ → PageKind (Tag Place)} {p : ℕ}

/-- A step of the pool is one of the core, or leaves the carving range, the clean list and the
threads' calls. -/
theorem pagePoolStep_core (hstep : pagePoolStep s l = some s') :
    (∃ l', poolStep s.core l' = some s'.core ∧
      (l = .core l' ∨ ∃ t page, l' = .deallocSlab t page)) ∨
      (s'.core.pool.segmentCursor = s.core.pool.segmentCursor ∧
        s'.core.pool.segmentEnd = s.core.pool.segmentEnd ∧
        s'.core.pool.cleanList = s.core.pool.cleanList ∧ s'.core.call = s.core.call) := by
  cases l with
  | core l =>
    obtain ⟨c, hc, rfl⟩ := Option.map_eq_some_iff.mp hstep
    exact .inl ⟨l, hc, .inl rfl⟩
  | cacheSlab t page =>
    simp only [pagePoolStep] at hstep
    split at hstep <;> try contradiction
    rename_i hguard
    unfold PagePool.cacheSlab at hstep
    split at hstep
    · obtain ⟨c, hc, rfl⟩ := Option.map_eq_some_iff.mp hstep
      refine .inl ⟨.deallocSlab t page, ?_, .inr ⟨t, page, rfl⟩⟩
      simp [poolStep, hguard.1, hguard.2, hc]
    · obtain rfl := Option.some.inj hstep
      exact .inr ⟨rfl, rfl, rfl, rfl⟩
  | uncacheSlab t =>
    simp only [pagePoolStep] at hstep
    split at hstep <;> try contradiction
    obtain rfl := Option.some.inj hstep
    unfold PagePool.uncacheSlab
    split <;> exact .inr ⟨rfl, rfl, rfl, rfl⟩
  | abandonSlab t classIdx page =>
    simp only [pagePoolStep] at hstep
    split at hstep <;> cases hstep
    exact .inr ⟨rfl, rfl, rfl, rfl⟩
  | adoptAll t classIdx =>
    simp only [pagePoolStep] at hstep
    split at hstep <;> cases hstep
    exact .inr ⟨rfl, rfl, rfl, rfl⟩

/-- A byte is clear after a step because it was, because its region has just been mapped, or its
page just purged. -/
theorem PagePoolInv.clear_of_step (hinv : PagePoolInv s kind) (hstep : pagePoolStep s l = some s')
    (hclear : s'.Clear p) :
    s.Clear p ∨ (∃ t base, l = .core (.osAlloc t (some base)) ∧ base ≤ p ∧ p < base + segmentSize) ∨
      (∃ t size align base, l = .core (.osAllocLarge t size align (some base)) ∧ base ≤ p ∧
        p < base + size) ∨
      ∃ t todo buf, l = .core (.purgePage t) ∧
        s.core.call t = .purged (slabMask p :: todo) buf := by
  rcases pagePoolStep_core hstep with ⟨l', hc, hl⟩ | ⟨hcursor, hend, hlist, hcalls⟩
  · have hsection := poolStep_section hc
    cases hclear with
    | uncarved hlo hhi =>
      rcases hinv.core.section_uncarved hsection hlo hhi with ⟨hlo, hhi⟩ |
        ⟨t, base, hcall, hlo, hhi⟩
      · exact .inl (.uncarved hlo hhi)
      · have hfresh : (s.core.call t).fresh = some (base, segmentExtent) := by
          rw [hcall, PoolCall.fresh]
        exact .inl (.fresh hfresh hlo hhi)
    | clean hpage hlink =>
      rcases hinv.core.section_clean hsection hpage with hpage | ⟨t, base, hcall, hpage⟩ |
        ⟨t, buf, hcall, hpage⟩
      · exact .inl (.clean hpage hlink)
      · have hbase := (hinv.core.fresh hcall).aligned
        obtain ⟨hlo, hhi, hdvd⟩ := (mem_segmentPages hbase).mp hpage
        have hle := slabMask_le p
        have hfresh : (s.core.call t).fresh = some (base, segmentExtent) := by
          rw [hcall, PoolCall.fresh]
        refine .inl (.fresh hfresh (by omega) ?_)
        change p < base + segmentSize
        unfold segmentSize slabSize at *
        omega
      · exact .inl (.purged hcall hpage List.not_mem_nil)
    | @purged t todo buf hcall hpage hdone =>
      rcases poolStep_purged hc hcall with hcall | rfl | ⟨page, rfl, hcall⟩
      · exact .inl (.purged hcall hpage hdone)
      · exact absurd hpage hdone
      · by_cases heq : slabMask p = page
        · subst heq
          obtain rfl | ⟨t, page, hne⟩ := hl
          · exact .inr (.inr (.inr ⟨t, todo, buf, rfl, hcall⟩))
          · cases hne
        · refine .inl (.purged hcall hpage ?_)
          rw [List.mem_cons, not_or]
          exact ⟨heq, hdone⟩
    | @fresh t base extent hcall hlo hhi =>
      rcases poolStep_fresh hc hcall with hcall | ⟨rfl, rfl⟩ | ⟨align, rfl⟩
      · exact .inl (.fresh hcall hlo hhi)
      · obtain rfl | ⟨t, page, hne⟩ := hl
        · exact .inr (.inl ⟨t, base, rfl, hlo, hhi⟩)
        · cases hne
      · obtain rfl | ⟨t, page, hne⟩ := hl
        · exact .inr (.inr (.inl ⟨t, extent.size, align, base, rfl, hlo, hhi⟩))
        · cases hne
  · left
    cases hclear with
    | uncarved hlo hhi => exact .uncarved (hcursor ▸ hlo) (hend ▸ hhi)
    | clean hpage hlink => exact .clean (hlist ▸ hpage) hlink
    | purged hcall hpage hdone => exact .purged (hcalls ▸ hcall) hpage hdone
    | fresh hcall hlo hhi => exact .fresh (hcalls ▸ hcall) hlo hhi

end PoolSteps

section Bytes

variable {s s' s₀ : MmapPool} {os : Mappings} {l : MmapLabel} {labels : List MmapLabel}
  {bytes : ℕ → ℕ} {p page : ℕ} {h : Holder}

/-- A zero stays when pages become zero. -/
theorem zeroPages_eq_zero {pages : Finset ℕ} (hbyte : bytes p = 0) :
    zeroPages page bytes pages p = 0 := by
  simp [zeroPages, hbyte]

/-- Purging a slab page makes its bytes zero and leaves the others. -/
theorem purgeBytes_eq (os : Mappings) (hpage : os.page ∣ slabSize) {addr : ℕ}
    (haddr : slabSize ∣ addr) :
    purgeBytes os.page bytes addr slabSize p = if slabMask p = addr then 0 else bytes p := by
  have hdvd : os.page ∣ addr := hpage.trans haddr
  have hmask : addr ≤ p ∧ p < addr + slabSize ↔ slabMask p = addr := by
    unfold slabMask slabSize at *
    omega
  rw [purgeBytes, if_pos hdvd, zeroPages]
  simp only [PageMap.div_mem_range_iff os.page_pos hdvd hpage, hmask]

/-- A byte of a region held is on a mapped page. -/
theorem MmapInv.mapped_of_held (hinv : MmapInv s)
    (hheld : ∃ b e, s.pool.core.os.Holds b e ∧ b ≤ p ∧ p < b + e.size) :
    p / s.os.page ∈ s.os.mapped ∧ p / s.os.page ∉ s.foreign := by
  obtain ⟨b, e, hb, hlo, hhi⟩ := hheld
  have hin := PageMap.div_mem_range s.os.page_pos (hinv.aligned b e hb) hlo hhi
  exact ⟨hinv.mapped b e hb hin, fun hforeign => Finset.disjoint_left.mp
    (hinv.foreignApart b e hb) hforeign hin⟩

/-- New pages hold no byte of a region held. -/
theorem zeroPages_of_mapped {pages : Finset ℕ} (hfresh : Disjoint s.os.mapped pages)
    (hmapped : p / s.os.page ∈ s.os.mapped) : zeroPages s.os.page s.bytes pages p = s.bytes p :=
  if_neg (Finset.disjoint_left.mp hfresh hmapped)

/-- What a label writes at an address. -/
def MmapLabel.writes (p v : ℕ) : MmapLabel → ℕ
  | .write _ q w => if q = p then w else v
  | _ => v

/-- The byte at the address when the holders' writes are all that changes it. -/
def lastWritten (p v : ℕ) (labels : List MmapLabel) : ℕ := labels.foldl (fun v l => l.writes p v) v

/-- A request writes nothing. -/
theorem MmapLabel.Asks.writes {layout : Layout} {raw : Option ℕ} {ask : Option ℕ → PoolLabel}
    (hasks : l.Asks layout raw ask) (v : ℕ) : l.writes p v = v := by
  cases hasks <;> rfl

/-- A step changes a byte that somebody has only by writing it. -/
theorem MmapPool.Fits.bytes_of_has (hfits : s.Fits) (hpage : s.os.page ∣ slabSize)
    (hhas : s.pool.Has h p) (hstep : mmapStep s l = some s') :
    s'.bytes p = l.writes p (s.bytes p) := by
  obtain ⟨⟨kind, hpool⟩, hinv⟩ := hfits
  obtain ⟨hmapped, hforeign⟩ := hinv.mapped_of_held (hpool.held_of_has hhas)
  cases mmapStep_cases hstep with
  | refused hasks hask => exact (hasks.writes _).symm
  | granted hasks hmay hask =>
    exact (zeroPages_of_mapped hmay.2.2.2 hmapped).trans (hasks.writes _).symm
  | dealloc hreturning hsize hdealloc => rfl
  | @purge t page todo buf pool hcall hpurge =>
    have hbuf : page ∈ (s.pool.core.call t).buffer := by
      have hok := hpool.core.calls t
      rw [hcall] at hok ⊢
      exact hok page List.mem_cons_self
    have hkind := ((hpool.core.keyed (.buffer t)).1 page).mp hbuf
    have haligned := hpool.core.aligned_page (q := page) (by simp [hkind])
    exact (purgeBytes_eq s.os hpage haligned).trans (if_neg (hpool.slabMask_ne_of_buffer hhas hbuf))
  | pool hl hother => rfl
  | @write h' q v hhas' =>
    by_cases hq : q = p
    · subst hq
      simp [MmapLabel.writes]
    · simp [MmapLabel.writes, hq, Function.update_of_ne (Ne.symm hq)]
  | @link page i v hlisted hi =>
    apply Function.update_of_ne
    rintro rfl
    exact hpool.not_has_link hlisted hi hhas
  | map hmay => exact zeroPages_of_mapped hmay.2.2.2 hmapped
  | unmap hin => rfl
  | @store q v hin =>
    apply Function.update_of_ne
    rintro rfl
    exact hforeign hin

/-- The page size is that of the process. -/
theorem mmapRun_page (hrun : run mmapStep s₀ labels = some s) : s.os.page = s₀.os.page :=
  run_invariant (I := fun s => s.os.page = s₀.os.page)
    (fun _ _ _ h hstep => (mmapStep_page hstep).trans h) rfl hrun

/-- As long as somebody has the byte, whoever that is at each step, it holds what was last written
to it: no purge, mapping, unmapping or link of any thread reaches it. Caching a page and taking one
from the cache are one step each. -/
theorem mmap_pool_frame {before labels : List MmapLabel} (hpage : os.page ∣ slabSize)
    (hbefore : run mmapStep (.new os bytes) before = some s₀)
    (hrun : run mmapStep s₀ labels = some s)
    (hhas : Meets mmapStep (fun s _ => ∃ h, s.pool.Has h p) s₀ labels) :
    s.bytes p = lastWritten p (s₀.bytes p) labels := by
  have hfits : s₀.Fits := .run hbefore
  have hpage₀ : s₀.os.page ∣ slabSize := by
    rw [mmapRun_page hbefore]
    exact hpage
  clear hbefore
  induction labels generalizing s₀ with
  | nil =>
    obtain rfl := Option.some.inj hrun
    rfl
  | cons l rest ih =>
    obtain ⟨s₁, hstep, hrest⟩ := run_cons_eq_some.mp hrun
    obtain ⟨h, hp⟩ := hhas.1
    rw [ih hrest (hhas.2 s₁ hstep) (hfits.step hstep) (mmapStep_page hstep ▸ hpage₀),
      hfits.bytes_of_has hpage₀ hp hstep]
    rfl

/-- A process with pages of 65536 bytes, one of them mapped. -/
def widePages : Mappings := ⟨65536, ⟨16, rfl⟩, {1}⟩

/-- Thread 0 carves three segments, and writes into the first page of one and into the page after
it. -/
def carveRun : List MmapLabel :=
  ([0x210000, 0x600000, 0xa00000].flatMap fun raw =>
    [.pool (.core (.allocSlab 0)), .alloc 0 (some raw), .pool (.core (.allocSlabSlow 0))] ++
      List.replicate 31 (.pool (.core (.allocSlab 0)))) ++
    [.write (.thread 0) 0x210064 9, .write (.thread 0) 0x220064 9]

/-- Thread 0 returns 65 pages, among them the one after the first, and purges 32 of them. -/
def returnPagesRun : List MmapLabel :=
  (([0xa00000, 0x600000, 0x210000].flatMap fun base => (segmentPages base).tail).drop 28).map
    (fun page => .pool (.core (.deallocSlab 0 page))) ++
    [.pool (.core (.purgeTake 0))] ++ List.replicate 32 (.purge 0)

/-- Thread 0 keeps the first page while the pages after it are purged. -/
theorem mmap_pool_frame_purged : widePages.page ∣ slabSize ∧ ∃ s₀ s,
    run mmapStep (.new widePages fun _ => 7) carveRun = some s₀ ∧
      run mmapStep s₀ returnPagesRun = some s ∧
      s₀.bytes 0x210064 = 9 ∧ Meets mmapStep (fun s _ => ∃ h,
        s.pool.Has h 0x210064) s₀ returnPagesRun ∧
      s.bytes 0x210064 = lastWritten 0x210064 (s₀.bytes 0x210064) returnPagesRun := by
  have hcheck : (run mmapStep (.new widePages fun _ => 7) carveRun).map
      (fun s₀ => decide (s₀.bytes 0x210064 = 9 ∧
      Meets mmapStep (fun s _ => s.pool.Has (.thread 0) 0x210064) s₀ returnPagesRun ∧
      (run mmapStep s₀ returnPagesRun).isSome = true)) = some true := by decide +kernel
  obtain ⟨s₀, hbefore, hs₀⟩ := Option.map_eq_some_iff.mp hcheck
  obtain ⟨hnine, hmeets, hsome⟩ := of_decide_eq_true hs₀
  obtain ⟨s, hrun⟩ := Option.isSome_iff_exists.mp hsome
  have hhas : Meets mmapStep (fun s _ => ∃ h, s.pool.Has h 0x210064) s₀ returnPagesRun :=
    hmeets.mono fun _ _ hthread => ⟨_, hthread⟩
  exact ⟨by decide, s₀, s, hbefore, hrun, hnine, hhas,
    mmap_pool_frame (by decide) hbefore hrun hhas⟩

/-- Every clear byte is zero. -/
def MmapPool.Zeroed (s : MmapPool) : Prop := ∀ p, s.pool.Clear p → s.bytes p = 0

/-- A byte of a region just requested is new, so zero. -/
theorem zeroPages_granted {layout : Layout} {raw : ℕ}
    (hmay : s.os.MayReturn raw (layout.size + layout.align)) (hlo : alignedAddr layout raw ≤ p)
    (hhi : p < alignedAddr layout raw + layout.size) :
    zeroPages s.os.page s.bytes (PageMap.range s.os.page raw (layout.size + layout.align)) p = 0 :=
  if_pos (hmay.granted.new (PageMap.div_mem_range s.os.page_pos hmay.granted.aligned hlo hhi))

/-- A step that writes a byte that is not clear keeps the clear bytes zero. -/
theorem MmapPool.Zeroed.update (hzero : s.Zeroed) {q v : ℕ} (hq : ¬s.pool.Clear q) :
    MmapPool.Zeroed { s with bytes := Function.update s.bytes q v } := by
  intro p hclear
  have hne : p ≠ q := fun heq => hq (heq ▸ hclear)
  exact (Function.update_of_ne hne v s.bytes).trans (hzero p hclear)

/-- Every step keeps the clear bytes zero. -/
theorem MmapPool.Zeroed.step (hzero : s.Zeroed) (hfits : s.Fits) (hpage : s.os.page ∣ slabSize)
    (hstep : mmapStep s l = some s') : s'.Zeroed := by
  obtain ⟨⟨kind, hpool⟩, hinv⟩ := hfits
  cases mmapStep_cases hstep with
  | @refused l layout ask pool hasks hask =>
    intro p hclear
    rcases hpool.clear_of_step hask hclear with hold | ⟨t, base, heq, -⟩ |
      ⟨t, size, align, base, heq, -⟩ | ⟨t, todo, buf, heq, -⟩
    · exact hzero p hold
    all_goals cases hasks <;> cases heq
  | @granted l layout raw ask pool hasks hmay hask =>
    intro p hclear
    rcases hpool.clear_of_step hask hclear with hold | ⟨t, base, heq, hlo, hhi⟩ |
      ⟨t, size, align, base, heq, hlo, hhi⟩ | ⟨t, todo, buf, heq, -⟩
    · exact zeroPages_eq_zero (hzero p hold)
    · cases hasks with
      | segment =>
        cases heq
        exact zeroPages_granted hmay hlo hhi
      | large => cases heq
    · cases hasks with
      | segment => cases heq
      | large =>
        cases heq
        exact zeroPages_granted hmay hlo hhi
    · cases hasks <;> cases heq
  | dealloc hreturning hsize hdealloc =>
    intro p hclear
    rcases hpool.clear_of_step hdealloc hclear with hold | ⟨t, base, heq, -⟩ |
      ⟨t, size, align, base, heq, -⟩ | ⟨t, todo, buf, heq, -⟩
    · exact hzero p hold
    all_goals cases heq
  | @purge t page todo buf pool hcall hpurge =>
    have hbuf : page ∈ (s.pool.core.call t).buffer := by
      have hok := hpool.core.calls t
      rw [hcall] at hok ⊢
      exact hok page List.mem_cons_self
    have hkind := ((hpool.core.keyed (.buffer t)).1 page).mp hbuf
    have haligned := hpool.core.aligned_page (q := page) (by simp [hkind])
    intro p hclear
    apply (purgeBytes_eq s.os hpage haligned).trans
    rcases hpool.clear_of_step hpurge hclear with hold | ⟨t, base, heq, -⟩ |
      ⟨t, size, align, base, heq, -⟩ | ⟨t, todo', buf', heq, hcall'⟩
    · rw [hzero p hold, ite_self]
    · cases heq
    · cases heq
    · cases heq
      rw [hcall, PoolCall.purged.injEq, List.cons.injEq] at hcall'
      exact if_pos hcall'.1.1.symm
  | pool hl hother =>
    intro p hclear
    rcases hpool.clear_of_step hother hclear with hold | ⟨t, base, rfl, -⟩ |
      ⟨t, size, align, base, rfl, -⟩ | ⟨t, todo, buf, rfl, -⟩
    · exact hzero p hold
    all_goals cases hl
  | write hhas => exact hzero.update (hpool.not_clear_of_has hhas)
  | link hlisted hi => exact hzero.update (hpool.not_clear_link hlisted hi)
  | map hmay => exact fun p hclear => zeroPages_eq_zero (hzero p hclear)
  | unmap hin => exact hzero
  | store hin =>
    exact hzero.update fun hclear => (hinv.mapped_of_held (hpool.held_of_clear hclear)).2 hin

/-- In every run the bytes that nobody wrote since they were mapped or purged are zero: the uncarved
pages, the clean pages but for their link, the pages of a purge buffer that are done, and the
regions on their way to an owner. Caching a page and taking one from the cache are one step each. -/
theorem mmap_pool_zeroed (hpage : os.page ∣ slabSize)
    (hrun : run mmapStep (.new os bytes) labels = some s) :
    ∀ p, s.pool.Clear p → s.bytes p = 0 := by
  have hall : s.Fits ∧ s.Zeroed ∧ s.os.page ∣ slabSize := by
    apply run_invariant (I := fun s => s.Fits ∧ s.Zeroed ∧ s.os.page ∣ slabSize) _ _ hrun
    · intro s l s' ⟨hfits, hzero, hpage⟩ hstep
      exact ⟨hfits.step hstep, hzero.step hfits hpage hstep, mmapStep_page hstep ▸ hpage⟩
    · refine ⟨⟨⟨_, pagePoolInv_new⟩, mmapInv_new os bytes⟩, fun p hclear => ?_, hpage⟩
      cases hclear with
      | uncarved hlo hhi => exact absurd hhi (Nat.not_lt_zero p)
      | clean hin => cases hin
      | purged hcall => cases hcall
      | fresh hcall => cases hcall
  exact hall.2.1

/-- The pages that the run purges. -/
def purgedPages : List ℕ :=
  ((segmentPages 0x600000).tail ++ (segmentPages 0x210000).tail).reverse.take 32

/-- The page after the first is zero again. -/
theorem mmap_pool_zeroed_purged : widePages.page ∣ slabSize ∧ ∃ s,
    run mmapStep (.new widePages fun _ => 7) (carveRun ++ returnPagesRun) = some s ∧
      s.pool.Clear 0x220064 ∧ ∀ p, s.pool.Clear p → s.bytes p = 0 := by
  have hcheck : (run mmapStep (.new widePages fun _ => 7) (carveRun ++ returnPagesRun)).map
      (fun s => decide (s.pool.core.call 0 = .purged [] purgedPages)) = some true := by
      decide +kernel
  obtain ⟨s, hrun, hs⟩ := Option.map_eq_some_iff.mp hcheck
  have hclear : s.pool.Clear 0x220064 :=
    .purged (of_decide_eq_true hs) (by decide +kernel) List.not_mem_nil
  exact ⟨by decide, s, hrun, hclear, mmap_pool_zeroed (by decide) hrun⟩

end Bytes

end ClMalloc
