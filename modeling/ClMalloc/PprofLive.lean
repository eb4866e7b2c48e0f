import ClMalloc.Pprof
import ClMalloc.Lib.MapSum
import ClMalloc.Lib.Transition

/-!
# The live counters of a call stack

Over a run of configurations, samples and removals the live counters of a stack should be the
weights that were added for the records now in the side table. Two things can break this. A
removal recomputes the weight from the interval in force, which may have changed since the
record was made, and a second sample at an address drops the first record with its weight
still counted. The other conditions are those of the types: the number of stacks fits a `u32`
and the counters fit an `i64`.
-/

namespace ClMalloc

open MapSum Transition

/-- The profiler with, for each address, the interval in force when its last sample was recorded. -/
structure PprofRun where
  globals : PprofGlobals
  state : PprofState
  recordedAt : ℕ → ℕ

/-- The calls of a run. -/
inductive PprofCall
  | setPprofConfig (config : Option ℕ)
  | recordSample (frames : List ℕ) (ptr size classIdx : ℕ)
  | maybeRemoveSample (ptr : ℕ)

/-- The profiler before its first call. -/
def PprofRun.init : PprofRun := ⟨.init, .new, fun _ => 0⟩

variable (w : ℕ → ℕ → ℕ)

/-- One call. -/
def pprofStep (r : PprofRun) : PprofCall → Option PprofRun
  | .setPprofConfig config => some { r with globals := r.globals.setPprofConfig config }
  | .recordSample frames ptr size classIdx =>
    (r.state.recordSample w r.globals.interval frames ptr size classIdx).map fun st =>
      { r with state := st, recordedAt := Function.update r.recordedAt ptr r.globals.interval }
  | .maybeRemoveSample ptr =>
    (r.state.maybeRemoveSample w r.globals.interval ptr).map fun st => { r with state := st }

/-- The values of the map are the indices of the counters, each once. -/
def StackTable.IdsExact (t : StackTable) : Prop :=
  (t.map.entries.map Sigma.snd).Perm (List.range t.counters.length)

/-- The sum of a weight over the records of a stack. -/
def PprofState.sumOf (st : PprofState) (id : ℕ) (f : ℕ → SampleRecord → ℕ) : ℕ :=
  sumOn (fun e => if e.2.stackId = id then f e.1 e.2 else 0) st.side

/-- The weight that was added for a record. -/
def PprofRun.weightOf (r : PprofRun) (ptr : ℕ) (record : SampleRecord) : ℕ :=
  w record.size (r.recordedAt ptr)

/-- The bytes that were added for a record. -/
def PprofRun.bytesOf (r : PprofRun) (ptr : ℕ) (record : SampleRecord) : ℕ :=
  r.weightOf w ptr record * record.size

/-- The stack ids are exact and the live counters of each stack are those of its records. -/
structure PprofRun.Balanced (r : PprofRun) : Prop where
  ids : r.state.stackTable.IdsExact
  liveCount : ∀ id (c : StackCounters), r.state.stackTable.counters[id]? = some c →
    c.liveCount = r.state.sumOf id (r.weightOf w)
  liveBytes : ∀ id (c : StackCounters), r.state.stackTable.counters[id]? = some c →
    c.liveBytes = r.state.sumOf id (r.bytesOf w)
  nonneg : ∀ c ∈ r.state.stackTable.counters, 0 ≤ c.liveCount ∧ 0 ≤ c.liveBytes
  settled : ∀ id c, r.state.stackTable.counters[id]? = some c →
    (∀ ptr record, r.state.side.lookup ptr = some record → record.stackId ≠ id) →
      c.liveCount = 0 ∧ c.liveBytes = 0

/-- The counters a sample with these frames adds to. -/
def StackTable.countersOf (t : StackTable) (frames : List ℕ) : StackCounters :=
  match t.map.lookup frames with
  | some id => t.counters[id]?.getD .zero
  | none => .zero

/-- A sample is taken at an address without a record, its stack has or gets an index of its own, and
its weight fits the live counters; a removal finds an interval that gives the record the weight it
was added with. -/
def PprofRun.Steady (r : PprofRun) : PprofCall → Prop
  | .setPprofConfig _ => True
  | .recordSample frames ptr size _ =>
    let c := r.state.stackTable.countersOf frames
    let weight := w size r.globals.interval
    ptr ∉ r.state.side ∧
      (frames ∈ r.state.stackTable.map ∨ r.state.stackTable.counters.length < stackIdLimit) ∧
      c.liveCount + weight < 0x8000000000000000 ∧
        c.liveBytes + (weight * size : ℕ) < 0x8000000000000000
  | .maybeRemoveSample ptr =>
    ∀ record ∈ r.state.side.lookup ptr, w record.size r.globals.interval = r.weightOf w ptr record

/-- Whether a call is steady can be computed. -/
instance (r : PprofRun) : (call : PprofCall) → Decidable (r.Steady w call)
  | .setPprofConfig _ => isTrue trivial
  | .recordSample frames ptr size _ => inferInstanceAs (Decidable (ptr ∉ r.state.side ∧
      (frames ∈ r.state.stackTable.map ∨ r.state.stackTable.counters.length < stackIdLimit) ∧
      (r.state.stackTable.countersOf frames).liveCount + w size r.globals.interval <
        0x8000000000000000 ∧
      (r.state.stackTable.countersOf frames).liveBytes + (w size r.globals.interval * size : ℕ) <
        0x8000000000000000))
  | .maybeRemoveSample ptr => inferInstanceAs
    (Decidable (∀ record ∈ r.state.side.lookup ptr,
      w record.size r.globals.interval = r.weightOf w ptr record))

variable {w} {r r' : PprofRun}

/-- What interning a stack does when the index of its counters fits a `u32`. -/
structure Interned (t : StackTable) (frames : List ℕ) (t' : StackTable) (id : ℕ) : Prop where
  ids : t'.IdsExact
  counters : t'.counters[id]? = some (t.countersOf frames)
  rest : ∀ j, j ≠ id ∨ j < t.counters.length → t'.counters[j]? = t.counters[j]?
  grows : t.counters.length ≤ t'.counters.length
  fresh : t.counters.length ≤ id → t.countersOf frames = .zero

/-- The index of a known stack is in range. -/
theorem StackTable.IdsExact.lookup_lt {t : StackTable} (h : t.IdsExact) {frames : List ℕ} {id : ℕ}
    (hlookup : t.map.lookup frames = some id) : id < t.counters.length := by
  have hmem : (⟨frames, id⟩ : (_ : List ℕ) × ℕ) ∈ t.map.entries := AList.mem_lookup_iff.mp hlookup
  exact List.mem_range.mp (h.mem_iff.mp (List.mem_map_of_mem hmem))

/-- Interning finds the counters of a known stack or appends those of a new one. -/
theorem StackTable.IdsExact.intern {t : StackTable} (h : t.IdsExact) {frames : List ℕ}
    (hroom : frames ∈ t.map ∨ t.counters.length < stackIdLimit) :
    Interned t frames (t.intern frames).1 (t.intern frames).2 := by
  unfold StackTable.intern
  cases hlookup : t.map.lookup frames with
  | some id =>
    have hlt := h.lookup_lt hlookup
    refine ⟨h, ?_, fun j _ => rfl, le_rfl, fun hle => absurd hlt (Nat.not_lt.mpr hle)⟩
    simp [StackTable.countersOf, hlookup, hlt]
  | none =>
    have hnew : frames ∉ t.map := AList.lookup_eq_none.mp hlookup
    have hlt : t.counters.length < stackIdLimit := hroom.resolve_left hnew
    simp only [Nat.mod_eq_of_lt hlt]
    refine ⟨?_, ?_, ?_, by simp, ?_⟩
    · unfold StackTable.IdsExact
      simp only [AList.entries_insert_of_notMem hnew, List.map_cons, List.length_append,
        List.length_singleton, List.range_succ]
      exact (List.Perm.cons _ h).trans (List.perm_append_singleton _ _).symm
    · simp [StackTable.countersOf, hlookup]
    · intro j hj
      simp only [List.getElem?_append]
      split
      · rfl
      · rename_i hge
        rw [List.getElem?_eq_none (by simp; omega), List.getElem?_eq_none (by omega)]
    · intro _
      simp [StackTable.countersOf, hlookup]

/-- What the proof carries: the records name counters that exist, and the sums fit the type of the
counters. -/
structure PprofRun.LiveBooks (w : ℕ → ℕ → ℕ) (r : PprofRun) : Prop where
  ids : r.state.stackTable.IdsExact
  known : ∀ ptr record, r.state.side.lookup ptr = some record →
    record.stackId < r.state.stackTable.counters.length
  liveCount : ∀ id (c : StackCounters), r.state.stackTable.counters[id]? = some c →
    c.liveCount = r.state.sumOf id (r.weightOf w)
  liveBytes : ∀ id (c : StackCounters), r.state.stackTable.counters[id]? = some c →
    c.liveBytes = r.state.sumOf id (r.bytesOf w)
  fits : ∀ id, r.state.sumOf id (r.weightOf w) < 0x8000000000000000 ∧
    r.state.sumOf id (r.bytesOf w) < 0x8000000000000000

/-- An entry of the side table is what a lookup of its address finds. -/
theorem lookup_of_mem_entries {side : SideTable} {e : (_ : ℕ) × SampleRecord}
    (he : e ∈ side.entries) :
    side.lookup e.1 = some e.2 := AList.mem_lookup_iff.mpr he

/-- A stack no record names has nothing to sum. -/
theorem PprofState.sumOf_eq_zero {st : PprofState} {id : ℕ} {f : ℕ → SampleRecord → ℕ}
    (h : ∀ ptr record, st.side.lookup ptr = some record → record.stackId ≠ id) :
    st.sumOf id f = 0 :=
  sumOn_eq_zero fun e he => if_neg (h e.1 e.2 (lookup_of_mem_entries he))

/-- The books give every part of the balance. -/
theorem PprofRun.LiveBooks.balanced (h : r.LiveBooks w) : r.Balanced w := by
  refine ⟨h.ids, h.liveCount, h.liveBytes, fun c hc => ?_, fun id c hc hnone => ?_⟩
  · obtain ⟨id, hid⟩ := List.mem_iff_getElem?.mp hc
    rw [h.liveCount id c hid, h.liveBytes id c hid]
    omega
  · rw [h.liveCount id c hc, h.liveBytes id c hc, PprofState.sumOf_eq_zero hnone,
      PprofState.sumOf_eq_zero hnone]
    exact ⟨rfl, rfl⟩

/-- A natural number below the bound of `i64` is not changed by its wrap. -/
theorem i64_natCast {n : ℕ} (h : n < 0x8000000000000000) : i64 n = n := by
  unfold i64
  omega

/-- Adding two natural numbers whose sum fits. -/
theorem i64_add_castSigned {a b : ℕ} (h : a + b < 0x8000000000000000) :
    i64 (a + castSigned b) = (a + b : ℕ) := by
  unfold castSigned
  rw [i64_natCast (by omega), ← Nat.cast_add, i64_natCast h]

/-- Taking back one part of a sum that fits. -/
theorem i64_sub_castSigned {a b : ℕ} (h : a + b < 0x8000000000000000) :
    i64 ((a + b : ℕ) - castSigned b) = a := by
  unfold castSigned i64
  omega

/-- A sample adds its weight to the live counters it fits. -/
theorem StackCounters.onSample_live {c : StackCounters} {count bytes weight size : ℕ}
    (hcount : c.liveCount = count) (hbytes : c.liveBytes = bytes)
    (hfits : count + weight < 0x8000000000000000)
    (hfitsBytes : bytes + weight * size < 0x8000000000000000) :
    (c.onSample weight size).liveCount = (count + weight : ℕ) ∧
      (c.onSample weight size).liveBytes = (bytes + weight * size : ℕ) := by
  have hmul : u64 (weight * size) = weight * size := Nat.mod_eq_of_lt (by omega)
  simp only [StackCounters.onSample, hcount, hbytes, hmul, i64_add_castSigned hfits,
    i64_add_castSigned hfitsBytes, and_self]

/-- A removal takes the weight it is given back. -/
theorem StackCounters.onRemove_live {c : StackCounters} {count bytes weight size : ℕ}
    (hcount : c.liveCount = (count + weight : ℕ))
    (hbytes : c.liveBytes = (bytes + weight * size : ℕ))
    (hfits : count + weight < 0x8000000000000000)
    (hfitsBytes : bytes + weight * size < 0x8000000000000000) :
    (c.onRemove weight size).liveCount = count ∧ (c.onRemove weight size).liveBytes = bytes := by
  have hmul : u64 (weight * size) = weight * size := Nat.mod_eq_of_lt (by omega)
  simp only [StackCounters.onRemove, hcount, hbytes, hmul, i64_sub_castSigned hfits,
    i64_sub_castSigned hfitsBytes, and_self]

/-- A sample at a new address adds its weight to the sum of its stack and to no other. -/
theorem PprofState.sumOf_insert {st : PprofState} {table : StackTable} {ptr : ℕ}
    {record : SampleRecord} {f g : ℕ → SampleRecord → ℕ} (hnew : ptr ∉ st.side)
    (hfg : ∀ p ≠ ptr, ∀ record, g p record = f p record) (id : ℕ) :
    (⟨table, st.side.insert ptr record⟩ : PprofState).sumOf id g =
      (if record.stackId = id then g ptr record else 0) + st.sumOf id f := by
  unfold PprofState.sumOf
  rw [sumOn_insert hnew]
  congr 1
  refine sumOn_congr fun e he => ?_
  have hne : e.1 ≠ ptr := by
    rintro rfl
    exact hnew (AList.lookup_isSome.mp (by rw [lookup_of_mem_entries he]; rfl))
  simp only [hfg e.1 hne]

/-- A removal takes the weight of the record from the sum of its stack and from no other. -/
theorem PprofState.sumOf_erase {st : PprofState} {table : StackTable} {ptr : ℕ}
    {record : SampleRecord} {f : ℕ → SampleRecord → ℕ} (hlookup : st.side.lookup ptr = some record)
    (id : ℕ) :
    (⟨table, st.side.erase ptr⟩ : PprofState).sumOf id f + (if record.stackId = id then f ptr record
      else 0) = st.sumOf id f := sumOn_erase hlookup

/-- The live counters of the stack a sample goes to are the sums over its records. -/
theorem PprofRun.LiveBooks.countersOf (h : r.LiveBooks w) {frames : List ℕ} {table : StackTable}
    {id : ℕ} (hintern : Interned r.state.stackTable frames table id) :
    (r.state.stackTable.countersOf frames).liveCount = r.state.sumOf id (r.weightOf w) ∧
      (r.state.stackTable.countersOf frames).liveBytes = r.state.sumOf id (r.bytesOf w) := by
  by_cases hlt : id < r.state.stackTable.counters.length
  · have hc := (hintern.rest id (.inr hlt)).symm.trans hintern.counters
    exact ⟨h.liveCount id _ hc, h.liveBytes id _ hc⟩
  · have hnone : ∀ ptr record, r.state.side.lookup ptr = some record → record.stackId ≠ id := by
      intro ptr record hrec heq
      exact hlt (heq ▸ h.known ptr record hrec)
    rw [hintern.fresh (Nat.not_lt.mp hlt), PprofState.sumOf_eq_zero hnone,
      PprofState.sumOf_eq_zero hnone]
    exact ⟨rfl, rfl⟩

/-- A change of one stack's counters and records keeps the books when the two agree afterwards. -/
theorem PprofRun.LiveBooks.change (h : r.LiveBooks w) (id : ℕ) (c : StackCounters)
    (hids : r'.state.stackTable.IdsExact)
    (hknown : ∀ ptr record, r'.state.side.lookup ptr = some record →
      record.stackId < r'.state.stackTable.counters.length)
    (hcounters : r'.state.stackTable.counters[id]? = some c)
    (hrest : ∀ j ≠ id, r'.state.stackTable.counters[j]? = r.state.stackTable.counters[j]?)
    (hsums : ∀ j ≠ id, r'.state.sumOf j (r'.weightOf w) = r.state.sumOf j (r.weightOf w) ∧
      r'.state.sumOf j (r'.bytesOf w) = r.state.sumOf j (r.bytesOf w))
    (hlive : c.liveCount = r'.state.sumOf id (r'.weightOf w) ∧
      c.liveBytes = r'.state.sumOf id (r'.bytesOf w))
    (hfits : r'.state.sumOf id (r'.weightOf w) < 0x8000000000000000 ∧
      r'.state.sumOf id (r'.bytesOf w) < 0x8000000000000000) : r'.LiveBooks w := by
  refine ⟨hids, hknown, fun j c' hc' => ?_, fun j c' hc' => ?_, fun j => ?_⟩
  · by_cases hj : j = id
    · subst hj
      obtain rfl := Option.some.inj (hcounters.symm.trans hc')
      exact hlive.1
    · rw [(hsums j hj).1]
      exact h.liveCount j c' ((hrest j hj).symm.trans hc')
  · by_cases hj : j = id
    · subst hj
      obtain rfl := Option.some.inj (hcounters.symm.trans hc')
      exact hlive.2
    · rw [(hsums j hj).2]
      exact h.liveBytes j c' ((hrest j hj).symm.trans hc')
  · by_cases hj : j = id
    · subst hj
      exact hfits
    · rw [(hsums j hj).1, (hsums j hj).2]
      exact h.fits j

/-- A steady sample is recorded and keeps the books. -/
theorem PprofRun.LiveBooks.recordSample (h : r.LiveBooks w) {frames : List ℕ}
    {ptr size classIdx : ℕ} (hsteady : r.Steady w (.recordSample frames ptr size classIdx)) :
    ∃ r', pprofStep w r (.recordSample frames ptr size classIdx) = some r' ∧ r'.LiveBooks w := by
  obtain ⟨hnew, hroom, hcount, hbytes⟩ := hsteady
  have hintern := h.ids.intern hroom
  obtain ⟨table, id, hpair⟩ : ∃ table id, r.state.stackTable.intern frames = (table, id) :=
    ⟨_, _, rfl⟩
  rw [hpair] at hintern
  obtain ⟨hliveCount, hliveBytes⟩ := h.countersOf hintern
  rw [hliveCount] at hcount
  rw [hliveBytes] at hbytes
  replace hcount : r.state.sumOf id (r.weightOf w) + w size r.globals.interval <
    0x8000000000000000 := by
    exact_mod_cast hcount
  replace hbytes : r.state.sumOf id (r.bytesOf w) + w size r.globals.interval * size <
    0x8000000000000000 := by
    exact_mod_cast hbytes
  have hlt : id < table.counters.length := (List.getElem?_eq_some_iff.mp hintern.counters).1
  let c := (r.state.stackTable.countersOf frames).onSample (w size r.globals.interval) size
  let r' : PprofRun := ⟨r.globals, ⟨{ table with counters := table.counters.set id c },
    r.state.side.insert ptr ⟨id, size,
      classIdx⟩⟩, Function.update r.recordedAt ptr r.globals.interval⟩
  have hold : ∀ p ≠ ptr, r'.recordedAt p = r.recordedAt p :=
    fun p hp => Function.update_of_ne hp _ _
  have hweight : ∀ j, r'.state.sumOf j (r'.weightOf w) =
      (if id = j then w size r.globals.interval else 0) + r.state.sumOf j (r.weightOf w) := by
    intro j
    rw [PprofState.sumOf_insert hnew (f := r.weightOf w) (fun p hp record =>
      by simp only [PprofRun.weightOf, hold p hp])]
    simp [PprofRun.weightOf, r']
  have hweightBytes : ∀ j, r'.state.sumOf j (r'.bytesOf w) =
      (if id = j then w size r.globals.interval * size else 0) + r.state.sumOf j (r.bytesOf w) := by
    intro j
    rw [PprofState.sumOf_insert hnew (f := r.bytesOf w)
      (fun p hp record => by simp only [PprofRun.bytesOf, PprofRun.weightOf, hold p hp])]
    simp [PprofRun.bytesOf, PprofRun.weightOf, r']
  have hlive := StackCounters.onSample_live hliveCount hliveBytes hcount hbytes
  refine ⟨r', by
    simp only [pprofStep, PprofState.recordSample, hpair, hintern.counters, Option.map_some]
    rfl, ?_⟩
  refine h.change id c ?_ ?_ ?_ ?_ ?_ ?_ ?_
  · simpa [StackTable.IdsExact, r'] using hintern.ids
  · intro p record hrec
    simp only [r', List.length_set]
    rcases lookup_insert_cases hrec with ⟨-, rfl⟩ | ⟨-, hold⟩
    · exact hlt
    · exact lt_of_lt_of_le (h.known p record hold) hintern.grows
  · simp [r', hlt]
  · intro j hj
    rw [← hintern.rest j (.inl hj)]
    exact List.getElem?_set_ne (Ne.symm hj)
  · intro j hj
    rw [hweight, hweightBytes, if_neg (Ne.symm hj), if_neg (Ne.symm hj), Nat.zero_add, Nat.zero_add]
    exact ⟨rfl, rfl⟩
  · rw [hweight, hweightBytes, if_pos rfl, if_pos rfl, Nat.add_comm, Nat.add_comm (_ * _)]
    exact hlive
  · rw [hweight, hweightBytes, if_pos rfl, if_pos rfl, Nat.add_comm, Nat.add_comm (_ * _)]
    exact ⟨hcount, hbytes⟩

/-- A steady removal is carried out and keeps the books. -/
theorem PprofRun.LiveBooks.maybeRemoveSample (h : r.LiveBooks w) {ptr : ℕ}
    (hsteady : r.Steady w (.maybeRemoveSample ptr)) :
    ∃ r', pprofStep w r (.maybeRemoveSample ptr) = some r' ∧ r'.LiveBooks w := by
  cases hlookup : r.state.side.lookup ptr with
  | none =>
    exact ⟨r, by simp only [pprofStep, PprofState.maybeRemoveSample, hlookup, Option.map_some], h⟩
  | some record =>
    have hlt := h.known ptr record hlookup
    obtain ⟨old, hold⟩ : ∃ old, r.state.stackTable.counters[record.stackId]? = some old :=
      ⟨_, List.getElem?_eq_getElem hlt⟩
    have hsame : w record.size r.globals.interval = r.weightOf w ptr record :=
      hsteady record hlookup
    let c := old.onRemove (w record.size r.globals.interval) record.size
    let r' : PprofRun := ⟨r.globals, ⟨{ r.state.stackTable with
      counters := r.state.stackTable.counters.set record.stackId c
        }, r.state.side.erase ptr⟩, r.recordedAt⟩
    have hweight : ∀ j, r'.state.sumOf j (r'.weightOf w) +
        (if record.stackId = j then r.weightOf w ptr record else 0) = r.state.sumOf j
        (r.weightOf w) :=
      PprofState.sumOf_erase hlookup
    have hweightBytes : ∀ j, r'.state.sumOf j (r'.bytesOf w) +
        (if record.stackId = j then r.bytesOf w ptr record else 0) =
        r.state.sumOf j (r.bytesOf w) :=
      PprofState.sumOf_erase hlookup
    have hcount := hweight record.stackId
    have hbytes := hweightBytes record.stackId
    rw [if_pos rfl] at hcount hbytes
    have hfits := h.fits record.stackId
    rw [← hcount, ← hbytes] at hfits
    have hlive := StackCounters.onRemove_live (c := old)
      ((h.liveCount _ old hold).trans (by rw [hcount]))
      ((h.liveBytes _ old hold).trans (by rw [← hbytes]; rfl)) hfits.1 hfits.2
    refine ⟨r', by
      simp only [pprofStep, PprofState.maybeRemoveSample, hlookup, hold, Option.map_some]
      rfl, ?_⟩
    refine h.change record.stackId c ?_ ?_ ?_ ?_ ?_ ?_ ?_
    · simpa [StackTable.IdsExact, r'] using h.ids
    · intro p record' hrec
      simp only [r', List.length_set]
      exact h.known p record' (lookup_erase_cases hrec).2
    · simp [r', hlt]
    · exact fun j hj => List.getElem?_set_ne (Ne.symm hj)
    · intro j hj
      have hj' := hweight j
      have hjBytes := hweightBytes j
      rw [if_neg (Ne.symm hj), Nat.add_zero] at hj' hjBytes
      exact ⟨hj', hjBytes⟩
    · simp only [c, hsame]
      exact hlive
    · exact ⟨by omega, by omega⟩

/-- The profiler starts balanced. -/
theorem PprofRun.liveBooks_init : PprofRun.init.LiveBooks w := by
  refine ⟨by simp [StackTable.IdsExact, PprofRun.init, PprofState.new, StackTable.new], ?_, ?_, ?_,
    ?_⟩
  all_goals simp [PprofRun.init, PprofState.new, StackTable.new, PprofState.sumOf]

/-- A steady call is carried out and keeps the books. -/
theorem PprofRun.LiveBooks.step (h : r.LiveBooks w) {call : PprofCall} (hsteady : r.Steady w call) :
    ∃ r', pprofStep w r call = some r' ∧ r'.LiveBooks w := by
  cases call with
  | setPprofConfig config => exact ⟨_, rfl, h.ids, h.known, h.liveCount, h.liveBytes, h.fits⟩
  | recordSample frames ptr size classIdx => exact h.recordSample hsteady
  | maybeRemoveSample ptr => exact h.maybeRemoveSample hsteady

/-- In a run of steady calls no call panics and the live counters are those of the records. -/
theorem live_counters_balanced (w : ℕ → ℕ → ℕ) (calls : List PprofCall)
    (hsteady : Meets (pprofStep w) (PprofRun.Steady w) .init calls) :
    ∃ r, run (pprofStep w) .init calls = some r ∧ r.Balanced w := by
  obtain ⟨r, hrun, hbooks⟩ := exists_run_of_meets
    (fun _ _ h hcall => h.step hcall) PprofRun.liveBooks_init hsteady
  exact ⟨r, hrun, hbooks.balanced⟩

/-- `unbiased_weight` for sizes under a millionth of the interval, where it is the interval, and for
sizes from twice the interval on, where it rounds to one. -/
def coarseWeight (size interval : ℕ) : ℕ := if size * 1000000 < interval then interval else 1

/-- Two samples of one stack, one of them removed after a change of interval that leaves its weight
the same. -/
theorem live_counters_balanced_sameWeight :
    ∃ r, run (pprofStep coarseWeight) .init
      [.setPprofConfig (some 1), .recordSample [1, 2] 0x1000 1024 28,
        .recordSample [1, 2] 0x2000 1024 28, .setPprofConfig (some 4),
        .maybeRemoveSample 0x1000] = some r ∧ r.Balanced coarseWeight :=
  live_counters_balanced coarseWeight _ (by decide +kernel)

/-- A sample removed after the interval was doubled leaves a negative count behind with no
record. -/
theorem live_counters_negative :
    ∃ r, run (pprofStep coarseWeight) .init
      [.setPprofConfig (some 32000000), .recordSample [1] 0x1000 16 4,
        .setPprofConfig (some 64000000), .maybeRemoveSample 0x1000] = some r ∧
      r.state.side.entries = [] ∧ r.state.stackTable.counters[0]?.map StackCounters.liveCount =
        some (-32000000) ∧
      ¬r.Balanced coarseWeight := by
  have hends : (run (pprofStep coarseWeight) .init
      [.setPprofConfig (some 32000000), .recordSample [1] 0x1000 16 4,
        .setPprofConfig (some 64000000),
        .maybeRemoveSample 0x1000]).map (fun r => (r.state.side.entries,
        r.state.stackTable.counters)) =
      some ([], [⟨32000000, 512000000, -32000000, -512000000⟩]) := by decide +kernel
  obtain ⟨r, hrun, hr⟩ := Option.map_eq_some_iff.mp hends
  obtain ⟨hside, hcounters⟩ := Prod.mk.inj hr
  refine ⟨r, hrun, hside, by rw [hcounters]; rfl, fun hbalanced => ?_⟩
  have hneg := (hbalanced.nonneg _ (by rw [hcounters]; exact List.mem_singleton_self _)).1
  exact absurd hneg (by decide)

end ClMalloc
