import ClMalloc.PprofLive
import ClMalloc.PprofRoundTrip

/-!
# A dump is closed and unambiguous

After any calls every stack has counters and the counters are in the ranges of their types,
also when more stacks were seen than a `u32` can number, so that stacks share an id. A dump
then finds everything it looks up. In the profile it writes no string, location or function is
there twice, everything that is referred to is there, and following the references of a
sample leads back to the addresses of its stack, to their names and to its class.
-/

namespace ClMalloc

open Wire Intern Transition

/-- Every stack has counters, they are in the ranges of their types, and every record belongs to a
stack. -/
structure PprofState.Sound (st : PprofState) : Prop where
  hasCounters : st.HasCounters
  inRange : st.InRange
  records : ∀ ptr record, st.side.lookup ptr = some record →
    record.stackId < st.stackTable.counters.length

/-- The same tables, iterated over in another order. -/
structure PprofState.Reordered (st st' : PprofState) : Prop where
  map : st.stackTable.map.entries.Perm st'.stackTable.map.entries
  counters : st'.stackTable.counters = st.stackTable.counters
  side : st.side.entries.Perm st'.side.entries

section Runs

variable {st : PprofState}

/-- A wrapped sum is in the range of `i64`. -/
theorem isI64_i64 (n : ℤ) : IsI64 (i64 n) := by
  unfold IsI64 i64
  omega

/-- A wrapped sum is in the range of `u64`. -/
theorem u64_lt (n : ℕ) : u64 n < 0x10000000000000000 := Nat.mod_lt _ (by decide)

/-- The counters of a new stack are in range. -/
theorem StackCounters.inRange_zero : StackCounters.zero.InRange :=
  ⟨by decide, by decide, ⟨by decide, by decide⟩, ⟨by decide, by decide⟩⟩

/-- A sample leaves counters in range. -/
theorem StackCounters.inRange_onSample (c : StackCounters) (weight size : ℕ) :
    (c.onSample weight size).InRange :=
  ⟨u64_lt _, u64_lt _, isI64_i64 _, isI64_i64 _⟩

/-- A removal leaves counters in range. -/
theorem StackCounters.InRange.onRemove {c : StackCounters} (h : c.InRange) (weight size : ℕ) :
    (c.onRemove weight size).InRange :=
  ⟨h.allocCount, h.allocBytes, isI64_i64 _, isI64_i64 _⟩

/-- Interning a stack returns an id that has counters, known or new, wrapped or not. -/
theorem PprofState.Sound.intern (h : st.Sound) (frames : List ℕ) :
    (st.stackTable.intern frames).2 < (st.stackTable.intern frames).1.counters.length ∧
      (⟨(st.stackTable.intern frames).1, st.side⟩ : PprofState).Sound := by
  cases hlookup : st.stackTable.map.lookup frames with
  | some id =>
    have hid := h.hasCounters ⟨frames, id⟩ (AList.mem_lookup_iff.mp hlookup)
    simp only [StackTable.intern, hlookup]
    exact ⟨hid, h⟩
  | none =>
    have hnew : frames ∉ st.stackTable.map := AList.lookup_eq_none.mp hlookup
    have hid : st.stackTable.counters.length % stackIdLimit < st.stackTable.counters.length + 1 :=
      Nat.lt_succ_of_le (Nat.mod_le _ _)
    simp only [StackTable.intern, hlookup, List.length_append, List.length_singleton]
    refine ⟨hid, ?_, ?_, ?_⟩
    · simp only [PprofState.HasCounters, AList.entries_insert_of_notMem hnew, List.forall_mem_cons,
        List.length_append, List.length_singleton]
      exact ⟨hid, fun stack hstack => Nat.lt_succ_of_lt (h.hasCounters stack hstack)⟩
    · simp only [PprofState.InRange, List.forall_mem_append, List.mem_singleton, forall_eq]
      exact ⟨h.inRange, StackCounters.inRange_zero⟩
    · intro ptr record hrecord
      simp only [List.length_append, List.length_singleton]
      exact Nat.lt_succ_of_lt (h.records ptr record hrecord)

/-- Counters in range replace counters. -/
theorem PprofState.Sound.setCounters (h : st.Sound) {c : StackCounters} (hc : c.InRange) (id : ℕ) :
    (⟨{ st.stackTable with counters := st.stackTable.counters.set id c },
      st.side⟩ : PprofState).Sound := by
  refine ⟨?_, ?_, ?_⟩
  · intro stack hstack
    simp only [List.length_set]
    exact h.hasCounters stack hstack
  · intro c' hc'
    rcases List.mem_or_eq_of_mem_set hc' with hold | rfl
    · exact h.inRange c' hold
    · exact hc
  · intro ptr record hrecord
    simp only [List.length_set]
    exact h.records ptr record hrecord

/-- A sample is recorded. -/
theorem PprofState.Sound.recordSample (h : st.Sound) (w : ℕ → ℕ → ℕ) (interval : ℕ)
    (frames : List ℕ) (ptr size classIdx : ℕ) :
    ∃ st', st.recordSample w interval frames ptr size classIdx = some st' ∧ st'.Sound := by
  obtain ⟨hid, hsound⟩ := h.intern frames
  obtain ⟨table, id, hpair⟩ : ∃ table id, st.stackTable.intern frames = (table, id) := ⟨_, _, rfl⟩
  rw [hpair] at hid hsound
  have hset := hsound.setCounters
    (StackCounters.inRange_onSample (table.counters.get ⟨id, hid⟩) (w size interval) size) id
  refine ⟨_, by simp only [PprofState.recordSample, hpair, List.getElem?_eq_getElem hid]; rfl, ?_⟩
  refine ⟨hset.hasCounters, hset.inRange, ?_⟩
  intro p record hrecord
  rcases MapSum.lookup_insert_cases hrecord with ⟨-, rfl⟩ | ⟨-, hold⟩
  · simpa only [List.length_set] using hid
  · exact hset.records p record hold

/-- A removal is carried out. -/
theorem PprofState.Sound.maybeRemoveSample (h : st.Sound) (w : ℕ → ℕ → ℕ) (interval ptr : ℕ) :
    ∃ st', st.maybeRemoveSample w interval ptr = some st' ∧ st'.Sound := by
  cases hlookup : st.side.lookup ptr with
  | none => exact ⟨st, by simp only [PprofState.maybeRemoveSample, hlookup], h⟩
  | some record =>
    have hid := h.records ptr record hlookup
    have hset := h.setCounters
      ((h.inRange _ (List.getElem_mem hid)).onRemove (w record.size interval) record.size)
      record.stackId
    refine ⟨_, by
      simp only [PprofState.maybeRemoveSample, hlookup, List.getElem?_eq_getElem hid]
      rfl, ?_⟩
    refine ⟨hset.hasCounters, hset.inRange, ?_⟩
    intro p record' hrecord
    exact hset.records p record' (MapSum.lookup_erase_cases hrecord).2

/-- The profiler starts sound. -/
theorem PprofState.sound_new : PprofState.new.Sound := by
  refine ⟨?_, ?_, ?_⟩
  · simp [PprofState.HasCounters, PprofState.new, StackTable.new]
  · simp [PprofState.InRange, PprofState.new, StackTable.new]
  · simp [PprofState.new]

/-- Every call is carried out and keeps the tables sound. -/
theorem PprofState.Sound.step {r : PprofRun} (h : r.state.Sound) (w : ℕ → ℕ → ℕ)
    (call : PprofCall) :
    ∃ r', pprofStep w r call = some r' ∧ r'.state.Sound := by
  cases call with
  | setPprofConfig config => exact ⟨_, rfl, h⟩
  | recordSample frames ptr size classIdx =>
    obtain ⟨st', hst', hsound⟩ := h.recordSample w r.globals.interval frames ptr size classIdx
    exact ⟨_, by simp only [pprofStep, hst', Option.map_some]; rfl, hsound⟩
  | maybeRemoveSample ptr =>
    obtain ⟨st', hst', hsound⟩ := h.maybeRemoveSample w r.globals.interval ptr
    exact ⟨_, by simp only [pprofStep, hst', Option.map_some]; rfl, hsound⟩

/-- Any calls are carried out and leave the tables sound. -/
theorem PprofRun.exists_run_sound (w : ℕ → ℕ → ℕ) (calls : List PprofCall) :
    ∃ r, run (pprofStep w) .init calls = some r ∧ r.state.Sound :=
  exists_run_of_total (I := fun r : PprofRun => r.state.Sound)
    (fun _ call h => h.step w call) PprofState.sound_new calls

end Runs

namespace Proto

/-- The string an index denotes. -/
def Profile.str (p : Profile) (index : ℤ) : Option String :=
  if 0 ≤ index then p.stringTable[index.toNat]? else none

/-- Every string index of the profile. -/
def Profile.stringIndices (p : Profile) : List ℤ :=
  (p.sampleType ++ p.periodType.toList).flatMap (fun t => [t.type, t.unit]) ++
    p.function.flatMap (fun f => [f.name, f.systemName]) ++
    p.sample.flatMap (fun s => s.label.flatMap fun l => [l.key, l.str])

/-- Nothing is there twice and everything that is referred to is there. -/
structure Profile.Closed (p : Profile) : Prop where
  empty : p.stringTable[0]? = some ""
  strings : p.stringTable.Nodup
  locations : (p.location.map Location.id).Nodup ∧ ∀ l ∈ p.location, l.id ≠ 0
  functions : (p.function.map Function.id).Nodup ∧ ∀ f ∈ p.function, f.id ≠ 0
  sampleLocations : ∀ s ∈ p.sample, ∀ id ∈ s.locationId, (p.location.map Location.id).count id = 1
  lineFunctions : ∀ l ∈ p.location,
    ∀ line ∈ l.line, (p.function.map Function.id).count line.functionId = 1
  indices : ∀ i ∈ p.stringIndices, 0 ≤ i ∧ i < p.stringTable.length

end Proto

/-- What the references of a profile lead to: `addressOf` says which address a location is for. -/
structure PprofState.Described (st : PprofState) (resolve : Resolver) (p : Proto.Profile)
    (addressOf : ℕ → ℕ) :
    Prop where
  sampleType : p.sampleType.map (fun t => (p.str t.type, p.str t.unit)) =
    [(some "alloc_objects", some "count"), (some "alloc_space", some "bytes"),
      (some "inuse_objects", some "count"), (some "inuse_space", some "bytes")]
  periodType : p.periodType.map (fun t => (p.str t.type, p.str t.unit)) =
    some (some "space", some "bytes")
  injective : ∀ l ∈ p.location, ∀ l' ∈ p.location, addressOf l.id = addressOf l'.id → l = l'
  names : ∀ l ∈ p.location, ∃ f ∈ p.function, l.line = [⟨f.id⟩] ∧
    p.str f.name = some (frameName resolve (addressOf l.id)) ∧
    p.str f.systemName = some (frameName resolve (addressOf l.id))
  samples : List.Forall₂ (fun stack s => s.locationId.map addressOf = stack.1 ∧
    s.label.map (fun l => (p.str l.key, p.str l.str)) =
      (st.classOf stack.2).toList.map fun c =>
        (some "size_class", some (toString c))) st.reported p.sample

section Described

variable {resolve : Resolver} {st : PprofState} {now : Option ℕ} {interval : ℕ}

/-- No address is there twice. -/
theorem PprofState.nodup_addresses (st : PprofState) : st.addresses.Nodup :=
  nodup_internAll List.nodup_nil _

/-- No string is there twice. -/
theorem PprofState.nodup_strings (resolve : Resolver) (st : PprofState) :
    (st.strings resolve).Nodup :=
  nodup_internAll (by decide) _

/-- The address of the location with a number. -/
def PprofState.addressOf (st : PprofState) (id : ℕ) : ℕ := (st.addresses[id - 1]?).getD 0

/-- The location of an address is for the address. -/
theorem PprofState.addressOf_idOf {ip : ℕ} (h : ip ∈ st.addresses) :
    st.addressOf (st.idOf ip) = ip := by
  simp [PprofState.addressOf, PprofState.idOf,
    List.getElem?_eq_getElem (List.idxOf_lt_length_of_mem h)]

/-- The strings every profile has are among the strings. -/
theorem PprofState.mem_strings_fixed {s : String} (h : s ∈ fixedStrings) : s ∈ st.strings resolve :=
  (st.prefix_strings resolve).subset h

/-- The names of the addresses are among the strings. -/
theorem PprofState.mem_strings_name {ip : ℕ} (h : ip ∈ st.addresses) :
    frameName resolve ip ∈ st.strings resolve := by
  rw [PprofState.strings, mem_internAll]
  exact Or.inr (List.mem_append_left _ (List.mem_map_of_mem h))

/-- The classes of the samples are among the strings. -/
theorem PprofState.mem_strings_class {stack : (_ : List ℕ) × ℕ} (h : stack ∈ st.reported) {c : ℕ}
    (hc : st.classOf stack.2 = some c) : toString c ∈ st.strings resolve := by
  rw [PprofState.strings, mem_internAll]
  refine Or.inr (List.mem_append_right _ (List.mem_filterMap.mpr ⟨stack, h, ?_⟩))
  rw [hc]
  rfl

/-- The index of a string of the profile denotes it. -/
theorem PprofState.str_idxOf {s : String} (h : s ∈ st.strings resolve) :
    (st.profile resolve now interval).str ((st.strings resolve).idxOf s : ℤ) = some s := by
  rw [Proto.Profile.str, if_pos (Int.natCast_nonneg _), Int.toNat_natCast]
  exact List.getElem?_idxOf h

/-- The index of a string of the profile is below the length of its table. -/
theorem PprofState.idxOf_lt {s : String} (h : s ∈ st.strings resolve) :
    0 ≤ ((st.strings resolve).idxOf s : ℤ) ∧
      ((st.strings resolve).idxOf s : ℤ) < (st.strings resolve).length := by
  have hlt := List.idxOf_lt_length_of_mem h
  omega

/-- The numbers of the addresses are distinct. -/
theorem PprofState.nodup_ids (st : PprofState) : (st.addresses.map st.idOf).Nodup := by
  apply st.nodup_addresses.map_on
  intro ip hip ip' hip' heq
  rw [← st.addressOf_idOf hip, heq, st.addressOf_idOf hip']

/-- The number of an address is there once. -/
theorem PprofState.count_idOf {ip : ℕ} (h : ip ∈ st.addresses) :
    (st.addresses.map st.idOf).count (st.idOf ip) = 1 :=
  List.count_eq_one_of_mem st.nodup_ids (List.mem_map_of_mem h)

/-- A stack with a sample is one of the stacks. -/
theorem PprofState.mem_of_reported {stack : (_ : List ℕ) × ℕ} (h : stack ∈ st.reported) :
    stack ∈ st.stackTable.map.entries := List.mem_of_mem_filter h

/-- The numbers of the locations. -/
theorem PprofState.profile_locationIds :
    (st.profile resolve now interval).location.map Proto.Location.id = st.addresses.map st.idOf :=
      List.map_map

/-- The numbers of the functions. -/
theorem PprofState.profile_functionIds :
    (st.profile resolve now interval).function.map Proto.Function.id = st.addresses.map st.idOf :=
      List.map_map

/-- Every string index of the profile is below the length of the table. -/
theorem PprofState.profile_indices : ∀ i ∈ (st.profile resolve now interval).stringIndices,
    0 ≤ i ∧ i < (st.strings resolve).length := by
  have hfixed : ∀ s ∈ fixedStrings, 0 ≤ ((st.strings resolve).idxOf s : ℤ) ∧
      ((st.strings resolve).idxOf s : ℤ) < (st.strings resolve).length :=
    fun s hs => PprofState.idxOf_lt (PprofState.mem_strings_fixed hs)
  intro i hi
  simp only [Proto.Profile.stringIndices, List.mem_append, List.mem_flatMap] at hi
  rcases hi with (⟨t, ht, hi⟩ | ⟨f, hf, hi⟩) | ⟨s, hs, l, hl, hi⟩
  · simp only [PprofState.profile, Option.toList_some, List.mem_cons, List.not_mem_nil,
      or_false, or_assoc] at ht
    rcases ht with rfl | rfl | rfl | rfl | rfl <;>
      simp only [List.mem_cons, List.not_mem_nil, or_false] at hi <;>
      rcases hi with rfl | rfl <;>
      exact hfixed _ (by decide)
  · obtain ⟨ip, hip, rfl⟩ := List.mem_map.mp hf
    simp only [List.mem_cons, List.not_mem_nil, or_false, or_self] at hi
    rw [hi]
    exact PprofState.idxOf_lt (PprofState.mem_strings_name hip)
  · obtain ⟨stack, hstack, rfl⟩ := List.mem_map.mp hs
    obtain ⟨c, hc, rfl⟩ := List.mem_map.mp hl
    simp only [List.mem_cons, List.not_mem_nil, or_false] at hi
    rcases hi with rfl | rfl
    · exact hfixed _ (by decide)
    · exact PprofState.idxOf_lt (PprofState.mem_strings_class hstack (Option.mem_toList.mp hc))

/-- The profile of a state is closed. -/
theorem PprofState.profile_closed : (st.profile resolve now interval).Closed := by
  refine ⟨?_, st.nodup_strings resolve, ⟨?_, ?_⟩, ⟨?_, ?_⟩, ?_, ?_, PprofState.profile_indices⟩
  · obtain ⟨rest, hrest⟩ := st.prefix_strings resolve
    show (st.strings resolve)[0]? = some ""
    rw [← hrest]
    rfl
  · rw [PprofState.profile_locationIds]
    exact st.nodup_ids
  · exact List.forall_mem_map.mpr fun ip _ => Nat.succ_ne_zero _
  · rw [PprofState.profile_functionIds]
    exact st.nodup_ids
  · exact List.forall_mem_map.mpr fun ip _ => Nat.succ_ne_zero _
  · rw [PprofState.profile_locationIds]
    refine List.forall_mem_map.mpr fun stack hstack => List.forall_mem_map.mpr fun ip hip => ?_
    exact PprofState.count_idOf (PprofState.mem_addresses (PprofState.mem_of_reported hstack) hip)
  · rw [PprofState.profile_functionIds]
    refine List.forall_mem_map.mpr fun ip hip => ?_
    simp only [List.mem_singleton, forall_eq]
    exact PprofState.count_idOf hip

/-- A pair of strings every profile has is denoted by its indices. -/
theorem PprofState.str_valueType {type unit : String} (htype : type ∈ fixedStrings)
    (hunit : unit ∈ fixedStrings) :
    ((st.profile resolve now interval).str ((st.strings resolve).idxOf type : ℤ),
      (st.profile resolve now interval).str ((st.strings resolve).idxOf unit : ℤ)) = (some type,
        some unit) := by
  rw [PprofState.str_idxOf (PprofState.mem_strings_fixed htype),
    PprofState.str_idxOf (PprofState.mem_strings_fixed hunit)]

/-- The sample of a stack leads to its addresses and its class. -/
theorem PprofState.sampleOf_described {stack : (_ : List ℕ) × ℕ} (h : stack ∈ st.reported) :
    (st.sampleOf (st.strings resolve) stack).locationId.map st.addressOf = stack.1 ∧
      (st.sampleOf (st.strings resolve) stack).label.map
        (fun l => ((st.profile resolve now interval).str l.key,
        (st.profile resolve now interval).str l.str)) =
      (st.classOf stack.2).toList.map fun c => (some "size_class", some (toString c)) := by
  constructor
  · calc (stack.1.map st.idOf).map st.addressOf = stack.1.map (st.addressOf ∘ st.idOf) :=
      List.map_map
      _ = stack.1.map id := List.map_congr_left fun ip hip =>
        PprofState.addressOf_idOf (PprofState.mem_addresses (PprofState.mem_of_reported h) hip)
      _ = stack.1 := List.map_id _
  · rw [PprofState.sampleOf, List.map_map]
    apply List.map_congr_left
    intro c hc
    rw [Function.comp_apply, PprofState.str_idxOf (PprofState.mem_strings_fixed (by decide)),
      PprofState.str_idxOf (PprofState.mem_strings_class h (Option.mem_toList.mp hc))]

/-- The references of the profile of a state lead to the addresses, names and classes of the
state. -/
theorem PprofState.profile_described :
    st.Described resolve (st.profile resolve now interval) st.addressOf := by
  refine ⟨?_, ?_, ?_, ?_, ?_⟩
  · apply congrArg₂ List.cons (PprofState.str_valueType (by decide) (by decide))
    apply congrArg₂ List.cons (PprofState.str_valueType (by decide) (by decide))
    apply congrArg₂ List.cons (PprofState.str_valueType (by decide) (by decide))
    exact congrArg₂ List.cons (PprofState.str_valueType (by decide) (by decide)) rfl
  · exact congrArg some (PprofState.str_valueType (by decide) (by decide))
  · refine List.forall_mem_map.mpr fun ip hip => List.forall_mem_map.mpr fun ip' hip' heq => ?_
    simp only [st.addressOf_idOf hip, st.addressOf_idOf hip'] at heq
    rw [heq]
  · refine List.forall_mem_map.mpr fun ip hip => ⟨_, List.mem_map_of_mem hip, rfl, ?_, ?_⟩
    · simp only [st.addressOf_idOf hip]
      exact PprofState.str_idxOf (PprofState.mem_strings_name hip)
    · simp only [st.addressOf_idOf hip]
      exact PprofState.str_idxOf (PprofState.mem_strings_name hip)
  · exact List.forall₂_map_right_iff.mpr (List.forall₂_same.mpr fun stack hstack =>
      PprofState.sampleOf_described hstack)

end Described

/-- Reordering sound tables leaves them sound. -/
theorem PprofState.Sound.reordered {st st' : PprofState} (h : st.Sound)
    (horder : st.Reordered st') : st'.Sound := by
  refine ⟨?_, ?_, ?_⟩
  · intro stack hstack
    rw [horder.counters]
    exact h.hasCounters stack (horder.map.mem_iff.mpr hstack)
  · intro c hc
    rw [horder.counters] at hc
    exact h.inRange c hc
  · intro ptr record hrecord
    rw [horder.counters]
    apply h.records ptr record
    rwa [AList.perm_lookup horder.side]

/-- After any calls, in whatever order the tables are iterated over, a dump fails only if its bytes
do not fit a buffer, and the profile its bytes are parsed to is closed and describes the tables. -/
theorem buildProfile_closed (w : ℕ → ℕ → ℕ) (calls : List PprofCall) {r : PprofRun}
    (hrun : run (pprofStep w) .init calls = some r) {st : PprofState}
    (horder : r.state.Reordered st) (resolve : Resolver) (now : Option ℕ) {interval : ℕ}
    (hinterval : interval < 0x10000000000000000) :
    (isizeMax < (st.profile resolve now interval).bytes.length ∧
        st.buildProfile resolve now interval = .error .capacityOverflow ∨
      ∃ bytes, st.buildProfile resolve now interval = .ok bytes) ∧
    ∀ bytes, st.buildProfile resolve now interval = .ok bytes →
      ∃ p, Proto.Profile.parse bytes = some p ∧ p.Closed ∧
        ∃ addressOf, st.Described resolve p addressOf := by
  obtain ⟨r', hrun', hsound⟩ := PprofRun.exists_run_sound w calls
  obtain rfl := Option.some.inj (hrun'.symm.trans hrun)
  have hsound := hsound.reordered horder
  constructor
  · rw [PprofState.buildProfile_eq hsound.inRange hinterval hsound.hasCounters]
    split
    · exact Or.inr ⟨_, rfl⟩
    · rename_i hlength
      exact Or.inl ⟨Nat.lt_of_not_le hlength, rfl⟩
  · intro bytes hbytes
    exact ⟨st.profile resolve now interval,
      PprofState.parse_of_buildProfile hsound.inRange hinterval hbytes,
      PprofState.profile_closed, st.addressOf, PprofState.profile_described⟩

/-- Two stacks that share an address, one with its sample removed, iterated over in the order they
came in. -/
def sharedAddressState : PprofState :=
  ⟨⟨((∅ : AList fun _ : List ℕ => ℕ).insert [2, 3] 1).insert [1, 2] 0,
    [⟨1, 1024, 0, 0⟩, ⟨1, 64, 1, 64⟩]⟩, (∅ : SideTable).insert 0x2000 ⟨1, 64, 9⟩⟩

/-- A dump of two stacks that share an address, with every address named like a unit, is closed. -/
theorem buildProfile_closed_sharedAddress :
    ∃ r, run (pprofStep coarseWeight) .init
      [.setPprofConfig (some 1), .recordSample [1, 2] 0x1000 1024 28,
        .recordSample [2, 3] 0x2000 64 9,
        .maybeRemoveSample 0x1000] = some r ∧ r.state.Reordered sharedAddressState ∧
      ∃ bytes, sharedAddressState.buildProfile (fun _ => [some "count"]) none 1 = .ok bytes ∧
        ∃ p, Proto.Profile.parse bytes = some p ∧ p.Closed ∧
          ∃ addressOf, sharedAddressState.Described (fun _ => [some "count"]) p addressOf := by
  have hends : (run (pprofStep coarseWeight) .init
      [.setPprofConfig (some 1), .recordSample [1, 2] 0x1000 1024 28,
        .recordSample [2, 3] 0x2000 64 9, .maybeRemoveSample 0x1000]).map (fun r =>
          decide (r.state.stackTable.map.entries.Perm sharedAddressState.stackTable.map.entries ∧
            sharedAddressState.stackTable.counters = r.state.stackTable.counters ∧
            r.state.side.entries.Perm sharedAddressState.side.entries)) = some true := by
    decide +kernel
  obtain ⟨r, hrun, hr⟩ := Option.map_eq_some_iff.mp hends
  obtain ⟨hmap, hcounters, hside⟩ := of_decide_eq_true hr
  have horder : r.state.Reordered sharedAddressState := ⟨hmap, hcounters, hside⟩
  obtain ⟨hbuild, hclosed⟩ :=
    buildProfile_closed coarseWeight _ hrun horder (fun _ => [some "count"]) none
      (show 1 < _ by decide)
  have hshort : ¬isizeMax < (sharedAddressState.profile
      (fun _ => [some "count"]) none 1).bytes.length := by
    decide +kernel
  obtain ⟨bytes, hbytes⟩ := hbuild.resolve_left fun h => hshort h.1
  exact ⟨r, hrun, horder, bytes, hbytes, hclosed bytes hbytes⟩

end ClMalloc
