import ClMalloc.PprofProfile

/-!
# A dump is read back

The profile of a state fits the types of its messages when its bytes fit a buffer: every
string and every address takes a byte at least, so their indices are small. The bytes
`build_profile` returns are then parsed to the profile of the state, for any tables whose
counters are in the ranges of their types. It panics exactly when a stack has no counters or
the bytes do not fit a buffer.
-/

namespace ClMalloc

open Wire Intern

/-- The counters are in the ranges of their types. -/
structure StackCounters.InRange (c : StackCounters) : Prop where
  allocCount : c.allocCount < 0x10000000000000000
  allocBytes : c.allocBytes < 0x10000000000000000
  liveCount : IsI64 c.liveCount
  liveBytes : IsI64 c.liveBytes

/-- The counters of all stacks are in the ranges of their types. -/
def PprofState.InRange (st : PprofState) : Prop := ∀ c ∈ st.stackTable.counters, c.InRange

/-- Every stack has counters. -/
def PprofState.HasCounters (st : PprofState) : Prop :=
  ∀ stack ∈ st.stackTable.map.entries, stack.2 < st.stackTable.counters.length

variable {resolve : Resolver} {st : PprofState} {now : Option ℕ} {interval : ℕ}

/-- The bits of a natural number below the bound of `u64`. -/
theorem castUnsigned_natCast {n : ℕ} (h : n < 0x10000000000000000) : castUnsigned n = n := by
  unfold castUnsigned
  omega

/-- The counters of a stack are in range; those of a stack without any are taken to be zero. -/
theorem PprofState.InRange.getD (h : st.InRange) (stackId : ℕ) :
    (st.stackTable.counters[stackId]?.getD .zero).InRange := by
  cases hc : st.stackTable.counters[stackId]? with
  | some c => exact h c (List.mem_of_getElem? hc)
  | none => exact ⟨by decide, by decide, ⟨by decide, by decide⟩, ⟨by decide, by decide⟩⟩

/-- An index of a table that is not too long fits. -/
theorem castUnsigned_idxOf {strings : List String} (h : strings.length < 0x10000000000000000)
    (s : String) :
    castUnsigned (strings.idxOf s : ℤ) = strings.idxOf s :=
  castUnsigned_natCast (Nat.lt_of_le_of_lt List.idxOf_le_length h)

/-- The fields of a label are written as those of its message. -/
theorem PprofState.labelFields_eq {strings : List String} (h : strings.length < 0x10000000000000000)
    (stackId : ℕ) :
    st.labelFields strings stackId =
      ((st.classOf stackId).toList.map fun c =>
        (⟨strings.idxOf "size_class", strings.idxOf (toString c)⟩ : Proto.Label)).map
        fun l => ⟨3, .bytes (encode l.fields)⟩ := by
  simp [PprofState.labelFields, pairFields, Proto.Label.fields, castUnsigned_idxOf h]

/-- The fields of a sample are written as those of its message. -/
theorem PprofState.sampleFields_eq (hrange : st.InRange) {strings : List String}
    (h : strings.length < 0x10000000000000000) (stack : (_ : List ℕ) × ℕ) :
    st.sampleFields strings stack = (st.sampleOf strings stack).fields := by
  have hc := hrange.getD stack.2
  simp only [PprofState.sampleFields, PprofState.sampleOf, Proto.Sample.fields, valueFields,
    labelFields_eq h, List.map_map, List.map_cons, List.map_nil,
    castUnsigned_castSigned hc.allocCount, castUnsigned_castSigned hc.allocBytes]
  rfl

/-- The fields of the profile are written as those of its message. -/
theorem PprofState.profileFields_eq (hrange : st.InRange)
    (hinterval : interval < 0x10000000000000000)
    (h : (st.strings resolve).length < 0x10000000000000000) :
    st.profileFields resolve now interval = (st.profile resolve now interval).fields := by
  simp only [PprofState.profileFields, PprofState.profile, Proto.Profile.fields,
    Proto.ValueType.fields, Proto.Location.fields, Proto.Line.fields, Proto.Function.fields,
    PprofState.sampleFields_eq hrange h, pairFields, castUnsigned_idxOf h, castUnsigned_time,
    castUnsigned_castSigned hinterval, List.map_map, Function.comp_def, List.map_cons, List.map_nil,
    Option.toList_some]
  rfl

/-- A profile has no fewer bytes than strings and addresses. -/
theorem PprofState.lengths_le (fields : List Field)
    (h : fields = st.profileFields resolve now interval ∨
      fields = (st.profile resolve now interval).fields) :
    (st.strings resolve).length ≤ (encode fields).length ∧
      st.addresses.length ≤ (encode fields).length := by
  have hle := length_le_encode_length fields
  have hstrings : (st.strings resolve).length + st.addresses.length ≤ fields.length := by
    rcases h with rfl | rfl
    · simp only [PprofState.profileFields, List.length_append, List.length_map]
      omega
    · simp only [PprofState.profile, Proto.Profile.fields, List.length_append, List.length_map,
        List.length_cons]
      omega
  omega

/-- When every stack has counters, the bytes are those of the profile of the state, unless they are
too many. -/
theorem PprofState.buildProfile_eq (hrange : st.InRange)
    (hinterval : interval < 0x10000000000000000) (hcounters : st.HasCounters) :
    st.buildProfile resolve now interval =
      if (st.profile resolve now interval).bytes.length ≤ isizeMax then .ok
        (st.profile resolve now interval).bytes
      else .error .capacityOverflow := by
  rw [PprofState.buildProfile_fields hcounters]
  by_cases h : (st.strings resolve).length < 0x10000000000000000
  · rw [PprofState.profileFields_eq hrange hinterval h]
    rfl
  · have hfields := (PprofState.lengths_le
      _ (Or.inl rfl : st.profileFields resolve now interval = _ ∨ _)).1
    have hbytes := (PprofState.lengths_le
      _ (Or.inr rfl : (st.profile resolve now interval).fields = _ ∨ _)).1
    have hmax : isizeMax < 0x10000000000000000 := by decide
    rw [if_neg (by omega), if_neg (by unfold Proto.Profile.bytes; omega)]

/-- The index of a string in a table that fits a buffer. -/
theorem isI64_idxOf {strings : List String} (h : strings.length ≤ isizeMax) (s : String) :
    IsI64 (strings.idxOf s : ℤ) := by
  have hle : strings.idxOf s ≤ strings.length := List.idxOf_le_length
  have hmax : isizeMax < 0x8000000000000000 := by decide
  unfold IsI64
  omega

/-- The profile of a state fits the types of its messages when its bytes fit a buffer. -/
theorem PprofState.profile_fits (hrange : st.InRange)
    (hlength : (st.profile resolve now interval).bytes.length ≤ isizeMax) :
    (st.profile resolve now interval).Fits := by
  obtain ⟨hstrings, haddresses⟩ :=
    PprofState.lengths_le _ (Or.inr rfl : (st.profile resolve now interval).fields = _ ∨ _)
  unfold Proto.Profile.bytes at hlength
  have hidx := isI64_idxOf (hstrings.trans hlength)
  have hid : ∀ ip, st.idOf ip < 0x10000000000000000 := by
    intro ip
    have hle : st.addresses.idxOf ip ≤ st.addresses.length := List.idxOf_le_length
    have hmax : isizeMax < 0x8000000000000000 := by decide
    unfold PprofState.idOf
    omega
  refine ⟨?_, ?_, ?_, ?_, isI64_castSigned _, ?_, isI64_castSigned _⟩
  · simp [PprofState.profile, Proto.ValueType.Fits, hidx]
  · simp only [PprofState.profile, List.forall_mem_map]
    intro stack _
    have hc := hrange.getD stack.2
    refine ⟨?_, ?_, ?_⟩
    · simp [PprofState.sampleOf, hid]
    · simp [PprofState.sampleOf, isI64_castSigned, hc.liveCount, hc.liveBytes]
    · simp [PprofState.sampleOf, Proto.Label.Fits, hidx]
  · simp [PprofState.profile, Proto.Location.Fits, Proto.Line.Fits, hid]
  · simp [PprofState.profile, Proto.Function.Fits, hid, hidx]
  · simp [PprofState.profile, Proto.ValueType.Fits, hidx]

/-- Stacks whose samples are written have counters. -/
theorem PprofState.lt_of_encodeSamples {locMap : AList fun _ : ℕ => ℕ} {stSizeClass : ℕ}
    {entries : List ((_ : List ℕ) × ℕ)} {acc result : List UInt8 × StringTable}
    (h : entries.foldlM (st.encodeSample locMap stSizeClass) acc = .ok result) :
    ∀ stack ∈ entries, stack.2 < st.stackTable.counters.length := by
  induction entries generalizing acc with
  | nil => simp
  | cons stack entries ih =>
    rw [List.foldlM_cons] at h
    cases hhead : st.encodeSample locMap stSizeClass acc stack with
    | error panic =>
      rw [hhead] at h
      cases h
    | ok acc' =>
      rw [hhead] at h
      refine List.forall_mem_cons.mpr ⟨?_, ih h⟩
      apply Nat.lt_of_not_le
      intro hle
      simp [PprofState.encodeSample, List.getElem?_eq_none hle] at hhead

/-- Every stack of a state whose profile is built has counters. -/
theorem PprofState.hasCounters_of_buildProfile {bytes : List UInt8}
    (h : st.buildProfile resolve now interval = .ok bytes) : st.HasCounters := by
  unfold PprofState.buildProfile at h
  dsimp only at h
  split at h
  · cases h
  · rename_i hsamples
    exact PprofState.lt_of_encodeSamples hsamples

/-- The bytes of a dump are parsed to the profile of the state. -/
theorem PprofState.parse_of_buildProfile (hrange : st.InRange)
    (hinterval : interval < 0x10000000000000000) {bytes : List UInt8}
    (hbytes : st.buildProfile resolve now interval = .ok bytes) :
    Proto.Profile.parse bytes = some (st.profile resolve now interval) := by
  have hcounters := PprofState.hasCounters_of_buildProfile hbytes
  rw [PprofState.buildProfile_eq hrange hinterval hcounters] at hbytes
  split at hbytes
  · rename_i hlength
    obtain rfl := Except.ok.inj hbytes
    exact Proto.Profile.parse_bytes (PprofState.profile_fits hrange hlength)
      (Nat.lt_of_le_of_lt hlength (by decide))
  · cases hbytes

/-- The bytes of a dump are parsed, all of them, to the profile of the state, and there are such
bytes exactly when every stack has counters and they fit a buffer. -/
theorem parse_buildProfile (resolve : Resolver) (st : PprofState) (hrange : st.InRange)
    (now : Option ℕ) (interval : ℕ) (hinterval : interval < 0x10000000000000000) :
    (∀ bytes, st.buildProfile resolve now interval = .ok bytes →
      Proto.Profile.parse bytes = some (st.profile resolve now interval)) ∧
    ((∃ bytes, st.buildProfile resolve now interval = .ok bytes) ↔
      st.HasCounters ∧ (st.profile resolve now interval).bytes.length ≤ isizeMax) := by
  refine ⟨fun bytes => PprofState.parse_of_buildProfile hrange hinterval, ?_, ?_⟩
  · rintro ⟨bytes, hbytes⟩
    have hcounters := PprofState.hasCounters_of_buildProfile hbytes
    rw [PprofState.buildProfile_eq hrange hinterval hcounters] at hbytes
    refine ⟨hcounters, ?_⟩
    by_contra hlength
    rw [if_neg hlength] at hbytes
    cases hbytes
  · rintro ⟨hcounters, hlength⟩
    rw [PprofState.buildProfile_eq hrange hinterval hcounters, if_pos hlength]
    exact ⟨_, rfl⟩

/-- One stack that meets an address twice, counted beyond the range of `i64` and below zero, with a
live record. -/
def overdrawnState : PprofState :=
  ⟨⟨(∅ : AList fun _ : List ℕ => ℕ).insert [0x10, 0x20, 0x10] 0,
    [⟨0x8000000000000001, 5, -3, -700⟩]⟩, (∅ : SideTable).insert 0x1000 ⟨0, 100, 12⟩⟩

/-- A dump with a wrapped count, negative counts and two addresses named like a unit is read
back. -/
theorem parse_buildProfile_overdrawn :
    ∃ bytes, overdrawnState.buildProfile (fun _ => [some "count"]) (some 7) 512 = .ok bytes ∧
      Proto.Profile.parse bytes = some
        (overdrawnState.profile (fun _ => [some "count"]) (some 7) 512) := by
  have hrange : overdrawnState.InRange := by
    intro c hc
    obtain rfl := List.mem_singleton.mp hc
    exact ⟨by decide, by decide, ⟨by decide, by decide⟩, ⟨by decide, by decide⟩⟩
  have hcounters : overdrawnState.HasCounters := by
    unfold PprofState.HasCounters
    decide +kernel
  obtain ⟨hparse, hbuild⟩ :=
    parse_buildProfile (fun _ => [some "count"]) overdrawnState hrange (some 7) 512 (by decide)
  obtain ⟨bytes, hbytes⟩ := hbuild.mpr ⟨hcounters, by decide +kernel⟩
  exact ⟨bytes, hbytes, hparse bytes hbytes⟩

end ClMalloc
