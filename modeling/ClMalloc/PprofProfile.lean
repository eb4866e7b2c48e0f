import ClMalloc.Lib.Intern
import ClMalloc.PprofDump
import Mathlib.Data.List.ReduceOption

/-!
# The profile a dump describes

What `build_profile` is for, said without its buffers and counters: the addresses of all
stacks in the order they are first met, the location and the function of an address numbered
by its place in that order, and the strings in the order they are first used, every use
naming the place of its string. The bytes of `build_profile` are those of this profile.
-/

namespace ClMalloc

open Wire Intern

/-- The strings every profile has. -/
def fixedStrings : List String :=
  ["", "alloc_objects", "alloc_space", "inuse_objects", "inuse_space", "count", "bytes",
    "size_class", "space"]

/-- Something is counted for the stack. -/
def PprofState.Counted (st : PprofState) (stack : (_ : List ℕ) × ℕ) : Prop :=
  ∃ c ∈ st.stackTable.counters[stack.2]?, ¬(c.allocCount = 0 ∧ c.liveCount = 0)

/-- Whether something is counted can be computed. -/
instance (st : PprofState) (stack : (_ : List ℕ) × ℕ) : Decidable (st.Counted stack) :=
  inferInstanceAs (Decidable (∃ c ∈ st.stackTable.counters[stack.2]?,
    ¬(c.allocCount = 0 ∧ c.liveCount = 0)))

/-- The last name the symbols of an address have, or else the address in hexadecimal. -/
def frameName (resolve : Resolver) (ip : ℕ) : String :=
  (resolve ip).reduceOption.getLastD ("0x" ++ String.ofList (Nat.toDigits 16 ip))

section Described

variable (resolve : Resolver) (st : PprofState)

/-- The stacks of a list that something is counted for. -/
def PprofState.countedOf (entries : List ((_ : List ℕ) × ℕ)) : List ((_ : List ℕ) × ℕ) :=
  entries.filter fun stack => st.Counted stack

/-- The stacks a sample is written for. -/
def PprofState.reported : List ((_ : List ℕ) × ℕ) := st.countedOf st.stackTable.map.entries

/-- The addresses of all stacks in the order they are first met. -/
def PprofState.addresses : List ℕ := internAll [] st.stackTable.map.keys.flatten

/-- The class of the first record of a stack in the side table. -/
def PprofState.classOf (stackId : ℕ) : Option ℕ :=
  (st.side.entries.filter fun e => e.2.stackId = stackId).head?.map fun e => e.2.classIdx

/-- The labels of the samples in order. -/
def PprofState.classStrings (reported : List ((_ : List ℕ) × ℕ)) : List String :=
  reported.filterMap fun stack => (st.classOf stack.2).map toString

/-- The strings in the order they are first used. -/
def PprofState.strings : List String :=
  internAll fixedStrings (st.addresses.map (frameName resolve) ++ st.classStrings st.reported)

/-- The number of the location and of the function of an address. -/
def PprofState.idOf (ip : ℕ) : ℕ := st.addresses.idxOf ip + 1

/-- The sample of a stack, given the strings. -/
def PprofState.sampleOf (strings : List String) (stack : (_ : List ℕ) × ℕ) : Proto.Sample where
  locationId := stack.1.map st.idOf
  value :=
    let c := st.stackTable.counters[stack.2]?.getD .zero
    [castSigned c.allocCount, castSigned c.allocBytes, c.liveCount, c.liveBytes]
  label := (st.classOf stack.2).toList.map fun c =>
    ⟨strings.idxOf "size_class", strings.idxOf (toString c)⟩

/-- The profile of the state. A clock before the epoch is taken to be at the epoch. -/
def PprofState.profile (now : Option ℕ) (interval : ℕ) : Proto.Profile :=
  let strings := st.strings resolve
  let valueType (type unit : String) : Proto.ValueType := ⟨strings.idxOf type, strings.idxOf unit⟩
  { sampleType := [valueType "alloc_objects" "count", valueType "alloc_space" "bytes",
      valueType "inuse_objects" "count", valueType "inuse_space" "bytes"]
    sample := st.reported.map (st.sampleOf strings)
    location := st.addresses.map fun ip => ⟨st.idOf ip, [⟨st.idOf ip⟩]⟩
    function := st.addresses.map fun ip =>
      ⟨st.idOf ip, strings.idxOf (frameName resolve ip), strings.idxOf (frameName resolve ip)⟩
    stringTable := strings
    timeNanos := castSigned (now.getD 0)
    periodType := some (valueType "space" "bytes")
    period := castSigned interval }

end Described

/-- The last name is the one the loop over the symbols ends with. -/
theorem foldl_getD_eq_getLastD (names : List (Option String)) (start : String) :
    names.foldl (fun name symbol => symbol.getD name) start =
      names.reduceOption.getLastD start := by
  induction names generalizing start with
  | nil => rfl
  | cons symbol names ih =>
    rw [List.foldl_cons, ih]
    cases symbol with
    | none => rw [List.reduceOption_cons_of_none, Option.getD_none]
    | some name => rw [List.reduceOption_cons_of_some, Option.getD_some, List.getLastD_cons]

/-- `resolve_symbol` interns the name of the address. -/
theorem resolveSymbol_eq (resolve : Resolver) (ip : ℕ) (strings : StringTable) :
    resolveSymbol resolve ip strings = strings.intern (frameName resolve ip) := by
  rw [resolveSymbol, symbolName, foldl_getD_eq_getLastD, frameName]

/-- The record found for a stack has its class. -/
theorem PprofState.findRecord_map (st : PprofState) (stackId : ℕ) :
    (st.findRecord stackId).map SampleRecord.classIdx = st.classOf stackId := by
  rw [PprofState.findRecord, PprofState.classOf, List.find?_map, Option.map_map, List.head?_filter]
  rfl

/-- The time is written with the bits of a `u64`. -/
theorem castUnsigned_time (now : Option ℕ) :
    castUnsigned (castSigned (now.getD 0)) = nanosOf now := by
  cases now with
  | none => rfl
  | some nanos =>
    simp only [castUnsigned, castSigned, i64, nanosOf, u64, Option.getD_some]
    omega

/-- The low seven bits with the high bit set are the low seven bits with 128 added. -/
theorem ofNat_or_high (n : ℕ) :
    UInt8.ofNat (n &&& 0x7F) ||| 0x80 = UInt8.ofNat (n % 128 + 128) := by
  apply UInt8.toNat_inj.mp
  have hmod : n &&& 0x7F = n % 128 := Nat.and_two_pow_sub_one_eq_mod n 7
  have hlow := toNat_ofNat (n := n % 128) (by omega)
  have hor := Nat.two_pow_add_eq_or_of_lt (i := 7) (b := n % 128) (by omega) 1
  rw [UInt8.toNat_or, hmod, hlow, toNat_ofNat (by omega), Nat.or_comm]
  exact hor.symm.trans (Nat.add_comm _ _)

/-- The loop appends the integer in base 128. -/
theorem encodeVarint_eq (buf : List UInt8) (val : ℕ) :
    encodeVarint buf val = buf ++ varint val := by
  induction val using Nat.strongRecOn generalizing buf with
  | ind val ih =>
    have hshift : val >>> 7 = val / 128 := Nat.shiftRight_eq_div_pow val 7
    have hmod : val &&& 0x7F = val % 128 := Nat.and_two_pow_sub_one_eq_mod val 7
    rw [encodeVarint, varint, ofNat_or_high, hshift, hmod]
    by_cases h : val < 128
    · rw [if_pos (by omega), if_pos h, Nat.mod_eq_of_lt h]
    · rw [if_neg (by omega), if_neg h, ih (val / 128) (by omega), List.append_assoc,
        List.singleton_append]

/-- An integer field is appended. -/
theorem encodeVarintField_eq (buf : List UInt8) (field val : ℕ) :
    encodeVarintField buf field val = buf ++ (⟨field, .varint val⟩ : Field).encode := by
  simp only [encodeVarintField, encodeVarint_eq, Field.encode, Value.wireType, Value.encode,
    Nat.shiftLeft_eq, List.append_assoc]
  rfl

/-- A field of bytes is appended. -/
theorem encodeField_eq (buf : List UInt8) (field : ℕ) (data : List UInt8) :
    encodeField buf field data = buf ++ (⟨field, .bytes data⟩ : Field).encode := by
  have htag : field <<< 3 ||| 2 = field * 8 + 2 := by
    have hor := Nat.two_pow_add_eq_or_of_lt (i := 3) (b := 2) (by omega) field
    rw [Nat.shiftLeft_eq, Nat.mul_comm, ← hor]
  simp only [encodeField, encodeVarint_eq, htag, Field.encode, Value.wireType, Value.encode,
    List.append_assoc]

/-- A loop that appends a field for each item appends the fields of all items. -/
theorem foldl_append_fields {α : Type*} {put : List UInt8 → α → List UInt8} {field : α → Field}
    (h : ∀ buf a, put buf a = buf ++ (field a).encode) (items : List α) (buf : List UInt8) :
    items.foldl put buf = buf ++ encode (items.map field) := by
  induction items generalizing buf with
  | nil => simp
  | cons a items ih => rw [List.foldl_cons, ih, h, List.map_cons, encode_cons, List.append_assoc]

/-- Interning a string appends it unless it is known and returns its index. -/
theorem StringTable.intern_eq {t : StringTable} (h : Indexes 0 t.map t.table) (s : String) :
    (t.intern s).1.table = Intern.intern t.table s ∧
      (t.intern s).2 = (Intern.intern t.table s).idxOf s ∧
      Indexes 0 (t.intern s).1.map (t.intern s).1.table := by
  by_cases hs : s ∈ t.table
  · simp only [StringTable.intern, h.lookup_of_mem hs, intern_of_mem hs, Nat.add_zero, true_and]
    exact h
  · have hidx : (t.table ++ [s]).idxOf s = t.table.length := by
      rw [List.idxOf_append_of_notMem hs]
      simp
    simp only [StringTable.intern, h.lookup_of_notMem hs, intern_of_notMem hs, hidx, true_and]
    exact h.insert hs

/-- The tables cover the addresses met so far, each with the number of its place. -/
structure FrameTables.Covers (resolve : Resolver) (t : FrameTables) (ips : List ℕ) : Prop where
  strings : Indexes 0 t.strings.map t.strings.table
  table : t.strings.table = internAll fixedStrings (ips.map (frameName resolve))
  locMap : Indexes 1 t.locMap ips
  funcMap : Indexes 1 t.funcMap ips
  locations : t.locations = ips.map fun ip => (ips.idxOf ip + 1, ips.idxOf ip + 1)
  functions : t.functions = ips.map fun ip =>
    (ips.idxOf ip + 1, t.strings.table.idxOf (frameName resolve ip))

section Frames

variable {resolve : Resolver} {t : FrameTables} {ips : List ℕ}

/-- The name of a covered address is in the table. -/
theorem FrameTables.Covers.mem_table (h : t.Covers resolve ips) {ip : ℕ} (hip : ip ∈ ips) :
    frameName resolve ip ∈ t.strings.table := by
  rw [h.table, mem_internAll]
  exact Or.inr (List.mem_map_of_mem hip)

/-- An address gets a location and a function unless it has them. -/
theorem FrameTables.Covers.addFrame (h : t.Covers resolve ips) (ip : ℕ) :
    (t.addFrame resolve ip).Covers resolve (Intern.intern ips ip) := by
  by_cases hip : ip ∈ ips
  · rw [FrameTables.addFrame, if_pos (h.locMap.mem_iff.mpr hip), intern_of_mem hip]
    exact h
  · obtain ⟨htable, hidx, hindexes⟩ := StringTable.intern_eq h.strings (frameName resolve ip)
    have hplace : (ips ++ [ip]).idxOf ip = ips.length := by
      rw [List.idxOf_append_of_notMem hip]
      simp
    have hgrown : (Intern.intern t.strings.table (frameName resolve ip)) =
        internAll fixedStrings ((ips ++ [ip]).map (frameName resolve)) := by
      rw [h.table, List.map_append, internAll_append]
      rfl
    rw [FrameTables.addFrame, if_neg (fun hmem => hip (h.locMap.mem_iff.mp hmem)),
      intern_of_notMem hip]
    simp only [FrameTables.funcId, h.funcMap.lookup_of_notMem hip, resolveSymbol_eq]
    refine ⟨hindexes, htable.trans hgrown, ?_, ?_, ?_, ?_⟩
    · simp only [h.locMap.length]
      exact h.locMap.insert hip
    · simp only [h.funcMap.length]
      exact h.funcMap.insert hip
    · simp only [h.locations, h.locMap.length, h.funcMap.length, List.map_append, List.map_cons,
        List.map_nil, hplace]
      congr 1
      apply List.map_congr_left
      intro a ha
      rw [List.idxOf_append_of_mem ha]
    · simp only [h.functions, h.funcMap.length, List.map_append, List.map_cons, List.map_nil,
        hplace, hidx, htable]
      congr 1
      apply List.map_congr_left
      intro a ha
      rw [List.idxOf_append_of_mem ha, idxOf_of_prefix (prefix_intern _ _) (h.mem_table ha)]

/-- The addresses of a stack get locations and functions in order. -/
theorem FrameTables.Covers.addFrames (h : t.Covers resolve ips) (frames : List ℕ) :
    (frames.foldl (FrameTables.addFrame resolve) t).Covers resolve (internAll ips frames) := by
  induction frames generalizing t ips with
  | nil => exact h
  | cons ip frames ih => exact ih (h.addFrame ip)

/-- The addresses of all stacks get locations and functions in order. -/
theorem FrameTables.Covers.addStacks (h : t.Covers resolve ips) (keys : List (List ℕ)) :
    (FrameTables.addStacks resolve t keys).Covers resolve (internAll ips keys.flatten) := by
  induction keys generalizing t ips with
  | nil => exact h
  | cons frames keys ih =>
    rw [List.flatten_cons, internAll_append]
    exact ih (h.addFrames frames)

end Frames

/-- The strings every profile has are interned in order. -/
theorem StringTable.fixed_eq : StringTable.fixed.1.table = fixedStrings ∧
    Indexes 0 StringTable.fixed.1.map StringTable.fixed.1.table ∧
    StringTable.fixed.2 = ⟨1, 2, 3, 4, 5, 6, 7, 8⟩ := by
  have h := (StringTable.intern_eq (t := .new) (Indexes.empty 0) "").2.2
  have h := (StringTable.intern_eq h "alloc_objects").2.2
  have h := (StringTable.intern_eq h "alloc_space").2.2
  have h := (StringTable.intern_eq h "inuse_objects").2.2
  have h := (StringTable.intern_eq h "inuse_space").2.2
  have h := (StringTable.intern_eq h "count").2.2
  have h := (StringTable.intern_eq h "bytes").2.2
  have h := (StringTable.intern_eq h "size_class").2.2
  have h := (StringTable.intern_eq h "space").2.2
  exact ⟨by decide +kernel, h, by decide +kernel⟩

section Fields

variable (resolve : Resolver) (st : PprofState) (strings : List String)

/-- The fields of a message of two indices, as they are written. -/
def pairFields (first second : ℕ) : List Field := [⟨1, .varint first⟩, ⟨2, .varint second⟩]

/-- The fields of the label of a sample, as they are written. -/
def PprofState.labelFields (stackId : ℕ) : List Field :=
  (st.classOf stackId).toList.map fun c =>
    ⟨3, .bytes (encode (pairFields (strings.idxOf "size_class") (strings.idxOf (toString c))))⟩

/-- The fields of the values of a sample, as they are written. -/
def valueFields (c : StackCounters) : List Field :=
  [⟨2, .varint c.allocCount⟩, ⟨2, .varint c.allocBytes⟩, ⟨2, .varint (castUnsigned c.liveCount)⟩,
    ⟨2, .varint (castUnsigned c.liveBytes)⟩]

/-- The fields of the sample of a stack, as they are written. -/
def PprofState.sampleFields (stack : (_ : List ℕ) × ℕ) : List Field :=
  stack.1.map (fun ip => ⟨1, .varint (st.idOf ip)⟩) ++
    valueFields (st.stackTable.counters[stack.2]?.getD .zero) ++ st.labelFields strings stack.2

/-- The fields of the profile, as they are written. -/
def PprofState.profileFields (now : Option ℕ) (interval : ℕ) : List Field :=
  let strings := st.strings resolve
  [("alloc_objects", "count"), ("alloc_space", "bytes"), ("inuse_objects", "count"),
    ("inuse_space", "bytes")].map
      (fun t => ⟨1, .bytes (encode (pairFields (strings.idxOf t.1) (strings.idxOf t.2)))⟩) ++
    (st.reported.map (fun stack => ⟨2, .bytes (encode (st.sampleFields strings stack))⟩) ++
    (st.addresses.map (fun ip =>
      ⟨4, .bytes (encode [⟨1, .varint (st.idOf ip)⟩,
        ⟨4, .bytes (encode [⟨1, .varint (st.idOf ip)⟩])⟩])⟩) ++
    (st.addresses.map (fun ip => ⟨5, .bytes (encode [⟨1, .varint (st.idOf ip)⟩,
      ⟨2, .varint (strings.idxOf (frameName resolve ip))⟩,
        ⟨3, .varint (strings.idxOf (frameName resolve ip))⟩])⟩) ++
    (strings.map (fun s => ⟨6, .bytes s.toUTF8.data.toList⟩) ++
    [⟨9, .varint (nanosOf now)⟩, ⟨11, .bytes
      (encode (pairFields (strings.idxOf "space") (strings.idxOf "bytes")))⟩, ⟨12,
      .varint interval⟩]))))

end Fields

section Samples

variable {st : PprofState} {locMap : AList fun _ : ℕ => ℕ} {strings : StringTable}
  {final : List String}

/-- A message of two indices. -/
theorem encodeVarintField_pair (first second : ℕ) :
    encodeVarintField (encodeVarintField [] 1 first) 2 second =
      encode (pairFields first second) := by
  simp [encodeVarintField_eq, pairFields]

/-- The location ids of addresses that have one are appended in order. -/
theorem encodeFrames_eq (hmap : Indexes 1 locMap st.addresses) {frames : List ℕ}
    (h : ∀ ip ∈ frames, ip ∈ st.addresses) (buf : List UInt8) :
    frames.foldlM (encodeFrame locMap) buf =
      .ok (buf ++ encode (frames.map fun ip => ⟨1, .varint (st.idOf ip)⟩)) := by
  induction frames generalizing buf with
  | nil => simp [pure, Except.pure]
  | cons ip frames ih =>
    have htail := ih (fun a ha => h a (List.mem_cons_of_mem _ ha))
    simp only [List.foldlM_cons, encodeFrame, hmap.lookup_of_mem (h ip List.mem_cons_self), bind,
      Except.bind, htail, encodeVarintField_eq, List.map_cons, encode_cons, List.append_assoc]
    rfl

/-- The values are appended in order. -/
theorem encodeValues_eq (buf : List UInt8) (c : StackCounters) :
    encodeValues buf c = buf ++ encode (valueFields c) := by
  simp [encodeValues, encodeVarintField_eq, valueFields]

/-- The label of a stack with a record is appended, and the string table has its class. -/
theorem PprofState.encodeClass_eq (hstrings : Indexes 0 strings.map strings.table) (stackId : ℕ) :
    ∃ strings', Indexes 0 strings'.map strings'.table ∧
      strings'.table = internAll strings.table ((st.classOf stackId).toList.map toString) ∧
      ∀ final, strings'.table <+: final → ∀ buf,
        st.encodeClass (final.idxOf "size_class") stackId buf strings =
          (buf ++ encode (st.labelFields final stackId), strings') := by
  cases hfind : st.findRecord stackId with
  | none =>
    have hclass : st.classOf stackId = none := by
      rw [← st.findRecord_map, hfind, Option.map_none]
    refine ⟨strings, hstrings, by simp [hclass], fun final _ buf => ?_⟩
    simp [PprofState.encodeClass, hfind, PprofState.labelFields, hclass]
  | some record =>
    have hclass : st.classOf stackId = some record.classIdx := by
      rw [← st.findRecord_map, hfind, Option.map_some]
    obtain ⟨htable, hidx, hindexes⟩ := StringTable.intern_eq hstrings (toString record.classIdx)
    refine ⟨_, hindexes, by rw [hclass]; exact htable, fun final hfinal buf => ?_⟩
    have hmem : toString record.classIdx ∈ (strings.intern (toString record.classIdx)).1.table := by
      rw [htable, mem_intern]
      exact Or.inr rfl
    simp only [PprofState.encodeClass, hfind, PprofState.labelFields, hclass, hidx, encodeLabel,
      encodeVarintField_pair, encodeField_eq, idxOf_of_prefix hfinal hmem, htable,
      Option.toList_some, List.map_cons, List.map_nil, encode_cons, encode_nil, List.append_nil]

/-- The samples of stacks, as they are written. -/
def PprofState.samplesFields (st : PprofState) (final : List String)
    (entries : List ((_ : List ℕ) × ℕ)) : List Field :=
  (st.countedOf entries).map fun stack => ⟨2, .bytes (encode (st.sampleFields final stack))⟩

/-- The label of one stack. -/
theorem PprofState.classStrings_singleton (st : PprofState) (stack : (_ : List ℕ) × ℕ) :
    st.classStrings [stack] = (st.classOf stack.2).toList.map toString := by
  cases h : st.classOf stack.2 <;> simp [PprofState.classStrings, h]

/-- The labels of two lists of stacks. -/
theorem PprofState.classStrings_append (st : PprofState) (left right : List ((_ : List ℕ) × ℕ)) :
    st.classStrings (left ++ right) = st.classStrings left ++ st.classStrings right :=
      List.filterMap_append

/-- The sample of a stack is appended when something is counted for it. -/
theorem PprofState.encodeSample_eq (hmap : Indexes 1 locMap st.addresses)
    (hstrings : Indexes 0 strings.map strings.table) {stack : (_ : List ℕ) × ℕ}
    (hframes : ∀ ip ∈ stack.1, ip ∈ st.addresses) (hid : stack.2 < st.stackTable.counters.length) :
    ∃ strings', Indexes 0 strings'.map strings'.table ∧
      strings'.table = internAll strings.table (st.classStrings (st.countedOf [stack])) ∧
      ∀ final, strings'.table <+: final → ∀ buf,
        st.encodeSample locMap (final.idxOf "size_class") (buf, strings) stack =
          .ok (buf ++ encode (st.samplesFields final [stack]), strings') := by
  obtain ⟨c, hc⟩ : ∃ c, st.stackTable.counters[stack.2]? = some c :=
    ⟨_, List.getElem?_eq_getElem hid⟩
  by_cases hzero : c.allocCount = 0 ∧ c.liveCount = 0
  · have hcounted : st.countedOf [stack] = [] := by
      simp [PprofState.countedOf, PprofState.Counted, hc, hzero]
    refine ⟨strings, hstrings, by simp [hcounted, PprofState.classStrings], fun final _ buf => ?_⟩
    simp [PprofState.encodeSample, hc, hzero, PprofState.samplesFields, hcounted]
  · have hcounted : st.countedOf [stack] = [stack] := by
      simpa [PprofState.countedOf, PprofState.Counted, hc] using hzero
    have hlocations := encodeFrames_eq hmap hframes []
    rw [List.nil_append] at hlocations
    obtain ⟨strings', hindexes, htable, hencode⟩ := st.encodeClass_eq hstrings stack.2
    refine ⟨strings', hindexes, ?_, fun final hfinal buf => ?_⟩
    · rw [htable, hcounted, PprofState.classStrings_singleton]
    · simp only [PprofState.encodeSample, hc, if_neg hzero, hlocations, hencode final hfinal,
        PprofState.samplesFields, hcounted, encodeField_eq, PprofState.sampleFields,
          encodeValues_eq, List.map_cons,
        List.map_nil, encode_cons, encode_nil, List.append_nil, encode_append, Option.getD_some]

/-- The samples of stacks are appended in order. -/
theorem PprofState.encodeSamples_eq (hmap : Indexes 1 locMap st.addresses)
    (hstrings : Indexes 0 strings.map strings.table) {entries : List ((_ : List ℕ) × ℕ)}
    (hframes : ∀ stack ∈ entries, ∀ ip ∈ stack.1, ip ∈ st.addresses)
    (hids : ∀ stack ∈ entries, stack.2 < st.stackTable.counters.length) :
    ∃ strings', Indexes 0 strings'.map strings'.table ∧
      strings'.table = internAll strings.table (st.classStrings (st.countedOf entries)) ∧
      ∀ final, strings'.table <+: final → ∀ buf,
        entries.foldlM (st.encodeSample locMap (final.idxOf "size_class")) (buf, strings) =
          .ok (buf ++ encode (st.samplesFields final entries), strings') := by
  induction entries generalizing strings with
  | nil =>
    refine ⟨strings, hstrings, rfl, fun final _ buf => ?_⟩
    simp [PprofState.samplesFields, PprofState.countedOf, pure, Except.pure]
  | cons stack entries ih =>
    have hsplit : st.countedOf (stack :: entries) =
        st.countedOf [stack] ++ st.countedOf entries := by
      rw [PprofState.countedOf, ← List.singleton_append, List.filter_append]
      rfl
    obtain ⟨mid, hmid, hmidTable, hhead⟩ := PprofState.encodeSample_eq hmap hstrings
      (hframes stack List.mem_cons_self) (hids stack List.mem_cons_self)
    obtain ⟨strings', hindexes, htable, htail⟩ :=
      ih hmid (fun s hs => hframes s (List.mem_cons_of_mem _ hs))
      (fun s hs => hids s (List.mem_cons_of_mem _ hs))
    refine ⟨strings', hindexes, ?_, fun final hfinal buf => ?_⟩
    · rw [htable, hmidTable, hsplit, PprofState.classStrings_append, internAll_append]
    · have hmidFinal : mid.table <+: final := by
        apply List.IsPrefix.trans _ hfinal
        rw [htable]
        exact prefix_internAll _ _
      simp only [List.foldlM_cons, hhead final hmidFinal buf, bind, Except.bind, htail final hfinal,
        PprofState.samplesFields, hsplit, List.map_append, encode_append, List.append_assoc]

end Samples

section Build

variable {resolve : Resolver} {st : PprofState}

/-- The strings every profile has keep their places as the table grows. -/
theorem StringTable.fixed_idxOf {final : List String} (h : fixedStrings <+: final) :
    StringTable.fixed.2 = ⟨final.idxOf "alloc_objects", final.idxOf "alloc_space",
      final.idxOf "inuse_objects",
      final.idxOf "inuse_space", final.idxOf "count", final.idxOf "bytes", final.idxOf "size_class",
      final.idxOf "space"⟩ := by
  have hidx : ∀ s ∈ fixedStrings, final.idxOf s = fixedStrings.idxOf s :=
    fun s hs => idxOf_of_prefix h hs
  rw [hidx _ (by decide), hidx _ (by decide), hidx _ (by decide), hidx _ (by decide),
    hidx _ (by decide), hidx _ (by decide), hidx _ (by decide), hidx _ (by decide)]
  decide +kernel

/-- The strings of a profile start with those every profile has. -/
theorem PprofState.prefix_strings (resolve : Resolver) (st : PprofState) :
    fixedStrings <+: st.strings resolve :=
  prefix_internAll _ _

/-- The addresses of a stack are among those of all stacks. -/
theorem PprofState.mem_addresses {stack : (_ : List ℕ) × ℕ}
    (hstack : stack ∈ st.stackTable.map.entries) {ip : ℕ} (hip : ip ∈ stack.1) :
    ip ∈ st.addresses := by
  rw [PprofState.addresses, mem_internAll]
  exact Or.inr (List.mem_flatten.mpr ⟨stack.1, List.mem_map_of_mem hstack, hip⟩)

/-- A location is appended. -/
theorem encodeLocation_eq (buf : List UInt8) (location : ℕ × ℕ) :
    encodeLocation buf location = buf ++ (⟨4, .bytes (encode [⟨1, .varint location.1⟩,
      ⟨4, .bytes (encode [⟨1, .varint location.2⟩])⟩])⟩ : Field).encode := by
  simp [encodeLocation, encodeField_eq, encodeVarintField_eq]

/-- A function is appended. -/
theorem encodeFunction_eq (buf : List UInt8) (function : ℕ × ℕ) :
    encodeFunction buf function = buf ++
      (⟨5, .bytes (encode [⟨1, .varint function.1⟩, ⟨2, .varint function.2⟩,
      ⟨3, .varint function.2⟩])⟩ : Field).encode := by
  simp [encodeFunction, encodeField_eq, encodeVarintField_eq]

/-- A string is appended. -/
theorem encodeString_eq (buf : List UInt8) (s : String) :
    encodeBytesField buf 6 s.toUTF8.data.toList =
      buf ++ (⟨6, .bytes s.toUTF8.data.toList⟩ : Field).encode :=
  encodeField_eq _ _ _

/-- When every stack has counters, the bytes are those of the fields, unless they are too many. -/
theorem PprofState.buildProfile_fields (hids : ∀ stack ∈ st.stackTable.map.entries,
    stack.2 < st.stackTable.counters.length) (now : Option ℕ) (interval : ℕ) :
    st.buildProfile resolve now interval =
      if (encode (st.profileFields resolve now interval)).length ≤ isizeMax then
        .ok (encode (st.profileFields resolve now interval))
      else .error .capacityOverflow := by
  obtain ⟨htable, hindexes, -⟩ := StringTable.fixed_eq
  have hfixed := StringTable.fixed_idxOf (st.prefix_strings resolve)
  unfold PprofState.buildProfile
  generalize StringTable.fixed = start at htable hindexes hfixed ⊢
  obtain ⟨strings, fixed⟩ := start
  dsimp only at htable hindexes hfixed ⊢
  subst hfixed
  have hstart : (⟨strings, [], ∅, [], ∅⟩ : FrameTables).Covers resolve [] :=
    ⟨hindexes, htable, Indexes.empty 1, Indexes.empty 1, rfl, rfl⟩
  have hcovers := hstart.addStacks st.stackTable.map.keys
  obtain ⟨strings', -, htable', hencode⟩ := PprofState.encodeSamples_eq
    (show Indexes 1 _ st.addresses from hcovers.locMap) hcovers.strings
    (fun stack hstack ip hip => PprofState.mem_addresses hstack hip) hids
  have hfinal : strings'.table = st.strings resolve := by
    rw [htable', hcovers.table, ← internAll_append]
    rfl
  have hgrown : (FrameTables.addStacks resolve ⟨strings, [], ∅, [],
      ∅⟩ st.stackTable.map.keys).strings.table <+:
      st.strings resolve := by
    rw [← hfinal, htable']
    exact prefix_internAll _ _
  have hfunctions := hcovers.functions.trans (List.map_congr_left fun ip hip => by
    rw [← idxOf_of_prefix hgrown (hcovers.mem_table hip)])
  rw [hencode _ (hfinal ▸ List.prefix_rfl)]
  simp only [hcovers.locations, hfunctions, hfinal, foldl_append_fields encodeLocation_eq,
    foldl_append_fields encodeFunction_eq, foldl_append_fields encodeString_eq,
      List.foldl_cons, List.foldl_nil,
    encodeVarintField_eq, encodeField_eq, encodeValueType, List.map_map]
  have hbytes : ∀ {bytes bytes' : List UInt8}, bytes = bytes' →
      (if bytes.length ≤ isizeMax then Except.ok bytes else .error .capacityOverflow) =
        if bytes'.length ≤ isizeMax then Except.ok bytes'
          else .error DumpPanic.capacityOverflow := by
    rintro _ _ rfl
    rfl
  apply hbytes
  simp only [PprofState.profileFields, PprofState.samplesFields, pairFields, encode_append,
    encode_cons, encode_nil, List.append_nil, List.append_assoc, List.nil_append,
    List.map_cons, List.map_nil]
  rfl

end Build

end ClMalloc
