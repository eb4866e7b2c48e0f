import ClMalloc.Lib.Wire
import ClMalloc.Pprof

/-!
# The messages of a profile

The messages of `perftools.profiles.Profile` with the fields the profiler writes, as they are
read from bytes by field number. An `int64` is the signed reading of its 64 bits, a scalar
that is absent is zero, a repeated field keeps the order of its items, a second period type
is merged into the first, and a field the message does not have or of another wire type is
refused. The bytes of a message in the order of its fields are read back as the message.
-/

namespace ClMalloc

open Wire

/-- `cast_unsigned` of an `i64`. -/
def castUnsigned (n : ℤ) : ℕ := (n % 0x10000000000000000).toNat

/-- The range of `i64`. -/
def IsI64 (n : ℤ) : Prop := -0x8000000000000000 ≤ n ∧ n < 0x8000000000000000

/-- The bits of an `i64` fit a `u64`. -/
theorem castUnsigned_lt (n : ℤ) : castUnsigned n < 0x10000000000000000 := by
  unfold castUnsigned
  omega

/-- An `i64` is the signed reading of its bits. -/
theorem castSigned_castUnsigned {n : ℤ} (h : IsI64 n) : castSigned (castUnsigned n) = n := by
  unfold IsI64 at h
  unfold castSigned castUnsigned i64
  omega

/-- A `u64` is what its signed reading is cast back to. -/
theorem castUnsigned_castSigned {n : ℕ} (h : n < 0x10000000000000000) :
    castUnsigned (castSigned n) = n := by
  unfold castSigned castUnsigned i64
  omega

/-- A signed reading is in the range of `i64`. -/
theorem isI64_castSigned (n : ℕ) : IsI64 (castSigned n) := by
  unfold castSigned IsI64 i64
  omega

namespace Proto

/-- `ValueType`: the string indices of a type and its unit. -/
structure ValueType where
  type : ℤ
  unit : ℤ
  deriving DecidableEq

/-- `Label`: the string indices of a key and its value. -/
structure Label where
  key : ℤ
  str : ℤ
  deriving DecidableEq

/-- `Sample`. -/
structure Sample where
  locationId : List ℕ
  value : List ℤ
  label : List Label
  deriving DecidableEq

/-- `Line`. -/
structure Line where
  functionId : ℕ
  deriving DecidableEq

/-- `Location`. -/
structure Location where
  id : ℕ
  line : List Line
  deriving DecidableEq

/-- `Function`. -/
structure Function where
  id : ℕ
  name : ℤ
  systemName : ℤ
  deriving DecidableEq

/-- `Profile`. -/
structure Profile where
  sampleType : List ValueType
  sample : List Sample
  location : List Location
  function : List Function
  stringTable : List String
  timeNanos : ℤ
  periodType : Option ValueType
  period : ℤ
  deriving DecidableEq

/-- Add a field to a `ValueType`. -/
def ValueType.add (m : ValueType) : Field → Option ValueType
  | ⟨1, .varint n⟩ => some { m with type := castSigned n }
  | ⟨2, .varint n⟩ => some { m with unit := castSigned n }
  | _ => none

/-- Add a field to a `Label`. -/
def Label.add (m : Label) : Field → Option Label
  | ⟨1, .varint n⟩ => some { m with key := castSigned n }
  | ⟨2, .varint n⟩ => some { m with str := castSigned n }
  | _ => none

/-- Add a field to a `Sample`. -/
def Sample.add (m : Sample) : Field → Option Sample
  | ⟨1, .varint n⟩ => some { m with locationId := m.locationId ++ [n] }
  | ⟨2, .varint n⟩ => some { m with value := m.value ++ [castSigned n] }
  | ⟨3, .bytes data⟩ => (decode Label.add ⟨0, 0⟩ data).map fun l =>
    { m with label := m.label ++ [l] }
  | _ => none

/-- Add a field to a `Line`. -/
def Line.add (_ : Line) : Field → Option Line
  | ⟨1, .varint n⟩ => some ⟨n⟩
  | _ => none

/-- Add a field to a `Location`. -/
def Location.add (m : Location) : Field → Option Location
  | ⟨1, .varint n⟩ => some { m with id := n }
  | ⟨4, .bytes data⟩ => (decode Line.add ⟨0⟩ data).map fun l => { m with line := m.line ++ [l] }
  | _ => none

/-- Add a field to a `Function`. -/
def Function.add (m : Function) : Field → Option Function
  | ⟨1, .varint n⟩ => some { m with id := n }
  | ⟨2, .varint n⟩ => some { m with name := castSigned n }
  | ⟨3, .varint n⟩ => some { m with systemName := castSigned n }
  | _ => none

/-- Add a field to a `Profile`. -/
def Profile.add (m : Profile) : Field → Option Profile
  | ⟨1, .bytes data⟩ =>
    (decode ValueType.add ⟨0, 0⟩ data).map fun t => { m with sampleType := m.sampleType ++ [t] }
  | ⟨2, .bytes data⟩ => (decode Sample.add ⟨[], [], []⟩ data).map fun s =>
    { m with sample := m.sample ++ [s] }
  | ⟨4, .bytes data⟩ => (decode Location.add ⟨0, []⟩ data).map fun l =>
    { m with location := m.location ++ [l] }
  | ⟨5, .bytes data⟩ => (decode Function.add ⟨0, 0, 0⟩ data).map fun f =>
    { m with function := m.function ++ [f] }
  | ⟨6, .bytes data⟩ =>
    (String.fromUTF8? ⟨data.toArray⟩).map fun s => { m with stringTable := m.stringTable ++ [s] }
  | ⟨9, .varint n⟩ => some { m with timeNanos := castSigned n }
  | ⟨11, .bytes data⟩ =>
    (decode ValueType.add (m.periodType.getD ⟨0, 0⟩) data).map fun t => { m with
      periodType := some t }
  | ⟨12, .varint n⟩ => some { m with period := castSigned n }
  | _ => none

/-- The empty profile. -/
def Profile.empty : Profile := ⟨[], [], [], [], [], 0, none, 0⟩

/-- Read a profile from all of its bytes. -/
def Profile.parse (input : List UInt8) : Option Profile := decode Profile.add .empty input

/-- The fields of a `ValueType`. -/
def ValueType.fields (m : ValueType) : List Field :=
  [⟨1, .varint (castUnsigned m.type)⟩, ⟨2, .varint (castUnsigned m.unit)⟩]

/-- The fields of a `Label`. -/
def Label.fields (m : Label) : List Field :=
  [⟨1, .varint (castUnsigned m.key)⟩, ⟨2, .varint (castUnsigned m.str)⟩]

/-- The fields of a `Sample`. -/
def Sample.fields (m : Sample) : List Field :=
  m.locationId.map (fun n => ⟨1, .varint n⟩) ++ m.value.map
    (fun n => ⟨2, .varint (castUnsigned n)⟩) ++ m.label.map (fun l => ⟨3, .bytes (encode l.fields)⟩)

/-- The fields of a `Line`. -/
def Line.fields (m : Line) : List Field := [⟨1, .varint m.functionId⟩]

/-- The fields of a `Location`. -/
def Location.fields (m : Location) : List Field :=
  ⟨1, .varint m.id⟩ :: m.line.map (fun l => ⟨4, .bytes (encode l.fields)⟩)

/-- The fields of a `Function`. -/
def Function.fields (m : Function) : List Field :=
  [⟨1, .varint m.id⟩, ⟨2, .varint (castUnsigned m.name)⟩, ⟨3, .varint (castUnsigned m.systemName)⟩]

/-- The fields of a `Profile`. -/
def Profile.fields (m : Profile) : List Field :=
  m.sampleType.map (fun t => ⟨1, .bytes (encode t.fields)⟩) ++
    (m.sample.map (fun s => ⟨2, .bytes (encode s.fields)⟩) ++
    (m.location.map (fun l => ⟨4, .bytes (encode l.fields)⟩) ++
    (m.function.map (fun f => ⟨5, .bytes (encode f.fields)⟩) ++
    (m.stringTable.map (fun s => ⟨6, .bytes s.toUTF8.data.toList⟩) ++
    (⟨9, .varint (castUnsigned m.timeNanos)⟩ ::
    (m.periodType.toList.map (fun t => ⟨11, .bytes (encode t.fields)⟩) ++
    [⟨12, .varint (castUnsigned m.period)⟩]))))))

/-- The bytes of a profile. -/
def Profile.bytes (m : Profile) : List UInt8 := encode m.fields

/-- The indices of a `ValueType` are in the range of `i64`. -/
def ValueType.Fits (m : ValueType) : Prop := IsI64 m.type ∧ IsI64 m.unit

/-- The indices of a `Label` are in the range of `i64`. -/
def Label.Fits (m : Label) : Prop := IsI64 m.key ∧ IsI64 m.str

/-- The numbers of a `Sample` are in the ranges of their types. -/
structure Sample.Fits (m : Sample) : Prop where
  locationId : ∀ n ∈ m.locationId, n < 0x10000000000000000
  value : ∀ n ∈ m.value, IsI64 n
  label : ∀ l ∈ m.label, l.Fits

/-- The id of a `Line` is in the range of `u64`. -/
def Line.Fits (m : Line) : Prop := m.functionId < 0x10000000000000000

/-- The ids of a `Location` are in the range of `u64`. -/
def Location.Fits (m : Location) : Prop := m.id < 0x10000000000000000 ∧ ∀ l ∈ m.line, l.Fits

/-- The numbers of a `Function` are in the ranges of their types. -/
def Function.Fits (m : Function) : Prop :=
  m.id < 0x10000000000000000 ∧ IsI64 m.name ∧ IsI64 m.systemName

/-- The numbers of a `Profile` are in the ranges of their types. -/
structure Profile.Fits (m : Profile) : Prop where
  sampleType : ∀ t ∈ m.sampleType, t.Fits
  sample : ∀ s ∈ m.sample, s.Fits
  location : ∀ l ∈ m.location, l.Fits
  function : ∀ f ∈ m.function, f.Fits
  timeNanos : IsI64 m.timeNanos
  periodType : ∀ t ∈ m.periodType, t.Fits
  period : IsI64 m.period

/-- A `ValueType` is read back, whatever it is merged into. -/
theorem ValueType.decode_fields {m : ValueType} (h : m.Fits) (old : ValueType) :
    decode ValueType.add old (encode m.fields) = some m := by
  rw [decode_encode]
  · simp [ValueType.fields, ValueType.add, castSigned_castUnsigned h.1, castSigned_castUnsigned h.2]
  · simp [ValueType.fields, fits_varint, castUnsigned_lt]

/-- A `Label` is read back. -/
theorem Label.decode_fields {m : Label} (h : m.Fits) :
    decode Label.add ⟨0, 0⟩ (encode m.fields) = some m := by
  rw [decode_encode]
  · simp [Label.fields, Label.add, castSigned_castUnsigned h.1, castSigned_castUnsigned h.2]
  · simp [Label.fields, fits_varint, castUnsigned_lt]

/-- A `Line` is read back. -/
theorem Line.decode_fields {m : Line} (h : m.Fits) :
    decode Line.add ⟨0⟩ (encode m.fields) = some m := by
  rw [decode_encode]
  · simp [Line.fields, Line.add]
  · unfold Line.Fits at h
    simp [Line.fields, fits_varint, h]

/-- A `Function` is read back. -/
theorem Function.decode_fields {m : Function} (h : m.Fits) :
    decode Function.add ⟨0, 0, 0⟩ (encode m.fields) = some m := by
  obtain ⟨hid, hname, hsystemName⟩ := h
  rw [decode_encode]
  · simp [Function.fields, Function.add, castSigned_castUnsigned hname,
      castSigned_castUnsigned hsystemName]
  · simp [Function.fields, fits_varint, castUnsigned_lt, hid]

/-- A `Location` that is not too long is read back. -/
theorem Location.decode_fields {m : Location} (h : m.Fits)
    (hlength : (encode m.fields).length < 0x10000000000000000) :
    decode Location.add ⟨0, []⟩ (encode m.fields) = some m := by
  have hline : ∀ (p : Location), ∀ l ∈ m.line,
      p.add ⟨4, .bytes (encode l.fields)⟩ = some { p with line := p.line ++ [l] } := by
    intro p l hl
    simp [Location.add, Line.decode_fields (h.2 l hl)]
  have hlines := foldlM_repeated (fun (p : Location) lines => { p with line := p.line ++ lines })
    (by simp) (by simp) hline ⟨m.id, []⟩
  rw [decode_encode (fits_of_length hlength ?_)]
  · simpa [Location.fields, Location.add] using hlines
  · simp [Location.fields, inBounds_varint, inBounds_bytes, h.1]

/-- A `Sample` that is not too long is read back. -/
theorem Sample.decode_fields {m : Sample} (h : m.Fits)
    (hlength : (encode m.fields).length < 0x10000000000000000) :
    decode Sample.add ⟨[], [], []⟩ (encode m.fields) = some m := by
  have hlocation : ∀ (p : Sample), ∀ n ∈ m.locationId,
      p.add ⟨1, .varint n⟩ = some { p with locationId := p.locationId ++ [n] } := fun p n _ => rfl
  have hvalue : ∀ (p : Sample), ∀ n ∈ m.value,
      p.add ⟨2, .varint (castUnsigned n)⟩ = some { p with value := p.value ++ [n] } := by
    intro p n hn
    simp [Sample.add, castSigned_castUnsigned (h.value n hn)]
  have hlabel : ∀ (p : Sample), ∀ l ∈ m.label,
      p.add ⟨3, .bytes (encode l.fields)⟩ = some { p with label := p.label ++ [l] } := by
    intro p l hl
    simp [Sample.add, Label.decode_fields (h.label l hl)]
  have hlocations := foldlM_repeated (fun (p : Sample) ids => { p with
    locationId := p.locationId ++ ids }) (by simp) (by simp) hlocation ⟨[], [], []⟩
  have hvalues := foldlM_repeated (fun (p : Sample) values => { p with value := p.value ++ values })
    (by simp) (by simp) hvalue ⟨m.locationId, [], []⟩
  have hlabels := foldlM_repeated (fun (p : Sample) labels => { p with label := p.label ++ labels })
    (by simp) (by simp) hlabel ⟨m.locationId, m.value, []⟩
  rw [decode_encode (fits_of_length hlength ?_)]
  · simp only [List.nil_append] at hlocations hvalues hlabels
    simp only [Sample.fields, List.foldlM_append, hlocations, hvalues, hlabels, Option.bind_eq_bind,
      Option.bind_some]
  · simpa [Sample.fields, inBounds_varint, inBounds_bytes, or_imp, forall_and,
      castUnsigned_lt] using h.locationId

/-- A string is read back from its bytes. -/
theorem fromUTF8_toUTF8 (s : String) :
    String.fromUTF8? ⟨s.toUTF8.data.toList.toArray⟩ = some s := by
  have hbytes : (⟨s.toUTF8.data.toList.toArray⟩ : ByteArray) = s.toByteArray := by
    simp
  rw [hbytes, String.fromUTF8?, dif_pos s.isValidUTF8]
  rfl

/-- Reading sample types appends them. -/
theorem Profile.add_sampleTypes {types : List ValueType} (h : ∀ t ∈ types, t.Fits) (p : Profile) :
    (types.map fun t => (⟨1, .bytes (encode t.fields)⟩ : Field)).foldlM Profile.add p =
      some { p with sampleType := p.sampleType ++ types } := by
  apply foldlM_repeated (fun (p : Profile) ts => { p with sampleType := p.sampleType ++ ts })
    (by simp) (by simp)
  intro p t ht
  change (decode ValueType.add ⟨0, 0⟩ (encode t.fields)).map _ = _
  rw [ValueType.decode_fields (h t ht)]
  rfl

/-- Reading samples appends them. -/
theorem Profile.add_samples {samples : List Sample} (h : ∀ s ∈ samples, s.Fits)
    (hlength : ∀ s ∈ samples, (encode s.fields).length < 0x10000000000000000) (p : Profile) :
    (samples.map fun s => (⟨2, .bytes (encode s.fields)⟩ : Field)).foldlM Profile.add p =
      some { p with sample := p.sample ++ samples } := by
  apply foldlM_repeated (fun (p : Profile) ss => { p with
    sample := p.sample ++ ss }) (by simp) (by simp)
  intro p s hs
  change (decode Sample.add ⟨[], [], []⟩ (encode s.fields)).map _ = _
  rw [Sample.decode_fields (h s hs) (hlength s hs)]
  rfl

/-- Reading locations appends them. -/
theorem Profile.add_locations {locations : List Location} (h : ∀ l ∈ locations, l.Fits)
    (hlength : ∀ l ∈ locations, (encode l.fields).length < 0x10000000000000000) (p : Profile) :
    (locations.map fun l => (⟨4, .bytes (encode l.fields)⟩ : Field)).foldlM Profile.add p =
      some { p with location := p.location ++ locations } := by
  apply foldlM_repeated (fun (p : Profile) ls => { p with
    location := p.location ++ ls }) (by simp) (by simp)
  intro p l hl
  change (decode Location.add ⟨0, []⟩ (encode l.fields)).map _ = _
  rw [Location.decode_fields (h l hl) (hlength l hl)]
  rfl

/-- Reading functions appends them. -/
theorem Profile.add_functions {functions : List Function} (h : ∀ f ∈ functions, f.Fits)
    (p : Profile) :
    (functions.map fun f => (⟨5, .bytes (encode f.fields)⟩ : Field)).foldlM Profile.add p =
      some { p with function := p.function ++ functions } := by
  apply foldlM_repeated (fun (p : Profile) fs => { p with
    function := p.function ++ fs }) (by simp) (by simp)
  intro p f hf
  change (decode Function.add ⟨0, 0, 0⟩ (encode f.fields)).map _ = _
  rw [Function.decode_fields (h f hf)]
  rfl

/-- Reading strings appends them. -/
theorem Profile.add_strings (strings : List String) (p : Profile) :
    (strings.map fun s => (⟨6, .bytes s.toUTF8.data.toList⟩ : Field)).foldlM Profile.add p =
      some { p with stringTable := p.stringTable ++ strings } := by
  apply foldlM_repeated (fun (p : Profile) ss => { p with stringTable := p.stringTable ++ ss })
    (by simp) (by simp)
  intro p s _
  change (String.fromUTF8? ⟨s.toUTF8.data.toList.toArray⟩).map _ = _
  rw [fromUTF8_toUTF8]
  rfl

/-- Reading a period type into a profile without one sets it. -/
theorem Profile.add_periodType {type : Option ValueType} (h : ∀ t ∈ type, t.Fits) {p : Profile}
    (hnone : p.periodType = none) :
    (type.toList.map fun t => (⟨11, .bytes (encode t.fields)⟩ : Field)).foldlM Profile.add p =
      some { p with periodType := type } := by
  cases type with
  | none =>
    obtain ⟨_, _, _, _, _, _, _, _⟩ := p
    subst hnone
    rfl
  | some t =>
    have hadd : p.add ⟨11, .bytes (encode t.fields)⟩ = some { p with periodType := some t } := by
      change (decode ValueType.add (p.periodType.getD ⟨0, 0⟩) (encode t.fields)).map _ = _
      rw [ValueType.decode_fields (h t rfl)]
      rfl
    exact foldlM_cons_of_some hadd

/-- The fields of a profile that is not too long are in bounds. -/
theorem Profile.inBounds (m : Profile) : ∀ f ∈ m.fields, f.InBounds := by
  simp [Profile.fields, inBounds_varint, inBounds_bytes, or_imp, forall_and, castUnsigned_lt]

/-- The bytes of a sample are no more than those of its profile. -/
theorem Profile.sample_length_le {m : Profile} {s : Sample} (h : s ∈ m.sample) :
    (encode s.fields).length ≤ m.bytes.length :=
  bytes_length_le_of_mem (List.mem_append_right _ (List.mem_append_left _ (List.mem_map_of_mem h)))

/-- The bytes of a location are no more than those of its profile. -/
theorem Profile.location_length_le {m : Profile} {l : Location} (h : l ∈ m.location) :
    (encode l.fields).length ≤ m.bytes.length :=
  bytes_length_le_of_mem (List.mem_append_right _ (List.mem_append_right _ (List.mem_append_left _
    (List.mem_map_of_mem h))))

/-- Reading the time sets it. -/
theorem Profile.add_timeNanos {n : ℤ} (h : IsI64 n) (p : Profile) :
    p.add ⟨9, .varint (castUnsigned n)⟩ = some { p with timeNanos := n } := by
  change some { p with timeNanos := castSigned (castUnsigned n) } = _
  rw [castSigned_castUnsigned h]

/-- Reading the period sets it. -/
theorem Profile.add_period {n : ℤ} (h : IsI64 n) (p : Profile) :
    p.add ⟨12, .varint (castUnsigned n)⟩ = some { p with period := n } := by
  change some { p with period := castSigned (castUnsigned n) } = _
  rw [castSigned_castUnsigned h]

/-- A `Profile` that is not too long is read back from its bytes. -/
theorem Profile.parse_bytes {m : Profile} (h : m.Fits)
    (hlength : m.bytes.length < 0x10000000000000000) :
    Profile.parse m.bytes = some m := by
  have hsamples := Profile.add_samples h.sample fun s hs =>
    Nat.lt_of_le_of_lt (m.sample_length_le hs) hlength
  have hlocations := Profile.add_locations h.location fun l hl =>
    Nat.lt_of_le_of_lt (m.location_length_le hl) hlength
  unfold Profile.parse Profile.bytes
  unfold Profile.bytes at hlength
  rw [decode_encode (fits_of_length hlength m.inBounds), Profile.fields,
    foldlM_append_of_some (Profile.add_sampleTypes h.sampleType _),
      foldlM_append_of_some (hsamples _),
    foldlM_append_of_some (hlocations _),
      foldlM_append_of_some (Profile.add_functions h.function _),
    foldlM_append_of_some (Profile.add_strings _ _),
      foldlM_cons_of_some (Profile.add_timeNanos h.timeNanos _),
    foldlM_append_of_some (Profile.add_periodType h.periodType rfl),
    foldlM_cons_of_some (Profile.add_period h.period _)]
  rfl

end Proto

end ClMalloc
