import ClMalloc.Pprof
import ClMalloc.PprofMessage

/-!
# Building a profile

`build_profile` gives every address of a known call stack a location and a function, writes a
sample for every stack with something counted, and then the locations, the functions and the
strings they and the samples refer to. Its bytes are written by hand. An index out of bounds, a
key that is not in its map and a buffer of more than `isize::MAX` bytes panic. A buffer that
is written to the profile is checked with the profile.
-/

namespace ClMalloc

/-- What stops a dump. -/
inductive DumpPanic
  | indexOutOfBounds
  | missingKey
  | capacityOverflow
  deriving DecidableEq

/-- `isize::MAX`, the bytes a `Vec` can have. -/
def isizeMax : ℕ := 0x7fffffffffffffff

/-- `encode_varint`. -/
def encodeVarint (buf : List UInt8) (val : ℕ) : List UInt8 :=
  let byte := UInt8.ofNat (val &&& 0x7F)
  let val' := val >>> 7
  if val' = 0 then buf ++ [byte] else encodeVarint (buf ++ [byte ||| 0x80]) val'
termination_by val
decreasing_by
  simp only [val', Nat.shiftRight_eq_div_pow] at *
  omega

/-- `encode_varint_field`. -/
def encodeVarintField (buf : List UInt8) (field val : ℕ) : List UInt8 :=
  encodeVarint (encodeVarint buf (field <<< 3)) val

/-- `encode_field`. -/
def encodeField (buf : List UInt8) (field : ℕ) (data : List UInt8) : List UInt8 :=
  encodeVarint (encodeVarint buf (field <<< 3 ||| 2)) data.length ++ data

/-- `encode_bytes_field`. -/
def encodeBytesField (buf : List UInt8) (field : ℕ) (data : List UInt8) : List UInt8 :=
  encodeField buf field data

/-- `encode_value_type`. -/
def encodeValueType (typeIdx unitIdx : ℕ) : List UInt8 :=
  encodeVarintField (encodeVarintField [] 1 typeIdx) 2 unitIdx

/-- `encode_label`. -/
def encodeLabel (key strVal : ℕ) : List UInt8 :=
  encodeVarintField (encodeVarintField [] 1 key) 2 strVal

/-- The strings of a profile and the index of each. -/
structure StringTable where
  table : List String
  map : AList fun _ : String => ℕ

/-- `StringTable::new`. -/
def StringTable.new : StringTable := ⟨[], ∅⟩

/-- `StringTable::intern`. -/
def StringTable.intern (t : StringTable) (s : String) : StringTable × ℕ :=
  match t.map.lookup s with
  | some idx => (t, idx)
  | none => (⟨t.table ++ [s], t.map.insert s t.table.length⟩, t.table.length)

/-- The names `backtrace::resolve` passes for an address, one per symbol, in order. -/
abbrev Resolver := ℕ → List (Option String)

/-- The name an address ends up with: the last one passed, or else the address. -/
def symbolName (resolve : Resolver) (ip : ℕ) : String :=
  (resolve ip).foldl (fun name symbol => symbol.getD name)
    ("0x" ++ String.ofList (Nat.toDigits 16 ip))

/-- `resolve_symbol`. -/
def resolveSymbol (resolve : Resolver) (ip : ℕ) (strings : StringTable) : StringTable × ℕ :=
  strings.intern (symbolName resolve ip)

/-- The indices of the strings every profile has. -/
structure FixedStrings where
  stAllocObjects : ℕ
  stAllocSpace : ℕ
  stInuseObjects : ℕ
  stInuseSpace : ℕ
  stCount : ℕ
  stBytes : ℕ
  stSizeClass : ℕ
  stSpace : ℕ
  deriving DecidableEq

/-- The strings every profile has are interned first, the empty one before all others. -/
def StringTable.fixed : StringTable × FixedStrings :=
  let (strings, _) := StringTable.new.intern ""
  let (strings, stAllocObjects) := strings.intern "alloc_objects"
  let (strings, stAllocSpace) := strings.intern "alloc_space"
  let (strings, stInuseObjects) := strings.intern "inuse_objects"
  let (strings, stInuseSpace) := strings.intern "inuse_space"
  let (strings, stCount) := strings.intern "count"
  let (strings, stBytes) := strings.intern "bytes"
  let (strings, stSizeClass) := strings.intern "size_class"
  let (strings, stSpace) := strings.intern "space"
  (strings, ⟨stAllocObjects, stAllocSpace, stInuseObjects, stInuseSpace, stCount, stBytes,
    stSizeClass, stSpace⟩)

/-- The locations and functions of a profile, with the string table their names are interned in. -/
structure FrameTables where
  strings : StringTable
  locations : List (ℕ × ℕ)
  locMap : AList fun _ : ℕ => ℕ
  functions : List (ℕ × ℕ)
  funcMap : AList fun _ : ℕ => ℕ

/-- The function of an address, made unless it is known. -/
def FrameTables.funcId (resolve : Resolver) (t : FrameTables) (ip : ℕ) : FrameTables × ℕ :=
  match t.funcMap.lookup ip with
  | some fid => (t, fid)
  | none =>
    let fid := t.funcMap.entries.length + 1
    let (strings, name) := resolveSymbol resolve ip t.strings
    ({ t with strings := strings, funcMap := t.funcMap.insert ip fid,
              functions := t.functions ++ [(fid, name)] }, fid)

/-- The location of an address, made unless it is known. -/
def FrameTables.addFrame (resolve : Resolver) (t : FrameTables) (ip : ℕ) : FrameTables :=
  if ip ∈ t.locMap then t
  else
    let (t, funcId) := t.funcId resolve ip
    let locId := t.locMap.entries.length + 1
    { t with locMap := t.locMap.insert ip locId, locations := t.locations ++ [(locId, funcId)] }

/-- The locations of all stacks. -/
def FrameTables.addStacks (resolve : Resolver) (t : FrameTables) (keys : List (List ℕ)) :
    FrameTables :=
  keys.foldl (fun t frames => frames.foldl (FrameTables.addFrame resolve) t) t

/-- The location id of an address of a sample. -/
def encodeFrame (locMap : AList fun _ : ℕ => ℕ) (sample : List UInt8) (ip : ℕ) :
    Except DumpPanic (List UInt8) :=
  match locMap.lookup ip with
  | some locId => .ok (encodeVarintField sample 1 locId)
  | none => .error .missingKey

/-- The four values of a sample. -/
def encodeValues (sample : List UInt8) (counters : StackCounters) : List UInt8 :=
  let sample := encodeVarintField sample 2 counters.allocCount
  let sample := encodeVarintField sample 2 counters.allocBytes
  let sample := encodeVarintField sample 2 (castUnsigned counters.liveCount)
  encodeVarintField sample 2 (castUnsigned counters.liveBytes)

/-- The first record of a stack the side table comes to. -/
def PprofState.findRecord (st : PprofState) (stackId : ℕ) : Option SampleRecord :=
  (st.side.entries.map Sigma.snd).find? fun r => r.stackId = stackId

/-- The label of a sample. -/
def PprofState.encodeClass (st : PprofState) (stSizeClass stackId : ℕ) (sample : List UInt8)
    (strings : StringTable) :
    List UInt8 × StringTable :=
  match st.findRecord stackId with
  | some record =>
    let (strings, classStr) := strings.intern (toString record.classIdx)
    (encodeField sample 3 (encodeLabel stSizeClass classStr), strings)
  | none => (sample, strings)

/-- The sample of a stack, unless nothing is counted for it. -/
def PprofState.encodeSample (st : PprofState) (locMap : AList fun _ : ℕ => ℕ) (stSizeClass : ℕ)
    (acc : List UInt8 × StringTable) (stack : (_ : List ℕ) × ℕ) :
    Except DumpPanic (List UInt8 × StringTable) :=
  match st.stackTable.counters[stack.2]? with
  | none => .error .indexOutOfBounds
  | some counters =>
    if counters.allocCount = 0 ∧ counters.liveCount = 0 then .ok acc
    else
      match stack.1.foldlM (encodeFrame locMap) [] with
      | .error panic => .error panic
      | .ok sample =>
        let (sample, strings) := st.encodeClass stSizeClass stack.2
          (encodeValues sample counters) acc.2
        .ok (encodeField acc.1 2 sample, strings)

/-- A location with its one line. -/
def encodeLocation (profile : List UInt8) (location : ℕ × ℕ) : List UInt8 :=
  let loc := encodeVarintField [] 1 location.1
  let line := encodeVarintField [] 1 location.2
  encodeField profile 4 (encodeField loc 4 line)

/-- A function with its name and system name. -/
def encodeFunction (profile : List UInt8) (function : ℕ × ℕ) : List UInt8 :=
  let func := encodeVarintField [] 1 function.1
  let func := encodeVarintField func 2 function.2
  let func := encodeVarintField func 3 function.2
  encodeField profile 5 func

/-- The nanoseconds since the epoch as a `u64`, zero for a clock that is before it. -/
def nanosOf : Option ℕ → ℕ
  | some nanos => u64 nanos
  | none => 0

/-- `build_profile`, given the clock and the sample interval. -/
def PprofState.buildProfile (st : PprofState) (resolve : Resolver) (now : Option ℕ) (interval : ℕ) :
    Except DumpPanic (List UInt8) :=
  let (strings, fixed) := StringTable.fixed
  let tables := FrameTables.addStacks resolve ⟨strings, [], ∅, [], ∅⟩ st.stackTable.map.keys
  let profile := [(fixed.stAllocObjects, fixed.stCount), (fixed.stAllocSpace, fixed.stBytes),
    (fixed.stInuseObjects, fixed.stCount), (fixed.stInuseSpace, fixed.stBytes)].foldl
    (fun profile t => encodeField profile 1 (encodeValueType t.1 t.2)) []
  match st.stackTable.map.entries.foldlM (st.encodeSample tables.locMap fixed.stSizeClass)
    (profile, tables.strings) with
  | .error panic => .error panic
  | .ok (profile, strings) =>
    let profile := tables.locations.foldl encodeLocation profile
    let profile := tables.functions.foldl encodeFunction profile
    let profile := strings.table.foldl
      (fun profile s => encodeBytesField profile 6 s.toUTF8.data.toList) profile
    let profile := encodeVarintField profile 9 (nanosOf now)
    let profile := encodeField profile 11 (encodeValueType fixed.stSpace fixed.stBytes)
    let profile := encodeVarintField profile 12 interval
    if profile.length ≤ isizeMax then .ok profile else .error .capacityOverflow

end ClMalloc
