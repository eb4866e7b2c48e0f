import Mathlib.Data.List.Basic
import Mathlib.Algebra.Ring.Nat

/-!
# The wire format of protocol buffers

A message is a sequence of fields. A field is a tag, made of a number and a wire type, and a
value: an integer in base 128 or bytes preceded by their length. The parser accepts integers
of at most ten bytes that fit 64 bits, field numbers that are not zero and fit 29 bits, and
the two wire types for integers and for bytes; it has to use up its input. What it reads back
from the encoding of fields in these bounds is the fields.
-/

namespace Wire

/-- An integer as groups of seven bits, the lowest first, with the high bit set on all but the
last. -/
def varint (n : ℕ) : List UInt8 :=
  if n < 128 then [UInt8.ofNat n] else UInt8.ofNat (n % 128 + 128) :: varint (n / 128)
termination_by n

/-- The integer at the start of the input, in at most so many bytes. -/
def takeVarint : ℕ → List UInt8 → Option (ℕ × List UInt8)
  | 0, _ => none
  | _ + 1, [] => none
  | fuel + 1, b :: rest =>
    if b.toNat < 128 then some (b.toNat, rest)
    else (takeVarint fuel rest).map fun r => (b.toNat - 128 + 128 * r.1, r.2)

/-- The integer at the start of the input; it has at most ten bytes and fits 64 bits. -/
def parseVarint (input : List UInt8) : Option (ℕ × List UInt8) :=
  (takeVarint 10 input).filter fun r => r.1 < 0x10000000000000000

/-- The value of a field. -/
inductive Value
  | varint (n : ℕ)
  | bytes (data : List UInt8)
  deriving DecidableEq

/-- A field of a message. -/
structure Field where
  number : ℕ
  value : Value
  deriving DecidableEq

/-- The wire type, the low three bits of a tag. -/
def Value.wireType : Value → ℕ
  | .varint _ => 0
  | .bytes _ => 2

/-- A value without its tag. -/
def Value.encode : Value → List UInt8
  | .varint n => Wire.varint n
  | .bytes data => Wire.varint data.length ++ data

/-- A tag and its value. -/
def Field.encode (f : Field) : List UInt8 :=
  varint (f.number * 8 + f.value.wireType) ++ f.value.encode

/-- The fields of a message one after the other. -/
def encode (fields : List Field) : List UInt8 := fields.flatMap Field.encode

/-- The value of a wire type at the start of the input. -/
def parseValue (wireType : ℕ) (input : List UInt8) : Option (Value × List UInt8) :=
  match wireType with
  | 0 => (parseVarint input).map fun r => (.varint r.1, r.2)
  | 2 => (parseVarint input).bind fun r =>
    if r.1 ≤ r.2.length then some (.bytes (r.2.take r.1), r.2.drop r.1) else none
  | _ => none

/-- The field at the start of the input. -/
def parseField (input : List UInt8) : Option (Field × List UInt8) :=
  (parseVarint input).bind fun tag =>
    if 0 < tag.1 / 8 ∧ tag.1 / 8 < 0x20000000 then
      (parseValue (tag.1 % 8) tag.2).map fun r => (⟨tag.1 / 8, r.1⟩, r.2)
    else none

/-- At most so many fields that use up the input. -/
def parseFields : ℕ → List UInt8 → Option (List Field)
  | _, [] => some []
  | 0, _ :: _ => none
  | fuel + 1, b :: rest =>
    (parseField (b :: rest)).bind fun r => (parseFields fuel r.2).map (r.1 :: ·)

/-- The fields of a message; each takes a byte at least. -/
def parse (input : List UInt8) : Option (List Field) := parseFields input.length input

/-- A message read by adding its fields one at a time to the empty message. -/
def decode {M : Type*} (add : M → Field → Option M) (empty : M) (input : List UInt8) : Option M :=
  (parse input).bind fun fields => fields.foldlM add empty

/-- The bounds of a value. -/
def Value.Fits : Value → Prop
  | .varint n => n < 0x10000000000000000
  | .bytes data => data.length < 0x10000000000000000

/-- The bounds of a field. -/
structure Field.Fits (f : Field) : Prop where
  pos : 0 < f.number
  lt : f.number < 0x20000000
  value : f.value.Fits

/-- The bounds of a field, the length of its bytes apart. -/
def Field.InBounds : Field → Prop
  | ⟨number, .varint n⟩ => 0 < number ∧ number < 0x20000000 ∧ n < 0x10000000000000000
  | ⟨number, .bytes _⟩ => 0 < number ∧ number < 0x20000000

/-- An integer field fits when its number and its integer do. -/
theorem fits_varint {number n : ℕ} :
    (⟨number, .varint n⟩ : Field).Fits ↔ 0 < number ∧ number < 0x20000000 ∧
      n < 0x10000000000000000 :=
  ⟨fun h => ⟨h.pos, h.lt, h.value⟩, fun h => ⟨h.1, h.2.1, h.2.2⟩⟩

/-- An integer field is in bounds when it fits. -/
theorem inBounds_varint {number n : ℕ} :
    (⟨number, .varint n⟩ : Field).InBounds ↔ 0 < number ∧ number < 0x20000000 ∧
      n < 0x10000000000000000 := Iff.rfl

/-- A field of bytes is in bounds when its number is. -/
theorem inBounds_bytes {number : ℕ} {data : List UInt8} :
    (⟨number, .bytes data⟩ : Field).InBounds ↔ 0 < number ∧ number < 0x20000000 := by
  simp [Field.InBounds]

/-- A byte below 256 is read as the number it was made of. -/
theorem toNat_ofNat {n : ℕ} (h : n < 256) : (UInt8.ofNat n).toNat = n := by
  simp [Nat.mod_eq_of_lt h]

/-- An integer takes at least one byte. -/
theorem varint_length_pos (n : ℕ) : 0 < (varint n).length := by
  rw [varint]
  split <;> simp

/-- An integer of so many groups is read back from its bytes. -/
theorem takeVarint_varint {fuel n : ℕ} (h : n < 128 ^ fuel) (rest : List UInt8) (hpos : 0 < fuel) :
    takeVarint fuel (varint n ++ rest) = some (n, rest) := by
  induction fuel generalizing n with
  | zero => exact absurd hpos (Nat.lt_irrefl 0)
  | succ fuel ih =>
    rw [varint]
    split
    · rename_i hsmall
      have hbyte := toNat_ofNat (n := n) (by omega)
      simp only [List.singleton_append, takeVarint, hbyte, if_pos hsmall]
    · rename_i hbig
      have hbyte := toNat_ofNat (n := n % 128 + 128) (by omega)
      have hdiv : n / 128 < 128 ^ fuel := by
        rw [Nat.div_lt_iff_lt_mul (by decide)]
        exact h
      have hfuel : 0 < fuel := by
        apply Nat.pos_of_ne_zero
        intro hzero
        subst hzero
        simp only [Nat.pow_zero] at hdiv
        omega
      simp only [List.cons_append, takeVarint, hbyte, if_neg (show ¬n % 128 + 128 < 128 by omega),
        ih hdiv hfuel, Option.map_some]
      congr 2
      omega

/-- An integer of 64 bits is read back from its bytes. -/
theorem parseVarint_varint {n : ℕ} (h : n < 0x10000000000000000) (rest : List UInt8) :
    parseVarint (varint n ++ rest) = some (n, rest) := by
  have hgroups : n < 128 ^ 10 := Nat.lt_of_lt_of_le h (by decide)
  have htake := takeVarint_varint hgroups rest (by decide)
  simp [parseVarint, htake, Option.filter, h]

/-- A value is read back from its bytes. -/
theorem parseValue_encode {v : Value} (h : v.Fits) (rest : List UInt8) :
    parseValue v.wireType (v.encode ++ rest) = some (v, rest) := by
  cases v with
  | varint n =>
    simp only [Value.wireType, Value.encode, parseValue, parseVarint_varint h, Option.map_some]
  | bytes data =>
    simp only [Value.wireType, Value.encode, parseValue, List.append_assoc, parseVarint_varint h,
      Option.bind_some]
    rw [if_pos (by simp), List.take_left, List.drop_left]

/-- A wire type fits three bits. -/
theorem Value.wireType_lt (v : Value) : v.wireType < 8 := by
  cases v <;> simp [Value.wireType]

/-- A field is read back from its bytes. -/
theorem parseField_encode {f : Field} (h : f.Fits) (rest : List UInt8) :
    parseField (f.encode ++ rest) = some (f, rest) := by
  have htype := f.value.wireType_lt
  have hlt := h.lt
  have hnumber : (f.number * 8 + f.value.wireType) / 8 = f.number := by omega
  have hlow : (f.number * 8 + f.value.wireType) % 8 = f.value.wireType := by omega
  unfold parseField Field.encode
  rw [List.append_assoc, parseVarint_varint (by omega), Option.bind_some]
  simp only [hnumber, hlow, if_pos (And.intro h.pos h.lt),
    parseValue_encode h.value, Option.map_some]

/-- A field takes at least one byte. -/
theorem Field.encode_length_pos (f : Field) : 0 < f.encode.length := by
  have := varint_length_pos (f.number * 8 + f.value.wireType)
  simp only [Field.encode, List.length_append]
  omega

/-- The fields of a concatenation are encoded one part after the other. -/
@[simp] theorem encode_append (left right : List Field) :
    encode (left ++ right) = encode left ++ encode right :=
  List.flatMap_append

/-- A message starts with its first field. -/
@[simp] theorem encode_cons (f : Field) (fields : List Field) :
    encode (f :: fields) = f.encode ++ encode fields :=
  List.flatMap_cons

/-- A message without fields is empty. -/
@[simp] theorem encode_nil : encode [] = [] := rfl

/-- A message has no fewer bytes than fields. -/
theorem length_le_encode_length (fields : List Field) : fields.length ≤ (encode fields).length := by
  induction fields with
  | nil => exact Nat.zero_le _
  | cons f fields ih =>
    have := f.encode_length_pos
    simp only [encode_cons, List.length_append, List.length_cons]
    omega

/-- A field of a message has no more bytes than the message. -/
theorem encode_length_le_of_mem {f : Field} {fields : List Field} (h : f ∈ fields) :
    f.encode.length ≤ (encode fields).length := by
  obtain ⟨left, right, rfl⟩ := List.append_of_mem h
  simp only [encode_append, encode_cons, List.length_append]
  omega

/-- The bytes of a field are no more than those of its message. -/
theorem bytes_length_le_of_mem {number : ℕ} {data : List UInt8} {fields : List Field}
    (h : ⟨number, .bytes data⟩ ∈ fields) : data.length ≤ (encode fields).length := by
  have := encode_length_le_of_mem h
  simp only [Field.encode, Value.encode, List.length_append] at this
  omega

/-- The fields of a message that is not too long fit when their numbers and integers do. -/
theorem fits_of_length {fields : List Field}
    (hlength : (encode fields).length < 0x10000000000000000) (hbounds : ∀ f ∈ fields, f.InBounds) :
    ∀ f ∈ fields, f.Fits := by
  intro f hf
  obtain ⟨number, value⟩ := f
  cases value with
  | varint n => exact fits_varint.mpr (hbounds _ hf)
  | bytes data =>
    obtain ⟨hpos, hlt⟩ := hbounds _ hf
    exact ⟨hpos, hlt, Nat.lt_of_le_of_lt (bytes_length_le_of_mem hf) hlength⟩

/-- The fields are read back with enough fuel. -/
theorem parseFields_encode {fields : List Field} (h : ∀ f ∈ fields, f.Fits) {fuel : ℕ}
    (hfuel : fields.length ≤ fuel) : parseFields fuel (encode fields) = some fields := by
  induction fields generalizing fuel with
  | nil => cases fuel <;> rfl
  | cons f fields ih =>
    cases fuel with
    | zero => exact absurd hfuel (by simp)
    | succ fuel =>
      have hfield := parseField_encode (h f List.mem_cons_self) (encode fields)
      obtain ⟨b, bytes, hbytes⟩ := List.exists_cons_of_length_pos
        (show 0 < (f.encode ++ encode fields).length by
          have := f.encode_length_pos
          simp only [List.length_append]
          omega)
      rw [hbytes] at hfield
      rw [encode_cons, hbytes, parseFields, hfield, Option.bind_some,
        ih (fun g hg => h g (List.mem_cons_of_mem _ hg)) (Nat.le_of_succ_le_succ hfuel),
          Option.map_some]

/-- The fields are read back from the message. -/
theorem parse_encode {fields : List Field} (h : ∀ f ∈ fields, f.Fits) :
    parse (encode fields) = some fields :=
  parseFields_encode h (length_le_encode_length fields)

variable {M : Type*} {add : M → Field → Option M} {empty : M}

/-- Decoding the bytes of a message adds its fields in order. -/
theorem decode_encode {fields : List Field} (h : ∀ f ∈ fields, f.Fits) :
    decode add empty (encode fields) = fields.foldlM add empty := by
  rw [decode, parse_encode h, Option.bind_some]

/-- Adding the fields of one part of a message leaves the other part to add. -/
theorem foldlM_append_of_some {left right : List Field} {m m' : M}
    (h : left.foldlM add m = some m') : (left ++ right).foldlM add m = right.foldlM add m' := by
  rw [List.foldlM_append, h]
  rfl

/-- Adding the first field of a message leaves the others to add. -/
theorem foldlM_cons_of_some {f : Field} {fields : List Field} {m m' : M} (h : add m f = some m') :
    (f :: fields).foldlM add m = fields.foldlM add m' := by
  rw [List.foldlM_cons, h]
  rfl

/-- The fields of a repeated field add its items in order. -/
theorem foldlM_repeated {α : Type*} {field : α → Field} (put : M → List α → M)
    (hnil : ∀ m, put m [] = m) (hcons : ∀ m a items, put (put m [a]) items = put m (a :: items))
    {items : List α} (h : ∀ m, ∀ a ∈ items, add m (field a) = some (put m [a])) (m : M) :
    (items.map field).foldlM add m = some (put m items) := by
  induction items generalizing m with
  | nil =>
    rw [hnil]
    rfl
  | cons a items ih =>
    have hhead := h m a List.mem_cons_self
    have htail := ih (fun m b hb => h m b (List.mem_cons_of_mem _ hb)) (put m [a])
    rw [hcons] at htail
    rw [List.map_cons, foldlM_cons_of_some hhead, htail]

end Wire
