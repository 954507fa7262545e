import TaskExplorer.Codec
import TaskExplorer.OrderedMap

/-!
# The variant format: headers and packets

One packet is a type byte, a length where the type byte does not give it, and
the payload. `read_header` and `from_packet` follow `CVariant::ReadHeader` and
`CVariant::FromPacket`, `packet_header` and `to_packet` the static
`CVariant::ToPacket`.
-/

namespace TaskExplorer.VariantFormat
open Codec

/-- What a `CException` carries, and whether it was thrown as a pointer, which
    a handler for the class does not catch. -/
structure CException where
  line : String
  pointer : Bool := false
deriving DecidableEq, Repr

/-! ## Type bytes -/

/-- `VAR_TYPE`: the five low bits of a type byte, named or not. -/
abbrev VarType := Fin 32

def VAR_TYPE_EMPTY : VarType := 0b00000
def VAR_TYPE_MAP : VarType := 0b00001
def VAR_TYPE_LIST : VarType := 0b00010
def VAR_TYPE_INDEX : VarType := 0b00011
def VAR_TYPE_BYTES : VarType := 0b00111
def VAR_TYPE_ASCII : VarType := 0b01000
def VAR_TYPE_UTF8 : VarType := 0b01001
def VAR_TYPE_UNICODE : VarType := 0b01010
def VAR_TYPE_UINT : VarType := 0b01100
def VAR_TYPE_SINT : VarType := 0b01101
def VAR_TYPE_DOUBLE : VarType := 0b01110

def VAR_TYPE_MASK : UInt8 := 0b00011111
def VAR_LEN_FIELD : UInt8 := 0b00100000
def VAR_LEN_MASK : UInt8 := 0b11000000
def VAR_LEN8 : UInt8 := 0b00000000
def VAR_LEN16 : UInt8 := 0b01000000
def VAR_LEN32 : UInt8 := 0b10000000
def VAR_LEN64 : UInt8 := 0b11000000

def UCHAR_MAX : Nat := 255
def USHRT_MAX : Nat := 65535

def typeByte (type : VarType) : UInt8 := UInt8.ofNat type.val

/-- The type with the size flags cleared. -/
def typeOf (byte : UInt8) : VarType :=
  ⟨(byte &&& VAR_TYPE_MASK).toNat, by
    rw [UInt8.toNat_and]
    exact Nat.lt_of_le_of_lt Nat.and_le_right (by decide)⟩

/-! ## Reading -/

/-- A `CBuffer` as its reader sees it: the bytes from the position to the end
    of the data, and the position. -/
structure Cursor where
  left : Bytes
  position : Nat
deriving DecidableEq, Repr

def read_data (length : Nat) (buffer : Cursor) : Except CException (Bytes × Cursor) :=
  if buffer.left.length < length then .error { line := "CBuffer::ReadError" }
  else .ok (buffer.left.take length, ⟨buffer.left.drop length, buffer.position + length⟩)

/-- `ReadValue<T>` for an unsigned `T` of `width` bytes. -/
def read_value (width : Nat) (buffer : Cursor) : Except CException (Nat × Cursor) := do
  let (bytes, buffer) ← read_data width buffer
  return (leNat bytes, buffer)

/-- Where the length of a payload stands: in the type byte, or in a field of
    some bytes behind it. -/
inductive Length where
  | fixed (size : Nat)
  | field (width : Nat)
deriving DecidableEq, Repr

def length_form (type : UInt8) : Length :=
  if type &&& VAR_LEN_FIELD ≠ 0 then
    if type &&& VAR_LEN_MASK = VAR_LEN8 then .field 1
    else if type &&& VAR_LEN_MASK = VAR_LEN16 then .field 2
    -- VAR_LEN32, and VAR_LEN64 as well
    else .field 4
  else if typeOf type = VAR_TYPE_EMPTY then .fixed 0
  else if type &&& VAR_LEN_MASK = VAR_LEN8 then .fixed 1
  else if type &&& VAR_LEN_MASK = VAR_LEN16 then .fixed 2
  else if type &&& VAR_LEN_MASK = VAR_LEN32 then .fixed 4
  else .fixed 8

def read_length (form : Length) (buffer : Cursor) : Except CException (Nat × Cursor) :=
  match form with
  | .fixed size => .ok (size, buffer)
  | .field width => read_value width buffer

def read_header (buffer : Cursor) : Except CException ((VarType × Nat) × Cursor) := do
  let (type, buffer) ← read_value 1 buffer
  let (size, buffer) ← read_length (length_form (UInt8.ofNat type)) buffer
  if buffer.left.length < size then throw { line := "incomplete variant" }
  return ((typeOf (UInt8.ofNat type), size), buffer)

/-- A variant as it stands in a buffer: its type and its payload. -/
structure Packed where
  type : VarType
  payload : Bytes
deriving DecidableEq, Repr

def from_packet (buffer : Cursor) : Except CException (Packed × Cursor) := do
  let ((type, size), buffer) ← read_header buffer
  let (payload, buffer) ← read_data size buffer
  return (⟨type, payload⟩, buffer)

/-! ## Writing -/

def packet_header (type : VarType) (length : Nat) : Bytes :=
  if type = VAR_TYPE_EMPTY then [typeByte type]
  else if length = 1 then [typeByte type ||| VAR_LEN8]
  else if length = 2 then [typeByte type ||| VAR_LEN16]
  else if length = 4 then [typeByte type ||| VAR_LEN32]
  else if length = 8 then [typeByte type ||| VAR_LEN64]
  else if length > USHRT_MAX then (typeByte type ||| VAR_LEN_FIELD ||| VAR_LEN32) :: leBytes 4 length
  else if length > UCHAR_MAX then (typeByte type ||| VAR_LEN_FIELD ||| VAR_LEN16) :: leBytes 2 length
  else (typeByte type ||| VAR_LEN_FIELD ||| VAR_LEN8) :: leBytes 1 length

def to_packet (variant : Packed) : Bytes := packet_header variant.type variant.payload.length ++ variant.payload

/-! ## What the two agree on -/

/-- The payloads the header can spell: an EMPTY has none, and a length field
    holds 32 bits. -/
structure Encodable (variant : Packed) : Prop where
  bare : variant.type = VAR_TYPE_EMPTY → variant.payload = []
  fits : variant.payload.length < 2 ^ 32

theorem type_byte_bits : ∀ type : VarType,
    typeOf (typeByte type) = type ∧
    typeOf (typeByte type ||| VAR_LEN8) = type ∧ typeOf (typeByte type ||| VAR_LEN16) = type ∧
    typeOf (typeByte type ||| VAR_LEN32) = type ∧ typeOf (typeByte type ||| VAR_LEN64) = type ∧
    typeOf (typeByte type ||| VAR_LEN_FIELD ||| VAR_LEN8) = type ∧
    typeOf (typeByte type ||| VAR_LEN_FIELD ||| VAR_LEN16) = type ∧
    typeOf (typeByte type ||| VAR_LEN_FIELD ||| VAR_LEN32) = type := by
  decide

theorem type_byte_forms : ∀ type : VarType,
    (type = VAR_TYPE_EMPTY → length_form (typeByte type) = .fixed 0) ∧
    (type ≠ VAR_TYPE_EMPTY →
      length_form (typeByte type ||| VAR_LEN8) = .fixed 1 ∧ length_form (typeByte type ||| VAR_LEN16) = .fixed 2 ∧
      length_form (typeByte type ||| VAR_LEN32) = .fixed 4 ∧ length_form (typeByte type ||| VAR_LEN64) = .fixed 8 ∧
      length_form (typeByte type ||| VAR_LEN_FIELD ||| VAR_LEN8) = .field 1 ∧
      length_form (typeByte type ||| VAR_LEN_FIELD ||| VAR_LEN16) = .field 2 ∧
      length_form (typeByte type ||| VAR_LEN_FIELD ||| VAR_LEN32) = .field 4) := by
  decide

/-- The header bytes a reader takes for a type and a size: one type byte, and
    the length field it asks for. -/
def HeaderOf (bytes : Bytes) (type : VarType) (size : Nat) : Prop :=
  ∃ byte field, bytes = byte :: field ∧ typeOf byte = type ∧
    match length_form byte with
    | .fixed length => field = [] ∧ size = length
    | .field width => field.length = width ∧ size = leNat field

theorem read_data_ok_iff {length : Nat} {buffer after : Cursor} {bytes : Bytes} :
    read_data length buffer = .ok (bytes, after) ↔
      bytes.length = length ∧ buffer.left = bytes ++ after.left ∧ after.position = buffer.position + length := by
  obtain ⟨left, position⟩ := buffer
  obtain ⟨afterLeft, afterPosition⟩ := after
  unfold read_data
  by_cases short : left.length < length
  · simp only [short, ↓reduceIte, reduceCtorEq, false_iff]
    rintro ⟨size, split, -⟩
    simp only [split, List.length_append] at short
    omega
  · simp only [short, ↓reduceIte, Except.ok.injEq, Prod.mk.injEq, Cursor.mk.injEq]
    constructor
    · rintro ⟨rfl, rfl, rfl⟩
      exact ⟨by simp; omega, by simp, rfl⟩
    · rintro ⟨rfl, rfl, rfl⟩
      simp

theorem read_value_ok_iff {width value : Nat} {buffer after : Cursor} :
    read_value width buffer = .ok (value, after) ↔
      ∃ bytes, bytes.length = width ∧ buffer.left = bytes ++ after.left ∧ after.position = buffer.position + width ∧
        value = leNat bytes := by
  unfold read_value
  cases outcome : read_data width buffer with
  | error raised =>
    simp only [bind, Except.bind, reduceCtorEq, false_iff]
    rintro ⟨bytes, size, split, position, -⟩
    rw [read_data_ok_iff.mpr ⟨size, split, position⟩] at outcome
    cases outcome
  | ok pair =>
    obtain ⟨bytes, rest⟩ := pair
    simp only [bind, Except.bind, pure, Except.pure, Except.ok.injEq, Prod.mk.injEq]
    obtain ⟨size, split, position⟩ := read_data_ok_iff.mp outcome
    constructor
    · rintro ⟨rfl, rfl⟩
      exact ⟨bytes, size, split, position, rfl⟩
    · rintro ⟨others, otherSize, otherSplit, otherPosition, rfl⟩
      have same := List.append_inj (split.symm.trans otherSplit) (size.trans otherSize.symm)
      refine ⟨by rw [same.1], ?_⟩
      cases rest
      cases after
      simp_all

private theorem read_length_ok_iff {form : Length} {size : Nat} {buffer after : Cursor} :
    read_length form buffer = .ok (size, after) ↔
      ∃ field, buffer.left = field ++ after.left ∧ after.position = buffer.position + field.length ∧
        match form with
        | .fixed length => field = [] ∧ size = length
        | .field width => field.length = width ∧ size = leNat field := by
  cases form with
  | fixed length =>
    obtain ⟨left, position⟩ := buffer
    obtain ⟨afterLeft, afterPosition⟩ := after
    simp only [read_length, Except.ok.injEq, Prod.mk.injEq, Cursor.mk.injEq]
    constructor
    · rintro ⟨rfl, rfl, rfl⟩
      exact ⟨[], rfl, rfl, rfl, rfl⟩
    · rintro ⟨field, split, position, rfl, rfl⟩
      exact ⟨rfl, split, position.symm⟩
  | field width =>
    rw [read_length, read_value_ok_iff]
    constructor
    · rintro ⟨bytes, size, split, position, value⟩
      exact ⟨bytes, split, by rw [size]; exact position, size, value⟩
    · rintro ⟨bytes, split, position, size, value⟩
      exact ⟨bytes, size, split, by rw [← size]; exact position, value⟩

theorem from_packet_ok_iff {buffer after : Cursor} {variant : Packed} :
    from_packet buffer = .ok (variant, after) ↔
      ∃ header, HeaderOf header variant.type variant.payload.length ∧
        buffer.left = header ++ variant.payload ++ after.left ∧
        after.position = buffer.position + header.length + variant.payload.length := by
  unfold from_packet read_header
  constructor
  · intro success
    cases first : read_value 1 buffer with
    | error raised => simp [first, bind, Except.bind] at success
    | ok typed =>
      obtain ⟨type, behindType⟩ := typed
      obtain ⟨bytes, one, typeSplit, typePosition, rfl⟩ := read_value_ok_iff.mp first
      obtain ⟨byte, rfl⟩ := List.length_eq_one_iff.mp one
      have byteValue : UInt8.ofNat (leNat [byte]) = byte := by simp [leNat]
      cases second : read_length (length_form byte) behindType with
      | error raised => simp [first, byteValue, second, bind, Except.bind] at success
      | ok sized =>
        obtain ⟨size, behindLength⟩ := sized
        obtain ⟨field, lengthSplit, lengthPosition, form⟩ := read_length_ok_iff.mp second
        by_cases incomplete : behindLength.left.length < size
        · simp [first, byteValue, second, incomplete, bind, Except.bind, throw, throwThe, MonadExceptOf.throw] at success
        · cases third : read_data size behindLength with
          | error raised =>
            simp [first, byteValue, second, incomplete, third, bind, Except.bind, pure, Except.pure] at success
          | ok loaded =>
            obtain ⟨payload, behindPayload⟩ := loaded
            obtain ⟨payloadSize, payloadSplit, payloadPosition⟩ := read_data_ok_iff.mp third
            simp [first, byteValue, second, incomplete, third, bind, Except.bind, pure, Except.pure] at success
            obtain ⟨rfl, rfl⟩ := success
            refine ⟨byte :: field, ⟨byte, field, rfl, rfl, by simpa only [payloadSize] using form⟩, ?_, ?_⟩
            · rw [typeSplit, lengthSplit, payloadSplit]
              simp
            · simp only [payloadPosition, lengthPosition, typePosition, List.length_cons, payloadSize]
              omega
  · rintro ⟨header, ⟨byte, field, rfl, type, form⟩, split, position⟩
    have first : read_value 1 buffer =
        .ok (leNat [byte], ⟨field ++ variant.payload ++ after.left, buffer.position + 1⟩) :=
      read_value_ok_iff.mpr ⟨[byte], rfl, by simpa using split, rfl, rfl⟩
    have byteValue : UInt8.ofNat (leNat [byte]) = byte := by simp [leNat]
    have second : read_length (length_form byte) ⟨field ++ variant.payload ++ after.left, buffer.position + 1⟩ =
        .ok (variant.payload.length, ⟨variant.payload ++ after.left, buffer.position + 1 + field.length⟩) :=
      read_length_ok_iff.mpr ⟨field, by simp, rfl, form⟩
    have complete : ¬ (variant.payload ++ after.left).length < variant.payload.length := by simp
    have third : read_data variant.payload.length ⟨variant.payload ++ after.left, buffer.position + 1 + field.length⟩ =
        .ok (variant.payload, after) :=
      read_data_ok_iff.mpr ⟨rfl, rfl, by simp only [position, List.length_cons]; omega⟩
    simp only [first, byteValue, second, complete, third, type, bind, Except.bind, pure, Except.pure, ↓reduceIte]

theorem packet_header_correct (variant : Packed) (encodable : Encodable variant) :
    HeaderOf (packet_header variant.type variant.payload.length) variant.type variant.payload.length := by
  obtain ⟨type, payload⟩ := variant
  obtain ⟨bare, fits⟩ := encodable
  simp only at bare fits
  obtain ⟨bits, bits8, bits16, bits32, bits64, field8, field16, field32⟩ := type_byte_bits type
  obtain ⟨emptyForm, otherForms⟩ := type_byte_forms type
  unfold packet_header
  by_cases empty : type = VAR_TYPE_EMPTY
  · rw [if_pos empty]
    exact ⟨_, [], rfl, bits, by rw [emptyForm empty]; exact ⟨rfl, by rw [bare empty]; rfl⟩⟩
  · obtain ⟨form8, form16, form32, form64, long8, long16, long32⟩ := otherForms empty
    rw [if_neg empty]
    by_cases one : payload.length = 1
    · rw [if_pos one]
      exact ⟨_, [], rfl, bits8, by rw [form8]; exact ⟨rfl, one⟩⟩
    rw [if_neg one]
    by_cases two : payload.length = 2
    · rw [if_pos two]
      exact ⟨_, [], rfl, bits16, by rw [form16]; exact ⟨rfl, two⟩⟩
    rw [if_neg two]
    by_cases four : payload.length = 4
    · rw [if_pos four]
      exact ⟨_, [], rfl, bits32, by rw [form32]; exact ⟨rfl, four⟩⟩
    rw [if_neg four]
    by_cases eight : payload.length = 8
    · rw [if_pos eight]
      exact ⟨_, [], rfl, bits64, by rw [form64]; exact ⟨rfl, eight⟩⟩
    rw [if_neg eight]
    by_cases long : payload.length > USHRT_MAX
    · rw [if_pos long]
      exact ⟨_, _, rfl, field32, by rw [long32]; exact ⟨leBytes_length .., (leNat_leBytes_of_lt fits).symm⟩⟩
    rw [if_neg long]
    unfold USHRT_MAX at long
    by_cases medium : payload.length > UCHAR_MAX
    · rw [if_pos medium]
      have twoBytes : payload.length < 256 ^ 2 := by omega
      exact ⟨_, _, rfl, field16, by rw [long16]; exact ⟨leBytes_length .., (leNat_leBytes_of_lt twoBytes).symm⟩⟩
    rw [if_neg medium]
    unfold UCHAR_MAX at medium
    have oneByte : payload.length < 256 ^ 1 := by omega
    exact ⟨_, _, rfl, field8, by rw [long8]; exact ⟨leBytes_length .., (leNat_leBytes_of_lt oneByte).symm⟩⟩

theorem from_packet_to_packet (variant : Packed) (encodable : Encodable variant) (rest : Bytes) (position : Nat) :
    from_packet ⟨to_packet variant ++ rest, position⟩ =
      .ok (variant, ⟨rest, position + (to_packet variant).length⟩) :=
  from_packet_ok_iff.mpr ⟨_, packet_header_correct variant encodable, by simp [to_packet],
    by simp only [to_packet, List.length_append]; omega⟩

private theorem length_form_cases (byte : UInt8) :
    (length_form byte = .fixed 0 ∧ typeOf byte = VAR_TYPE_EMPTY) ∨
    length_form byte = .fixed 1 ∨ length_form byte = .fixed 2 ∨ length_form byte = .fixed 4 ∨ length_form byte = .fixed 8 ∨
    length_form byte = .field 1 ∨ length_form byte = .field 2 ∨ length_form byte = .field 4 := by
  unfold length_form
  split_ifs with _ _ _ empty <;> simp
  exact empty

theorem empty_header_length {header : Bytes} {size : Nat} (valid : HeaderOf header VAR_TYPE_EMPTY size) (carries : size ≠ 0) :
    2 ≤ header.length := by
  obtain ⟨byte, field, rfl, typed, form⟩ := valid
  by_cases long : byte &&& VAR_LEN_FIELD ≠ 0
  · unfold length_form at form
    rw [if_pos long] at form
    split_ifs at form <;> obtain ⟨width, -⟩ := form <;> simp only [List.length_cons, width] <;> omega
  · have bare : length_form byte = .fixed 0 := by
      rw [length_form, if_neg long, if_pos typed]
    rw [bare] at form
    exact absurd form.2 carries

theorem header_size_lt {header : Bytes} {type : VarType} {size : Nat} (valid : HeaderOf header type size) : size < 2 ^ 32 := by
  obtain ⟨byte, field, rfl, -, form⟩ := valid
  rcases length_form_cases byte with ⟨known, -⟩ | known | known | known | known | known | known | known <;>
    rw [known] at form <;> obtain ⟨width, rfl⟩ := form
  iterate 5 decide
  all_goals
    have bound := leNat_lt field
    rw [width] at bound
    omega

theorem packet_header_length (type : VarType) (length : Nat) :
    (packet_header type length).length =
      if type = VAR_TYPE_EMPTY ∨ length = 1 ∨ length = 2 ∨ length = 4 ∨ length = 8 then 1
      else if length ≤ UCHAR_MAX then 2
      else if length ≤ USHRT_MAX then 3
      else 5 := by
  unfold packet_header USHRT_MAX UCHAR_MAX
  by_cases empty : type = VAR_TYPE_EMPTY
  · simp [empty]
  · by_cases plain : length = 1 ∨ length = 2 ∨ length = 4 ∨ length = 8
    · rw [if_neg empty, if_pos (Or.inr plain)]
      rcases plain with rfl | rfl | rfl | rfl <;> rfl
    · have bits : ¬ (type = VAR_TYPE_EMPTY ∨ length = 1 ∨ length = 2 ∨ length = 4 ∨ length = 8) := by
        rintro (known | known)
        · exact empty known
        · exact plain known
      rw [if_neg empty, if_neg bits, if_neg (by omega), if_neg (by omega), if_neg (by omega), if_neg (by omega)]
      by_cases long : length > 65535
      · rw [if_pos long, if_neg (by omega), if_neg (by omega)]
        simp
      · by_cases medium : length > 255
        · rw [if_neg long, if_pos medium, if_neg (by omega), if_pos (by omega)]
          simp
        · rw [if_neg long, if_neg medium, if_pos (by omega)]
          simp

theorem packet_header_shortest {header : Bytes} {type : VarType} {size : Nat} (valid : HeaderOf header type size) :
    (packet_header type size).length ≤ header.length := by
  obtain ⟨byte, field, rfl, typed, form⟩ := valid
  have bound := leNat_lt field
  rw [packet_header_length, List.length_cons]
  unfold UCHAR_MAX USHRT_MAX
  rcases length_form_cases byte with ⟨known, empty⟩ | known | known | known | known | known | known | known <;>
    rw [known] at form <;> obtain ⟨width, rfl⟩ := form
  · rw [if_pos (Or.inl (typed.symm.trans empty))]
    omega
  iterate 4
    rw [if_pos (by simp)]
    omega
  all_goals
    rw [width] at bound ⊢
    split_ifs <;> omega

theorem to_packet_length_mono {type : VarType} {short long : Bytes} (shorter : short.length ≤ long.length) :
    (to_packet ⟨type, short⟩).length ≤ (to_packet ⟨type, long⟩).length := by
  simp only [to_packet, List.length_append, packet_header_length, UCHAR_MAX, USHRT_MAX]
  by_cases empty : type = VAR_TYPE_EMPTY
  · simpa [empty] using shorter
  · simp only [empty, false_or]
    generalize short.length = small at shorter ⊢
    generalize long.length = large at shorter ⊢
    grind

end TaskExplorer.VariantFormat
