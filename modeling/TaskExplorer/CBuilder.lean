import TaskExplorer.CReader
import TaskExplorer.VariantTree

/-!
# The builder of the C library

The writing half of `SVariant.c`. A container is built in place: the buffer of
the outermost variant holds all that are open, each behind the key it will be
found under and the room for its header. Lengths are `uint32` in a variant and
`size_t` (64 bits) in a call. `Variant_SInit` keeps a payload in the variant
itself; such a variant only comes in as the value of an entry.
-/

namespace TaskExplorer.CBuilder
open Codec VariantFormat VariantContainer VariantTree

/-- A byte at or behind the end of a buffer is written. -/
structure Overrun where
deriving DecidableEq, Repr

/-- A variant under construction; `pData` is an offset into the buffer. -/
structure VARIANT where
  uType : VarType
  uSize : Nat
  uMaxSize : Nat
  pData : Nat
deriving DecidableEq, Repr

/-! ## The model -/

def store (memory : Bytes) (ptr : Nat) (bytes : Bytes) : Except Overrun Bytes :=
  if ptr + bytes.length ≤ memory.length then .ok (memory.take ptr ++ bytes ++ memory.drop (ptr + bytes.length))
  else .error {}

/-- The bytes `Variant_WriteSize` puts down. -/
def write_size (type : VarType) (size : Nat) : Bytes :=
  if type = VAR_TYPE_EMPTY then [typeByte type]
  else if size = 1 then [typeByte type ||| VAR_LEN8]
  else if size = 2 then [typeByte type ||| VAR_LEN16]
  else if size = 4 then [typeByte type ||| VAR_LEN32]
  else if size = 8 then [typeByte type ||| VAR_LEN64]
  else if size ≥ USHRT_MAX then (typeByte type ||| VAR_LEN_FIELD ||| VAR_LEN32) :: leBytes 4 size
  else if size ≥ UCHAR_MAX then (typeByte type ||| VAR_LEN_FIELD ||| VAR_LEN16) :: leBytes 2 size
  else (typeByte type ||| VAR_LEN_FIELD ||| VAR_LEN8) :: leBytes 1 size

def variant_write_raw (memory : Bytes) (ptr : Nat) (type : VarType) (value : Bytes) : Except Overrun (Bytes × Nat) := do
  let header := write_size type value.length
  let memory ← store memory ptr header
  let memory ← store memory (ptr + header.length) value
  return (memory, header.length + value.length)

def variant_init (type : VarType) (pBuffer uMaxSize : Nat) : VARIANT := ⟨type, 0, uMaxSize % 2 ^ 32, pBuffer⟩

/-- How much a header takes that is picked by the room behind it. -/
def header_room (uMaxSize : Nat) : Nat :=
  if uMaxSize ≥ USHRT_MAX then 1 + 4
  else if uMaxSize ≥ UCHAR_MAX then 1 + 2
  else 1 + 1

def variant_prepare (type : VarType) (pBuffer uMaxSize : Nat) : VARIANT :=
  let room := (2 ^ 64 + uMaxSize - (1 + 4)) % 2 ^ 64
  variant_init type (pBuffer + header_room room) room

def finish_header (var : VARIANT) : Bytes :=
  if var.uMaxSize ≥ USHRT_MAX then (typeByte var.uType ||| VAR_LEN_FIELD ||| VAR_LEN32) :: leBytes 4 var.uSize
  else if var.uMaxSize ≥ UCHAR_MAX then (typeByte var.uType ||| VAR_LEN_FIELD ||| VAR_LEN16) :: leBytes 2 var.uSize
  else (typeByte var.uType ||| VAR_LEN_FIELD ||| VAR_LEN8) :: leBytes 1 var.uSize

def variant_finish (memory : Bytes) (pBuffer : Nat) (var : VARIANT) : Except Overrun (Bytes × Nat) :=
  if var.uType ≠ VAR_TYPE_EMPTY then do
    let memory ← store memory pBuffer (finish_header var)
    return (memory, (finish_header var).length + var.uSize)
  else return (memory, 0)

/-- `uMaxSize - uSize`. -/
def remaining (var : VARIANT) : Nat := (2 ^ 32 + var.uMaxSize - var.uSize) % 2 ^ 32

/-- What `Variant_InsertRaw`, `Variant_AddRaw` and `Variant_AppendRaw` share: the
    type they turn an EMPTY into, the check against the room they think they need,
    the key, and the value if there is one. -/
def enter_raw (kind : Kind) (needs : Nat) (key : Bytes) (memory : Bytes) (var : VARIANT) (type : VarType) (value : Option Bytes) :
    Except Overrun (Bytes × VARIANT × Bool) :=
  if var.uType ≠ VAR_TYPE_EMPTY ∧ var.uType ≠ kind.type then return (memory, var, false)
  else if remaining var < needs then return (memory, { var with uType := kind.type }, false)
  else do
    let ptr := var.pData + var.uSize
    let memory ← store memory ptr key
    let var := { var with uType := kind.type, uSize := (var.uSize + key.length) % 2 ^ 32 }
    match value with
    | none => return (memory, var, true)
    | some value =>
      let (memory, length) ← variant_write_raw memory (ptr + key.length) type value
      return (memory, { var with uSize := (var.uSize + length) % 2 ^ 32 }, true)

def variant_insert_raw (memory : Bytes) (var : VARIANT) (name : Bytes) (type : VarType) (value : Option Bytes) :
    Except Overrun (Bytes × VARIANT × Bool) :=
  enter_raw .map (1 + (c_str name).length + 1 + (value.getD []).length) (UInt8.ofNat (c_str name).length :: c_str name) memory var type value

def variant_add_raw (memory : Bytes) (var : VARIANT) (index : UInt32) (type : VarType) (value : Option Bytes) :
    Except Overrun (Bytes × VARIANT × Bool) :=
  enter_raw .index (4 + (value.getD []).length) (leBytes 4 index.toNat) memory var type value

def variant_append_raw (memory : Bytes) (var : VARIANT) (type : VarType) (value : Option Bytes) :
    Except Overrun (Bytes × VARIANT × Bool) :=
  enter_raw .list (value.getD []).length [] memory var type value

/-- The three by the kind of key they are given. -/
def variant_raw (key : Key) (memory : Bytes) (var : VARIANT) (type : VarType) (value : Option Bytes) :
    Except Overrun (Bytes × VARIANT × Bool) :=
  match key with
  | .name name => variant_insert_raw memory var name type value
  | .id index => variant_add_raw memory var index type value
  | .item => variant_append_raw memory var type value

/-- `Variant_PrepareInsert`, `Variant_PrepareAdd` and `Variant_PrepareAppend`. -/
def variant_prepare_raw (key : Key) (memory : Bytes) (var : VARIANT) (type : VarType) :
    Except Overrun (Bytes × VARIANT × Option VARIANT) := do
  let (memory, var, reported) ← variant_raw key memory var VAR_TYPE_EMPTY none
  if reported then return (memory, var, some (variant_prepare type (var.pData + var.uSize) (remaining var)))
  else return (memory, var, none)

def variant_finish_entry (memory : Bytes) (var child : VARIANT) : Except Overrun (Bytes × VARIANT) := do
  let (memory, length) ← variant_finish memory (var.pData + var.uSize) child
  return (memory, { var with uSize := (var.uSize + length) % 2 ^ 32 })

def segment (memory : Bytes) (var : VARIANT) : Bytes := (memory.drop var.pData).take var.uSize

/-- The variant is read from `memory`, the packet is written to `out`. -/
def variant_to_buffer (memory : Bytes) (var : VARIANT) (out : Bytes) (pBuffer uMaxSize : Nat) : Except Overrun (Bytes × Nat) :=
  if uMaxSize < (1 + 4 + var.uSize) % 2 ^ 32 then return (out, 0)
  else variant_write_raw out pBuffer var.uType (segment memory var)

def variant_to_packet (name : Bytes) (memory : Bytes) (var : VARIANT) (out : Bytes) : Except Overrun (Bytes × Nat) :=
  if out.length < 1 + (c_str name).length ∨ (c_str name).length > 0x7F then return (out, 0)
  else do
    let out ← store out 0 (UInt8.ofNat (c_str name).length :: c_str name)
    variant_to_buffer memory var out (1 + (c_str name).length) (out.length - (1 + (c_str name).length))

/-- The name, the variant and the value returned; nothing stands for 0. -/
def variant_from_packet (memory : Bytes) (max_name : Nat) : Except CReader.Trap (Option (Bytes × CReader.VARIANT × Nat)) := do
  if memory.length < 1 then return none
  let name_len ← CReader.load memory 0 1
  if memory.length < 1 + name_len ∨ name_len > (2 ^ 64 + max_name - 1) % 2 ^ 64 then return none
  let name ← CReader.load_bytes memory 1 name_len
  let found ← CReader.variant_from_buffer memory (1 + name_len) (memory.length - (1 + name_len))
  return found.map (fun read => (name, read.1, read.2))

/-! ## Runs -/

/-- The buffer, and the variants that are open in it, the innermost first. -/
structure Builder where
  memory : Bytes
  stack : List VARIANT
deriving DecidableEq, Repr

inductive Op where
  /-- Insert, Add or Append of a value, in any of their forms. -/
  | enter (key : Key) (type : VarType) (value : Bytes)
  | prepare (key : Key) (type : VarType)
  | finishEntry
deriving DecidableEq, Repr

/-- One call on the innermost variant, and what it reports. -/
def step (builder : Builder) (op : Op) : Except Overrun (Builder × Bool) :=
  match op, builder.stack with
  | .enter key type value, var :: rest => do
    let (memory, var, reported) ← variant_raw key builder.memory var type (some value)
    return (⟨memory, var :: rest⟩, reported)
  | .prepare key type, var :: rest => do
    let (memory, var, child) ← variant_prepare_raw key builder.memory var type
    match child with
    | none => return (⟨memory, var :: rest⟩, false)
    | some child => return (⟨memory, child :: var :: rest⟩, true)
  | .finishEntry, child :: var :: rest => do
    let (memory, var) ← variant_finish_entry builder.memory var child
    return (⟨memory, var :: rest⟩, true)
  | _, _ => return (builder, false)

/-- `Variant_Init` and `Variant_Prepare` on a whole buffer. -/
def inited (type : VarType) (buffer : Bytes) : Builder := ⟨buffer, [variant_init type 0 buffer.length]⟩

def prepared (type : VarType) (buffer : Bytes) : Builder := ⟨buffer, [variant_prepare type 0 buffer.length]⟩

/-! ## What is being built -/

/-- An open container: the key it will be put under, and its entries so far. -/
structure Frame where
  key : Key
  type : VarType
  entries : List (Key × Tree)

def Frame.tree (frame : Frame) : Tree :=
  match kindOf frame.type with
  | some kind => .node kind frame.entries
  | none => .leaf frame.type []

/-- An EMPTY becomes a container when something is put into it. -/
def Frame.put (frame : Frame) (key : Key) (trees : List (Key × Tree)) : Frame :=
  { frame with type := (VariantValue.Key.kind key).type, entries := frame.entries ++ trees }

/-- What a call that succeeded does to what is built. -/
def build (op : Op) (frames : List Frame) : List Frame :=
  match op, frames with
  | .enter key type value, frame :: rest => frame.put key [(key.stored, .leaf type value)] :: rest
  | .prepare key type, frame :: rest => ⟨key.stored, type, []⟩ :: frame.put key [] :: rest
  | .finishEntry, child :: frame :: rest => { frame with entries := frame.entries ++ [(child.key, child.tree)] } :: rest
  | _, frames => frames

mutual
/-- A reader who goes through the packet finds the tree, in the order it was
    built in. -/
def Shows : Tree → Packed → Prop
  | .leaf type payload, packed => packed = ⟨type, payload⟩
  | .node kind entries, packed =>
    packed.type = kind.type ∧ ∃ pairs, raw_entries kind packed.payload = (pairs, .pending []) ∧ ShowsAll entries pairs

def ShowsAll : List (Key × Tree) → List (Key × Packed) → Prop
  | [], pairs => pairs = []
  | (key, tree) :: rest, pairs => ∃ packed others, pairs = (key, packed) :: others ∧ Shows tree packed ∧ ShowsAll rest others
end

/-! ## Where a call stays inside -/

/-- The bytes of a key, and the room the call asks for. -/
def spelled : Key → Bytes
  | .name name => UInt8.ofNat (c_str name).length :: c_str name
  | .id index => leBytes 4 index.toNat
  | .item => []

def needs (key : Key) (size : Nat) : Nat :=
  match key with
  | .name name => 1 + (c_str name).length + 1 + size
  | .id _ => 4 + size
  | .item => size

/-- The call returns NULL: the variant is something else, or has no room. -/
def Refused (var : VARIANT) (key : Key) (size : Nat) : Prop :=
  (var.uType ≠ VAR_TYPE_EMPTY ∧ var.uType ≠ (VariantValue.Key.kind key).type) ∨ remaining var < needs key size

instance (var : VARIANT) (key : Key) (size : Nat) : Decidable (Refused var key size) :=
  inferInstanceAs (Decidable (_ ∨ _))

/-- The calls that keep to the buffer. A refused one finds the variant with its
    type already settled. One that is accepted has a name that its length byte can
    hold and room for all it writes: the header of the value, or the five bytes
    that `Variant_Prepare` takes off. A container is finished when it has a type. -/
def Admissible (builder : Builder) (op : Op) : Prop :=
  match op, builder.stack with
  | .enter key type value, var :: _ =>
    if Refused var key value.length then var.uType ≠ VAR_TYPE_EMPTY
    else KeyFits (VariantValue.Key.kind key) key.stored ∧ (type = VAR_TYPE_EMPTY → value = []) ∧
      (spelled key).length + (write_size type value.length).length + value.length ≤ remaining var
  | .prepare key _, var :: _ =>
    if Refused var key 0 then var.uType ≠ VAR_TYPE_EMPTY
    else KeyFits (VariantValue.Key.kind key) key.stored ∧ (spelled key).length + 5 ≤ remaining var
  | .finishEntry, child :: _ :: _ => child.uType ≠ VAR_TYPE_EMPTY
  | _, _ => False

/-! ## Headers -/

private theorem finish_header_length (var : VARIANT) : (finish_header var).length = header_room var.uMaxSize := by
  unfold finish_header header_room
  split_ifs <;> simp

theorem finish_header_correct {var : VARIANT} (typed : var.uType ≠ VAR_TYPE_EMPTY) (size : var.uSize ≤ var.uMaxSize)
    (narrow : var.uMaxSize < 2 ^ 32) : HeaderOf (finish_header var) var.uType var.uSize := by
  obtain ⟨-, -, -, -, -, field8, field16, field32⟩ := type_byte_bits var.uType
  obtain ⟨-, -, -, -, long8, long16, long32⟩ := (type_byte_forms var.uType).2 typed
  unfold finish_header
  by_cases large : var.uMaxSize ≥ USHRT_MAX
  · rw [if_pos large]
    exact ⟨_, _, rfl, field32, by rw [long32]; exact ⟨leBytes_length .., (leNat_leBytes_of_lt (by omega)).symm⟩⟩
  · rw [if_neg large]
    unfold USHRT_MAX at large
    by_cases medium : var.uMaxSize ≥ UCHAR_MAX
    · rw [if_pos medium]
      exact ⟨_, _, rfl, field16, by rw [long16]; exact ⟨leBytes_length .., (leNat_leBytes_of_lt (by omega)).symm⟩⟩
    · rw [if_neg medium]
      unfold UCHAR_MAX at medium
      exact ⟨_, _, rfl, field8, by rw [long8]; exact ⟨leBytes_length .., (leNat_leBytes_of_lt (by omega)).symm⟩⟩

variable {type : VarType} {trailing : Bytes} {pairs : List (Key × Packed)}

theorem write_size_correct {size : Nat} (bare : type = VAR_TYPE_EMPTY → size = 0) (small : size < 2 ^ 32) :
    HeaderOf (write_size type size) type size := by
  obtain ⟨bits, bits8, bits16, bits32, bits64, field8, field16, field32⟩ := type_byte_bits type
  obtain ⟨formEmpty, forms⟩ := type_byte_forms type
  unfold write_size
  by_cases empty : type = VAR_TYPE_EMPTY
  · rw [if_pos empty]
    exact ⟨_, [], rfl, bits, by rw [formEmpty empty]; exact ⟨rfl, bare empty⟩⟩
  obtain ⟨form8, form16, form32, form64, long8, long16, long32⟩ := forms empty
  rw [if_neg empty]
  by_cases one : size = 1
  · rw [if_pos one]
    exact ⟨_, [], rfl, bits8, by rw [form8]; exact ⟨rfl, one⟩⟩
  rw [if_neg one]
  by_cases two : size = 2
  · rw [if_pos two]
    exact ⟨_, [], rfl, bits16, by rw [form16]; exact ⟨rfl, two⟩⟩
  rw [if_neg two]
  by_cases four : size = 4
  · rw [if_pos four]
    exact ⟨_, [], rfl, bits32, by rw [form32]; exact ⟨rfl, four⟩⟩
  rw [if_neg four]
  by_cases eight : size = 8
  · rw [if_pos eight]
    exact ⟨_, [], rfl, bits64, by rw [form64]; exact ⟨rfl, eight⟩⟩
  rw [if_neg eight]
  by_cases long : size ≥ USHRT_MAX
  · rw [if_pos long]
    exact ⟨_, _, rfl, field32, by rw [long32]; exact ⟨leBytes_length .., (leNat_leBytes_of_lt (by omega)).symm⟩⟩
  rw [if_neg long]
  unfold USHRT_MAX at long
  by_cases medium : size ≥ UCHAR_MAX
  · rw [if_pos medium]
    exact ⟨_, _, rfl, field16, by rw [long16]; exact ⟨leBytes_length .., (leNat_leBytes_of_lt (by omega)).symm⟩⟩
  rw [if_neg medium]
  unfold UCHAR_MAX at medium
  exact ⟨_, _, rfl, field8, by rw [long8]; exact ⟨leBytes_length .., (leNat_leBytes_of_lt (by omega)).symm⟩⟩

/-! ## Writing into a buffer -/

theorem store_spec {memory : Bytes} {ptr : Nat} {bytes : Bytes} (inside : ptr + bytes.length ≤ memory.length) :
    ∃ after, store memory ptr bytes = .ok after ∧ after.length = memory.length ∧
      after.take (ptr + bytes.length) = memory.take ptr ++ bytes ∧
      after.drop (ptr + bytes.length) = memory.drop (ptr + bytes.length) := by
  have front : (memory.take ptr ++ bytes).length = ptr + bytes.length := by
    rw [List.length_append, List.length_take]
    omega
  refine ⟨_, if_pos inside, ?_, ?_, ?_⟩
  · rw [List.length_append, front, List.length_drop]
    omega
  · exact List.take_left' front
  · exact List.drop_left' front

private theorem store_again {memory middle : Bytes} {ptr : Nat} {first second : Bytes} (length : middle.length = memory.length)
    (front : middle.take (ptr + first.length) = memory.take ptr ++ first)
    (inside : ptr + first.length + second.length ≤ memory.length) :
    ∃ after, store middle (ptr + first.length) second = .ok after ∧ after.length = memory.length ∧
      after.take (ptr + (first ++ second).length) = memory.take ptr ++ (first ++ second) ∧
      after.drop (ptr + (first ++ second).length) = middle.drop (ptr + (first ++ second).length) := by
  obtain ⟨after, stored, same, taken, dropped⟩ := store_spec (length ▸ inside)
  rw [List.length_append, ← Nat.add_assoc]
  exact ⟨after, stored, same.trans length, by rw [taken, front, List.append_assoc], dropped⟩

private theorem variant_write_raw_spec {memory : Bytes} {ptr : Nat} {value : Bytes}
    (inside : ptr + (write_size type value.length).length + value.length ≤ memory.length) :
    ∃ after, variant_write_raw memory ptr type value = .ok (after, (write_size type value.length ++ value).length) ∧
      after.length = memory.length ∧
      after.take (ptr + (write_size type value.length ++ value).length) = memory.take ptr ++ (write_size type value.length ++ value) ∧
      after.drop (ptr + (write_size type value.length ++ value).length) =
        memory.drop (ptr + (write_size type value.length ++ value).length) := by
  obtain ⟨middle, stored, length, front, back⟩ := store_spec (show ptr + (write_size type value.length).length ≤ memory.length by omega)
  obtain ⟨after, again, same, taken, dropped⟩ := store_again length front inside
  refine ⟨after, ?_, same, taken, ?_⟩
  · simp only [variant_write_raw, stored, again, bind, Except.bind, pure, Except.pure, List.length_append]
  · rw [dropped, List.length_append, ← Nat.add_assoc, ← List.drop_drop, back, List.drop_drop]

/-! ## What the open variants hold -/

/-- The entries in the bytes of a container; anything else has none yet. -/
def Contents (type : VarType) (body : Bytes) (pairs : List (Key × Packed)) : Prop :=
  match kindOf type with
  | some kind => raw_entries kind body = (pairs, .pending [])
  | none => body = [] ∧ pairs = []

/-- An open variant and what is built in it. Its room ends in front of `limit`; it
    holds its entries and, while an entry is open, the key of that. -/
structure Holds (memory : Bytes) (limit : Nat) (trailing : Bytes) (var : VARIANT) (frame : Frame) : Prop where
  typed : var.uType = frame.type
  size : var.uSize ≤ var.uMaxSize
  narrow : var.uMaxSize < 2 ^ 32
  room : var.pData + var.uMaxSize ≤ limit
  shows : ∃ body pairs, segment memory var = body ++ trailing ∧ Contents frame.type body pairs ∧ ShowsAll frame.entries pairs

/-- The open variants, the innermost first. Each starts behind the end of the one
    around it and the room for its own header. -/
inductive Stacked (memory : Bytes) (base room : Nat) : Bytes → List VARIANT → List Frame → Prop where
  | root {trailing : Bytes} {var : VARIANT} {frame : Frame} (holds : Holds memory memory.length trailing var frame)
      (start : var.pData = base) (whole : var.uMaxSize = room) : Stacked memory base room trailing [var] [frame]
  | entry {trailing : Bytes} {child var : VARIANT} {frame parent : Frame} {stack : List VARIANT} {frames : List Frame} {kind : Kind}
      (holds : Holds memory (var.pData + var.uMaxSize) trailing child frame)
      (start : child.pData = var.pData + var.uSize + header_room child.uMaxSize) (known : parent.type = kind.type)
      (fits : KeyFits kind frame.key) (around : Stacked memory base room (write_key frame.key) (var :: stack) (parent :: frames)) :
      Stacked memory base room trailing (child :: var :: stack) (frame :: parent :: frames)

private theorem remaining_eq {var : VARIANT} (size : var.uSize ≤ var.uMaxSize) (narrow : var.uMaxSize < 2 ^ 32) :
    remaining var = var.uMaxSize - var.uSize := by
  unfold remaining
  omega

private theorem segment_eq (memory : Bytes) (var : VARIANT) :
    segment memory var = (memory.take (var.pData + var.uSize)).drop var.pData := by
  rw [segment, List.drop_take, Nat.add_sub_cancel_left]

private theorem holds_congr {memory other : Bytes} {limit : Nat} {var : VARIANT} {frame : Frame}
    (holds : Holds memory limit trailing var frame)
    (same : other.take (var.pData + var.uSize) = memory.take (var.pData + var.uSize)) :
    Holds other limit trailing var frame where
  typed := holds.typed
  size := holds.size
  narrow := holds.narrow
  room := holds.room
  shows := by
    rw [segment_eq, same, ← segment_eq]
    exact holds.shows

private theorem take_mono {memory other : Bytes} {shorter longer : Nat} (same : other.take longer = memory.take longer)
    (less : shorter ≤ longer) : other.take shorter = memory.take shorter := by
  have cut := congrArg (List.take shorter) same
  rwa [List.take_take, List.take_take, Nat.min_eq_left less] at cut

private theorem stacked_congr {memory other : Bytes} {base room : Nat} {var : VARIANT} {stack : List VARIANT}
    {frames : List Frame} (stacked : Stacked memory base room trailing (var :: stack) frames)
    (length : other.length = memory.length)
    (same : other.take (var.pData + var.uSize) = memory.take (var.pData + var.uSize)) :
    Stacked other base room trailing (var :: stack) frames := by
  induction stack generalizing var frames trailing with
  | nil =>
    cases stacked with
    | root holds start whole => exact .root (length ▸ holds_congr holds same) start whole
  | cons parent rest ih =>
    cases stacked with
    | entry holds start known fits around =>
      refine .entry (holds_congr holds same) start known fits (ih around ?_)
      exact take_mono same (by omega)

private theorem stacked_room {memory : Bytes} {base room : Nat} {var : VARIANT} {stack : List VARIANT}
    {frames : List Frame} (stacked : Stacked memory base room trailing (var :: stack) frames) :
    var.pData + var.uMaxSize ≤ memory.length := by
  induction stack generalizing var frames trailing with
  | nil =>
    cases stacked with
    | root holds start whole => exact holds.room
  | cons parent rest ih =>
    cases stacked with
    | entry holds start known fits around =>
      have outer := ih around
      have inner := holds.room
      omega

private theorem stacked_holds {memory : Bytes} {base room : Nat} {var : VARIANT} {stack : List VARIANT} {frame : Frame}
    {frames : List Frame} (stacked : Stacked memory base room trailing (var :: stack) (frame :: frames)) :
    ∃ limit, Holds memory limit trailing var frame := by
  cases stacked with
  | root holds start whole => exact ⟨_, holds⟩
  | entry holds start known fits around => exact ⟨_, holds⟩

private theorem stacked_replace {memory other behind : Bytes} {base room : Nat} {var next : VARIANT}
    {stack : List VARIANT} {frame grown : Frame} {frames : List Frame}
    (stacked : Stacked memory base room trailing (var :: stack) (frame :: frames))
    (length : other.length = memory.length) (below : other.take var.pData = memory.take var.pData)
    (place : next.pData = var.pData) (whole : next.uMaxSize = var.uMaxSize) (key : grown.key = frame.key)
    (holds : ∀ limit, Holds memory limit trailing var frame → Holds other limit behind next grown) :
    Stacked other base room behind (next :: stack) (grown :: frames) := by
  cases stacked with
  | root old start total =>
    refine .root (length ▸ holds _ old) (place.trans start) (whole.trans total)
  | entry old start known fits around =>
    refine .entry (holds _ old) ?_ known (key ▸ fits) ?_
    · rw [place, whole, start]
    · rw [key]
      exact stacked_congr around length (take_mono below (by omega))

private theorem kindOf_empty : kindOf VAR_TYPE_EMPTY = none := by decide

private theorem contents_nil (type : VarType) : Contents type [] [] := by
  unfold Contents
  cases kindOf type with
  | none => exact ⟨rfl, rfl⟩
  | some kind => exact run_more (entry_productive kind).idle

private theorem contents_settle {kind : Kind} {body : Bytes} (contents : Contents type body pairs)
    (settled : type = VAR_TYPE_EMPTY ∨ type = kind.type) : Contents kind.type body pairs := by
  rcases settled with rfl | rfl
  · simp only [Contents, kindOf_empty] at contents
    obtain ⟨rfl, rfl⟩ := contents
    exact contents_nil kind.type
  · exact contents

private theorem contents_snoc {kind : Kind} {body header : Bytes} {key : Key} {packed : Packed}
    (contents : Contents kind.type body pairs) (fits : KeyFits kind key)
    (valid : HeaderOf header packed.type packed.payload.length) :
    Contents kind.type (body ++ (write_key key ++ (header ++ packed.payload))) (pairs ++ [(key, packed)]) := by
  simp only [Contents, kindOf_type] at contents ⊢
  exact raw_entries_snoc contents fits valid

private theorem showsAll_snoc {entries : List (Key × Tree)} {key : Key} {tree : Tree} {packed : Packed}
    (shows : ShowsAll entries pairs) (last : Shows tree packed) :
    ShowsAll (entries ++ [(key, tree)]) (pairs ++ [(key, packed)]) := by
  induction entries generalizing pairs with
  | nil =>
    simp only [ShowsAll] at shows
    subst shows
    exact ⟨packed, [], rfl, last, rfl⟩
  | cons entry rest ih =>
    obtain ⟨other, child⟩ := entry
    simp only [ShowsAll] at shows
    obtain ⟨first, others, rfl, head, tail⟩ := shows
    exact ⟨first, others ++ [(key, packed)], rfl, head, ih tail⟩

private theorem shows_frame {frame : Frame} {body : Bytes} (contents : Contents frame.type body pairs)
    (shows : ShowsAll frame.entries pairs) : Shows frame.tree ⟨frame.type, body⟩ := by
  unfold Frame.tree
  unfold Contents at contents
  cases known : kindOf frame.type with
  | none =>
    rw [known] at contents
    obtain ⟨rfl, -⟩ := contents
    simp only [Shows]
  | some kind =>
    rw [known] at contents
    simp only [Shows]
    exact ⟨type_of_kindOf known, pairs, contents, shows⟩

private theorem spelled_eq {key : Key} (fits : KeyFits (VariantValue.Key.kind key) key.stored) : spelled key = write_key key.stored := by
  cases key with
  | name text =>
    have short : (c_str text).length < 256 := fits
    simp only [spelled, Key.stored, write_key]
    rw [Nat.mod_eq_of_lt short, List.take_length]
  | id value => rfl
  | item => rfl

private theorem variant_raw_eq (key : Key) (memory : Bytes) (var : VARIANT) (type : VarType) (value : Option Bytes) :
    variant_raw key memory var type value =
      enter_raw (VariantValue.Key.kind key) (needs key (value.getD []).length) (spelled key) memory var type value := by
  cases key <;> rfl

private theorem enter_refused {key : Key} {var : VARIANT} (memory : Bytes) (type : VarType) (value : Option Bytes)
    (refused : Refused var key (value.getD []).length) (typed : var.uType ≠ VAR_TYPE_EMPTY) :
    variant_raw key memory var type value = .ok (memory, var, false) := by
  rw [variant_raw_eq, enter_raw]
  by_cases other : var.uType ≠ VAR_TYPE_EMPTY ∧ var.uType ≠ (VariantValue.Key.kind key).type
  · rw [if_pos other]
    rfl
  · have same : var.uType = (VariantValue.Key.kind key).type := by
      by_contra differs
      exact other ⟨typed, differs⟩
    rcases refused with kind | short
    · exact absurd kind other
    · rw [if_neg other, if_pos short, ← same]
      rfl

/-- The bytes of an entry, or of its key alone. -/
def entered (key : Key) (type : VarType) : Option Bytes → Bytes
  | none => spelled key
  | some value => spelled key ++ (write_size type value.length ++ value)

private theorem enter_accepted {key : Key} {memory : Bytes} {var : VARIANT} (type : VarType) (value : Option Bytes)
    (size : var.uSize ≤ var.uMaxSize) (narrow : var.uMaxSize < 2 ^ 32) (room : var.pData + var.uMaxSize ≤ memory.length)
    (accepted : ¬ Refused var key (value.getD []).length) (fits : (entered key type value).length ≤ remaining var) :
    (var.uType = VAR_TYPE_EMPTY ∨ var.uType = (VariantValue.Key.kind key).type) ∧
    ∃ after, variant_raw key memory var type value =
        .ok (after, { var with
          uType := (VariantValue.Key.kind key).type, uSize := var.uSize + (entered key type value).length }, true) ∧
      after.length = memory.length ∧
      after.take (var.pData + var.uSize + (entered key type value).length) =
        memory.take (var.pData + var.uSize) ++ entered key type value := by
  rw [remaining_eq size narrow] at fits
  have same : ¬ (var.uType ≠ VAR_TYPE_EMPTY ∧ var.uType ≠ (VariantValue.Key.kind key).type) := fun other => accepted (.inl other)
  have enough : ¬ remaining var < needs key (value.getD []).length := fun short => accepted (.inr short)
  refine ⟨by tauto, ?_⟩
  rw [variant_raw_eq, enter_raw, if_neg same, if_neg enough]
  cases value with
  | none =>
    simp only [entered] at fits ⊢
    obtain ⟨after, stored, length, front, -⟩ := store_spec (show var.pData + var.uSize + (spelled key).length ≤ memory.length by omega)
    refine ⟨after, ?_, length, front⟩
    simp only [stored, bind, Except.bind, pure, Except.pure]
    rw [Nat.mod_eq_of_lt (by omega)]
  | some value =>
    simp only [entered] at fits ⊢
    rw [List.length_append] at fits
    have total : (write_size type value.length ++ value).length = (write_size type value.length).length + value.length :=
      List.length_append
    obtain ⟨middle, stored, length, front, -⟩ := store_spec (show var.pData + var.uSize + (spelled key).length ≤ memory.length by omega)
    have inside : var.pData + var.uSize + (spelled key).length + (write_size type value.length).length + value.length ≤ middle.length := by
      rw [length]
      omega
    have sum : var.uSize + (spelled key).length + (write_size type value.length ++ value).length =
        var.uSize + (spelled key ++ (write_size type value.length ++ value)).length := by
      simp only [List.length_append]
      omega
    obtain ⟨after, wrote, same, taken, -⟩ := variant_write_raw_spec inside
    refine ⟨after, ?_, same.trans length, ?_⟩
    · simp only [stored, wrote, bind, Except.bind, pure, Except.pure]
      rw [Nat.mod_eq_of_lt (show var.uSize + (spelled key).length < 2 ^ 32 by omega), Nat.mod_eq_of_lt (by omega), sum]
    · rw [List.length_append, ← Nat.add_assoc, taken, front, List.append_assoc]

private theorem segment_grown {memory after bytes : Bytes} {var : VARIANT} (type : VarType) (inside : var.pData + var.uSize ≤ memory.length)
    (taken : after.take (var.pData + var.uSize + bytes.length) = memory.take (var.pData + var.uSize) ++ bytes) :
    segment after { var with uType := type, uSize := var.uSize + bytes.length } = segment memory var ++ bytes := by
  rw [segment_eq, segment_eq]
  simp only [← Nat.add_assoc, taken]
  rw [List.drop_append_of_le_length]
  rw [List.length_take]
  omega

private theorem take_front {memory after bytes : Bytes} {start ptr : Nat} (before : start ≤ ptr) (inside : ptr ≤ memory.length)
    (taken : after.take (ptr + bytes.length) = memory.take ptr ++ bytes) : after.take start = memory.take start := by
  have cut := congrArg (List.take start) taken
  rw [List.take_take, Nat.min_eq_left (by omega), List.take_append_of_le_length (by rw [List.length_take]; omega), List.take_take,
    Nat.min_eq_left before] at cut
  exact cut

/-! ## One call -/

section Step
variable {base room : Nat} {memory : Bytes} {var : VARIANT} {stack : List VARIANT} {frame : Frame} {frames : List Frame}

private theorem step_enter (stacked : Stacked memory base room [] (var :: stack) (frame :: frames)) {key : Key} {type : VarType} {value : Bytes}
    (admissible : Admissible ⟨memory, var :: stack⟩ (.enter key type value)) :
    ∃ next reported, step ⟨memory, var :: stack⟩ (.enter key type value) = .ok (next, reported) ∧
      next.memory.length = memory.length ∧ (reported = false → next = ⟨memory, var :: stack⟩) ∧
      Stacked next.memory base room [] next.stack
        (if reported then build (.enter key type value) (frame :: frames) else frame :: frames) := by
  simp only [Admissible] at admissible
  by_cases refused : Refused var key value.length
  · rw [if_pos refused] at admissible
    have called := enter_refused memory type (some value) refused admissible
    refine ⟨⟨memory, var :: stack⟩, false, ?_, rfl, fun _ => rfl, stacked⟩
    simp only [step, called, bind, Except.bind, pure, Except.pure]
  · rw [if_neg refused] at admissible
    obtain ⟨keyFits, bare, fits⟩ := admissible
    obtain ⟨limit, top⟩ := stacked_holds stacked
    have inside := stacked_room stacked
    have size := top.size
    have narrow := top.narrow
    obtain ⟨settled, after, called, length, taken⟩ := enter_accepted type (some value) size narrow inside refused
      (by simp only [entered, List.length_append]; omega)
    have small : value.length < 2 ^ 32 := by
      rw [remaining_eq size narrow] at fits
      omega
    have valid := write_size_correct (fun empty => by rw [bare empty]; rfl) small
    refine ⟨⟨after, { var with
      uType := (VariantValue.Key.kind key).type, uSize := var.uSize + (entered key type (some value)).length } :: stack⟩,
      true, ?_, length, by simp, ?_⟩
    · simp only [step, called, bind, Except.bind, pure, Except.pure]
    · simp only [if_true, build]
      refine stacked_replace stacked length (take_front (by omega) (by omega) taken) rfl rfl rfl ?_
      intro limit holds
      obtain ⟨body, pairs, split, contents, shows⟩ := holds.shows
      rw [List.append_nil] at split
      rw [remaining_eq size narrow] at fits
      rw [holds.typed] at settled
      refine ⟨rfl, ?_, holds.narrow, holds.room, ?_⟩
      · simp only [entered, List.length_append]
        omega
      · refine ⟨_, pairs ++ [(key.stored, ⟨type, value⟩)], ?_, contents_snoc (contents_settle contents settled) keyFits valid,
          showsAll_snoc shows (by simp only [Shows])⟩
        rw [segment_grown _ (by omega) taken, split, entered, spelled_eq keyFits, List.append_nil]

private theorem header_room_le (uMaxSize : Nat) : header_room uMaxSize ≤ 5 := by
  unfold header_room
  split_ifs <;> omega

private theorem variant_prepare_eq (type : VarType) (pBuffer : Nat) {uMaxSize : Nat} (enough : 5 ≤ uMaxSize) (small : uMaxSize < 2 ^ 32 + 5) :
    variant_prepare type pBuffer uMaxSize = ⟨type, 0, uMaxSize - 5, pBuffer + header_room (uMaxSize - 5)⟩ := by
  have less : (2 ^ 64 + uMaxSize - (1 + 4)) % 2 ^ 64 = uMaxSize - 5 := by omega
  rw [variant_prepare, less, variant_init, Nat.mod_eq_of_lt (by omega)]

private theorem step_prepare (stacked : Stacked memory base room [] (var :: stack) (frame :: frames)) {key : Key} {type : VarType}
    (admissible : Admissible ⟨memory, var :: stack⟩ (.prepare key type)) :
    ∃ next reported, step ⟨memory, var :: stack⟩ (.prepare key type) = .ok (next, reported) ∧
      next.memory.length = memory.length ∧ (reported = false → next = ⟨memory, var :: stack⟩) ∧
      Stacked next.memory base room [] next.stack
        (if reported then build (.prepare key type) (frame :: frames) else frame :: frames) := by
  simp only [Admissible] at admissible
  by_cases refused : Refused var key 0
  · rw [if_pos refused] at admissible
    have called := enter_refused memory VAR_TYPE_EMPTY none refused admissible
    refine ⟨⟨memory, var :: stack⟩, false, ?_, rfl, fun _ => rfl, stacked⟩
    simp only [step, variant_prepare_raw, called, bind, Except.bind, pure, Except.pure]
    rfl
  · rw [if_neg refused] at admissible
    obtain ⟨keyFits, fits⟩ := admissible
    obtain ⟨limit, top⟩ := stacked_holds stacked
    have inside := stacked_room stacked
    have size := top.size
    have narrow := top.narrow
    obtain ⟨settled, after, called, length, taken⟩ := enter_accepted VAR_TYPE_EMPTY none size narrow inside refused
      (by simp only [entered]; omega)
    simp only [entered] at called taken
    rw [remaining_eq size narrow] at fits
    have left : remaining { var with uType := (VariantValue.Key.kind key).type, uSize := var.uSize + (spelled key).length } =
        var.uMaxSize - (var.uSize + (spelled key).length) := remaining_eq (by simp only; omega) narrow
    have opened := variant_prepare_eq type (var.pData + (var.uSize + (spelled key).length))
      (show 5 ≤ var.uMaxSize - (var.uSize + (spelled key).length) by omega) (by omega)
    have wide := header_room_le (var.uMaxSize - (var.uSize + (spelled key).length) - 5)
    refine ⟨⟨after, ⟨type, 0, var.uMaxSize - (var.uSize + (spelled key).length) - 5,
      var.pData + (var.uSize + (spelled key).length) + header_room (var.uMaxSize - (var.uSize + (spelled key).length) - 5)⟩ ::
      { var with uType := (VariantValue.Key.kind key).type, uSize := var.uSize + (spelled key).length } :: stack⟩,
      true, ?_, length, by simp, ?_⟩
    · simp only [step, variant_prepare_raw, called, bind, Except.bind, pure, Except.pure, if_true, left, opened]
    · simp only [if_true, build]
      refine .entry ?_ rfl rfl keyFits ?_
      · refine ⟨rfl, Nat.zero_le _, by simp only; omega, by simp only; omega, [], [], ?_, contents_nil type, by simp only [ShowsAll]⟩
        simp [segment]
      · refine stacked_replace stacked length (take_front (by omega) (by omega) taken) rfl rfl rfl ?_
        intro limit holds
        obtain ⟨body, pairs, split, contents, shows⟩ := holds.shows
        rw [List.append_nil] at split
        rw [holds.typed] at settled
        refine ⟨rfl, by simp only; omega, holds.narrow, holds.room, body, pairs, ?_, contents_settle contents settled, ?_⟩
        · rw [segment_grown _ (by omega) taken, split, spelled_eq keyFits]
        · simpa [Frame.put] using shows

private theorem step_finishEntry {child : VARIANT} {inner : Frame}
    (stacked : Stacked memory base room [] (child :: var :: stack) (inner :: frame :: frames))
    (admissible : Admissible ⟨memory, child :: var :: stack⟩ .finishEntry) :
    ∃ next, step ⟨memory, child :: var :: stack⟩ .finishEntry = .ok (next, true) ∧ next.memory.length = memory.length ∧
      Stacked next.memory base room [] next.stack (build .finishEntry (inner :: frame :: frames)) := by
  simp only [Admissible] at admissible
  cases stacked with
  | @entry _ _ _ _ _ _ _ kind holds start known fits around =>
    obtain ⟨limit, outer⟩ := stacked_holds around
    have inside := stacked_room around
    have width := finish_header_length child
    have childRoom := holds.room
    have childSize := holds.size
    have narrow := outer.narrow
    obtain ⟨after, stored, length, front, back⟩ :=
      store_spec (show var.pData + var.uSize + (finish_header child).length ≤ memory.length by omega)
    have valid := finish_header_correct admissible holds.size holds.narrow
    -- The child stays where it is: its header ends where it starts.
    have place : var.pData + var.uSize + (finish_header child).length = child.pData := by omega
    have taken : after.take (var.pData + var.uSize + (finish_header child ++ segment memory child).length) =
        memory.take (var.pData + var.uSize) ++ (finish_header child ++ segment memory child) := by
      have whole : (segment memory child).length = child.uSize := by
        rw [segment, List.length_take, List.length_drop]
        omega
      rw [List.length_append, ← Nat.add_assoc, List.take_add, front, back, place, whole, List.append_assoc]
      rfl
    have total : (finish_header child ++ segment memory child).length = (finish_header child).length + child.uSize := by
      rw [List.length_append, segment, List.length_take, List.length_drop]
      omega
    refine ⟨⟨after, { var with uType := var.uType, uSize := var.uSize + (finish_header child ++ segment memory child).length } :: stack⟩,
      ?_, length, ?_⟩
    · simp only [step, variant_finish_entry, variant_finish, if_pos admissible, stored, bind, Except.bind, pure, Except.pure, total]
      rw [Nat.mod_eq_of_lt (by omega)]
    · simp only [build]
      refine stacked_replace around length (take_front (by omega) (by omega) taken) rfl rfl rfl ?_
      intro limit holder
      obtain ⟨body, pairs, split, contents, shows⟩ := holder.shows
      obtain ⟨innerBody, innerPairs, innerSplit, innerContents, innerShows⟩ := holds.shows
      rw [List.append_nil] at innerSplit
      rw [known] at contents
      refine ⟨holder.typed, by simp only [total]; omega, holder.narrow, holder.room, ?_⟩
      have typed : child.uType = inner.type := holds.typed
      have packed : HeaderOf (finish_header child) (Packed.mk inner.type (segment memory child)).type
          (Packed.mk inner.type (segment memory child)).payload.length := by
        rw [List.length_append] at total
        rw [← typed, show (segment memory child).length = child.uSize by omega]
        exact valid
      refine ⟨body ++ (write_key inner.key ++ (finish_header child ++ segment memory child)),
        pairs ++ [(inner.key, ⟨inner.type, segment memory child⟩)], ?_, ?_, ?_⟩
      · rw [segment_grown _ (by omega) taken, split, List.append_nil, List.append_assoc]
      · rw [known]
        exact contents_snoc contents fits packed
      · refine showsAll_snoc shows ?_
        rw [innerSplit]
        exact shows_frame innerContents innerShows

end Step

theorem step_admissible {base room : Nat} {builder : Builder} {frames : List Frame}
    (stacked : Stacked builder.memory base room [] builder.stack frames) {op : Op} (admissible : Admissible builder op) :
    ∃ next reported, step builder op = .ok (next, reported) ∧ next.memory.length = builder.memory.length ∧
      (reported = false → next = builder) ∧
      Stacked next.memory base room [] next.stack (if reported then build op frames else frames) := by
  obtain ⟨memory, stack⟩ := builder
  cases op with
  | enter key type value =>
    cases stacked with
    | root holds start whole => exact step_enter (.root holds start whole) admissible
    | entry holds start known fits around => exact step_enter (.entry holds start known fits around) admissible
  | prepare key type =>
    cases stacked with
    | root holds start whole => exact step_prepare (.root holds start whole) admissible
    | entry holds start known fits around => exact step_prepare (.entry holds start known fits around) admissible
  | finishEntry =>
    cases stacked with
    | root holds start whole => exact admissible.elim
    | entry holds start known fits around =>
      obtain ⟨next, stepped, length, later⟩ := step_finishEntry (.entry holds start known fits around) admissible
      exact ⟨next, true, stepped, length, by simp, later⟩

/-- What a call would write is more than there is room for, or its name is longer
    than its length byte can say. -/
def TooLong (builder : Builder) (op : Op) : Prop :=
  match op, builder.stack with
  | .enter key type value, var :: _ =>
    ¬ KeyFits (VariantValue.Key.kind key) key.stored ∨ remaining var < (entered key type (some value)).length
  | .prepare key _, var :: _ => ¬ KeyFits (VariantValue.Key.kind key) key.stored ∨ remaining var < (spelled key).length + 5
  | _, _ => False

theorem step_tooLong {builder : Builder} {op : Op} (admissible : Admissible builder op) (long : TooLong builder op) :
    step builder op = .ok (builder, false) := by
  obtain ⟨memory, stack⟩ := builder
  cases stack with
  | nil => cases op <;> exact long.elim
  | cons var rest =>
    cases op with
    | enter key type value =>
      simp only [Admissible] at admissible
      simp only [TooLong, entered, List.length_append] at long
      by_cases refused : Refused var key value.length
      · rw [if_pos refused] at admissible
        simp only [step, enter_refused memory type (some value) refused admissible, bind, Except.bind, pure, Except.pure]
      · rw [if_neg refused] at admissible
        obtain ⟨keyFits, -, fits⟩ := admissible
        rcases long with name | short
        · exact absurd keyFits name
        · omega
    | prepare key type =>
      simp only [Admissible] at admissible
      simp only [TooLong] at long
      by_cases refused : Refused var key 0
      · rw [if_pos refused] at admissible
        simp only [step, variant_prepare_raw, enter_refused memory VAR_TYPE_EMPTY none refused admissible, bind, Except.bind, pure,
          Except.pure]
        rfl
      · rw [if_neg refused] at admissible
        obtain ⟨keyFits, fits⟩ := admissible
        rcases long with name | short
        · exact absurd keyFits name
        · omega
    | finishEntry => exact long.elim

/-! ## Whole runs -/

/-- The states that admissible calls lead to, with what has been built. -/
inductive Reached (start : Builder) (type : VarType) : Builder → List Frame → Prop where
  | start : Reached start type start [⟨.item, type, []⟩]
  | step {builder next : Builder} {frames : List Frame} {op : Op} {reported : Bool} (before : Reached start type builder frames)
      (admissible : Admissible builder op) (stepped : step builder op = .ok (next, reported)) :
      Reached start type next (if reported then build op frames else frames)

private theorem reached_stacked {start builder : Builder} {frames : List Frame} {base room : Nat}
    (fresh : Stacked start.memory base room [] start.stack [⟨.item, type, []⟩])
    (reached : Reached start type builder frames) :
    builder.memory.length = start.memory.length ∧ Stacked builder.memory base room [] builder.stack frames := by
  induction reached with
  | start => exact ⟨rfl, fresh⟩
  | step before admissible stepped ih =>
    obtain ⟨next, reported, called, length, -, later⟩ := step_admissible ih.2 admissible
    rw [stepped] at called
    cases called
    exact ⟨length.trans ih.1, later⟩

private theorem fresh_stacked {memory : Bytes} {base room : Nat} (narrow : room < 2 ^ 32)
    (inside : base + room ≤ memory.length) :
    Stacked memory base room [] [⟨type, 0, room, base⟩] [⟨.item, type, []⟩] := by
  refine .root ⟨rfl, Nat.zero_le _, narrow, inside, [], [], ?_, contents_nil type, by simp only [ShowsAll]⟩ rfl rfl
  simp [segment]

private theorem stacked_bounds {memory : Bytes} {base room : Nat} {stack : List VARIANT} {frames : List Frame}
    (stacked : Stacked memory base room trailing stack frames) :
    ∀ var ∈ stack, var.uSize ≤ var.uMaxSize ∧ var.pData + var.uMaxSize ≤ memory.length := by
  induction stacked with
  | root holds start whole =>
    intro var member
    cases List.mem_singleton.mp member
    exact ⟨holds.size, holds.room⟩
  | entry holds start known fits around ih =>
    intro var member
    rcases List.mem_cons.mp member with rfl | rest
    · have outer := stacked_room around
      have inner := holds.room
      exact ⟨holds.size, by omega⟩
    · exact ih var rest

/-- Both readers take the bytes, all of them, for the packet. -/
def ReadBack (bytes : Bytes) (packed : Packed) : Prop :=
  from_packet ⟨bytes, 0⟩ = .ok (packed, ⟨[], bytes.length⟩) ∧
    ∃ variant, CReader.variant_from_buffer bytes 0 bytes.length = .ok (some (variant, bytes.length)) ∧ CReader.view bytes variant = packed

private theorem readBack {header payload : Bytes} (valid : HeaderOf header type payload.length)
    (plain : CReader.reserved (header.headD 0) = false) (small : (header ++ payload).length < 2 ^ 32) :
    ReadBack (header ++ payload) ⟨type, payload⟩ := by
  have read : from_packet ⟨header ++ payload, 0⟩ = .ok (⟨type, payload⟩, ⟨[], (header ++ payload).length⟩) :=
    from_packet_ok_iff.mpr ⟨header, valid, by simp, by simp⟩
  obtain ⟨byte, field, rfl, -⟩ := id valid
  have same : CReader.SamePacket (byte :: field ++ payload) := by
    refine (CReader.samePacket_iff _).mpr ?_
    intro other otherType otherPayload rest otherValid split
    obtain ⟨first, behind, rfl, -⟩ := otherValid
    simp only [List.cons_append, List.cons.injEq] at split
    refine ⟨small, ?_⟩
    rw [List.headD_cons, ← split.1]
    exact plain
  obtain ⟨found, called, agrees⟩ := same
  obtain ⟨variant, rfl, shown⟩ := (agrees _ _).mpr ⟨_, read⟩
  exact ⟨read, variant, called, shown⟩

private theorem finish_header_plain (var : VARIANT) : CReader.reserved ((finish_header var).headD 0) = false := by
  have every : ∀ type : VarType, CReader.reserved (typeByte type ||| VAR_LEN_FIELD ||| VAR_LEN32) = false ∧
      CReader.reserved (typeByte type ||| VAR_LEN_FIELD ||| VAR_LEN16) = false ∧
      CReader.reserved (typeByte type ||| VAR_LEN_FIELD ||| VAR_LEN8) = false := by decide
  obtain ⟨long, medium, short⟩ := every var.uType
  unfold finish_header
  split_ifs
  · exact long
  · exact medium
  · exact short

private theorem write_size_plain (type : VarType) (size : Nat) : CReader.reserved ((write_size type size).headD 0) = false := by
  have every : ∀ type : VarType, CReader.reserved (typeByte type) = false ∧ CReader.reserved (typeByte type ||| VAR_LEN8) = false ∧
      CReader.reserved (typeByte type ||| VAR_LEN16) = false ∧ CReader.reserved (typeByte type ||| VAR_LEN32) = false ∧
      CReader.reserved (typeByte type ||| VAR_LEN64) = false ∧
      CReader.reserved (typeByte type ||| VAR_LEN_FIELD ||| VAR_LEN32) = false ∧
      CReader.reserved (typeByte type ||| VAR_LEN_FIELD ||| VAR_LEN16) = false ∧
      CReader.reserved (typeByte type ||| VAR_LEN_FIELD ||| VAR_LEN8) = false := by decide
  obtain ⟨bare, one, two, four, eight, long, medium, short⟩ := every type
  unfold write_size
  split_ifs <;> assumption

private theorem write_size_length_le (type : VarType) (size : Nat) : (write_size type size).length ≤ 5 := by
  unfold write_size
  split_ifs <;> simp

/-- `Variant_Finish` on a prepared buffer: the value returned is the length of a
    packet that reads back as what was built. -/
private theorem finish_reads_back {memory : Bytes} {room : Nat} {root : VARIANT} {frame : Frame}
    (stacked : Stacked memory (header_room room) room [] [root] [frame]) (typed : root.uType ≠ VAR_TYPE_EMPTY)
    (small : header_room root.uMaxSize + root.uSize < 2 ^ 32) :
    ∃ after returned packed, variant_finish memory 0 root = .ok (after, returned) ∧ returned ≤ memory.length ∧
      after.length = memory.length ∧ ReadBack (after.take returned) packed ∧ Shows frame.tree packed := by
  cases stacked with
  | root holds start whole =>
    have inside := holds.room
    have size := holds.size
    have width := finish_header_length root
    have place : (finish_header root).length = root.pData := by rw [width, whole, start]
    obtain ⟨after, stored, length, front, back⟩ := store_spec (show 0 + (finish_header root).length ≤ memory.length by omega)
    have body : (segment memory root).length = root.uSize := by
      rw [segment, List.length_take, List.length_drop]
      omega
    have taken : after.take ((finish_header root).length + root.uSize) = finish_header root ++ segment memory root := by
      rw [Nat.zero_add] at front back
      rw [List.take_add, front, back, place]
      rfl
    obtain ⟨contained, pairs, split, contents, shows⟩ := holds.shows
    rw [List.append_nil] at split
    refine ⟨after, (finish_header root).length + root.uSize, ⟨frame.type, segment memory root⟩, ?_, by omega, length, ?_, ?_⟩
    · simp only [variant_finish, if_pos typed, stored, bind, Except.bind, pure, Except.pure]
    · rw [taken]
      refine readBack ?_ (finish_header_plain root) ?_
      · rw [← holds.typed, body]
        exact finish_header_correct typed size holds.narrow
      · rw [List.length_append, body, width]
        exact small
    · rw [split]
      exact shows_frame contents shows

/-- `Variant_ToBuffer` at some place of another buffer. -/
private theorem to_buffer_reads_back {memory out : Bytes} {base room pBuffer : Nat} {root : VARIANT} {frame : Frame}
    (stacked : Stacked memory base room [] [root] [frame]) (small : 5 + root.uSize < 2 ^ 32) (inside : pBuffer ≤ out.length) :
    (out.length - pBuffer < 5 + root.uSize → variant_to_buffer memory root out pBuffer (out.length - pBuffer) = .ok (out, 0)) ∧
    (5 + root.uSize ≤ out.length - pBuffer → ∃ after packet packed,
      variant_to_buffer memory root out pBuffer (out.length - pBuffer) = .ok (after, packet.length) ∧
      pBuffer + packet.length ≤ out.length ∧ after = out.take pBuffer ++ packet ++ out.drop (pBuffer + packet.length) ∧
      ReadBack packet packed ∧ Shows frame.tree packed) := by
  cases stacked with
  | root holds start whole =>
    have room := holds.room
    have size := holds.size
    have check : (1 + 4 + root.uSize) % 2 ^ 32 = 5 + root.uSize := by omega
    have body : (segment memory root).length = root.uSize := by
      rw [segment, List.length_take, List.length_drop]
      omega
    obtain ⟨contained, pairs, split, contents, shows⟩ := holds.shows
    rw [List.append_nil] at split
    refine ⟨?_, ?_⟩
    · intro short
      rw [variant_to_buffer, check, if_pos short]
      rfl
    · intro enough
      have header := write_size_length_le root.uType (segment memory root).length
      have fits : pBuffer + (write_size root.uType (segment memory root).length).length + (segment memory root).length ≤ out.length := by
        omega
      obtain ⟨after, wrote, length, front, back⟩ := variant_write_raw_spec fits
      have bare : root.uType = VAR_TYPE_EMPTY → (segment memory root).length = 0 := by
        intro empty
        rw [← holds.typed, empty, Contents, kindOf_empty] at contents
        rw [split, contents.1]
        rfl
      refine ⟨after, write_size root.uType (segment memory root).length ++ segment memory root, ⟨frame.type, segment memory root⟩,
        ?_, ?_, ?_, ?_, ?_⟩
      · rw [variant_to_buffer, check, if_neg (by omega), wrote]
      · rw [List.length_append]
        omega
      · rw [← front, ← back, List.take_append_drop]
      · refine readBack ?_ (write_size_plain _ _) ?_
        · rw [← holds.typed]
          exact write_size_correct bare (by omega)
        · rw [List.length_append]
          omega
      · rw [split]
        exact shows_frame contents shows

/-- In every run of admissible calls on a prepared or initialised buffer nothing is
    written outside the buffer, no variant outgrows its room, and a call that
    reports failure, as one that is too long does, changes nothing. When all entries
    are finished, `Variant_Finish` and `Variant_ToBuffer` return the length of a
    packet that both readers take for the tree that was built; `Variant_ToPacket`
    puts the same packet behind the name. -/
theorem builder_writes_tree (type : VarType) (buffer : Bytes) (start : Builder)
    (opened : (start = prepared type buffer ∧ 5 ≤ buffer.length ∧ buffer.length < 2 ^ 32 + 5) ∨ start = inited type buffer)
    (builder : Builder) (frames : List Frame) (reached : Reached start type builder frames) :
    builder.memory.length = buffer.length ∧
    (∀ var ∈ builder.stack, var.uSize ≤ var.uMaxSize ∧ var.pData + var.uMaxSize ≤ buffer.length) ∧
    (∀ op, Admissible builder op → ∃ next reported, step builder op = .ok (next, reported) ∧ (reported = false → next = builder) ∧
      (TooLong builder op → reported = false)) ∧
    (∀ root frame, builder.stack = [root] → frames = [frame] → start = prepared type buffer → root.uType ≠ VAR_TYPE_EMPTY →
      header_room root.uMaxSize + root.uSize < 2 ^ 32 →
      ∃ after returned packed, variant_finish builder.memory 0 root = .ok (after, returned) ∧ returned ≤ buffer.length ∧
        after.length = buffer.length ∧ ReadBack (after.take returned) packed ∧ Shows frame.tree packed) ∧
    (∀ root frame, builder.stack = [root] → frames = [frame] → 5 + root.uSize < 2 ^ 32 → ∀ out : Bytes,
      (out.length < 5 + root.uSize → variant_to_buffer builder.memory root out 0 out.length = .ok (out, 0)) ∧
      (5 + root.uSize ≤ out.length → ∃ after packet packed,
        variant_to_buffer builder.memory root out 0 out.length = .ok (after, packet.length) ∧
        after = packet ++ out.drop packet.length ∧ ReadBack packet packed ∧ Shows frame.tree packed) ∧
      (∀ name : Bytes, (c_str name).length ≤ 0x7F → 1 + (c_str name).length + (5 + root.uSize) ≤ out.length → ∃ after packet packed,
        variant_to_packet name builder.memory root out = .ok (after, packet.length) ∧
        after = spelled (.name name) ++ packet ++ out.drop ((spelled (.name name)).length + packet.length) ∧
        ReadBack packet packed ∧ Shows frame.tree packed)) := by
  obtain ⟨base, room, fresh, based⟩ : ∃ base room, Stacked start.memory base room [] start.stack [⟨.item, type, []⟩] ∧
      (start = prepared type buffer → base = header_room room) := by
    rcases opened with ⟨rfl, enough, small⟩ | rfl
    · have wide := header_room_le (buffer.length - 5)
      refine ⟨header_room (buffer.length - 5), buffer.length - 5, ?_, fun _ => rfl⟩
      rw [prepared, variant_prepare_eq type 0 enough small, Nat.zero_add]
      exact fresh_stacked (by omega) (by simp only; omega)
    · refine ⟨0, buffer.length % 2 ^ 32, fresh_stacked (Nat.mod_lt _ (by decide)) ?_, ?_⟩
      · rw [Nat.zero_add]
        exact Nat.mod_le _ _
      · intro same
        have place : 0 = 0 + header_room ((2 ^ 64 + buffer.length - (1 + 4)) % 2 ^ 64) :=
          congrArg (fun builder : Builder => (builder.stack.map VARIANT.pData).headD 0) same
        unfold header_room at place
        split_ifs at place
  have whole : start.memory.length = buffer.length := by
    rcases opened with ⟨rfl, -⟩ | rfl <;> rfl
  obtain ⟨length, stacked⟩ := reached_stacked fresh reached
  rw [whole] at length
  refine ⟨length, ?_, ?_, ?_, ?_⟩
  · rw [← length]
    exact stacked_bounds stacked
  · intro op admissible
    obtain ⟨next, reported, called, -, unchanged, -⟩ := step_admissible stacked admissible
    refine ⟨next, reported, called, unchanged, fun long => ?_⟩
    cases called.symm.trans (step_tooLong admissible long)
    rfl
  · intro root frame alone single first typed small
    rw [alone, single, based first] at stacked
    rw [← length]
    exact finish_reads_back stacked typed small
  · intro root frame alone single small out
    rw [alone, single] at stacked
    obtain ⟨refused, accepted⟩ := to_buffer_reads_back stacked small (Nat.zero_le out.length)
    simp only [Nat.sub_zero, Nat.zero_add, List.take_zero, List.nil_append] at refused accepted
    refine ⟨refused, ?_, ?_⟩
    · intro enough
      obtain ⟨after, packet, packed, called, -, split, read, shows⟩ := accepted enough
      exact ⟨after, packet, packed, called, split, read, shows⟩
    · intro name short enough
      have spelling : (spelled (.name name)).length = 1 + (c_str name).length := by
        rw [spelled, List.length_cons, Nat.add_comm]
      obtain ⟨middle, stored, same, front, back⟩ := store_spec (show 0 + (spelled (.name name)).length ≤ out.length by omega)
      obtain ⟨-, behind⟩ := to_buffer_reads_back stacked small (show 1 + (c_str name).length ≤ middle.length by omega)
      obtain ⟨after, packet, packed, called, -, split, read, shows⟩ := behind (by omega)
      rw [Nat.zero_add, spelling] at front back
      refine ⟨after, packet, packed, ?_, ?_, read, shows⟩
      · rw [variant_to_packet, if_neg (by omega)]
        simp only [bind, Except.bind]
        rw [show UInt8.ofNat (c_str name).length :: c_str name = spelled (.name name) from rfl, stored]
        exact called
      · rw [split, front, List.take_zero, List.nil_append, ← List.drop_drop, back, List.drop_drop, spelling]

/-- A map of one number, in a buffer of sixteen bytes. -/
theorem builder_writes_map :
    ∃ after returned packed, variant_finish [0, 0, 1, 97, 12, 7, 0, 0, 0, 0, 0, 0, 0, 0, 0, 0] 0 ⟨VAR_TYPE_MAP, 4, 11, 2⟩ = .ok (after, returned) ∧
      ReadBack (after.take returned) packed ∧ Shows (.node .map [(.name [97], .leaf VAR_TYPE_UINT [7])]) packed := by
  have accepted : ¬ Refused (variant_prepare VAR_TYPE_MAP 0 (List.replicate 16 (0 : UInt8)).length) (.name [97]) [(7 : UInt8)].length := by
    decide
  have admissible : Admissible (prepared VAR_TYPE_MAP (List.replicate 16 0)) (.enter (.name [97]) VAR_TYPE_UINT [7]) := by
    simp only [Admissible, prepared, if_neg accepted]
    exact ⟨show (c_str [97]).length < 256 by decide, by decide, by decide⟩
  have stepped : step (prepared VAR_TYPE_MAP (List.replicate 16 0)) (.enter (.name [97]) VAR_TYPE_UINT [7]) =
      .ok (⟨[0, 0, 1, 97, 12, 7, 0, 0, 0, 0, 0, 0, 0, 0, 0, 0], [⟨VAR_TYPE_MAP, 4, 11, 2⟩]⟩, true) := by decide
  have fresh : Reached (prepared VAR_TYPE_MAP (List.replicate 16 0)) VAR_TYPE_MAP _ _ := .start
  have reached := Reached.step fresh admissible stepped
  obtain ⟨-, -, -, finished, -⟩ := builder_writes_tree VAR_TYPE_MAP (List.replicate 16 0) _ (.inl ⟨rfl, by decide, by decide⟩) _ _ reached
  obtain ⟨after, returned, packed, called, -, -, read, shows⟩ := finished _ _ rfl rfl rfl (by decide) (by decide)
  exact ⟨after, returned, packed, called, read, shows⟩

/-- Three bytes appended to a list with room for three are written with a header
    of two. A refused call makes an EMPTY a map. `Variant_ToPacket` returns two
    where it wrote four bytes, and `Variant_FromPacket` where it read four. -/
theorem builder_overruns :
    step (inited VAR_TYPE_LIST [0, 0, 0]) (.enter .item VAR_TYPE_BYTES [1, 2, 3]) = .error {} ∧
    step (inited VAR_TYPE_EMPTY []) (.enter (.name [97]) VAR_TYPE_UINT [7]) = .ok (⟨[], [⟨VAR_TYPE_MAP, 0, 0, 0⟩]⟩, false) ∧
    inited VAR_TYPE_EMPTY [] ≠ ⟨[], [⟨VAR_TYPE_MAP, 0, 0, 0⟩]⟩ ∧
    variant_to_packet [97] [7] ⟨VAR_TYPE_UINT, 1, 1, 0⟩ [0, 0, 0, 0, 0, 0, 0, 0] = .ok ([1, 97, 12, 7, 0, 0, 0, 0], 2) ∧
    variant_from_packet [1, 97, 12, 7] 8 = .ok (some ([97], ⟨12, 1, 1, 3⟩, 2)) := by
  refine ⟨by decide, by decide, by decide, by decide, by decide⟩

end TaskExplorer.CBuilder
