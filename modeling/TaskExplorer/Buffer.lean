import TaskExplorer.Memory
import TaskExplorer.Transition

/-!
# The byte buffer

A `CBuffer` is a block of memory whose front is in use, with a position in it. Its
operations move bytes within the block and count sizes in 64 bits. What it should
be is a list of bytes with a cursor; that holds for all operations but the ones
that remove bytes.
-/

namespace TaskExplorer.Buffer
open TaskExplorer.Memory Transition

abbrev Byte := UInt8

/-! ## Sizes -/

/-- One more than the largest `size_t`. -/
def SIZE : Nat := 2 ^ 64

/-- The `size_t` that is written -1. -/
def MINUS_ONE : Nat := SIZE - 1

def plus (left right : Nat) : Nat := (left + right) % SIZE

def minus (left right : Nat) : Nat := (left + SIZE - right) % SIZE

def times (left right : Nat) : Nat := (left * right) % SIZE

inductive EType where
  | normal
  | fixed
  | derived
deriving DecidableEq, Repr

structure CBuffer where
  /-- The `m_uLength` allocated bytes. -/
  memory : List Byte := []
  /-- Whether `m_pBuffer` is null. -/
  null : Bool := true
  size : Nat := 0
  position : Nat := 0
  type : EType := .normal
  readOnly : Bool := false

def CBuffer.length (buffer : CBuffer) : Nat := buffer.memory.length

/-- Bytes that nobody has written, as the allocator gives them. -/
def garbage (fresh : Nat → Byte) (count : Nat) : List Byte := (List.range count).map fresh

/-- What an operation takes its bytes from: the caller's, or a null pointer and a length. -/
inductive Source where
  | data (bytes : List Byte)
  | null (length : Nat)

def Source.length : Source → Nat
  | .data bytes => bytes.length
  | .null length => length

/-! ## Operations -/

/-- `empty` is whether `malloc` of nothing gives a null pointer. -/
def alloc_buffer (buffer : CBuffer) (length : Nat) (used fixed empty : Bool) (fresh : Nat → Byte) : CBuffer :=
  { buffer with
    memory := garbage fresh length
    null := length = 0 ∧ empty
    size := if used then length else 0
    position := 0
    type := if fixed then .fixed else .normal }

def set_size (buffer : CBuffer) (size : Nat) (expend : Bool) (preAlloc : Nat) (fresh : Nat → Byte) : Bool × CBuffer :=
  let length := plus size preAlloc
  let clamp (buffer : CBuffer) : CBuffer :=
    { buffer with
      size := size
      position := if size < buffer.position then size else buffer.position }
  if buffer.length < length then
    if !expend || buffer.type == .derived || buffer.readOnly then (false, buffer)
    else (true, clamp { buffer with memory := buffer.memory ++ garbage fresh (length - buffer.length), null := false })
  else (true, clamp buffer)

def prepare_write (buffer : CBuffer) (offset length : Nat) (fresh : Nat → Byte) : Bool × CBuffer :=
  if buffer.readOnly then (false, buffer)
  else if plus offset length > buffer.length ∨ buffer.null then
    if buffer.type ≠ .normal then (false, buffer)
    else set_size buffer (plus offset length) true (max (max (times length 2) buffer.size) 16) fresh
  else if plus offset length > buffer.size then (true, { buffer with size := plus offset length })
  else (true, buffer)

/-- What came of an operation: it was refused (false, a null pointer or an
    exception), or it was done and perhaps gave bytes. -/
inductive Result where
  | refused
  | done
  | bytes (read : List Byte)
deriving DecidableEq

def set_position (buffer : CBuffer) (position : Nat) : Result × CBuffer :=
  if position = MINUS_ONE then (.done, { buffer with position := buffer.size })
  else if position > buffer.size then (.refused, buffer)
  else (.done, { buffer with position := position })

def get_size_left (buffer : CBuffer) : Nat := minus buffer.size buffer.position

/-- The bytes behind the pointer that is returned. -/
def get_data (buffer : CBuffer) (length : Nat) : Option (Result × CBuffer) :=
  let length := if length = MINUS_ONE then get_size_left buffer else length
  if plus buffer.position length > buffer.size then some (.refused, buffer)
  else
    (load buffer.memory buffer.position length).map (fun read =>
      (if buffer.null then .refused else .bytes read, { buffer with position := plus buffer.position length }))

/-- Throws where `GetData` gives a null pointer. -/
def read_data (buffer : CBuffer) (length : Nat) : Option (Result × CBuffer) := get_data buffer length

def get_data_at (buffer : CBuffer) (offset length : Nat) : Option (Result × CBuffer) :=
  if plus offset length > buffer.size then some (.refused, buffer)
  else (load buffer.memory offset length).map (fun read => (if buffer.null then .refused else .bytes read, buffer))

/-- `memcpy` from the caller, unless the pointer is null. -/
def copy_in (buffer : CBuffer) (offset : Nat) : Source → Option CBuffer
  | .data bytes => (store buffer.memory offset bytes).map (fun memory => { buffer with memory := memory })
  | .null _ => some buffer

def set_data (buffer : CBuffer) (source : Source) (fresh : Nat → Byte) : Option (Result × CBuffer) :=
  match prepare_write buffer buffer.position source.length fresh with
  | (false, buffer) => some (.refused, buffer)
  | (true, buffer) =>
    (copy_in buffer buffer.position source).map (fun buffer =>
      (.done, { buffer with position := plus buffer.position source.length }))

/-- Throws where `SetData` gives a null pointer. -/
def write_data (buffer : CBuffer) (source : Source) (fresh : Nat → Byte) : Option (Result × CBuffer) :=
  set_data buffer source fresh

def set_data_at (buffer : CBuffer) (offset : Nat) (source : Source) (fresh : Nat → Byte) : Option (Result × CBuffer) :=
  let offset := if offset = MINUS_ONE then buffer.size else offset
  match prepare_write buffer offset source.length fresh with
  | (false, buffer) => some (.refused, buffer)
  | (true, buffer) =>
    match source with
    | .data bytes => (copy_in buffer offset (.data bytes)).map (fun buffer => (.done, buffer))
    | .null length => (copy_in buffer offset (.data (List.replicate length 0))).map (fun buffer => (.done, buffer))

def insert_data (buffer : CBuffer) (offset : Nat) (source : Source) (fresh : Nat → Byte) : Option (Result × CBuffer) :=
  match prepare_write buffer buffer.size source.length fresh with
  | (false, buffer) => some (.refused, buffer)
  | (true, later) =>
    (move later.memory (offset + source.length) offset (minus buffer.size offset)).bind (fun memory =>
      (copy_in { later with memory := memory } offset source).map (fun buffer => (.done, buffer)))

def append_data (buffer : CBuffer) (bytes : List Byte) (fresh : Nat → Byte) : Option (Result × CBuffer) :=
  match prepare_write buffer buffer.size bytes.length fresh with
  | (false, buffer) => some (.refused, buffer)
  | (true, later) => (copy_in later buffer.size (.data bytes)).map (fun buffer => (.done, buffer))

def shift_data (buffer : CBuffer) (offset : Nat) : Option (Result × CBuffer) :=
  if offset > buffer.size then some (.refused, buffer)
  else
    let size := minus buffer.size offset
    (move buffer.memory 0 offset size).map (fun memory =>
      (.done, { buffer with
        memory := memory
        size := size
        position := if buffer.position > offset then minus buffer.position offset else 0 }))

def remove_data (buffer : CBuffer) (offset length : Nat) : Option (Result × CBuffer) :=
  if buffer.readOnly then some (.refused, buffer)
  else if length ≠ MINUS_ONE ∧ plus offset length > buffer.size then some (.refused, buffer)
  else
    let length := if length = MINUS_ONE then buffer.size else length
    (move buffer.memory offset (offset + length) (minus buffer.size length)).map (fun memory =>
      (.done, { buffer with memory := memory, size := minus buffer.size length }))

def replace_data (buffer : CBuffer) (offset oldLength : Nat) (source : Source) (fresh : Nat → Byte) : Option (Result × CBuffer) :=
  match remove_data buffer offset oldLength with
  | some (.done, buffer) => insert_data buffer offset source fresh
  | other => other

inductive Operation where
  | allocBuffer (length : Nat) (used fixed empty : Bool) (fresh : Nat → Byte)
  | setSize (size : Nat) (expend : Bool) (preAlloc : Nat) (fresh : Nat → Byte)
  | setPosition (position : Nat)
  | getData (length : Nat)
  | readData (length : Nat)
  | getDataAt (offset length : Nat)
  | setData (source : Source) (fresh : Nat → Byte)
  | writeData (source : Source) (fresh : Nat → Byte)
  | setDataAt (offset : Nat) (source : Source) (fresh : Nat → Byte)
  | appendData (bytes : List Byte) (fresh : Nat → Byte)
  | insertData (offset : Nat) (source : Source) (fresh : Nat → Byte)
  | replaceData (offset oldLength : Nat) (source : Source) (fresh : Nat → Byte)
  | shiftData (offset : Nat)
  | removeData (offset length : Nat)

/-- No result: an access outside the allocated bytes. -/
def perform (buffer : CBuffer) : Operation → Option (Result × CBuffer)
  | .allocBuffer length used fixed empty fresh => some (.done, alloc_buffer buffer length used fixed empty fresh)
  | .setSize size expend preAlloc fresh =>
    match set_size buffer size expend preAlloc fresh with
    | (true, buffer) => some (.done, buffer)
    | (false, buffer) => some (.refused, buffer)
  | .setPosition position => some (set_position buffer position)
  | .getData length => get_data buffer length
  | .readData length => read_data buffer length
  | .getDataAt offset length => get_data_at buffer offset length
  | .setData source fresh => set_data buffer source fresh
  | .writeData source fresh => write_data buffer source fresh
  | .setDataAt offset source fresh => set_data_at buffer offset source fresh
  | .appendData bytes fresh => append_data buffer bytes fresh
  | .insertData offset source fresh => insert_data buffer offset source fresh
  | .replaceData offset oldLength source fresh => replace_data buffer offset oldLength source fresh
  | .shiftData offset => shift_data buffer offset
  | .removeData offset length => remove_data buffer offset length

def step (buffer : CBuffer) (operation : Operation) : Option CBuffer := (perform buffer operation).map Prod.snd

/-! ## What a buffer is for -/

/-- The bytes in use. -/
def CBuffer.contents (buffer : CBuffer) : List Byte := buffer.memory.take buffer.size

structure Bounded (buffer : CBuffer) : Prop where
  position : buffer.position ≤ buffer.size
  size : buffer.size ≤ buffer.length
  length : buffer.length < SIZE
  null : buffer.null = true → buffer.memory = []

/-- The bytes that a source may leave; behind a null pointer they can be any. -/
def Source.Gives : Source → List Byte → Prop
  | .data bytes, given => given = bytes
  | .null length, given => given.length = length

/-- The bytes of a source, with zeros for a null pointer. -/
def Source.zeroed : Source → List Byte
  | .data bytes => bytes
  | .null length => List.replicate length 0

/-- What is left after a gap, which -1 lets reach to the end. -/
def behind (bytes : List Byte) (offset length : Nat) : List Byte :=
  if length = MINUS_ONE then [] else bytes.drop (offset + length)

/-- What an operation that is not refused does to a list of bytes with a cursor. -/
def Intended (before : List Byte) (cursor : Nat) (after : List Byte) (later : Nat) (result : Result) : Operation → Prop
  | .allocBuffer length used _ _ _ => after.length = (if used then length else 0) ∧ later = 0
  | .setSize size _ _ _ => after.length = size ∧ after.take before.length = before.take size ∧ later = min cursor size
  | .setPosition position => after = before ∧ later = if position = MINUS_ONE then before.length else position
  | .getData length | .readData length =>
    let count := if length = MINUS_ONE then before.length - cursor else length
    after = before ∧ later = cursor + count ∧ result = .bytes ((before.drop cursor).take count)
  | .getDataAt offset length => after = before ∧ later = cursor ∧ result = .bytes ((before.drop offset).take length)
  | .setData source _ | .writeData source _ => later = cursor + source.length ∧
    ∃ bytes, source.Gives bytes ∧ after = overwrite before cursor bytes
  | .setDataAt offset source _ => later = cursor ∧
    after = overwrite before (if offset = MINUS_ONE then before.length else offset) source.zeroed
  | .appendData bytes _ => later = cursor ∧ after = before ++ bytes
  | .insertData offset source _ => later = cursor ∧
    ∃ bytes, source.Gives bytes ∧ after = before.take offset ++ bytes ++ before.drop offset
  | .replaceData offset oldLength source _ =>
    ∃ bytes, source.Gives bytes ∧ after = before.take offset ++ bytes ++ behind before offset oldLength
  | .shiftData offset => later = cursor - offset ∧ after = before.drop offset
  | .removeData offset length => after = before.take offset ++ behind before offset length

/-- The operation keeps to the allocated bytes and leaves the buffer in bounds; it
    changes nothing if it is refused, and does what is meant if it is not. -/
def Correct (buffer : CBuffer) (operation : Operation) : Prop :=
  ∃ result after, perform buffer operation = some (result, after) ∧ Bounded after ∧
    (result = .refused → after = buffer) ∧
    (result ≠ .refused → Intended buffer.contents buffer.position after.contents after.position result operation)

/-! ## Sizes that do not wrap -/

/-- The sums that a write computes stay below 2^64. -/
def Room (buffer : CBuffer) (offset length : Nat) : Prop := offset + length + max (max (length * 2) buffer.size) 16 < SIZE

instance (buffer : CBuffer) (offset length : Nat) : Decidable (Room buffer offset length) := inferInstanceAs (Decidable (_ < _))

/-- The sizes are small enough that no sum of an operation wraps, and an offset
    that is written at is not beyond the end. -/
def Small (buffer : CBuffer) : Operation → Prop
  | .allocBuffer length _ _ _ _ => length < SIZE
  | .setSize size _ preAlloc _ => size + preAlloc < SIZE
  | .setPosition _ => True
  | .getData length | .readData length => length = MINUS_ONE ∨ buffer.position + length < SIZE
  | .getDataAt offset length => offset + length < SIZE
  | .setData source _ | .writeData source _ => Room buffer buffer.position source.length
  | .setDataAt offset source _ => (offset = MINUS_ONE ∧ Room buffer buffer.size source.length) ∨
    offset ≤ buffer.size ∧ Room buffer offset source.length
  | .appendData bytes _ => Room buffer buffer.size bytes.length
  | .insertData offset source _ => Room buffer buffer.size source.length ∧ offset < SIZE
  | .replaceData offset oldLength source _ => Room buffer buffer.size source.length ∧ offset < SIZE ∧
    (oldLength = MINUS_ONE ∨ offset + oldLength < SIZE)
  | .shiftData _ => True
  | .removeData offset length => length = MINUS_ONE ∨ offset + length < SIZE

instance Small.decide (buffer : CBuffer) : (operation : Operation) → Decidable (Small buffer operation)
  | .allocBuffer length _ _ _ _ => inferInstanceAs (Decidable (length < SIZE))
  | .setSize size _ preAlloc _ => inferInstanceAs (Decidable (size + preAlloc < SIZE))
  | .setPosition _ => inferInstanceAs (Decidable True)
  | .getData length | .readData length => inferInstanceAs (Decidable (length = MINUS_ONE ∨ buffer.position + length < SIZE))
  | .getDataAt offset length => inferInstanceAs (Decidable (offset + length < SIZE))
  | .setData source _ | .writeData source _ => inferInstanceAs (Decidable (Room buffer buffer.position source.length))
  | .setDataAt offset source _ => inferInstanceAs (Decidable ((offset = MINUS_ONE ∧ Room buffer buffer.size source.length) ∨
    offset ≤ buffer.size ∧ Room buffer offset source.length))
  | .appendData bytes _ => inferInstanceAs (Decidable (Room buffer buffer.size bytes.length))
  | .insertData offset source _ => inferInstanceAs (Decidable (Room buffer buffer.size source.length ∧ offset < SIZE))
  | .replaceData offset oldLength source _ => inferInstanceAs (Decidable (Room buffer buffer.size source.length ∧ offset < SIZE ∧
    (oldLength = MINUS_ONE ∨ offset + oldLength < SIZE)))
  | .shiftData _ => inferInstanceAs (Decidable True)
  | .removeData offset length => inferInstanceAs (Decidable (length = MINUS_ONE ∨ offset + length < SIZE))

end TaskExplorer.Buffer
