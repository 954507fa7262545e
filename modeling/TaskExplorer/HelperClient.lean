import TaskExplorer.HelperServer

/-!
# Asking the privileged helper

What the GUI asks travels as a `QVariant`, an `XVariant` and a framed packet, and what
the helper answers travels back the same way. The conversions of text that Qt does are
an input, with what its documentation says of them.
-/

namespace TaskExplorer.HelperClient
open Codec OrderedMap VariantFormat VariantContainer VariantValue
open HelperCommand HelperServer

/-! ## Qt -/

/-- The code units of a text. -/
abbrev QString := List UInt16

/-- A text with a code unit for each byte. -/
def word (bytes : Bytes) : QString := bytes.map UInt8.toUInt16

/-- `QVariant`, with the types that `FromQVariant` and `ToQVariant` know. The entries of a
    map are in the order of their names. -/
inductive QVariant where
  | invalid
  | map (entries : List (QString × QVariant))
  | hash (entries : List (QString × QVariant))
  | list (items : List QVariant)
  | stringList (items : List QString)
  | string (text : QString)
  | byteArray (bytes : Bytes)
  | bool (value : Bool)
  | int (value : Int)
  | uint (value : Nat)
  | longLong (value : Int)
  | uLongLong (value : Nat)
  | double (bits : Bytes)

/-- The conversions of Qt. -/
structure Qt where
  /-- `toStdString`. -/
  toUtf8 : QString → Bytes
  /-- `fromUtf8` and `fromStdString`. -/
  fromUtf8 : Bytes → QString
  fromLatin1 : Bytes → QString
  fromLocal8Bit : Bytes → QString
  toStdWString : QString → List UInt32
  fromWCharArray : List UInt32 → QString
  toULongLong : QString → Option Nat
  toMap : QVariant → List (QString × QVariant)
  toList : QVariant → List QVariant
  toByteArray : QVariant → Bytes
  toString : QVariant → QString

def Ascii (bytes : Bytes) : Prop := ∀ byte ∈ bytes, byte < 0x80

instance (bytes : Bytes) : Decidable (Ascii bytes) := inferInstanceAs (Decidable (∀ byte ∈ bytes, byte < 0x80))

/-- What Qt documents: ASCII stays what it is; Latin-1 has a code unit for each byte; the
    local encoding is UTF-8, in which a letter beyond ASCII takes two bytes at least and what
    is no letter is replaced; a variant is taken for what it holds, and an invalid one for
    nothing. -/
structure Documented (qt : Qt) : Prop where
  latin1 : ∀ bytes, qt.fromLatin1 bytes = word bytes
  fromUtf8_ascii : ∀ bytes, Ascii bytes → qt.fromUtf8 bytes = word bytes
  fromUtf8_beyond : ∀ bytes, ¬ Ascii bytes → (qt.fromUtf8 bytes).length < bytes.length ∨ 0xFFFD ∈ qt.fromUtf8 bytes
  toUtf8_ascii : ∀ bytes, Ascii bytes → qt.toUtf8 (word bytes) = bytes
  toStdWString_ascii : ∀ bytes, Ascii bytes → qt.toStdWString (word bytes) = bytes.map UInt8.toUInt32
  local_utf8 : ∀ bytes, qt.fromLocal8Bit bytes = qt.fromUtf8 bytes
  number : ∀ value, value < 2 ^ 64 → qt.toULongLong (word (decimal value)) = some value
  map : ∀ entries, qt.toMap (.map entries) = entries
  map_invalid : qt.toMap .invalid = []
  list : ∀ items, qt.toList (.list items) = items
  list_invalid : qt.toList .invalid = []
  byteArray : ∀ bytes, qt.toByteArray (.byteArray bytes) = bytes
  byteArray_invalid : qt.toByteArray .invalid = []
  string : ∀ text, qt.toString (.string text) = text
  string_invalid : qt.toString .invalid = []

/-! ## `XVariant` -/

/-- Pairs put into a map one after the other. -/
def filled {K V : Type} [LinearOrder K] (pairs : List (K × V)) : List (K × V) :=
  pairs.foldl (fun kept pair => put pair.1 pair.2 kept) []

/-- A `QString` without `eUtf8`: four bytes for each `wchar_t`. -/
def from_string (qt : Qt) (string : QString) : Packed := ⟨VAR_TYPE_UNICODE, (qt.toStdWString string).flatMap (fun w => leBytes 4 w.toNat)⟩

mutual
/-- `FromQVariant`, as far as `MkPayload` shows it. -/
def from_qvariant (qt : Qt) : QVariant → Except CException Packed
  | .map entries => do
    let pairs ← from_entries qt entries
    return ⟨VAR_TYPE_MAP, (filled pairs).flatMap write_entry⟩
  -- The names are made numbers, and a map takes no numbers.
  | .hash [] => .ok ⟨VAR_TYPE_MAP, []⟩
  | .hash (_ :: _) => .error { line := "Not a Map Variant" }
  | .list items => do
    let packed ← from_items qt items
    return ⟨VAR_TYPE_LIST, packed.flatMap to_packet⟩
  | .stringList items => .ok ⟨VAR_TYPE_LIST, (items.map (from_string qt)).flatMap to_packet⟩
  | .string text => .ok (from_string qt text)
  | .byteArray bytes => .ok ⟨VAR_TYPE_BYTES, bytes⟩
  | .bool value => .ok ⟨VAR_TYPE_UINT, [if value then 1 else 0]⟩
  | .int value => .ok ⟨VAR_TYPE_SINT, leBytes 4 (value % 2 ^ 32).toNat⟩
  | .uint value => .ok ⟨VAR_TYPE_UINT, leBytes 4 value⟩
  | .longLong value => .ok ⟨VAR_TYPE_SINT, leBytes 8 (value % 2 ^ 64).toNat⟩
  | .uLongLong value => .ok ⟨VAR_TYPE_UINT, leBytes 8 value⟩
  | .double bits => .ok ⟨VAR_TYPE_DOUBLE, bits⟩
  | .invalid => .ok none_variant

def from_entries (qt : Qt) : List (QString × QVariant) → Except CException (List (Key × Packed))
  | [] => .ok []
  | (name, value) :: rest => do
    let packed ← from_qvariant qt value
    let more ← from_entries qt rest
    return (.name (c_str (qt.toUtf8 name)), packed) :: more

def from_items (qt : Qt) : List QVariant → Except CException (List Packed)
  | [] => .ok []
  | item :: rest => do
    let packed ← from_qvariant qt item
    let more ← from_items qt rest
    return packed :: more
end

/-- `ToQVariant` of what is no container. A number is widened with zeros, and one of at most
    two bytes promoted. -/
def to_plain (qt : Qt) (packed : Packed) : Except CException QVariant :=
  let size := packed.payload.length
  let number := leNat packed.payload
  if packed.type = VAR_TYPE_BYTES then .ok (.byteArray packed.payload)
  else if packed.type = VAR_TYPE_UNICODE then .ok (.string (qt.fromWCharArray (wide packed.payload)))
  else if packed.type = VAR_TYPE_UTF8 then .ok (.string (qt.fromUtf8 packed.payload))
  else if packed.type = VAR_TYPE_ASCII then .ok (.string (qt.fromLatin1 packed.payload))
  else if packed.type = VAR_TYPE_SINT then
    if size ≤ 1 then .ok (.int (Int.bmod number (2 ^ 8)))
    else if size ≤ 2 then .ok (.int (Int.bmod number (2 ^ 16)))
    else if size ≤ 4 then .ok (.int (Int.bmod number (2 ^ 32)))
    else if size ≤ 8 then .ok (.longLong (Int.bmod number (2 ^ 64)))
    else .ok (.byteArray packed.payload)
  else if packed.type = VAR_TYPE_UINT then
    if size ≤ 2 then .ok (.int number)
    else if size ≤ 4 then .ok (.uint number)
    else if size ≤ 8 then .ok (.uLongLong number)
    else .ok (.byteArray packed.payload)
  else if packed.type = VAR_TYPE_DOUBLE then
    if size = 8 then .ok (.double packed.payload)
    else .error { line := "double Value pulled is shorter than int value present" }
  else .ok .invalid

/-- The name an entry has in a `QVariantMap` or a `QVariantHash`. -/
def key_string (qt : Qt) : Key → QString
  | .name name => qt.fromUtf8 name
  | .id index => qt.fromUtf8 (leBytes 4 index.toNat)
  | .item => []

/-- `ToQVariant`; there are no more levels than bytes. -/
def to_qvariant (qt : Qt) : Nat → Packed → Except CException QVariant
  | 0, _ => .ok .invalid
  | fuel + 1, packed =>
    match kindOf packed.type with
    | none => to_plain qt packed
    | some kind => do
      let entries ← load kind packed.payload
      let children ← entries.mapM (fun pair => to_qvariant qt fuel pair.2)
      match kind with
      | .list => return .list children
      | .map => return .map (filled ((entries.map (fun pair => key_string qt pair.1)).zip children))
      | .index => return .hash (filled ((entries.map (fun pair => key_string qt pair.1)).zip children))

/-! ## The socket -/

/-- `SendXVariant`: the length was cast to 32 bits, the bytes are all written. -/
def send_xvariant (packed : Packed) : Bytes := leBytes 4 ((to_packet packed).length % 2 ^ 32) ++ to_packet packed

def recv_xvariant (qt : Qt) (received : Bytes) : Except CException QVariant :=
  if received.length < 4 then .ok .invalid
  else if (received.drop 4).length < leNat (received.take 4) then .ok .invalid
  else do
    let (packed, _) ← from_packet ⟨(received.drop 4).take (leNat (received.take 4)), 0⟩
    to_qvariant qt (packed.payload.length + 1) packed

/-- `SendCommand` to a helper that listens. One that an exception ends closes the
    connection. -/
def send_command (qt : Qt) (kernel : Kernel) (world : World) (request : QVariant) : Except CException QVariant :=
  match request with
  | .invalid => .ok .invalid
  | request => do
    let packed ← from_qvariant qt request
    match serve_connection kernel (send_xvariant packed) world with
    | .ok (some reply, _) => recv_xvariant qt reply
    | .ok (none, _) => return .invalid
    | .error _ => return .invalid

def invalid_parameters : QString := word (text "Invalid Parameters")
def unknown_command : QString := word (text "Unknown Command")

/-- A name in the source, as a `QString`. -/
def name (literal : String) : QString := word (text literal)

/-- `LinuxHelperCall`: a rejection is a bare string, and is made invalid. -/
def linux_helper_call (qt : Qt) (kernel : Kernel) (world : World) (command : String) (parameters : List (QString × QVariant)) :
    Except CException QVariant := do
  let reply ← send_command qt kernel world (.map [(name "Command", .string (name command)), (name "Parameters", .map parameters)])
  match reply with
  | .string answer => if answer = invalid_parameters ∨ answer = unknown_command then return .invalid else return reply
  | _ => return reply

/-! ## What is asked -/

def files_of (qt : Qt) (value : QVariant) : List (QString × Bytes) :=
  filled ((qt.toMap value).map (fun pair => (pair.1, qt.toByteArray pair.2)))

def helper_read_proc_files (qt : Qt) (kernel : Kernel) (world : World) (pids : List Nat) (leaves : List QString) :
    Except CException (List (Nat × List (QString × Bytes))) :=
  if pids = [] ∨ leaves = [] then .ok []
  else do
    let reply ← linux_helper_call qt kernel world "ReadProcFiles"
      [(name "Leaves", .stringList leaves), (name "Pids", .list (pids.map .uLongLong))]
    return filled ((qt.toMap reply).filterMap (fun pair => (qt.toULongLong pair.1).map (fun pid => (pid, files_of qt pair.2))))

def helper_read_proc_link (qt : Qt) (kernel : Kernel) (world : World) (pid : Nat) (leaf : QString) : Except CException QString := do
  let reply ← linux_helper_call qt kernel world "ReadProcLink" [(name "Leaf", .string leaf), (name "ProcessId", .uLongLong pid)]
  return qt.toString reply

def helper_list_fds (qt : Qt) (kernel : Kernel) (world : World) (pid : Nat) : Except CException (List (List (QString × QVariant))) := do
  let reply ← linux_helper_call qt kernel world "ListProcFds" [(name "ProcessId", .uLongLong pid)]
  return (qt.toList reply).map qt.toMap

def helper_read_memory (qt : Qt) (kernel : Kernel) (world : World) (pid address size : Nat) : Except CException Bytes := do
  let reply ← linux_helper_call qt kernel world "ReadProcMemory"
    [(name "Address", .uLongLong address), (name "ProcessId", .uLongLong pid), (name "Size", .uLongLong size)]
  return qt.toByteArray reply

end TaskExplorer.HelperClient
