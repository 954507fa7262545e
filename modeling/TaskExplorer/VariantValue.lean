import TaskExplorer.VariantContainer

/-!
# Variants as values

A `CVariant` without the sharing of its representation: the payload it was
given or decoded from, the container it keeps in memory, or the buffer it is
being written to.
-/

namespace TaskExplorer.VariantValue
open Codec OrderedMap VariantFormat VariantContainer

inductive EAccess where
  | readWrite
  | readOnly
  | writeOnly
  | derived
deriving DecidableEq, Repr

inductive Variant where
  /-- A payload, with no container made from it. -/
  | raw (access : EAccess) (packed : Packed)
  /-- A container in memory, and the payload it may have been made from. -/
  | opened (access : EAccess) (kind : Kind) (payload : Bytes) (entries : List (Key × Variant))
  /-- Between `BeginMap`, `BeginList` or `BeginIMap` and `Finish`. -/
  | writing (kind : Kind) (buffer : Bytes)

namespace Variant

def access : Variant → EAccess
  | .raw access _ => access
  | .opened access _ _ _ => access
  | .writing _ _ => .writeOnly

def type : Variant → VarType
  | .raw _ packed => packed.type
  | .opened _ kind _ _ => kind.type
  | .writing kind _ => kind.type

def payload : Variant → Bytes
  | .raw _ packed => packed.payload
  | .opened _ _ payload _ => payload
  | .writing _ _ => []

end Variant

/-- `FromPacket`; what is read out of another variant's payload is derived. -/
def from_packet_variant (access : EAccess) (buffer : Cursor) : Except CException (Variant × Cursor) := do
  let (packed, buffer) ← from_packet buffer
  return (.raw access packed, buffer)

/-! ## Payloads -/

/-- `SVariant::Map`, `List` and `IMap` on a payload: its entries, or the
    exception their loop raises. -/
def load (kind : Kind) (payload : Bytes) : Except CException (List (Key × Packed)) :=
  match parse kind payload with
  | (entries, none) => .ok entries
  | (_, some raised) => .error raised

theorem load_ok_iff {kind : Kind} {payload : Bytes} {entries : List (Key × Packed)} :
    load kind payload = .ok entries ↔
      (∃ rest, (raw_entries kind payload).2 = .pending rest) ∧ entries = collect kind (raw_entries kind payload).1 := by
  unfold load parse
  cases walked : raw_entries kind payload with
  | mk pairs tail =>
    cases tail with
    | pending rest => simp [eq_comm]
    | failed raised => simp

/-- A map in memory has under a key what `Find` finds in its payload, if no name has
    a NUL in it. -/
theorem find_raw_loaded {kind : Kind} {payload : Bytes} {entries : List (Key × Packed)} (keyed : kind ≠ .list)
    (loaded : load kind payload = .ok entries) (plain : ∀ pair ∈ (raw_entries kind payload).1, pair.1.stored = pair.1) (key : Key) :
    find_raw kind payload key = .ok (find key entries) := by
  obtain ⟨⟨rest, ended⟩, rfl⟩ := load_ok_iff.mp loaded
  have same : (raw_entries kind payload).1.find? (fun pair => pair.1.stored = key) =
      (raw_entries kind payload).1.find? (fun pair => pair.1 = key) := by
    refine List.find?_congr ?_
    intro pair member
    rw [plain pair member]
  rw [find_collect keyed, same, find_raw, ended]
  cases (raw_entries kind payload).1.find? (fun pair => pair.1 = key) <;> rfl

mutual
/-- `SVariant::MkPayload`: a read-write container is written out again, anything
    else hands over the bytes it has. -/
def mk_payload : Variant → Except CException Bytes
  | .raw .readWrite packed =>
    match kindOf packed.type with
    | none => .ok packed.payload
    | some kind => do
      let entries ← load kind packed.payload
      return entries.flatMap write_entry
  | .raw _ packed => .ok packed.payload
  | .opened .readWrite _ _ entries => mk_entries entries
  | .opened _ _ payload _ => .ok payload
  | .writing _ _ => .ok []

def mk_entries : List (Key × Variant) → Except CException Bytes
  | [] => .ok []
  | (key, child) :: rest => do
    let body ← mk_payload child
    let more ← mk_entries rest
    return write_entry (key, ⟨child.type, body⟩) ++ more
end

def to_packet_variant (variant : Variant) : Except CException Bytes := do
  let body ← mk_payload variant
  return to_packet ⟨variant.type, body⟩

/-! ## Container operations -/

/-- The container of a variant, made from its payload if need be. An entry is read
    as derived and copied into the container, which gives it its own bytes. -/
def container (kind : Kind) : Variant → Except CException (List (Key × Variant))
  | .raw _ packed => do
    let entries ← load kind packed.payload
    return entries.map (fun pair => (pair.1, .raw .readOnly pair.2))
  | .opened _ _ _ entries => .ok entries
  | .writing _ _ => .error { line := "Variant is being writen to", pointer := true }

/-- `Assign`: a derived variant is copied with its bytes, any other is shared. -/
def assign : Variant → Variant
  | .raw .derived packed => .raw .readOnly packed
  | .opened .derived kind payload _ => .raw .readOnly ⟨kind.type, payload⟩
  | variant => variant

/-- A new key gets a copy, a known one is attached to the variant itself. -/
def store (kind : Kind) (entries : List (Key × Variant)) (key : Key) (variant : Variant) : List (Key × Variant) :=
  match kind with
  | .list => entries ++ [(key, assign variant)]
  | _ => if (find key entries).isSome then put key variant entries else put key (assign variant) entries

/-- What `Insert` and `Append` have in common: the access check, the change of
    type, and the store. -/
def emplace (kind : Kind) (refused : String) (target : Variant) (key : Key) (variant : Variant) :
    Except CException Variant := do
  if target.access ≠ .readWrite then throw { line := refused }
  if target.type = kind.type then
    let entries ← container kind target
    return .opened .readWrite kind target.payload (store kind entries key variant)
  else
    return .opened .readWrite kind [] (store kind [] key variant)

def insert_name (target : Variant) (name : Bytes) (variant : Variant) : Except CException Variant :=
  emplace .map "variant access violation; Map Insert" target (.name (c_str name)) variant

def insert_index (target : Variant) (index : UInt32) (variant : Variant) : Except CException Variant :=
  emplace .index "variant access violation; Index Insert" target (.id index) variant

def append (target : Variant) (variant : Variant) : Except CException Variant :=
  emplace .list "variant access violation; List Append" target .item variant

/-! ## Copies -/

mutual
/-- `SVariant::Clone`: an unparsed container is copied with its payload, a parsed
    one is filled again from copies of its children. -/
def clone : Variant → Except CException Variant
  | .raw _ packed => .ok (.raw .readWrite packed)
  | .opened _ kind _ entries => do
    let copies ← clone_entries entries
    return .opened .readWrite kind [] (copies.foldl (fun kept pair => store kind kept pair.1.stored pair.2) [])
  | .writing _ _ => .error { line := "Variant is being writen to", pointer := true }

def clone_entries : List (Key × Variant) → Except CException (List (Key × Variant))
  | [] => .ok []
  | (key, child) :: rest => do
    let copy ← clone child
    let more ← clone_entries rest
    return (key, copy) :: more
end

def unfreeze (variant : Variant) : Except CException Variant :=
  if variant.access = .readWrite then .ok variant else clone variant

def open_entry (read : Packed → Except CException Variant) (pair : Key × Packed) : Except CException (Key × Variant) := do
  let child ← read pair.2
  return (pair.1, child)

/-- Opening a payload and everything below it, as reading every child does. There
    are no more levels than bytes. -/
def open_payload : Nat → EAccess → Packed → Except CException Variant
  | 0, access, packed => .ok (.raw access packed)
  | fuel + 1, access, packed =>
    match kindOf packed.type with
    | none => .ok (.raw access packed)
    | some kind => do
      let entries ← load kind packed.payload
      let children ← entries.mapM (open_entry (open_payload fuel .readOnly))
      return .opened access kind packed.payload children

mutual
/-- A full parse: every container of the variant is opened. -/
def full_parse : Variant → Except CException Variant
  | .raw access packed => open_payload (packed.payload.length + 1) access packed
  | .opened access kind payload entries => do
    let children ← full_parse_entries entries
    return .opened access kind payload children
  | .writing _ _ => .error { line := "Variant is being writen to", pointer := true }

def full_parse_entries : List (Key × Variant) → Except CException (List (Key × Variant))
  | [] => .ok []
  | (key, child) :: rest => do
    let parsed ← full_parse child
    let more ← full_parse_entries rest
    return (key, parsed) :: more
end

/-! ## Writing a container in one go -/

/-- `BeginMap`, `BeginList` and `BeginIMap`. -/
def begin_container (kind : Kind) : Variant := .writing kind []

def Key.kind : Key → Kind
  | .name _ => .map
  | .id _ => .index
  | .item => .list

/-- The check that every `WriteValue` and `WriteVariant` starts with, and the key
    they write. -/
def write_packet (target : Variant) (key : Key) (packet : Bytes) : Except CException Variant :=
  match target with
  | .writing kind buffer =>
    if kind = Key.kind key then .ok (.writing kind (buffer ++ write_key key.stored ++ packet))
    else
      match key with
      | .name _ => .error { line := "Variant is not a map", pointer := true }
      | .item => .error { line := "Variant is not a list", pointer := true }
      | .id _ => .error { line := "Variant is not a imap", pointer := true }
  | _ => .error { line := "Variant is not being writen to", pointer := true }

def write_value (target : Variant) (key : Key) (type : VarType) (value : Bytes) : Except CException Variant :=
  write_packet target key (to_packet ⟨type, value⟩)

def write_variant (target : Variant) (key : Key) (variant : Variant) : Except CException Variant := do
  let packet ← to_packet_variant variant
  write_packet target key packet

/-- The size kept is the low 32 bits of the buffer's. -/
def finish : Variant → Except CException Variant
  | .writing kind buffer => .ok (.raw .readOnly ⟨kind.type, buffer.take (buffer.length % 2 ^ 32)⟩)
  | _ => .error { line := "Variant is not being writen to", pointer := true }

end TaskExplorer.VariantValue
