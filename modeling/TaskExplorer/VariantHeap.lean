import TaskExplorer.RefHeap
import TaskExplorer.VariantEdit

/-!
# Variants that share their representation

A `CVariant` is a reference to an `SVariant`, which counts its references. A copy
refers to the same one, and `Val` makes a deep copy of it before anything is
changed through a reference that is not the only one. `none` stands for what C++
leaves undefined: the use of a representation that was freed, and `Remove` of an
item of a list.
-/

namespace TaskExplorer.VariantHeap
open Codec OrderedMap RefHeap VariantFormat VariantContainer
open VariantValue VariantTree VariantBuild
open VariantEdit (outOfBound notMap notListIndex)

/-- What an `SVariant` holds beside its counter; there is no container as long as
    it is not made from the payload. -/
structure Node where
  access : EAccess
  packed : Packed
  container : Option (List (Key × Address))
deriving DecidableEq

namespace Node

def kids (node : Node) : List Address := (node.container.getD []).map Prod.snd

def type (node : Node) : VarType := node.packed.type

/-- A node with nothing but a payload. -/
def raw (access : EAccess) (packed : Packed) : Node := ⟨access, packed, none⟩

/-- What `Init` and `Clone` make: a container in memory, without a payload. -/
def filled (kind : Kind) (entries : List (Key × Address)) : Node := ⟨.readWrite, ⟨kind.type, []⟩, some entries⟩

def empty : Node := raw .readWrite ⟨VAR_TYPE_EMPTY, []⟩

end Node

abbrev Store := Heap Node

/-! ## References -/

def nodeAt (store : Store) (address : Address) : Option Node := (look store address).map Cell.content

def alloc (store : Store) (node : Node) : Store × Address := (store ++ [some ⟨1, node⟩], store.length)

def write (store : Store) (address : Address) (node : Node) : Option Store :=
  (look store address).map (fun cell => store.set address (some { cell with content := node }))

def retain (store : Store) (address : Address) : Option Store :=
  (look store address).map (fun cell => store.set address (some { cell with count := cell.count + 1 }))

/-- The last reference frees, and drops those of the container. -/
def drop (store : Store) (address : Address) : Option Store :=
  release Node.kids (1 + (edges Node.kids store).length) store [address]

/-- `Assign` to a variant that refers to nothing. -/
def copy (store : Store) (source : Address) : Option (Store × Address) := do
  let node ← nodeAt store source
  if node.access = .derived then return alloc store (.raw .readOnly node.packed)
  else
    let store ← retain store source
    return (store, source)

/-! ## Copies of everything below -/

def cloneAll (clone : Store → Address → Option (Store × Address)) :
    Store → List (Key × Address) → Option (Store × List (Key × Address))
  | store, [] => some (store, [])
  | store, (key, child) :: rest => do
    let (store, other) ← clone store child
    let (store, others) ← cloneAll clone store rest
    return (store, (key, other) :: others)

/-- `SVariant::Clone`. The entries of a map come in the order of their keys, so
    inserting the copies one after the other gives the same row. There are no more
    levels than representations. -/
def cloneWith : Nat → Store → Address → Option (Store × Address)
  | 0, _, _ => none
  | fuel + 1, store, address => do
    let node ← nodeAt store address
    match node.container with
    | none => return alloc store (.raw .readWrite node.packed)
    | some entries =>
      let (store, copies) ← cloneAll (cloneWith fuel) store entries
      return alloc store ⟨.readWrite, ⟨node.type, []⟩, some copies⟩

def clone (store : Store) (address : Address) : Option (Store × Address) := cloneWith store.length store address

/-- `Val` of a variant that is not const, with `Detach`. -/
def val (store : Store) (address : Address) : Option (Store × Address) := do
  let cell ← look store address
  if cell.count > 1 then
    let (store, other) ← clone store address
    let store ← drop store address
    return (store, other)
  else return (store, address)

/-! ## Containers -/

/-- One representation for every packet, with the addresses behind those there are. -/
def place_all (first : Address) : List (Key × Packed) → List (Key × Address)
  | [] => []
  | (key, _) :: rest => (key, first) :: place_all (first + 1) rest

def loaded_cells (pairs : List (Key × Packed)) : Store := pairs.map (fun pair => some ⟨1, .raw .readOnly pair.2⟩)

/-- `SVariant::Map`, `List` and `IMap`: the container is there before the loop that
    fills it, also when that raises an exception. -/
def open_container (store : Store) (address : Address) (kind : Kind) :
    Option (Store × Except CException (List (Key × Address))) := do
  let node ← nodeAt store address
  match node.container with
  | some entries => return (store, .ok entries)
  | none =>
    let parsed := parse kind node.packed.payload
    let entries := place_all store.length parsed.1
    let store ← write (store ++ loaded_cells parsed.1) address { node with container := some entries }
    return (store, parsed.2.elim (.ok entries) .error)

/-- `Init` of a variant of another type; what it held before is not given back. -/
def init (store : Store) (address : Address) (kind : Kind) : Option Store := do
  let node ← nodeAt store address
  if node.type = kind.type then return store else write store address (.filled kind [])

def refill (store : Store) (address : Address) (entries : List (Key × Address)) : Option Store := do
  let node ← nodeAt store address
  write store address { node with container := some entries }

/-! ## Mutators

Each takes the representation that a variant refers to, and gives the one it refers
to afterwards. -/

abbrev Changed := Option (Store × Address × Except CException Unit)

def refused : Kind → CException
  | .map => { line := "variant access violation; Map Insert" }
  | .list => { line := "variant access violation; List Append" }
  | .index => { line := "variant access violation; Index Insert" }

/-- A known key is attached to the source, a new one gets a copy. -/
def store_entry (kind : Kind) (key : Key) (source : Address) (entries : List (Key × Address)) (store : Store) (address : Address) :
    Option Store :=
  match if kind = .list then none else find key entries with
  | some old => do
    let store ← retain store source
    let store ← refill store address (replace key source entries)
    drop store old
  | none => do
    let (store, child) ← copy store source
    refill store address (place kind entries (key, child))

/-- `Insert` and `Append`. -/
def insert (kind : Kind) (key : Key) (source : Address) (store : Store) (address : Address) : Changed := do
  let (store, address) ← val store address
  let node ← nodeAt store address
  if node.access ≠ .readWrite then return (store, address, .error (refused kind))
  let store ← init store address kind
  let (store, opened) ← open_container store address kind
  match opened with
  | .error raised => return (store, address, .error raised)
  | .ok entries =>
    let store ← store_entry kind key source entries store address
    return (store, address, .ok ())

/-- A key of a MAP or INDEX. -/
def remove_key (kind : Kind) (key : Key) (store : Store) (address : Address) : Changed := do
  let (store, opened) ← open_container store address kind
  match opened with
  | .error raised => return (store, address, .error raised)
  | .ok entries =>
    match find key entries with
    | none => return (store, address, .ok ())
    | some old =>
      let store ← refill store address (erase key entries)
      let store ← drop store old
      return (store, address, .ok ())

def remove_name (name : Bytes) (store : Store) (address : Address) : Changed := do
  let (store, address) ← val store address
  let node ← nodeAt store address
  match kindOf node.type with
  | some .map => remove_key .map (.name (c_str name)) store address
  | _ => return (store, address, .error notMap)

/-- The case of a list runs on into that of an index with the vector. -/
def remove_index (index : UInt32) (store : Store) (address : Address) : Changed := do
  let (store, address) ← val store address
  let node ← nodeAt store address
  match kindOf node.type with
  | some .list =>
    let (store, opened) ← open_container store address .list
    match opened with
    | .error raised => return (store, address, .error raised)
    | .ok entries => if entries.length ≤ index.toNat then return (store, address, .error outOfBound) else none
  | some .index => remove_key .index (.id index) store address
  | _ => return (store, address, .error notListIndex)

/-- `Assign`; `Attach` drops what the variant referred to before it takes the other. -/
def assign (source : Address) (store : Store) (address : Address) : Changed := do
  let node ← nodeAt store address
  if node.access ≠ .readWrite then return (store, address, .error { line := "variant access violation; Assign" })
  let store ← drop store address
  let (store, child) ← copy store source
  return (store, child, .ok ())

def clear (store : Store) (address : Address) : Changed := do
  let store ← drop store address
  let (store, other) := alloc store .empty
  return (store, other, .ok ())

def unfreeze (store : Store) (address : Address) : Changed := do
  let (store, address) ← val store address
  let node ← nodeAt store address
  if node.access = .readWrite then return (store, address, .ok ())
  let (store, other) ← clone store address
  let store ← drop store address
  return (store, other, .ok ())

/-! ### Freezing -/

def makeAll (make : Address → Option (List Address × Except CException Bytes)) (store : Store) :
    List (Key × Address) → Option (List Address × Except CException Bytes)
  | [] => some ([], .ok [])
  | (key, child) :: rest => do
    let node ← nodeAt store child
    let (opened, result) ← make child
    match result with
    | .error raised => return (opened, .error raised)
    | .ok body =>
      let (others, more) ← makeAll make store rest
      return (opened ++ others, more.map (fun bytes => write_entry (key, ⟨node.type, body⟩) ++ bytes))

/-- `MkPayload`, and the representations it makes a container for. -/
def makeWith : Nat → Store → Address → Option (List Address × Except CException Bytes)
  | 0, _, _ => none
  | fuel + 1, store, address => do
    let node ← nodeAt store address
    if node.access ≠ .readWrite then return ([], .ok node.packed.payload)
    match kindOf node.type, node.container with
    | none, _ => return ([], .ok node.packed.payload)
    | some kind, none => return ([address], (load kind node.packed.payload).map (fun entries => entries.flatMap write_entry))
    | some _, some entries => makeAll (makeWith fuel store) store entries

def open_known (store : Store) (address : Address) : Option Store := do
  let node ← nodeAt store address
  match kindOf node.type with
  | none => return store
  | some kind =>
    let (store, _) ← open_container store address kind
    return store

/-- `Freeze` writes a packet and reads it again. -/
def freeze (store : Store) (address : Address) : Changed := do
  let (store, address) ← val store address
  let node ← nodeAt store address
  if node.access = .readOnly then return (store, address, .ok ())
  let (opened, result) ← makeWith store.length store address
  let store ← opened.foldlM open_known store
  match result with
  | .error raised => return (store, address, .error raised)
  | .ok body =>
    let store ← drop store address
    match from_packet ⟨to_packet ⟨node.type, body⟩, 0⟩ with
    | .error raised =>
      let (store, other) := alloc store .empty
      return (store, other, .error raised)
    | .ok (packed, _) =>
      let (store, other) := alloc store (.raw .readOnly packed)
      return (store, other, .ok ())

/-! ### Merging -/

def insert_all (kind : Kind) : List (Key × Address) → Store → Address → Changed
  | [], store, address => some (store, address, .ok ())
  | (key, child) :: rest, store, address => do
    let (store, address, result) ← insert kind key.stored child store address
    match result with
    | .error raised => return (store, address, .error raised)
    | .ok _ => insert_all kind rest store address

def merge (source : Address) (store : Store) (address : Address) : Changed := do
  let node ← nodeAt store address
  let other ← nodeAt store source
  if node.type = VAR_TYPE_EMPTY then assign source store address
  else
    match kindOf other.type with
    | none => return (store, address, .error { line := "Variant could not be merged, type mismatch" })
    | some kind =>
      if node.type ≠ kind.type then return (store, address, .error { line := "Variant could not be merged, type mismatch" })
      let (store, opened) ← open_container store source kind
      match opened with
      | .error raised => return (store, address, .error raised)
      | .ok entries => insert_all kind entries store address

end TaskExplorer.VariantHeap
