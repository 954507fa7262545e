import TaskExplorer.Codec
import TaskExplorer.OrderedMap
import TaskExplorer.Sealing

/-!
# The credential store

A random master key seals the entries; a key derived from the store's password
seals the master key, and the platform may keep it as well. The file holds both
wrappings and the sealed entries. A process keeps what it read of the file, and
every save writes all of that out again.

Salts, nonces, handles and master keys are random bytes, told apart by a number.
Encryption and key derivation are ideal. Every step that can fail does so if the
`Chance` that a call is given says so.
-/

namespace TaskExplorer.CredentialStore
open Codec OrderedMap Sealing

abbrev QString := List Char

structure SCredentials where
  psk : Bytes
  user : Bytes
  password : Bytes
deriving DecidableEq

abbrev Entries := OrdMap QString SCredentials

inductive Key where
  | master (secret : Nat)
  | derived (password : QString) (salt : Option Nat) (iterations : Nat)
deriving DecidableEq

/-- `WrapAad` and `BodyAad`. -/
inductive Aad where
  | wrap (salt : Option Nat) (iterations : Nat)
  | body
deriving DecidableEq

/-- The master key as the platform keeps it: under a handle that can be forgotten. -/
structure Platform where
  handle : Nat
  secret : Nat
deriving DecidableEq

def CRED_ITERATIONS : Nat := 600000

/-- What the file holds. An empty byte array is `none`. -/
structure Header where
  salt : Option Nat := none
  iterations : Nat := 0
  passwordWrapped : Option (Sealed Key (Option Nat) Aad Nat) := none
  platformWrapped : Option Platform := none
  bodyNonce : Option Nat := none
  body : Option (Sealed Key (Option Nat) Aad (List (QString × SCredentials))) := none
deriving DecidableEq

/-- A `CCredentialStore` in memory. -/
structure Store where
  header : Header := {}
  loaded : Bool := false
  master : Option Nat := none
  entries : Entries := .empty

def Store.IsUnlocked (store : Store) : Bool := store.master.isSome

/-- One process and the file. -/
structure World where
  file : Option Header := none
  store : Store := {}
  /-- Whether the platform keeps secrets in a keyring, and what was forgotten there. -/
  keyring : Bool := true
  forgotten : List Nat := []
  /-- The password of the last `Create` or `ChangePassword` that returned OK; not in the source. -/
  owner : Option QString := none
  /-- The entries of the last save that reached the disk; not in the source. -/
  saved : Entries := .empty

inductive Status where
  | ok
  | unavailable (why : String)
  | damaged (why : String)
  | badPassword
  | locked
  | noPlatformKey
  | writeFailed
deriving DecidableEq, Repr

inductive Read where
  | works
  | notOpened
  | endsEarly (read : Header)

/-- What comes of the steps of a call that may fail, and the bytes that `Random`
    gives it. -/
structure Chance where
  why : Option String := none
  read : Read := .works
  derive : Bool := true
  wrap : Bool := true
  encrypt : Bool := true
  write : Bool := true
  platform : Bool := true
  platformWrap : Bool := true
  salt : Nat := 0
  nonce : Nat := 0
  bodyNonce : Nat := 0
  handle : Nat := 0

/-! ## Entries -/

def encode_entries (entries : Entries) : List (QString × SCredentials) := entries.entries

/-- An entry without a target is not taken over. -/
def decode_entries (plain : List (QString × SCredentials)) (entries : Entries) : Entries :=
  plain.foldl (fun entries pair => if pair.1 = [] then entries else entries.insert pair.1 pair.2) entries

/-! ## Opening -/

def lock (store : Store) : Store := { store with master := none, entries := .empty }

def load (world : World) (read : Read) : Status × World :=
  if world.store.loaded then (.ok, world)
  else
    match world.file, read with
    | none, _ => (.damaged "No such file or directory", world)
    | some _, .notOpened => (.damaged "the file could not be opened", world)
    | some _, .endsEarly read => (.damaged "the file ends early", { world with store := { world.store with header := read } })
    | some header, .works => (.ok, { world with store := { world.store with header := header, loaded := true } })

/-- The master key behind a password. -/
def unwrap (header : Header) (password : QString) : Option Nat :=
  header.passwordWrapped.bind (fun box =>
    decrypt (.derived password header.salt header.iterations) box.nonce (.wrap header.salt header.iterations) box)

def decrypt_body (header : Header) (master : Nat) : Option (List (QString × SCredentials)) :=
  header.body.bind (decrypt (.master master) header.bodyNonce .body)

def unlock (world : World) (password : QString) (chance : Chance) : Status × World :=
  match chance.why with
  | some why => (.unavailable why, world)
  | none =>
    if world.file.isNone then (.damaged "there is no store yet", world)
    else
      match load world chance.read with
      | (.ok, world) =>
        if chance.derive then
          match unwrap world.store.header password with
          | none => (.badPassword, world)
          | some master =>
            match decrypt_body world.store.header master with
            | none => (.damaged "the entries did not verify", { world with store := lock world.store })
            | some plain =>
              (.ok, { world with store := { world.store with master := some master, entries := decode_entries plain .empty } })
        else (.unavailable "the key derivation failed", world)
      | (status, world) => (status, world)

def platform_unwrap (world : World) (wrapped : Platform) : Option Nat :=
  if wrapped.handle ∈ world.forgotten then none else some wrapped.secret

def try_unlock (world : World) (chance : Chance) : Bool × World :=
  if world.store.IsUnlocked then (true, world)
  else if world.file.isNone ∨ chance.why.isSome then (false, world)
  else
    match load world chance.read with
    | (.ok, world) =>
      match world.store.header.platformWrapped.bind (fun wrapped => if chance.platform then platform_unwrap world wrapped else none) with
      | none => (false, world)
      | some master =>
        match decrypt_body world.store.header master with
        | none => (false, { world with store := lock world.store })
        | some plain =>
          (true, { world with store := { world.store with master := some master, entries := decode_entries plain world.store.entries } })
    | (_, world) => (false, world)

/-! ## Saving -/

/-- The fields that a save seals the entries into. -/
def sealing (header : Header) (master : Nat) (entries : Entries) (chance : Chance) : Header :=
  { header with
    bodyNonce := some chance.bodyNonce
    body := if chance.encrypt then some ⟨.master master, some chance.bodyNonce, .body, encode_entries entries⟩ else none }

def save (world : World) (chance : Chance) : Status × World :=
  match world.store.master with
  | none => (.locked, world)
  | some master =>
    let store := { world.store with header := sealing world.store.header master world.store.entries chance }
    if chance.encrypt then
      if chance.write then
        (.ok, { world with file := some store.header, store := { store with loaded := true }, saved := store.entries })
      else (.writeFailed, { world with store := store })
    else (.unavailable "the entries could not be sealed", { world with store := store })

def change_password (world : World) (password : QString) (chance : Chance) : Status × World :=
  match world.store.master with
  | none => (.locked, world)
  | some master =>
    let salted := { world.store.header with salt := some chance.salt, iterations := CRED_ITERATIONS }
    let world := { world with store := { world.store with header := salted } }
    if chance.derive then
      if chance.wrap then
        let box : Sealed Key (Option Nat) Aad Nat := ⟨.derived password salted.salt salted.iterations, some chance.nonce,
          .wrap salted.salt salted.iterations, master⟩
        match save { world with store := { world.store with header := { salted with passwordWrapped := some box } } } chance with
        | (.ok, world) => (.ok, { world with owner := some password })
        | (status, world) => (status, world)
      else (.unavailable "the master key could not be wrapped", world)
    else (.unavailable "the key derivation failed", world)

/-- A keyring lets go of the secret; a wrapping that is the file's own bytes stays. -/
def platform_forget (world : World) : World :=
  match world.store.header.platformWrapped with
  | none => world
  | some wrapped => if world.keyring then { world with forgotten := wrapped.handle :: world.forgotten } else world

def setWrapped (world : World) (wrapped : Option Platform) : World :=
  { world with store := { world.store with header := { world.store.header with platformWrapped := wrapped } } }

def set_platform_unlock (world : World) (on : Bool) (chance : Chance) : Status × World :=
  if on then
    match world.store.master with
    | none => (.locked, world)
    | some master =>
      if chance.platform then
        let world := platform_forget world
        if chance.platformWrap then
          save (setWrapped { world with forgotten := world.forgotten.filter (fun handle => handle ≠ chance.handle) }
            (some ⟨chance.handle, master⟩)) chance
        else (.noPlatformKey, setWrapped world none)
      else (.noPlatformKey, world)
  else
    let world := setWrapped (platform_forget world) none
    if world.store.loaded then save world chance else (.ok, world)

/-- The random master key, and what comes of each of the three saves on the way. -/
structure Creation where
  master : Nat
  first : Chance
  second : Chance
  third : Chance

def create (world : World) (password : QString) (platformUnlock : Bool) (creation : Creation) : Status × World :=
  match creation.first.why with
  | some why => (.unavailable why, world)
  | none =>
    if world.file.isSome then (.damaged "a store is already there", world)
    else
      let header := { world.store.header with salt := some creation.first.salt, iterations := CRED_ITERATIONS, platformWrapped := none }
      let world := { world with store := { header := header, loaded := true, master := some creation.master, entries := .empty } }
      match change_password world password creation.first with
      | (.ok, world) =>
        if platformUnlock then
          match set_platform_unlock world true creation.second with
          | (.ok, world) => save world creation.third
          | (status, world) => (status, world)
        else save world creation.third
      | (status, world) => (status, world)

def set (world : World) (target : QString) (cred : SCredentials) (chance : Chance) : Status × World :=
  if world.store.IsUnlocked then
    save { world with store := { world.store with entries := world.store.entries.insert target cred } } chance
  else (.locked, world)

def remove (world : World) (target : QString) (chance : Chance) : Status × World :=
  if world.store.IsUnlocked then
    if (world.store.entries.get target).isNone then (.ok, world)
    else save { world with store := { world.store with entries := world.store.entries.erase target } } chance
  else (.locked, world)

/-! ## Calls -/

inductive Call where
  | create (password : QString) (platformUnlock : Bool) (creation : Creation)
  | unlock (password : QString) (chance : Chance)
  | tryUnlock (chance : Chance)
  | lock
  | set (target : QString) (cred : SCredentials) (chance : Chance)
  | remove (target : QString) (chance : Chance)
  | changePassword (password : QString) (chance : Chance)
  | setPlatformUnlock (on : Bool) (chance : Chance)
  /-- The process ends, and another begins. -/
  | restart

def perform (world : World) : Call → Status × World
  | .create password platformUnlock creation => create world password platformUnlock creation
  | .unlock password chance => CredentialStore.unlock world password chance
  | .tryUnlock chance =>
    match try_unlock world chance with
    | (true, world) => (.ok, world)
    | (false, world) => (.locked, world)
  | .lock => (.ok, { world with store := CredentialStore.lock world.store })
  | .set target cred chance => CredentialStore.set world target cred chance
  | .remove target chance => CredentialStore.remove world target chance
  | .changePassword password chance => change_password world password chance
  | .setPlatformUnlock on chance => set_platform_unlock world on chance
  | .restart => (.ok, { world with store := {} })

def step (world : World) (call : Call) : Option World := some (perform world call).2

end TaskExplorer.CredentialStore
