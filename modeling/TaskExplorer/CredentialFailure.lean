import TaskExplorer.CredentialOwner

/-!
# Calls that fail

A call of the credential store that returns an error should leave everything as
it was. Each call edits the memory before the step that can fail, so this is so
only if the edit cannot be seen.
-/

namespace TaskExplorer.CredentialFailure
open Codec OrderedMap Sealing Transition CredentialStore
open CredentialOwner
set_option linter.unusedSimpArgs false

/-! ## What can be seen of a store -/

/-- Another process on the same file. -/
def fresh (world : World) : World := { world with store := {} }

def locked (world : World) : World := { world with store := lock world.store }

/-- `Unlock` with this password opens the store. -/
def Admits (world : World) (password : QString) : Prop := (unlock world password {}).1 = .ok

/-- `TryUnlock` opens the store, once it is locked. -/
def PlatformAdmits (world : World) : Prop := (try_unlock (locked world) {}).1 = true

structure Unchanged (before after : World) : Prop where
  unlocked : after.store.IsUnlocked = before.store.IsUnlocked
  entries : after.store.entries = before.store.entries
  file : after.file = before.file
  passwords : ∀ password, Admits after password ↔ Admits before password
  fresh_passwords : ∀ password, Admits (fresh after) password ↔ Admits (fresh before) password
  platform : PlatformAdmits after ↔ PlatformAdmits before
  fresh_platform : PlatformAdmits (fresh after) ↔ PlatformAdmits (fresh before)

theorem Unchanged.refl (world : World) : Unchanged world world := by
  constructor <;> intros <;> rfl

/-- What a process opens: what it read of the file, or will read. -/
def image (world : World) (file : Header) : Header := if world.store.loaded then world.store.header else file

variable {world : World} {password : QString} {master : Nat} {file : Header} {chance : Chance}

theorem admits_iff : Admits world password ↔ ∃ file, world.file = some file ∧
    ∃ master plain, unwrap (image world file) password = some master ∧ decrypt_body (image world file) master = some plain := by
  cases file : world.file with
  | none => simp [Admits, unlock, file]
  | some header =>
    by_cases loaded : world.store.loaded = true
    · cases opened : unwrap world.store.header password with
      | none => simp [Admits, unlock, file, load, image, loaded, opened]
      | some master => cases plain : decrypt_body world.store.header master <;>
          simp [Admits, unlock, file, load, image, loaded, opened, plain]
    · cases opened : unwrap header password with
      | none => simp [Admits, unlock, file, load, image, loaded, opened]
      | some master => cases plain : decrypt_body header master <;>
          simp [Admits, unlock, file, load, image, loaded, opened, plain]

theorem platformAdmits_iff : PlatformAdmits world ↔ ∃ file, world.file = some file ∧
    ∃ wrapped plain, (image world file).platformWrapped = some wrapped ∧ wrapped.handle ∉ world.forgotten ∧
      decrypt_body (image world file) wrapped.secret = some plain := by
  cases file : world.file with
  | none => simp [PlatformAdmits, try_unlock, locked, lock, Store.IsUnlocked, file]
  | some header =>
    by_cases loaded : world.store.loaded = true
    · cases wrapping : world.store.header.platformWrapped with
      | none => simp [PlatformAdmits, try_unlock, locked, lock, Store.IsUnlocked, file, load, image, loaded, wrapping]
      | some wrapped =>
        by_cases known : wrapped.handle ∈ world.forgotten
        · simp [PlatformAdmits, try_unlock, locked, lock, Store.IsUnlocked, file, load, image, loaded, wrapping, platform_unwrap, known]
        · cases plain : decrypt_body world.store.header wrapped.secret <;>
            simp [PlatformAdmits, try_unlock, locked, lock, Store.IsUnlocked, file, load, image, loaded, wrapping, platform_unwrap,
              known, plain]
    · cases wrapping : header.platformWrapped with
      | none => simp [PlatformAdmits, try_unlock, locked, lock, Store.IsUnlocked, file, load, image, loaded, wrapping]
      | some wrapped =>
        by_cases known : wrapped.handle ∈ world.forgotten
        · simp [PlatformAdmits, try_unlock, locked, lock, Store.IsUnlocked, file, load, image, loaded, wrapping, platform_unwrap, known]
        · cases plain : decrypt_body header wrapped.secret <;>
            simp [PlatformAdmits, try_unlock, locked, lock, Store.IsUnlocked, file, load, image, loaded, wrapping, platform_unwrap,
              known, plain]

/-! ## Headers in order -/

/-- The password and the platform both keep the key of the entries. -/
structure Whole (header : Header) (password : QString) (master : Nat) : Prop where
  wrapped : WrappedFor header password master
  body : ∃ plain, header.body = some ⟨.master master, header.bodyNonce, .body, plain⟩
  platform : ∀ wrapped, header.platformWrapped = some wrapped → wrapped.secret = master

/-- The platform has the key that the header refers to. -/
def Live (header : Header) (forgotten : List Nat) : Prop :=
  ∃ wrapped, header.platformWrapped = some wrapped ∧ wrapped.handle ∉ forgotten

theorem Whole.opened {header : Header} {password : QString} {master : Nat} (whole : Whole header password master) :
    ∃ plain, decrypt_body header master = some plain := by
  obtain ⟨plain, body⟩ := whole.body
  exact ⟨plain, by simp [decrypt_body, body]⟩

variable {secret : Nat} {creation : Creation}

theorem unwrap_iff {header : Header} {other : QString} (belongs : WrappedFor header password master) :
    unwrap header other = some secret ↔ other = password ∧ secret = master := by
  obtain ⟨nonce, wrapped⟩ := belongs
  simp only [unwrap, wrapped, Option.bind_some, decrypt_eq_some, Sealed.mk.injEq, Key.derived.injEq, true_and, and_true]
  exact and_congr eq_comm eq_comm

theorem Whole.unwrap_iff {header : Header} {other : QString} (whole : Whole header password master) :
    unwrap header other = some secret ↔ other = password ∧ secret = master := CredentialFailure.unwrap_iff whole.wrapped

theorem Whole.admits {other : QString} (whole : Whole (image world file) password master)
    (present : world.file = some file) : Admits world other ↔ other = password := by
  rw [admits_iff]
  constructor
  · rintro ⟨header, same, secret, plain, opened, -⟩
    rw [present] at same
    cases same
    exact (whole.unwrap_iff.mp opened).1
  · rintro rfl
    obtain ⟨plain, opened⟩ := whole.opened
    exact ⟨file, present, master, plain, whole.unwrap_iff.mpr ⟨rfl, rfl⟩, opened⟩

theorem Whole.platformAdmits (whole : Whole (image world file) password master) (present : world.file = some file) :
    PlatformAdmits world ↔ Live (image world file) world.forgotten := by
  rw [platformAdmits_iff]
  constructor
  · rintro ⟨header, same, wrapped, plain, wrapping, live, -⟩
    rw [present] at same
    cases same
    exact ⟨wrapped, wrapping, live⟩
  · rintro ⟨wrapped, wrapping, live⟩
    obtain ⟨plain, opened⟩ := whole.opened
    rw [← whole.platform wrapped wrapping] at opened
    exact ⟨file, present, wrapped, plain, wrapping, live, opened⟩

theorem unchanged_iff_live (before after : World) (present : before.file = some file)
    (presentAfter : after.file = some file) (whole : Whole file password master) (loaded : before.store.loaded = true)
    (loadedAfter : after.store.loaded = true) (memory : Whole before.store.header password master)
    (memoryAfter : Whole after.store.header password master)
    (unlocked : after.store.IsUnlocked = before.store.IsUnlocked) (entries : after.store.entries = before.store.entries)
    :
    Unchanged before after ↔ (Live after.store.header after.forgotten ↔ Live before.store.header before.forgotten) ∧
      (Live file after.forgotten ↔ Live file before.forgotten) := by
  have seen : image before file = before.store.header := by simp [image, loaded]
  have seenAfter : image after file = after.store.header := by simp [image, loadedAfter]
  have wholeSeen : Whole (image before file) password master := by rwa [seen]
  have wholeSeenAfter : Whole (image after file) password master := by rwa [seenAfter]
  have wholeFresh : Whole (image (fresh before) file) password master := whole
  have wholeFreshAfter : Whole (image (fresh after) file) password master := whole
  constructor
  · intro unchanged
    have platform := unchanged.platform
    have freshPlatform := unchanged.fresh_platform
    rw [wholeSeenAfter.platformAdmits presentAfter, wholeSeen.platformAdmits present, seen, seenAfter] at platform
    rw [wholeFreshAfter.platformAdmits presentAfter, wholeFresh.platformAdmits present] at freshPlatform
    exact ⟨platform, freshPlatform⟩
  · rintro ⟨platform, freshPlatform⟩
    refine ⟨unlocked, entries, by rw [present, presentAfter], ?_, ?_, ?_, ?_⟩
    · intro other
      rw [wholeSeenAfter.admits presentAfter, wholeSeen.admits present]
    · intro other
      rw [wholeFreshAfter.admits presentAfter, wholeFresh.admits present]
    · rw [wholeSeenAfter.platformAdmits presentAfter, wholeSeen.platformAdmits present, seen, seenAfter]
      exact platform
    · rw [wholeFreshAfter.platformAdmits presentAfter, wholeFresh.platformAdmits present]
      exact freshPlatform

/-! ## What calls without a visible failure keep -/

/-- Two headers refer to the same secret of a keyring, or both to none that is there. -/
def Alike (world : World) (header file : Header) : Prop :=
  world.keyring = true → header.platformWrapped = file.platformWrapped ∨
    ¬ Live header world.forgotten ∧ ¬ Live file world.forgotten

/-- The file is in order for its owner, and so is what the process read of it. -/
structure Synced (world : World) : Prop where
  bytes : world.keyring = false → world.forgotten = []
  absent : world.file = none → world.store.loaded = false ∧ world.store.master = none
  held : world.store.master ≠ none → world.store.loaded = true
  present : ∀ file, world.file = some file → ∃ password master, world.owner = some password ∧ Whole file password master ∧
    (world.store.loaded = true → Whole world.store.header password master ∧ Alike world world.store.header file) ∧
    ∀ secret, world.store.master = some secret → secret = master

theorem Synced.loaded (synced : Synced world) (loaded : world.store.loaded = true) :
    ∃ file password master, world.file = some file ∧ world.owner = some password ∧ Whole file password master ∧
      Whole world.store.header password master ∧ Alike world world.store.header file ∧
      ∀ secret, world.store.master = some secret → secret = master := by
  cases present : world.file with
  | none =>
    rw [(synced.absent present).1] at loaded
    cases loaded
  | some file =>
    obtain ⟨password, master, owner, whole, memory, held⟩ := synced.present file present
    exact ⟨file, password, master, rfl, owner, whole, (memory loaded).1, (memory loaded).2, held⟩

theorem Synced.unlocked (synced : Synced world) (unlocked : world.store.master = some secret) :
    world.store.loaded = true ∧ ∃ file password, world.file = some file ∧ world.owner = some password ∧
      Whole file password secret ∧ Whole world.store.header password secret ∧ Alike world world.store.header file := by
  have loaded : world.store.loaded = true := synced.held (by simp [unlocked])
  obtain ⟨file, password, master, present, owner, whole, memory, wrappings, held⟩ := synced.loaded loaded
  obtain rfl := held secret unlocked
  exact ⟨loaded, file, password, present, owner, whole, memory, wrappings⟩

theorem Synced.replaced (synced : Synced world) {header : Header} (entries : Entries)
    (unlocked : world.store.master = some secret) (present : world.file = some file)
    (owner : world.owner = some password) (memory : Whole header password secret) (wrappings : Alike world header file) :
    Synced { world with store := { world.store with header := header, entries := entries } } where
  bytes := synced.bytes
  absent := synced.absent
  held := synced.held
  present other same := by
    obtain ⟨owned, master, owner', whole, -, held⟩ := synced.present other same
    rw [present] at same
    cases same
    rw [owner] at owner'
    cases owner'
    obtain rfl := held secret unlocked
    exact ⟨password, secret, owner, whole, fun _ => ⟨memory, wrappings⟩, held⟩

/-! ### Saving -/

/-- The memory after a save that did not reach the disk. -/
def unsaved (world : World) (master : Nat) (chance : Chance) : World :=
  { world with store := { world.store with header := sealing world.store.header master world.store.entries chance } }

theorem save_failed (failed : (save world chance).1 ≠ .ok) (unlocked : world.store.master = some master) :
    (save world chance).2 = unsaved world master chance ∧ (chance.encrypt = false ∨ chance.encrypt = true ∧ chance.write = false) := by
  by_cases encrypted : chance.encrypt = true
  · by_cases written : chance.write = true
    · exact absurd (by rw [save_works unlocked encrypted written]) failed
    · exact ⟨by simp [save, unsaved, unlocked, encrypted, written], .inr ⟨encrypted, by simpa using written⟩⟩
  · exact ⟨by simp [save, unsaved, unlocked, encrypted], .inl (by simpa using encrypted)⟩

theorem whole_sealing {header : Header} (entries : Entries) (encrypted : chance.encrypt = true)
    (wrapped : WrappedFor header password master)
    (platform : ∀ wrapped, header.platformWrapped = some wrapped → wrapped.secret = master) :
    Whole (sealing header master entries chance) password master where
  wrapped := wrapped
  body := ⟨encode_entries entries, by simp [sealing, encrypted]⟩
  platform := platform

theorem synced_save (bytes : world.keyring = false → world.forgotten = []) (unlocked : world.store.master = some master)
    (owner : world.owner = some password) (wrapped : WrappedFor world.store.header password master)
    (platform : ∀ wrapped, world.store.header.platformWrapped = some wrapped → wrapped.secret = master)
    (encrypted : chance.encrypt = true) (written : chance.write = true) : Synced (save world chance).2 := by
  rw [save_works unlocked encrypted written]
  have whole := whole_sealing world.store.entries encrypted wrapped platform
  refine ⟨bytes, ?_, fun _ => rfl, ?_⟩
  · intro absent
    cases absent
  · intro file present
    cases present
    refine ⟨password, master, owner, whole, fun _ => ⟨whole, fun _ => .inl rfl⟩, ?_⟩
    intro secret same
    rw [unlocked] at same
    cases same
    rfl

theorem Synced.save (synced : Synced world) (encrypts : world.store.master ≠ none → chance.encrypt = true) :
    Synced (save world chance).2 := by
  cases unlocked : world.store.master with
  | none =>
    simp only [CredentialStore.save, unlocked]
    exact synced
  | some master =>
    have encrypted : chance.encrypt = true := encrypts (by simp [unlocked])
    obtain ⟨loaded, file, password, present, owner, whole, memory, wrappings⟩ := synced.unlocked unlocked
    by_cases written : chance.write = true
    · exact synced_save synced.bytes unlocked owner memory.wrapped memory.platform encrypted written
    · have failed : (CredentialStore.save world chance).1 ≠ .ok := by
        simp [CredentialStore.save, unlocked, encrypted, written]
      rw [(save_failed failed unlocked).1]
      exact synced.replaced _ unlocked present owner (whole_sealing _ encrypted memory.wrapped memory.platform) wrappings

theorem changed_of_shut {before after : World} (synced : Synced before) (unlocked : before.store.master = some master)
    (owner : before.owner = some password) (loaded : after.store.loaded = true)
    (shut : ∀ secret, unwrap after.store.header password = some secret → decrypt_body after.store.header secret = none)
    : ¬ Unchanged before after := by
  intro unchanged
  obtain ⟨loadedBefore, file, other, present, owned, -, memory, -⟩ := synced.unlocked unlocked
  rw [owner] at owned
  cases owned
  have seen : Whole (image before file) password master := by simpa [image, loadedBefore] using memory
  have admits : Admits after password := (unchanged.passwords password).mpr ((seen.admits present).mpr rfl)
  obtain ⟨header, -, secret, plain, opened, body⟩ := admits_iff.mp admits
  simp only [image, loaded, if_true] at opened body
  rw [shut secret opened] at body
  cases body

theorem changed_unsealed {before after : World} {header : Header} {entries : Entries} (synced : Synced before)
    (unlocked : before.store.master = some master) (loaded : after.store.loaded = true)
    (failed : chance.encrypt = false) (sealed : after.store.header = sealing header master entries chance) :
    ¬ Unchanged before after := by
  obtain ⟨-, file, password, -, owner, -, -, -⟩ := synced.unlocked unlocked
  apply changed_of_shut synced unlocked owner loaded
  intro secret _
  simp [sealed, decrypt_body, sealing, failed]

theorem unchanged_unsaved {header : Header} {entries : Entries} (synced : Synced world)
    (unlocked : world.store.master = some master) (owner : world.owner = some password)
    (encrypted : chance.encrypt = true) (wrapped : WrappedFor header password master)
    (platform : header.platformWrapped = world.store.header.platformWrapped) :
    Unchanged world (unsaved { world with store := { world.store with header := header, entries := entries } } master chance) ↔
      entries = world.store.entries := by
  obtain ⟨loaded, file, other, present, owned, whole, memory, -⟩ := synced.unlocked unlocked
  rw [owner] at owned
  cases owned
  have platformKept : ∀ wrapped, header.platformWrapped = some wrapped → wrapped.secret = master := by
    rw [platform]
    exact memory.platform
  constructor
  · intro unchanged
    exact unchanged.entries
  · intro same
    have memoryAfter := whole_sealing entries encrypted wrapped platformKept
    rw [unchanged_iff_live world
      (unsaved { world with store := { world.store with header := header, entries := entries } } master chance)
      present present whole loaded loaded memory memoryAfter rfl same]
    simp [Live, unsaved, sealing, platform]

/-! ### One call -/

theorem set_unchanged (synced : Synced world) {target : QString} {cred : SCredentials}
    (failed : (CredentialStore.set world target cred chance).1 ≠ .ok) :
    Unchanged world (CredentialStore.set world target cred chance).2 ↔ (world.store.master ≠ none →
      chance.encrypt = true ∧ (chance.write = true ∨ world.store.entries.get target = some cred)) := by
  cases unlocked : world.store.master with
  | none => simpa [CredentialStore.set, Store.IsUnlocked, unlocked] using Unchanged.refl world
  | some master =>
    have is_unlocked : world.store.IsUnlocked = true := by simp [Store.IsUnlocked, unlocked]
    simp only [CredentialStore.set, is_unlocked, if_true] at failed ⊢
    obtain ⟨loaded, file, password, -, owner, -, memory, -⟩ := synced.unlocked unlocked
    obtain ⟨later, encrypted | ⟨encrypted, written⟩⟩ := save_failed failed unlocked
    · rw [later]
      simp only [encrypted, Bool.false_eq_true, false_and, ne_eq, reduceCtorEq, not_false_eq_true, forall_const, iff_false]
      exact changed_unsealed synced unlocked loaded encrypted rfl
    · rw [later]
      have seen : Unchanged world _ ↔ world.store.entries.insert target cred = world.store.entries :=
        unchanged_unsaved synced unlocked owner encrypted memory.wrapped rfl
      refine seen.trans ⟨?_, ?_⟩
      · intro same _
        refine ⟨encrypted, .inr ?_⟩
        rw [← same, OrdMap.get_insert, if_pos rfl]
      · intro works
        obtain ⟨-, impossible | there⟩ := works (by simp)
        · rw [written] at impossible
          cases impossible
        · exact insert_same there

theorem Synced.set (synced : Synced world) {target : QString} {cred : SCredentials}
    (works : world.store.master ≠ none → chance.encrypt = true ∧ (chance.write = true ∨ world.store.entries.get target = some cred))
    : Synced (CredentialStore.set world target cred chance).2 := by
  cases unlocked : world.store.master with
  | none => simpa [CredentialStore.set, Store.IsUnlocked, unlocked] using synced
  | some master =>
    have is_unlocked : world.store.IsUnlocked = true := by simp [Store.IsUnlocked, unlocked]
    simp only [CredentialStore.set, is_unlocked, if_true]
    obtain ⟨-, file, password, present, owner, -, memory, wrappings⟩ := synced.unlocked unlocked
    apply (synced.replaced _ unlocked present owner memory wrappings).save
    intro _
    exact (works (by simp [unlocked])).1

theorem remove_unchanged (synced : Synced world) {target : QString} (failed : (remove world target chance).1 ≠ .ok) :
    Unchanged world (remove world target chance).2 ↔
      (world.store.master ≠ none → world.store.entries.get target ≠ none → Chance.Saves chance) := by
  cases unlocked : world.store.master with
  | none => simpa [remove, Store.IsUnlocked, unlocked] using Unchanged.refl world
  | some master =>
    have is_unlocked : world.store.IsUnlocked = true := by simp [Store.IsUnlocked, unlocked]
    simp only [remove, is_unlocked, if_true] at failed ⊢
    split at failed
    · exact absurd rfl failed
    · rename_i there
      obtain ⟨loaded, file, password, -, owner, -, memory, -⟩ := synced.unlocked unlocked
      obtain ⟨later, broken⟩ := save_failed failed unlocked
      have changed : ¬ Unchanged world (unsaved { world with store :=
          { world.store with entries := world.store.entries.erase target } } master chance) := by
        intro unchanged
        have same : world.store.entries.erase target = world.store.entries := unchanged.entries
        rw [← same, OrdMap.get_erase, if_pos rfl] at there
        exact there rfl
      rw [if_neg there, later]
      refine iff_of_false changed ?_
      intro works
      obtain ⟨encrypted, written⟩ := works (by simp) (by simpa using there)
      rcases broken with unencrypted | ⟨-, unwritten⟩
      · rw [encrypted] at unencrypted
        cases unencrypted
      · rw [written] at unwritten
        cases unwritten

theorem Synced.remove (synced : Synced world) {target : QString}
    (works : world.store.master ≠ none → world.store.entries.get target ≠ none → Chance.Saves chance) :
    Synced (remove world target chance).2 := by
  cases unlocked : world.store.master with
  | none => simpa [CredentialStore.remove, Store.IsUnlocked, unlocked] using synced
  | some master =>
    have is_unlocked : world.store.IsUnlocked = true := by simp [Store.IsUnlocked, unlocked]
    simp only [CredentialStore.remove, is_unlocked, if_true]
    split
    · exact synced
    · rename_i there
      obtain ⟨-, file, password, present, owner, -, memory, wrappings⟩ := synced.unlocked unlocked
      apply (synced.replaced _ unlocked present owner memory wrappings).save
      intro _
      exact (works (by simp [unlocked]) (by simpa using there)).1

/-! ### Changing the password -/

def salted (header : Header) (chance : Chance) : Header :=
  { header with salt := some chance.salt, iterations := CRED_ITERATIONS }

def rewrapped (header : Header) (password : QString) (master : Nat) (chance : Chance) : Header :=
  { salted header chance with
    passwordWrapped := some ⟨.derived password (some chance.salt) CRED_ITERATIONS, some chance.nonce,
      .wrap (some chance.salt) CRED_ITERATIONS, master⟩ }

theorem wrappedFor_rewrapped (header : Header) (password : QString) (master : Nat) (chance : Chance) :
    WrappedFor (rewrapped header password master chance) password master := ⟨some chance.nonce, rfl⟩

theorem change_password_unwrapped (unlocked : world.store.master = some master)
    (unwrapped : ¬ (chance.derive = true ∧ chance.wrap = true)) :
    (change_password world password chance).1 ≠ .ok ∧ (change_password world password chance).2 =
      { world with store := { world.store with header := salted world.store.header chance } } := by
  by_cases derived : chance.derive = true
  · have unsealed : chance.wrap = false := by simpa [derived] using unwrapped
    simp [change_password, unlocked, derived, unsealed, salted]
  · simp [change_password, unlocked, derived, salted]

theorem change_password_failed (failed : (change_password world password chance).1 ≠ .ok)
    (unlocked : world.store.master = some master) (derived : chance.derive = true) (wrapped : chance.wrap = true) :
    (change_password world password chance).2 =
      unsaved { world with store := { world.store with header := rewrapped world.store.header password master chance } } master chance ∧
      (chance.encrypt = false ∨ chance.encrypt = true ∧ chance.write = false) := by
  by_cases encrypted : chance.encrypt = true
  · by_cases written : chance.write = true
    · simp [change_password, save, unlocked, derived, wrapped, encrypted, written] at failed
    · refine ⟨?_, .inr ⟨encrypted, by simpa using written⟩⟩
      simp [change_password, save, unlocked, derived, wrapped, encrypted, written, rewrapped, salted, unsaved]
  · refine ⟨?_, .inl (by simpa using encrypted)⟩
    simp [change_password, save, unlocked, derived, wrapped, encrypted, rewrapped, salted, unsaved]

theorem unwrap_other {header after : Header} (wrapped : WrappedFor header password master)
    (same : after.passwordWrapped = header.passwordWrapped)
    (other : ¬ (after.salt = header.salt ∧ after.iterations = header.iterations)) : unwrap after password = none := by
  obtain ⟨nonce, box⟩ := wrapped
  rw [Option.eq_none_iff_forall_ne_some]
  intro secret opened
  rw [unwrap, same, box, Option.bind_some, decrypt_eq_some] at opened
  simp only [Sealed.mk.injEq, Key.derived.injEq, true_and] at opened
  exact other ⟨opened.1.1.symm, opened.1.2.symm⟩

theorem change_password_unchanged (synced : Synced world) (failed : (change_password world password chance).1 ≠ .ok) :
    Unchanged world (change_password world password chance).2 ↔ (world.store.master ≠ none →
      if chance.derive = true ∧ chance.wrap = true then
        chance.encrypt = true ∧ (chance.write = true ∨ world.owner = some password)
      else world.store.header.salt = some chance.salt ∧ world.store.header.iterations = CRED_ITERATIONS) := by
  cases unlocked : world.store.master with
  | none => simpa [change_password, unlocked] using Unchanged.refl world
  | some master =>
    obtain ⟨loaded, file, owned, -, owner, -, memory, -⟩ := synced.unlocked unlocked
    simp only [ne_eq, reduceCtorEq, not_false_eq_true, forall_const]
    split
    · rename_i wraps
      obtain ⟨later, unencrypted | ⟨encrypted, unwritten⟩⟩ := change_password_failed failed unlocked wraps.1 wraps.2
      · rw [later]
        refine iff_of_false (changed_unsealed synced unlocked loaded unencrypted rfl) ?_
        simp [unencrypted]
      · rw [later]
        simp only [encrypted, unwritten, Bool.false_eq_true, false_or, true_and]
        have belongs := wrappedFor_rewrapped world.store.header password master chance
        constructor
        · intro unchanged
          by_contra different
          refine changed_of_shut synced unlocked owner ?_ ?_ unchanged
          · exact loaded
          · intro secret opened
            have whole := whole_sealing world.store.entries encrypted belongs memory.platform
            exact absurd (by rw [owner, (whole.unwrap_iff.mp opened).1]) different
        · intro owner
          exact (unchanged_unsaved synced unlocked owner encrypted belongs rfl).mpr rfl
    · rename_i unwraps
      rw [(change_password_unwrapped unlocked unwraps).2]
      constructor
      · intro unchanged
        by_contra different
        refine changed_of_shut synced unlocked owner ?_ ?_ unchanged
        · exact loaded
        · intro secret opened
          have nothing : unwrap (salted world.store.header chance) owned = none := by
            refine unwrap_other memory.wrapped ?_ ?_
            · rfl
            · rintro ⟨salt, iterations⟩
              exact different ⟨salt.symm, iterations.symm⟩
          cases nothing.symm.trans opened
      · rintro ⟨salt, iterations⟩
        have same : salted world.store.header chance = world.store.header := by
          rw [salted, ← salt, ← iterations]
        rw [same]
        exact Unchanged.refl world

theorem synced_change_password (world : World) (password : QString)
    (bytes : world.keyring = false → world.forgotten = []) (unlocked : world.store.master = some master)
    (platform : ∀ wrapped, world.store.header.platformWrapped = some wrapped → wrapped.secret = master)
    (derived : chance.derive = true) (wrapped : chance.wrap = true) (saves : Chance.Saves chance) :
    (change_password world password chance).1 = .ok ∧ Synced (change_password world password chance).2 ∧
      (change_password world password chance).2.store.master = some master := by
  simp only [change_password, unlocked, derived, wrapped, if_true]
  rw [save_works rfl saves.1 saves.2]
  refine ⟨rfl, ?_, rfl⟩
  have whole := whole_sealing world.store.entries saves.1 (wrappedFor_rewrapped world.store.header password master chance) platform
  refine ⟨bytes, ?_, fun _ => rfl, ?_⟩
  · intro absent
    cases absent
  · intro file present
    cases present
    refine ⟨password, master, rfl, whole, fun _ => ⟨whole, fun _ => .inl rfl⟩, ?_⟩
    intro secret same
    cases same
    rfl

theorem Synced.change_password (synced : Synced world)
    (works : world.store.master ≠ none → if chance.derive = true ∧ chance.wrap = true then chance.encrypt = true ∧ (chance.write = true ∨ world.owner = some password) else world.store.header.salt = some chance.salt ∧ world.store.header.iterations = CRED_ITERATIONS)
    : Synced (change_password world password chance).2 := by
  cases unlocked : world.store.master with
  | none => simpa [CredentialStore.change_password, unlocked] using synced
  | some master =>
    have works := works (by simp [unlocked])
    obtain ⟨loaded, file, owned, present, owner, -, memory, wrappings⟩ := synced.unlocked unlocked
    split at works
    · rename_i wraps
      obtain ⟨encrypted, ends⟩ := works
      by_cases written : chance.write = true
      · exact (synced_change_password world password synced.bytes unlocked memory.platform wraps.1 wraps.2 ⟨encrypted, written⟩).2.1
      · have owner : world.owner = some password := ends.resolve_left written
        have failed : (CredentialStore.change_password world password chance).1 ≠ .ok := by
          simp [CredentialStore.change_password, CredentialStore.save, unlocked, wraps.1, wraps.2, encrypted, written]
        rw [(change_password_failed failed unlocked wraps.1 wraps.2).1]
        have belongs := wrappedFor_rewrapped world.store.header password master chance
        exact synced.replaced _ unlocked present owner (whole_sealing _ encrypted belongs memory.platform) wrappings
    · rename_i unwraps
      rw [(change_password_unwrapped unlocked unwraps).2]
      have same : salted world.store.header chance = world.store.header := by
        rw [salted, ← works.1, ← works.2]
      rw [same]
      exact synced

/-! ### The platform's wrapping -/

/-- What the platform has forgotten after the wrapping in memory was given up. -/
def forgetting (world : World) : List Nat :=
  match world.store.header.platformWrapped with
  | none => world.forgotten
  | some wrapped => if world.keyring then wrapped.handle :: world.forgotten else world.forgotten

theorem platform_forget_eq (world : World) : platform_forget world = { world with forgotten := forgetting world } := by
  cases wrapping : world.store.header.platformWrapped with
  | none => simp [platform_forget, forgetting, wrapping]
  | some wrapped =>
    by_cases keyring : world.keyring = true
    · simp only [platform_forget, forgetting, wrapping, if_pos keyring]
    · simp only [platform_forget, forgetting, wrapping, if_neg keyring]

theorem Synced.forgets_nothing (synced : Synced world) (keyring : world.keyring = false) : forgetting world = [] := by
  cases wrapping : world.store.header.platformWrapped with
  | none => simp [forgetting, wrapping, synced.bytes keyring]
  | some wrapped => simp [forgetting, wrapping, keyring, synced.bytes keyring]

theorem forgetting_dead (dead : ¬ Live world.store.header world.forgotten) (handle : Nat) :
    handle ∈ forgetting world ↔ handle ∈ world.forgotten := by
  unfold forgetting
  split
  · rfl
  · rename_i wrapped wrapping
    have gone : wrapped.handle ∈ world.forgotten := by
      by_contra live
      exact dead ⟨wrapped, wrapping, live⟩
    split
    · simp only [List.mem_cons, or_iff_right_iff_imp]
      rintro rfl
      exact gone
    · rfl

theorem live_forgetting_dead (dead : ¬ Live world.store.header world.forgotten) (header : Header) :
    Live header (forgetting world) ↔ Live header world.forgotten := by
  simp only [Live, forgetting_dead dead]

theorem not_live_none {header : Header} {forgotten : List Nat} (none_ : header.platformWrapped = none) : ¬ Live header forgotten := by
  rintro ⟨wrapped, wrapping, -⟩
  rw [none_] at wrapping
  cases wrapping

theorem unchanged_given_up (synced : Synced world) (loaded : world.store.loaded = true) {header : Header}
    (owner : world.owner = some password) (memory : Whole header password master)
    (before : Whole world.store.header password master) (given : header.platformWrapped = none) :
    Unchanged world { world with
      store := { world.store with header := header }
      forgotten := forgetting world } ↔ ¬ Live world.store.header world.forgotten := by
  obtain ⟨file, other, secret, present, owned, whole, memoryBefore, -, -⟩ := synced.loaded loaded
  rw [owner] at owned
  cases owned
  have same : secret = master := by
    have opened := memoryBefore.unwrap_iff.mpr ⟨rfl, rfl⟩
    exact (before.unwrap_iff.mp opened).2
  subst same
  rw [unchanged_iff_live world { world with
    store := { world.store with header := header }
    forgotten := forgetting world } present present whole loaded loaded before memory rfl rfl]
  constructor
  · rintro ⟨platform, -⟩ live
    exact not_live_none given (platform.mpr live)
  · intro dead
    refine ⟨?_, live_forgetting_dead dead file⟩
    exact iff_of_false (not_live_none given) dead

/-- `SetPlatformUnlock(false)` on a process that has read the file. -/
theorem turn_off_unchanged (synced : Synced world) (failed : (set_platform_unlock world false chance).1 ≠ .ok) :
    Unchanged world (set_platform_unlock world false chance).2 ↔ (world.store.loaded = true →
      if world.store.master = none then ¬ Live world.store.header world.forgotten
      else chance.encrypt = true ∧ (chance.write = true ∨ ¬ Live world.store.header world.forgotten)) := by
  have forgot := platform_forget_eq world
  simp only [set_platform_unlock, Bool.false_eq_true, if_false, forgot, setWrapped] at failed ⊢
  by_cases loaded : world.store.loaded = true
  · simp only [loaded, if_true, forall_const] at failed ⊢
    obtain ⟨file, password, master, present, owner, whole, memory, -, held⟩ := synced.loaded loaded
    cases unlocked : world.store.master with
    | none =>
      simp only [save, unlocked, if_true]
      have memoryAfter : Whole { world.store.header with platformWrapped := none } password master :=
        ⟨memory.wrapped, memory.body, fun _ impossible => by cases impossible⟩
      simpa only [loaded, unlocked] using unchanged_given_up synced loaded owner memoryAfter memory rfl
    | some secret =>
      obtain rfl := held secret unlocked
      simp only [unlocked, reduceCtorEq, if_false] at failed ⊢
      obtain ⟨later, unencrypted | ⟨encrypted, unwritten⟩⟩ := save_failed failed rfl
      · rw [later]
        refine iff_of_false (changed_unsealed synced unlocked rfl unencrypted rfl) ?_
        simp [unencrypted]
      · rw [later]
        simp only [encrypted, unwritten, Bool.false_eq_true, false_or, true_and]
        have memoryAfter := whole_sealing world.store.entries encrypted
          (show WrappedFor { world.store.header with platformWrapped := none } password secret from memory.wrapped)
          (fun _ impossible => by cases impossible)
        simpa only [unsaved, loaded, unlocked] using unchanged_given_up synced loaded owner memoryAfter memory rfl
  · simp [loaded] at failed

theorem Synced.given_up (synced : Synced world) (loaded : world.store.loaded = true)
    (dead : ¬ Live world.store.header world.forgotten) : Synced { world with
      store := { world.store with header := { world.store.header with platformWrapped := none } }
      forgotten := forgetting world } where
  bytes := synced.forgets_nothing
  absent := synced.absent
  held := synced.held
  present file present := by
    obtain ⟨password, master, owner, whole, memory, held⟩ := synced.present file present
    obtain ⟨memory, alike⟩ := memory loaded
    refine ⟨password, master, owner, whole, ?_, held⟩
    intro _
    refine ⟨⟨memory.wrapped, memory.body, fun _ impossible => by cases impossible⟩, ?_⟩
    intro keyring
    refine .inr ⟨not_live_none rfl, ?_⟩
    have gone : ¬ Live file world.forgotten := by
      rcases alike keyring with same | ⟨-, gone⟩
      · rintro ⟨wrapped, wrapping, live⟩
        exact dead ⟨wrapped, same.trans wrapping, live⟩
      · exact gone
    simpa only [live_forgetting_dead dead] using gone

theorem Synced.turn_off (synced : Synced world)
    (works : world.store.loaded = true → if world.store.master = none then ¬ Live world.store.header world.forgotten else chance.encrypt = true ∧ (chance.write = true ∨ ¬ Live world.store.header world.forgotten))
    : Synced (set_platform_unlock world false chance).2 := by
  have forgot := platform_forget_eq world
  simp only [set_platform_unlock, Bool.false_eq_true, if_false, forgot, setWrapped]
  by_cases loaded : world.store.loaded = true
  · have works := works loaded
    rw [if_pos loaded]
    by_cases dead : ¬ Live world.store.header world.forgotten
    · apply (synced.given_up loaded dead).save
      intro open_
      rw [if_neg open_] at works
      exact works.1
    · cases unlocked : world.store.master with
      | none => exact absurd (by simpa [unlocked] using works) dead
      | some secret =>
        obtain ⟨-, file, password, -, owner, -, memory, -⟩ := synced.unlocked unlocked
        simp only [unlocked, reduceCtorEq, if_false, dead, or_false] at works
        refine synced_save ?_ rfl owner memory.wrapped ?_ works.1 works.2
        · exact synced.forgets_nothing
        · intro wrapped impossible
          cases impossible
  · rw [if_neg loaded]
    refine ⟨synced.forgets_nothing, synced.absent, synced.held, ?_⟩
    intro file present
    obtain ⟨password, master, owner, whole, -, held⟩ := synced.present file present
    exact ⟨password, master, owner, whole, fun impossible => absurd impossible loaded, held⟩

/-- The platform keeps the key under the handle that memory refers to, and to keep
    it anew does not let go of that. -/
def Rewraps (world : World) (handle : Nat) : Prop :=
  ∃ wrapped, world.store.header.platformWrapped = some wrapped ∧ wrapped.handle ∉ world.forgotten ∧
    (world.keyring = false ∨ wrapped.handle = handle)

/-- What the platform has forgotten after it was given the key again. -/
def relearnt (world : World) (handle : Nat) : List Nat := (forgetting world).filter (fun other => other ≠ handle)

theorem not_mem_relearnt (world : World) (handle : Nat) : handle ∉ relearnt world handle := by simp [relearnt]

theorem relearnt_bytes (synced : Synced world) (keyring : world.keyring = false) (handle : Nat) :
    relearnt world handle = [] := by
  simp [relearnt, synced.forgets_nothing keyring]

theorem rewraps_iff (synced : Synced world) (alike : Alike world world.store.header file) (handle : Nat) :
    Live world.store.header world.forgotten ∧ (Live file (relearnt world handle) ↔ Live file world.forgotten) ↔
      Rewraps world handle := by
  constructor
  · rintro ⟨⟨wrapped, wrapping, live⟩, kept⟩
    refine ⟨wrapped, wrapping, live, ?_⟩
    cases keyring : world.keyring with
    | false => exact .inl rfl
    | true =>
      have same : world.store.header.platformWrapped = file.platformWrapped := by
        rcases alike keyring with same | ⟨dead, -⟩
        · exact same
        · exact absurd ⟨wrapped, wrapping, live⟩ dead
      obtain ⟨other, there, still⟩ := kept.mpr ⟨wrapped, same.symm.trans wrapping, live⟩
      rw [← same, wrapping] at there
      cases there
      right
      simpa [relearnt, forgetting, wrapping, keyring] using still
  · rintro ⟨wrapped, wrapping, live, bytes | rfl⟩
    · rw [relearnt_bytes synced bytes, synced.bytes bytes]
      exact ⟨⟨wrapped, wrapping, by simp⟩, Iff.rfl⟩
    · refine ⟨⟨wrapped, wrapping, live⟩, ?_⟩
      cases keyring : world.keyring with
      | false => rw [relearnt_bytes synced keyring, synced.bytes keyring]
      | true =>
        have same : world.store.header.platformWrapped = file.platformWrapped := by
          rcases alike keyring with same | ⟨dead, -⟩
          · exact same
          · exact absurd ⟨wrapped, wrapping, live⟩ dead
        have there : file.platformWrapped = some wrapped := same.symm.trans wrapping
        exact iff_of_true ⟨wrapped, there, not_mem_relearnt world _⟩ ⟨wrapped, there, live⟩

/-- The memory that `SetPlatformUnlock(true)` saves. -/
def platformed (world : World) (master handle : Nat) : World :=
  { world with
    store := { world.store with header := { world.store.header with platformWrapped := some ⟨handle, master⟩ } }
    forgotten := relearnt world handle }

theorem turn_on_wrapped (unlocked : world.store.master = some master) (platform : chance.platform = true)
    (wraps : chance.platformWrap = true) :
    set_platform_unlock world true chance = save (platformed world master chance.handle) chance := by
  simp only [set_platform_unlock, unlocked, platform, wraps, if_true, platform_forget_eq, setWrapped, platformed, relearnt]

theorem turn_on_unwrapped (unlocked : world.store.master = some master) (platform : chance.platform = true)
    (unwraps : chance.platformWrap = false) :
    set_platform_unlock world true chance = (.noPlatformKey, { world with
      store := { world.store with header := { world.store.header with platformWrapped := none } }
      forgotten := forgetting world }) := by
  simp only [set_platform_unlock, unlocked, platform, unwraps, if_true, Bool.false_eq_true, if_false, platform_forget_eq, setWrapped]

theorem turn_on_unchanged (synced : Synced world) (failed : (set_platform_unlock world true chance).1 ≠ .ok) :
    Unchanged world (set_platform_unlock world true chance).2 ↔ (world.store.master ≠ none → chance.platform = true →
      if chance.platformWrap = true then chance.encrypt = true ∧ (chance.write = true ∨ Rewraps world chance.handle)
      else ¬ Live world.store.header world.forgotten) := by
  cases unlocked : world.store.master with
  | none => simpa [set_platform_unlock, unlocked] using Unchanged.refl world
  | some master =>
    by_cases platform : chance.platform = true
    · simp only [platform, ne_eq, reduceCtorEq, not_false_eq_true, forall_const]
      obtain ⟨loaded, file, password, present, owner, whole, memory, alike⟩ := synced.unlocked unlocked
      by_cases wraps : chance.platformWrap = true
      · rw [if_pos wraps]
        rw [turn_on_wrapped unlocked platform wraps] at failed ⊢
        obtain ⟨later, unencrypted | ⟨encrypted, unwritten⟩⟩ := save_failed failed unlocked
        · rw [later]
          refine iff_of_false (changed_unsealed synced unlocked loaded unencrypted rfl) ?_
          simp [unencrypted]
        · rw [later]
          simp only [encrypted, unwritten, Bool.false_eq_true, false_or, true_and]
          have memoryAfter : Whole (unsaved (platformed world master chance.handle) master chance).store.header password master := by
            refine whole_sealing world.store.entries encrypted memory.wrapped ?_
            intro wrapped same
            cases same
            rfl
          have live : Live (unsaved (platformed world master chance.handle) master chance).store.header (relearnt world chance.handle) :=
            ⟨⟨chance.handle, master⟩, rfl, not_mem_relearnt world chance.handle⟩
          rw [unchanged_iff_live world (unsaved (platformed world master chance.handle) master chance) present present whole
            loaded loaded memory memoryAfter rfl rfl, ← rewraps_iff synced alike]
          exact and_congr_left' (iff_true_left live)
      · rw [if_neg wraps, turn_on_unwrapped unlocked platform (by simpa using wraps)]
        have memoryAfter : Whole { world.store.header with platformWrapped := none } password master :=
          ⟨memory.wrapped, memory.body, fun _ impossible => by cases impossible⟩
        exact unchanged_given_up synced loaded owner memoryAfter memory rfl
    · simpa [set_platform_unlock, unlocked, platform] using Unchanged.refl world

theorem Synced.turn_on (synced : Synced world)
    (works : world.store.master ≠ none → chance.platform = true → if chance.platformWrap = true then chance.encrypt = true ∧ (chance.write = true ∨ Rewraps world chance.handle) else ¬ Live world.store.header world.forgotten)
    : Synced (set_platform_unlock world true chance).2 := by
  cases unlocked : world.store.master with
  | none => simpa [set_platform_unlock, unlocked] using synced
  | some master =>
    by_cases platform : chance.platform = true
    · have works := works (by simp [unlocked]) platform
      obtain ⟨loaded, file, password, present, owner, whole, memory, alike⟩ := synced.unlocked unlocked
      by_cases wraps : chance.platformWrap = true
      · rw [if_pos wraps] at works
        rw [turn_on_wrapped unlocked platform wraps]
        have secrets : ∀ wrapped, (platformed world master chance.handle).store.header.platformWrapped = some wrapped →
            wrapped.secret = master := by
          intro wrapped same
          cases same
          rfl
        have bytes : world.keyring = false → relearnt world chance.handle = [] := fun keyring => relearnt_bytes synced keyring _
        obtain ⟨encrypted, ends⟩ := works
        by_cases written : chance.write = true
        · exact synced_save bytes unlocked owner memory.wrapped secrets encrypted written
        · obtain ⟨wrapped, wrapping, live, rewraps⟩ := ends.resolve_left written
          have failed : (CredentialStore.save (platformed world master chance.handle) chance).1 ≠ .ok := by
            simp [CredentialStore.save, platformed, unlocked, encrypted, written]
          rw [(save_failed failed unlocked).1]
          refine ⟨bytes, synced.absent, synced.held, ?_⟩
          intro other there
          obtain rfl : file = other := Option.some.inj (present.symm.trans there)
          refine ⟨password, master, owner, whole, ?_, ?_⟩
          · intro _
            refine ⟨whole_sealing _ encrypted memory.wrapped secrets, ?_⟩
            intro keyring
            left
            rcases alike keyring with same | ⟨dead, -⟩
            · rcases rewraps with bytes | handle
              · rw [show world.keyring = true from keyring] at bytes
                cases bytes
              · rw [← same, wrapping, ← memory.platform wrapped wrapping, ← handle]
                rfl
            · exact absurd ⟨wrapped, wrapping, live⟩ dead
          · intro secret same
            rw [show world.store.master = some secret from same] at unlocked
            cases unlocked
            rfl
      · rw [if_neg wraps] at works
        rw [turn_on_unwrapped unlocked platform (by simpa using wraps)]
        exact synced.given_up loaded works
    · simpa [set_platform_unlock, unlocked, platform] using synced

/-! ### Creating -/

@[simp] theorem save_master (world : World) (chance : Chance) : (save world chance).2.store.master = world.store.master := by
  unfold save
  split
  · rfl
  · simp only
    split_ifs <;> rfl

@[simp] theorem change_password_master (world : World) (password : QString) (chance : Chance) :
    (change_password world password chance).2.store.master = world.store.master := by
  cases unlocked : world.store.master with
  | none => simp [change_password, unlocked]
  | some master =>
    by_cases wraps : chance.derive = true ∧ chance.wrap = true
    · cases encrypted : chance.encrypt <;> cases written : chance.write <;>
        simp [change_password, save, unlocked, wraps.1, wraps.2, encrypted, written]
    · rw [(change_password_unwrapped unlocked wraps).2]
      exact unlocked

@[simp] theorem turn_on_master (world : World) (chance : Chance) :
    (set_platform_unlock world true chance).2.store.master = world.store.master := by
  cases unlocked : world.store.master with
  | none => simp [set_platform_unlock, unlocked]
  | some master =>
    by_cases platform : chance.platform = true
    · by_cases wraps : chance.platformWrap = true
      · rw [turn_on_wrapped unlocked platform wraps, save_master]
        exact unlocked
      · rw [turn_on_unwrapped unlocked platform (by simpa using wraps)]
        exact unlocked
    · simp [set_platform_unlock, unlocked, platform]

/-- The memory of a new store, before its first save. -/
def blank (world : World) (creation : Creation) : World :=
  { world with store := {
      header := { world.store.header with
        salt := some creation.first.salt
        iterations := CRED_ITERATIONS
        platformWrapped := none }
      loaded := true
      master := some creation.master
      entries := .empty } }

/-- No step of the three saves fails. -/
def Creates (platformUnlock : Bool) (creation : Creation) : Prop :=
  creation.first.derive = true ∧ creation.first.wrap = true ∧ Chance.Saves creation.first ∧
    (platformUnlock = true → creation.second.platform = true ∧ creation.second.platformWrap = true ∧ Chance.Saves creation.second) ∧
    Chance.Saves creation.third

theorem create_master (password : QString) (platformUnlock : Bool) (possible : creation.first.why = none)
    (absent : world.file = none) :
    (create world password platformUnlock creation).2.store.master = some creation.master := by
  simp only [create, possible, absent, Option.isSome_none, Bool.false_eq_true, if_false]
  have first := change_password_master (blank world creation) password creation.first
  simp only [blank, absent] at first
  split
  · rename_i later changed
    rw [changed] at first
    split
    · have second := turn_on_master later creation.second
      split
      · rename_i last turned
        rw [turned] at second
        simpa using second.trans first
      · rename_i status last failed turned
        rw [turned] at second
        exact second.trans first
    · simpa using first
  · rename_i status later failed changed
    rw [changed] at first
    exact first

theorem create_works (synced : Synced world) (password : QString) (platformUnlock : Bool)
    (possible : creation.first.why = none) (absent : world.file = none) (works : Creates platformUnlock creation) :
    (create world password platformUnlock creation).1 = .ok ∧ Synced (create world password platformUnlock creation).2 := by
  obtain ⟨derived, wrapped, first, second, third⟩ := works
  obtain ⟨ok, keptFirst, open_⟩ := synced_change_password (blank world creation) password synced.bytes rfl
    (fun _ impossible => by cases impossible) derived wrapped first
  simp only [create, possible, absent, Option.isSome_none, Bool.false_eq_true, if_false]
  simp only [blank, absent] at ok keptFirst open_
  split
  · rename_i later changed
    rw [changed] at keptFirst open_
    split
    · rename_i wanted
      obtain ⟨platform, wraps, saves⟩ := second wanted
      have keptSecond : Synced (set_platform_unlock later true creation.second).2 := by
        apply keptFirst.turn_on
        intro _ _
        rw [if_pos wraps]
        exact ⟨saves.1, .inl saves.2⟩
      have turned : (set_platform_unlock later true creation.second).1 = .ok := by
        have platformed_ : (platformed later creation.master creation.second.handle).store.master = some creation.master := open_
        rw [turn_on_wrapped open_ platform wraps, save_works platformed_ saves.1 saves.2]
      have still : (set_platform_unlock later true creation.second).2.store.master = some creation.master := by
        rw [turn_on_master]
        exact open_
      split
      · rename_i last turning
        rw [turning] at keptSecond still
        exact ⟨by rw [save_works still third.1 third.2], keptSecond.save (fun _ => third.1)⟩
      · rename_i status last failed turning
        rw [turning] at turned
        exact absurd turned failed
    · exact ⟨by rw [save_works open_ third.1 third.2], keptFirst.save (fun _ => third.1)⟩
  · rename_i status later failed changed
    rw [changed] at ok
    exact absurd ok failed

theorem create_unchanged (synced : Synced world) {platformUnlock : Bool}
    (failed : (create world password platformUnlock creation).1 ≠ .ok) :
    Unchanged world (create world password platformUnlock creation).2 ↔
      (creation.first.why = none → world.file = none → Creates platformUnlock creation) := by
  cases possible : creation.first.why with
  | some why => simpa [create, possible] using Unchanged.refl world
  | none =>
    cases present : world.file with
    | some file => simpa [create, possible, present] using Unchanged.refl world
    | none =>
      simp only [forall_const]
      refine iff_of_false ?_ ?_
      · intro unchanged
        have unlocked := unchanged.unlocked
        simp [Store.IsUnlocked, create_master password platformUnlock possible present, (synced.absent present).2] at unlocked
      · intro works
        exact failed (create_works synced password platformUnlock possible present works).1

theorem Synced.create (synced : Synced world) {platformUnlock : Bool}
    (works : creation.first.why = none → world.file = none → Creates platformUnlock creation) :
    Synced (create world password platformUnlock creation).2 := by
  cases possible : creation.first.why with
  | some why => simpa [CredentialStore.create, possible] using synced
  | none =>
    cases present : world.file with
    | some file => simpa [CredentialStore.create, possible, present] using synced
    | none => exact (create_works synced password platformUnlock possible present (works possible present)).2

/-! ### Opening -/

theorem Synced.header (synced : Synced world) (unread : world.store.loaded = false) (header : Header) :
    Synced { world with store := { world.store with header := header } } where
  bytes := synced.bytes
  absent := synced.absent
  held := synced.held
  present file present := by
    obtain ⟨password, master, owner, whole, -, held⟩ := synced.present file present
    refine ⟨password, master, owner, whole, ?_, held⟩
    intro loaded
    rw [show world.store.loaded = true from loaded] at unread
    cases unread

theorem Synced.load_ok {later : World} (synced : Synced world) {read : Read} (loading : load world read = (.ok, later))
    (present : world.file = some file) : Synced later ∧ later.file = some file ∧ later.store.loaded = true := by
  rcases CredentialOwner.load_ok loading with ⟨loaded, rfl⟩ | ⟨unread, header, here, rfl⟩
  · exact ⟨synced, present, loaded⟩
  · refine ⟨⟨synced.bytes, ?_, fun _ => rfl, ?_⟩, present, rfl⟩
    · intro absent
      rw [show world.file = none from absent] at here
      cases here
    · intro other there
      obtain ⟨password, master, owner, whole, -, held⟩ := synced.present other there
      obtain rfl : header = other := Option.some.inj (here.symm.trans there)
      exact ⟨password, master, owner, whole, fun _ => ⟨whole, fun _ => .inl rfl⟩, held⟩

theorem Synced.lock (synced : Synced world) : Synced { world with store := lock world.store } where
  bytes := synced.bytes
  absent absent := ⟨(synced.absent absent).1, rfl⟩
  held open_ := absurd rfl open_
  present file present := by
    obtain ⟨password, master, owner, whole, memory, -⟩ := synced.present file present
    refine ⟨password, master, owner, whole, memory, ?_⟩
    intro secret impossible
    cases impossible

theorem Synced.entered (synced : Synced world) (present : world.file = some file) (loaded : world.store.loaded = true)
    {plain : List (QString × SCredentials)} (opened : decrypt_body world.store.header secret = some plain)
    (entries : Entries) :
    Synced { world with store := { world.store with master := some secret, entries := entries } } where
  bytes := synced.bytes
  absent absent := by
    rw [show world.file = none from absent] at present
    cases present
  held _ := loaded
  present other there := by
    obtain ⟨password, master, owner, whole, memory, -⟩ := synced.present other there
    refine ⟨password, master, owner, whole, memory, ?_⟩
    intro secret same
    cases same
    obtain ⟨sealed, body⟩ := (memory loaded).1.body
    rw [decrypt_body, body, Option.bind_some, decrypt_eq_some] at opened
    cases opened
    rfl

theorem Synced.unlock (synced : Synced world) (password : QString) (chance : Chance) :
    Synced (unlock world password chance).2 := by
  unfold CredentialStore.unlock
  split
  · exact synced
  · cases present : world.file with
    | none => simpa using synced
    | some file =>
      simp only [Option.isNone_some, Bool.false_eq_true, if_false]
      split
      · rename_i later loading
        obtain ⟨syncedLater, there, loaded⟩ := synced.load_ok loading present
        split
        · split
          · exact syncedLater
          · split
            · exact syncedLater.lock
            · rename_i opened
              exact syncedLater.entered there loaded opened _
        · exact syncedLater
      · rename_i status later failed loading
        obtain ⟨header, rfl, unread⟩ := load_failed loading failed
        exact synced.header unread header

theorem Synced.try_unlock (synced : Synced world) (chance : Chance) : Synced (try_unlock world chance).2 := by
  unfold CredentialStore.try_unlock
  split
  · exact synced
  · split
    · exact synced
    · rename_i possible
      obtain ⟨file, present⟩ : ∃ file, world.file = some file := by
        cases present : world.file with
        | none => simp [present] at possible
        | some file => exact ⟨file, rfl⟩
      split
      · rename_i later loading
        obtain ⟨syncedLater, there, loaded⟩ := synced.load_ok loading present
        split
        · exact syncedLater
        · split
          · exact syncedLater.lock
          · rename_i opened
            exact syncedLater.entered there loaded opened _
      · rename_i status later failed loading
        obtain ⟨header, rfl, unread⟩ := load_failed loading failed
        exact synced.header unread header

theorem Synced.restart (synced : Synced world) : Synced { world with store := {} } where
  bytes := synced.bytes
  absent _ := ⟨rfl, rfl⟩
  held open_ := absurd rfl open_
  present file present := by
    obtain ⟨password, master, owner, whole, -, -⟩ := synced.present file present
    refine ⟨password, master, owner, whole, ?_, ?_⟩
    · intro loaded
      cases loaded
    · intro secret unlocked
      cases unlocked

/-! ## Every run -/

/-- The call succeeds, or fails at a guard, or what it edited before it failed
    looks the same as before. -/
def Harmless (world : World) : Call → Prop
  | .create _ platformUnlock creation => creation.first.why = none → world.file = none → Creates platformUnlock creation
  | .set target cred chance => world.store.master ≠ none →
    chance.encrypt = true ∧ (chance.write = true ∨ world.store.entries.get target = some cred)
  | .remove target chance => world.store.master ≠ none → world.store.entries.get target ≠ none → Chance.Saves chance
  | .changePassword password chance => world.store.master ≠ none →
    if chance.derive = true ∧ chance.wrap = true then
      chance.encrypt = true ∧ (chance.write = true ∨ world.owner = some password)
    else world.store.header.salt = some chance.salt ∧ world.store.header.iterations = CRED_ITERATIONS
  | .setPlatformUnlock true chance => world.store.master ≠ none → chance.platform = true →
    if chance.platformWrap = true then chance.encrypt = true ∧ (chance.write = true ∨ Rewraps world chance.handle)
    else ¬ Live world.store.header world.forgotten
  | .setPlatformUnlock false chance => world.store.loaded = true →
    if world.store.master = none then ¬ Live world.store.header world.forgotten
    else chance.encrypt = true ∧ (chance.write = true ∨ ¬ Live world.store.header world.forgotten)
  | .unlock _ _ | .tryUnlock _ | .lock | .restart => True

theorem Synced.step {later : World} {call : Call} (synced : Synced world) (harmless : Harmless world call)
    (moved : step world call = some later) : Synced later := by
  cases moved
  cases call with
  | create password platformUnlock creation => exact synced.create harmless
  | unlock password chance => exact synced.unlock password chance
  | tryUnlock chance =>
    have tried := synced.try_unlock chance
    simp only [perform]
    split
    · rename_i later opened
      rw [opened] at tried
      exact tried
    · rename_i later refused
      rw [refused] at tried
      exact tried
  | lock => exact synced.lock
  | set target cred chance => exact synced.set harmless
  | remove target chance => exact synced.remove harmless
  | changePassword password chance => exact synced.change_password harmless
  | setPlatformUnlock on chance =>
    cases on with
    | true => exact synced.turn_on harmless
    | false => exact synced.turn_off harmless
  | restart => exact synced.restart

/-- `Set`, `Remove`, `ChangePassword`, `SetPlatformUnlock` and `Create`. -/
def Edits : Call → Bool
  | .create _ _ _ | .set _ _ _ | .remove _ _ | .changePassword _ _ | .setPlatformUnlock _ _ => true
  | .unlock _ _ | .tryUnlock _ | .lock | .restart => false

theorem failure_changes_nothing {keyring : Bool} {world : World} (run : Run step Harmless { keyring := keyring } world)
    {call : Call} (edits : Edits call = true) (failed : (perform world call).1 ≠ .ok) :
    Unchanged world (perform world call).2 ↔ Harmless world call := by
  have synced : Synced world := by
    apply run.invariant Synced
    · refine ⟨fun _ => rfl, fun _ => ⟨rfl, rfl⟩, fun open_ => absurd rfl open_, ?_⟩
      intro file present
      cases present
    · exact Synced.step
  cases call with
  | create password platformUnlock creation => exact create_unchanged synced failed
  | set target cred chance => exact set_unchanged synced failed
  | remove target chance => exact remove_unchanged synced failed
  | changePassword password chance => exact change_password_unchanged synced failed
  | setPlatformUnlock on chance =>
    cases on with
    | true => exact turn_on_unchanged synced failed
    | false => exact turn_off_unchanged synced failed
  | unlock password chance => cases edits
  | tryUnlock chance => cases edits
  | lock => cases edits
  | restart => cases edits

/-- A store with an entry whose disk is full for a while. -/
def fullRun : List Call :=
  [.create ['a'] false ⟨1, { salt := 2, nonce := 3, bodyNonce := 4 }, {}, { bodyNonce := 5 }⟩,
    .set ['b', 'o', 'x'] ⟨[1], [2], [3]⟩ { bodyNonce := 6 }, .setPlatformUnlock true { platform := false }]

theorem failure_changes_nothing_same : ∃ world, runs step {} fullRun = some world ∧
    Unchanged world (perform world (.set ['b', 'o', 'x'] ⟨[1], [2], [3]⟩ { write := false, bodyNonce := 7 })).2 := by
  have meets : Meets step Harmless {} fullRun := by
    simp [Meets, fullRun, Harmless, Creates, step, perform, Chance.Saves]
  refine ⟨_, rfl, (failure_changes_nothing (Run.of_runs .start meets rfl) rfl ?_).mpr ?_⟩
  · intro ok
    cases ok
  · intro _
    exact ⟨rfl, .inr rfl⟩

/-- A `Set` that could not be written leaves its entry in memory, for the next
    save to write. -/
theorem failure_changes_entries : ¬ ∀ {keyring : Bool} {world : World} (_ : Run step Always { keyring := keyring } world)
    (call : Call) (_ : Edits call = true) (_ : (perform world call).1 ≠ .ok), Unchanged world (perform world call).2 := by
  intro always
  have run : Run step Always { keyring := true } _ := Run.of_runs .start (meets_always _ fullRun) rfl
  have unchanged := always run (.set ['n', 'e', 'w'] ⟨[1], [2], [3]⟩ { write := false }) rfl (fun ok => by cases ok)
  have entry := congrArg (fun entries => OrdMap.get entries ['n', 'e', 'w']) unchanged.entries
  revert entry
  decide

/-! ## Who is let in -/

/-- The file opens with the password that was last set and with no other, in this process and in any that reads it. -/
theorem only_owner_admitted {keyring : Bool} {world : World} (run : Run step Harmless { keyring := keyring } world)
    (present : world.file = some file) (password : QString) :
    (Admits world password ↔ world.owner = some password) ∧ (Admits (fresh world) password ↔ world.owner = some password) := by
  have synced : Synced world := by
    apply run.invariant Synced
    · refine ⟨fun _ => rfl, fun _ => ⟨rfl, rfl⟩, fun open_ => absurd rfl open_, ?_⟩
      intro file present
      cases present
    · exact Synced.step
  obtain ⟨owner, master, owned, whole, memory, -⟩ := synced.present file present
  have seen : Whole (image world file) owner master := by
    unfold image
    split
    · rename_i loaded
      exact (memory loaded).1
    · exact whole
  have wholeFresh : Whole (image (fresh world) file) owner master := whole
  rw [seen.admits present, wholeFresh.admits present, owned, Option.some.injEq, and_self, eq_comm]

/-- A store whose password is changed, and then not written for once. -/
def changedRun : List Call :=
  [.create ['a'] false ⟨1, { salt := 2, nonce := 3, bodyNonce := 4 }, {}, { bodyNonce := 5 }⟩,
    .changePassword ['b'] { salt := 6, nonce := 7, bodyNonce := 8 }, .changePassword ['b'] { salt := 9, nonce := 10, write := false }]

theorem only_owner_admitted_changed : ∃ world, runs step {} changedRun = some world ∧
    Admits (fresh world) ['b'] ∧ ¬ Admits (fresh world) ['a'] := by
  have meets : Meets step Harmless {} changedRun := by
    simp [Meets, changedRun, Harmless, Creates, step, perform, Chance.Saves, create, change_password, save]
  have owner (password : QString) := (only_owner_admitted (Run.of_runs .start meets rfl) rfl password).2
  exact ⟨_, rfl, (owner _).mpr rfl, fun old => absurd ((owner _).mp old) (by decide)⟩

end TaskExplorer.CredentialFailure
