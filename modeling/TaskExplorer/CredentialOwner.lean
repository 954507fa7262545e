import TaskExplorer.CredentialStore
import TaskExplorer.Transition

/-!
# The owner of a store

Whoever knows the password that was last set can open the file, and finds in it
what was last saved, as long as no step fails between the fields that belong
together.
-/

namespace TaskExplorer.CredentialOwner
open Codec OrderedMap Sealing Transition CredentialStore

/-! ## Entries -/

private theorem decode_entries_onto (pairs : List (QString × SCredentials)) (entries : Entries)
    (sorted : Sorted (entries.entries ++ pairs)) (named : ∀ pair ∈ pairs, pair.1 ≠ []) :
    (decode_entries pairs entries).entries = entries.entries ++ pairs := by
  induction pairs generalizing entries with
  | nil => simp [decode_entries]
  | cons pair rest ih =>
    have last : ∀ other ∈ entries.entries, other.1 < pair.1 := by
      intro other member
      exact (List.pairwise_append.mp sorted).2.2 other member pair (by simp)
    have placed : (entries.insert pair.1 pair.2).entries = entries.entries ++ [pair] := put_append last
    have moved : Sorted ((entries.insert pair.1 pair.2).entries ++ rest) := by
      rw [placed, List.append_assoc]
      exact sorted
    have later := ih (entries.insert pair.1 pair.2) moved (fun other member => named other (List.mem_cons_of_mem _ member))
    rw [placed, List.append_assoc] at later
    simpa [decode_entries, named pair (by simp)] using later

/-- No entry is kept under an empty target. -/
def Named (entries : Entries) : Prop := entries.get [] = none

variable {entries : Entries} {password : QString} {master : Nat} {world : World} {chance : Chance}

theorem decode_encode (named : Named entries) : decode_entries (encode_entries entries) .empty = entries := by
  have targets : ∀ pair ∈ entries.entries, pair.1 ≠ [] := by
    rintro ⟨target, cred⟩ member rfl
    rw [Named, OrdMap.mem_entries.mp member] at named
    cases named
  have same : (decode_entries (encode_entries entries) .empty).entries = entries.entries := by
    have onto := decode_entries_onto entries.entries .empty (by simpa [OrdMap.empty] using entries.sorted) targets
    simpa [OrdMap.empty, encode_entries] using onto
  apply OrdMap.ext_get
  intro target
  rw [OrdMap.get, OrdMap.get, same]

theorem insert_same {target : QString} {cred : SCredentials} (there : entries.get target = some cred) :
    entries.insert target cred = entries := by
  apply OrdMap.ext_get
  intro other
  rw [OrdMap.get_insert]
  split
  · rename_i equal
    rw [← equal, there]
  · rfl

/-! ## Headers -/

/-- The three fields that must change together do belong together. -/
def WrappedFor (header : Header) (password : QString) (master : Nat) : Prop :=
  ∃ nonce, header.passwordWrapped = some ⟨.derived password header.salt header.iterations, nonce,
    .wrap header.salt header.iterations, master⟩

/-- A header that the password opens onto the entries. -/
structure Sound (header : Header) (password : QString) (master : Nat) (entries : Entries) : Prop where
  wrapped : WrappedFor header password master
  body : header.body = some ⟨.master master, header.bodyNonce, .body, encode_entries entries⟩
  named : Named entries

theorem Sound.unwrap {header : Header} (sound : Sound header password master entries) :
    unwrap header password = some master := by
  obtain ⟨nonce, wrapped⟩ := sound.wrapped
  simp [CredentialStore.unwrap, wrapped]

theorem Sound.decrypt_body {header : Header} (sound : Sound header password master entries) :
    decrypt_body header master = some (encode_entries entries) := by
  simp [CredentialStore.decrypt_body, sound.body]

/-- `Unlock` with nothing failing gives these entries. -/
def Opens (world : World) (password : QString) (entries : Entries) : Prop :=
  (unlock world password {}).1 = .ok ∧ (unlock world password {}).2.store.entries = entries

theorem Sound.opens {header : Header} (present : world.file = some header) (file : Sound header password master entries)
    (memory : world.store.loaded = true → Sound world.store.header password master entries) :
    Opens world password entries := by
  by_cases loaded : world.store.loaded = true
  · have sound := memory loaded
    simp [Opens, unlock, present, load, loaded, sound.unwrap, sound.decrypt_body, decode_encode sound.named]
  · simp [Opens, unlock, present, load, loaded, file.unwrap, file.decrypt_body, decode_encode file.named]

/-! ## What every call keeps -/

/-- The file, if there is one, is sound for its owner; so is what the process
    read of it; and an unlocked process holds the entries of the file. -/
structure Kept (world : World) : Prop where
  closed : world.store.master = none → world.store.entries = .empty
  absent : world.file = none → world.store.loaded = false ∧ world.store.master = none
  present : ∀ header, world.file = some header → ∃ password master, world.owner = some password ∧
    Sound header password master world.saved ∧
    (world.store.loaded = true → Sound world.store.header password master world.saved) ∧
    ∀ secret, world.store.master = some secret →
      secret = master ∧ world.store.loaded = true ∧ world.store.entries = world.saved

theorem save_works (unlocked : world.store.master = some master) (encrypted : chance.encrypt = true)
    (written : chance.write = true) :
    save world chance = (.ok, { world with
      file := some (sealing world.store.header master world.store.entries chance)
      store := { world.store with header := sealing world.store.header master world.store.entries chance, loaded := true }
      saved := world.store.entries }) := by
  simp [save, unlocked, encrypted, written]

theorem sound_sealing {header : Header} (encrypted : chance.encrypt = true)
    (wrapped : WrappedFor header password master) (named : Named entries) :
    Sound (sealing header master entries chance) password master entries where
  wrapped := wrapped
  body := by simp [sealing, encrypted]
  named := named

theorem kept_save (unlocked : world.store.master = some master)
    (wrapped : WrappedFor world.store.header password master) (named : Named world.store.entries)
    (owner : world.owner = some password) (encrypted : chance.encrypt = true) (written : chance.write = true) :
    Kept (save world chance).2 := by
  rw [save_works unlocked encrypted written]
  have sound : Sound (sealing world.store.header master world.store.entries chance) password master world.store.entries :=
    sound_sealing encrypted wrapped named
  constructor
  · intro locked
    rw [unlocked] at locked
    cases locked
  · intro absent
    cases absent
  · intro header present
    cases present
    refine ⟨password, master, owner, sound, fun _ => sound, ?_⟩
    intro secret same
    simp only [unlocked, Option.some.injEq] at same
    exact ⟨same.symm, rfl, rfl⟩

theorem Kept.unlocked (kept : Kept world) {secret : Nat} (unlocked : world.store.master = some secret) :
    ∃ password, world.owner = some password ∧ WrappedFor world.store.header password secret ∧ Named world.store.entries ∧
      world.store.entries = world.saved ∧ world.store.loaded = true := by
  cases file : world.file with
  | none =>
    rw [(kept.absent file).2] at unlocked
    cases unlocked
  | some header =>
    obtain ⟨password, master, owner, sound, memory, held⟩ := kept.present header file
    obtain ⟨rfl, loaded, entries⟩ := held secret unlocked
    refine ⟨password, owner, (memory loaded).wrapped, ?_, entries, loaded⟩
    rw [entries]
    exact sound.named

theorem load_ok {later : World} {read : Read} (loading : load world read = (.ok, later)) :
    (world.store.loaded = true ∧ later = world) ∨ world.store.loaded = false ∧ ∃ header, world.file = some header ∧
      later = { world with store := { world.store with header := header, loaded := true } } := by
  unfold load at loading
  split_ifs at loading with loaded
  · cases loading
    exact .inl ⟨loaded, rfl⟩
  · split at loading <;> cases loading
    rename_i header file
    exact .inr ⟨by simpa using loaded, _, file, rfl⟩

theorem load_failed {later : World} {read : Read} {status : Status} (failed : load world read = (status, later))
    (error : status ≠ .ok) : ∃ header, later = { world with store := { world.store with header := header } } ∧
      world.store.loaded = false := by
  unfold load at failed
  split_ifs at failed with loaded
  · cases failed
    exact absurd rfl error
  · have unread : world.store.loaded = false := by simpa using loaded
    split at failed <;> cases failed
    · exact ⟨world.store.header, rfl, unread⟩
    · exact ⟨world.store.header, rfl, unread⟩
    · exact ⟨_, rfl, unread⟩
    · exact absurd rfl error

theorem Kept.loaded (kept : Kept world) {header : Header} (present : world.file = some header)
    (locked : world.store.loaded = false) :
    Kept { world with store := { world.store with header := header, loaded := true } } where
  closed := kept.closed
  absent absent := by
    rw [present] at absent
    cases absent
  present other same := by
    simp only [present, Option.some.injEq] at same
    subst same
    obtain ⟨password, master, owner, sound, -, held⟩ := kept.present header present
    refine ⟨password, master, owner, sound, fun _ => sound, ?_⟩
    intro secret unlocked
    obtain ⟨-, impossible, -⟩ := held secret unlocked
    rw [locked] at impossible
    cases impossible

theorem Kept.load_ok {later : World} (kept : Kept world) {read : Read} (loading : load world read = (.ok, later))
    {header : Header} (present : world.file = some header) :
    Kept later ∧ later.file = some header ∧ later.store.loaded = true ∧ later.store.entries = world.store.entries := by
  rcases CredentialOwner.load_ok loading with ⟨loaded, rfl⟩ | ⟨unread, other, here, rfl⟩
  · exact ⟨kept, present, loaded, rfl⟩
  · exact ⟨kept.loaded here unread, present, rfl, rfl⟩

theorem Kept.header (kept : Kept world) (unread : world.store.loaded = false) (header : Header) :
    Kept { world with store := { world.store with header := header } } where
  closed := kept.closed
  absent := kept.absent
  present other same := by
    obtain ⟨password, master, owner, sound, -, held⟩ := kept.present other same
    refine ⟨password, master, owner, sound, ?_, held⟩
    intro loaded
    rw [unread] at loaded
    cases loaded

theorem Kept.lock (kept : Kept world) : Kept { world with store := lock world.store } where
  closed _ := rfl
  absent absent := ⟨(kept.absent absent).1, rfl⟩
  present header same := by
    obtain ⟨password, master, owner, sound, memory, -⟩ := kept.present header same
    refine ⟨password, master, owner, sound, memory, ?_⟩
    intro secret unlocked
    cases unlocked

theorem Kept.entered (kept : Kept world) {header : Header} (present : world.file = some header)
    (loaded : world.store.loaded = true) {secret : Nat} {plain : List (QString × SCredentials)}
    (opened : decrypt_body world.store.header secret = some plain) :
    Kept { world with store := { world.store with master := some secret, entries := decode_entries plain .empty } } where
  closed locked := by cases locked
  absent absent := by
    rw [present] at absent
    cases absent
  present other same := by
    obtain ⟨password, master, owner, sound, memory, -⟩ := kept.present other same
    have inside := memory loaded
    refine ⟨password, master, owner, sound, memory, ?_⟩
    intro other unlocked
    cases unlocked
    rw [decrypt_body, inside.body, Option.bind_some, decrypt_eq_some] at opened
    cases opened
    exact ⟨rfl, loaded, decode_encode sound.named⟩

theorem Kept.setWrapped (kept : Kept world) (wrapped : Option Platform) : Kept (setWrapped world wrapped) where
  closed := kept.closed
  absent := kept.absent
  present header same := by
    obtain ⟨password, master, owner, sound, memory, held⟩ := kept.present header same
    refine ⟨password, master, owner, sound, ?_, held⟩
    intro loaded
    exact ⟨(memory loaded).wrapped, (memory loaded).body, (memory loaded).named⟩

theorem Kept.forgotten (kept : Kept world) (forgotten : List Nat) :
    Kept { world with forgotten := forgotten } := ⟨kept.closed, kept.absent, kept.present⟩

theorem Kept.platform_forget (kept : Kept world) : Kept (platform_forget world) := by
  unfold CredentialStore.platform_forget
  split
  · exact kept
  · split
    · exact kept.forgotten _
    · exact kept

/-! ### One call -/

theorem Kept.unlock (kept : Kept world) (password : QString) (chance : Chance) :
    Kept (unlock world password chance).2 := by
  unfold CredentialStore.unlock
  split
  · exact kept
  · split
    · exact kept
    · rename_i exists_
      obtain ⟨header, present⟩ : ∃ header, world.file = some header := by
        cases file : world.file with
        | none => simp [file] at exists_
        | some header => exact ⟨header, rfl⟩
      split
      · rename_i later loading
        obtain ⟨keptLater, there, loaded, -⟩ := kept.load_ok loading present
        split
        · split
          · exact keptLater
          · split
            · exact keptLater.lock
            · rename_i opened
              exact keptLater.entered there loaded opened
        · exact keptLater
      · rename_i status later failed loading
        obtain ⟨header, rfl, unread⟩ := load_failed loading failed
        exact kept.header unread header

theorem Kept.try_unlock (kept : Kept world) (chance : Chance) : Kept (try_unlock world chance).2 := by
  unfold CredentialStore.try_unlock
  split
  · exact kept
  · rename_i locked
    split
    · exact kept
    · rename_i possible
      obtain ⟨header, present⟩ : ∃ header, world.file = some header := by
        cases file : world.file with
        | none => simp [file] at possible
        | some header => exact ⟨header, rfl⟩
      have closed : world.store.master = none := by simpa [Store.IsUnlocked] using locked
      split
      · rename_i later loading
        obtain ⟨keptLater, there, loaded, entries⟩ := kept.load_ok loading present
        split
        · exact keptLater
        · split
          · exact keptLater.lock
          · rename_i opened
            rw [entries, kept.closed closed]
            exact keptLater.entered there loaded opened
      · rename_i status later failed loading
        obtain ⟨header, rfl, unread⟩ := load_failed loading failed
        exact kept.header unread header

/-- The steps of a save work. -/
def Chance.Saves (chance : Chance) : Prop := chance.encrypt = true ∧ chance.write = true

theorem kept_change_password (password : QString) (unlocked : world.store.master = some master)
    (named : Named world.store.entries) (derived : chance.derive = true) (wrapped : chance.wrap = true)
    (saves : Chance.Saves chance) :
    (change_password world password chance).1 = .ok ∧ Kept (change_password world password chance).2 ∧
      (change_password world password chance).2.store.master = some master := by
  simp only [change_password, unlocked, derived, wrapped, if_true]
  rw [save_works rfl saves.1 saves.2]
  refine ⟨rfl, ?_, rfl⟩
  have sound (header : Header) : Sound (sealing { header with
      salt := some chance.salt
      iterations := CRED_ITERATIONS
      passwordWrapped := some ⟨.derived password (some chance.salt) CRED_ITERATIONS, some chance.nonce,
        .wrap (some chance.salt) CRED_ITERATIONS, master⟩ } master world.store.entries chance)
      password master world.store.entries := by
    apply sound_sealing saves.1 _ named
    exact ⟨some chance.nonce, rfl⟩
  constructor
  · intro locked
    cases locked
  · intro absent
    cases absent
  · intro header present
    cases present
    refine ⟨password, master, rfl, sound _, fun _ => sound _, ?_⟩
    intro secret same
    cases same
    exact ⟨rfl, rfl, rfl⟩

theorem Kept.rewrapped (kept : Kept world) {header : Header} (unlocked : world.store.master = some master)
    (owner : world.owner = some password) (wrapped : WrappedFor header password master)
    (encrypted : chance.encrypt = true) :
    Kept { world with store := { world.store with header := sealing header master world.store.entries chance } } where
  closed := kept.closed
  absent := kept.absent
  present file same := by
    obtain ⟨other, secret, owned, sound, -, held⟩ := kept.present file same
    have named : Named world.store.entries := by
      rw [(held master unlocked).2.2]
      exact sound.named
    obtain ⟨rfl, -, entries⟩ := held master unlocked
    rw [owner] at owned
    cases owned
    refine ⟨password, master, owner, sound, ?_, held⟩
    intro _
    rw [← entries]
    exact sound_sealing encrypted wrapped named

theorem Kept.save (kept : Kept world) (encrypts : world.store.master ≠ none → chance.encrypt = true) :
    Kept (save world chance).2 := by
  cases unlocked : world.store.master with
  | none =>
    simp only [CredentialStore.save, unlocked]
    exact kept
  | some master =>
    obtain ⟨password, owner, wrapped, named, -, -⟩ := kept.unlocked unlocked
    have encrypted : chance.encrypt = true := encrypts (by simp [unlocked])
    by_cases written : chance.write = true
    · exact kept_save unlocked wrapped named owner encrypted written
    · simp only [CredentialStore.save, unlocked, encrypted, written, Bool.false_eq_true, if_true, if_false]
      simpa only [unlocked] using kept.rewrapped unlocked owner wrapped encrypted

theorem Kept.change_password (kept : Kept world) (password : QString)
    (works : world.store.master ≠ none → chance.derive = true ∧ chance.wrap = true ∧ chance.encrypt = true ∧ (chance.write = true ∨ world.owner = some password))
    : Kept (change_password world password chance).2 := by
  cases unlocked : world.store.master with
  | none =>
    simp only [CredentialStore.change_password, unlocked]
    exact kept
  | some master =>
    obtain ⟨derived, wrapped, encrypted, ends⟩ := works (by simp [unlocked])
    obtain ⟨-, -, -, named, -, -⟩ := kept.unlocked unlocked
    by_cases written : chance.write = true
    · exact (kept_change_password password unlocked named derived wrapped ⟨encrypted, written⟩).2.1
    · have owner : world.owner = some password := ends.resolve_left written
      simp only [CredentialStore.change_password, CredentialStore.save, unlocked, derived, wrapped, encrypted, written,
        Bool.false_eq_true, if_true, if_false]
      have belongs (header : Header) : WrappedFor { header with
          salt := some chance.salt
          iterations := CRED_ITERATIONS
          passwordWrapped := some ⟨.derived password (some chance.salt) CRED_ITERATIONS, some chance.nonce,
            .wrap (some chance.salt) CRED_ITERATIONS, master⟩ } password master := ⟨some chance.nonce, rfl⟩
      simpa only [unlocked] using kept.rewrapped unlocked owner (belongs world.store.header) encrypted

theorem platform_forget_store (world : World) : (platform_forget world).store = world.store := by
  unfold platform_forget
  split
  · rfl
  · split <;> rfl

theorem Kept.set_platform_unlock (kept : Kept world) (on : Bool)
    (encrypts : world.store.master ≠ none → chance.encrypt = true) : Kept (set_platform_unlock world on chance).2 := by
  unfold CredentialStore.set_platform_unlock
  split
  · split
    · exact kept
    · rename_i master unlocked
      split
      · simp only
        split
        · apply Kept.save
          · exact (kept.platform_forget.forgotten _).setWrapped _
          · intro _
            exact encrypts (by simp [unlocked])
        · exact kept.platform_forget.setWrapped none
      · exact kept
  · simp only
    split
    · apply (kept.platform_forget.setWrapped none).save
      intro open_
      apply encrypts
      simpa [CredentialStore.setWrapped, platform_forget_store] using open_
    · exact kept.platform_forget.setWrapped none

theorem Kept.create (kept : Kept world) (password : QString) (platformUnlock : Bool) {creation : Creation}
    (works : creation.first.why = none → world.file = none → creation.first.derive = true ∧ creation.first.wrap = true ∧ Chance.Saves creation.first ∧ creation.second.encrypt = true ∧ creation.third.encrypt = true)
    : Kept (create world password platformUnlock creation).2 := by
  unfold CredentialStore.create
  split
  · exact kept
  · rename_i possible
    split
    · exact kept
    · rename_i absent
      obtain ⟨derived, wrapped, first, second, third⟩ := works possible (by simpa using absent)
      simp only
      generalize made : World.mk world.file _ world.keyring world.forgotten world.owner world.saved = fresh
      have unlocked : fresh.store.master = some creation.master := by rw [← made]
      have named : Named fresh.store.entries := by
        rw [← made]
        rfl
      obtain ⟨ok, keptFirst, open_⟩ := kept_change_password password unlocked named derived wrapped first
      split
      · rename_i later changed
        rw [changed] at keptFirst
        split
        · have keptSecond := keptFirst.set_platform_unlock true (fun _ => second)
          split
          · rename_i last turned
            rw [turned] at keptSecond
            exact keptSecond.save (fun _ => third)
          · rename_i status last failed turned
            rw [turned] at keptSecond
            exact keptSecond
        · exact keptFirst.save (fun _ => third)
      · rename_i status later failed changed
        rw [changed] at keptFirst
        exact keptFirst

theorem Kept.set (kept : Kept world) (target : QString) (cred : SCredentials)
    (works : world.store.master ≠ none → target ≠ [] ∧ chance.encrypt = true ∧ (chance.write = true ∨ world.store.entries.get target = some cred))
    : Kept (set world target cred chance).2 := by
  unfold CredentialStore.set
  cases unlocked : world.store.master with
  | none => simpa [Store.IsUnlocked, unlocked] using kept
  | some master =>
    simp only [Store.IsUnlocked, unlocked, Option.isSome_some, if_true]
    obtain ⟨password, owner, wrapped, named, -, -⟩ := kept.unlocked unlocked
    obtain ⟨target_, encrypted, written | there⟩ := works (by simp [unlocked])
    · refine kept_save rfl wrapped ?_ owner encrypted written
      simp only [Named, OrdMap.get_insert, target_, if_false]
      exact named
    · rw [insert_same there, ← unlocked]
      exact kept.save (fun _ => encrypted)

theorem Kept.remove (kept : Kept world) (target : QString)
    (works : world.store.master ≠ none → world.store.entries.get target ≠ none → Chance.Saves chance) :
    Kept (remove world target chance).2 := by
  unfold CredentialStore.remove
  cases unlocked : world.store.master with
  | none => simpa [Store.IsUnlocked, unlocked] using kept
  | some master =>
    simp only [Store.IsUnlocked, unlocked, Option.isSome_some, if_true]
    obtain ⟨password, owner, wrapped, named, -, -⟩ := kept.unlocked unlocked
    split
    · exact kept
    · rename_i present
      obtain ⟨encrypted, written⟩ := works (by simp [unlocked]) (by simpa using present)
      refine kept_save rfl wrapped ?_ owner encrypted written
      simp only [Named, OrdMap.get_erase]
      split
      · rfl
      · exact named

/-! ## Every run -/

/-- No key derivation or sealing step of a call that writes fails, no entry is set
    without a target, and the file is written if the call makes a change of entries
    or of the password, or the store. -/
def Works (world : World) : Call → Prop
  | .create _ _ creation => creation.first.why = none → world.file = none → creation.first.derive = true ∧
    creation.first.wrap = true ∧ Chance.Saves creation.first ∧ creation.second.encrypt = true ∧ creation.third.encrypt = true
  | .set target cred chance => world.store.master ≠ none → target ≠ [] ∧ chance.encrypt = true ∧
    (chance.write = true ∨ world.store.entries.get target = some cred)
  | .remove target chance => world.store.master ≠ none → world.store.entries.get target ≠ none → Chance.Saves chance
  | .changePassword password chance => world.store.master ≠ none → chance.derive = true ∧ chance.wrap = true ∧
    chance.encrypt = true ∧ (chance.write = true ∨ world.owner = some password)
  | .setPlatformUnlock _ chance => world.store.master ≠ none → chance.encrypt = true
  | _ => True

theorem Kept.step {later : World} {call : Call} (kept : Kept world) (works : Works world call)
    (moved : step world call = some later) : Kept later := by
  cases moved
  cases call with
  | create password platformUnlock creation => exact kept.create password platformUnlock works
  | unlock password chance => exact kept.unlock password chance
  | tryUnlock chance =>
    have tried := kept.try_unlock chance
    simp only [perform]
    split
    · rename_i later opened
      rw [opened] at tried
      exact tried
    · rename_i later refused
      rw [refused] at tried
      exact tried
  | lock => exact kept.lock
  | set target cred chance => exact kept.set target cred works
  | remove target chance => exact kept.remove target works
  | changePassword password chance => exact kept.change_password password works
  | setPlatformUnlock on chance => exact kept.set_platform_unlock on works
  | restart =>
    refine ⟨fun _ => rfl, fun _ => ⟨rfl, rfl⟩, ?_⟩
    intro header present
    obtain ⟨password, master, owner, sound, -, -⟩ := kept.present header present
    refine ⟨password, master, owner, sound, ?_, ?_⟩
    · intro loaded
      cases loaded
    · intro secret unlocked
      cases unlocked

/-- A store file can be opened, in this process or a new one, with the password
    of the last `Create` or `ChangePassword` that returned OK, and holds the
    entries of the last save that reached the disk. -/
def OwnerOpens (world : World) : Prop :=
  world.file ≠ none → ∃ password, world.owner = some password ∧ Opens world password world.saved ∧
    Opens { world with store := {} } password world.saved

theorem owner_not_locked_out {keyring : Bool} {forgotten : List Nat} {world : World}
    (run : Run step Works { keyring := keyring, forgotten := forgotten } world) : OwnerOpens world := by
  have kept : Kept world := by
    apply run.invariant Kept
    · refine ⟨fun _ => rfl, fun _ => ⟨rfl, rfl⟩, ?_⟩
      intro header present
      cases present
    · exact Kept.step
  intro exists_
  obtain ⟨header, present⟩ := Option.ne_none_iff_exists'.mp exists_
  obtain ⟨password, master, owner, sound, memory, -⟩ := kept.present header present
  refine ⟨password, owner, sound.opens present memory, ?_⟩
  apply sound.opens (show ({ world with store := {} } : World).file = some header from present)
  intro loaded
  cases loaded

/-- A store is made and used, its password is changed, and it is used again. -/
def changedRun : List Call :=
  [.create ['a'] false ⟨1, { salt := 2, nonce := 3, bodyNonce := 4 }, {}, { bodyNonce := 5 }⟩,
    .set ['b', 'o', 'x'] ⟨[1], [2], [3]⟩ { bodyNonce := 6 },
    .changePassword ['b'] { salt := 7, nonce := 8, bodyNonce := 9 }, .restart, .unlock ['a'] {}, .unlock ['b'] {},
    .remove ['b', 'o', 'x'] { bodyNonce := 10 }]

theorem owner_not_locked_out_changed :
    ∃ world, runs step {} changedRun = some world ∧ world.file ≠ none ∧ world.owner = some ['b'] ∧ OwnerOpens world := by
  have meets : Meets step Works {} changedRun := by
    simp [Meets, changedRun, Works, step, perform, Chance.Saves]
  refine ⟨_, rfl, ?_, rfl, owner_not_locked_out (Run.of_runs .start meets rfl)⟩
  intro absent
  cases absent

/-- The key derivation of a `ChangePassword` fails after the salt was replaced,
    and the next `Set` saves the new salt with the old wrapping. -/
def saltedRun : List Call :=
  [.create ['a'] false ⟨1, { salt := 2, nonce := 3, bodyNonce := 4 }, {}, { bodyNonce := 5 }⟩,
    .changePassword ['b'] { derive := false, salt := 7 },
    .set ['b', 'o', 'x'] ⟨[1], [2], [3]⟩ { bodyNonce := 6 }]

theorem owner_locked_out :
    ¬ ∀ {keyring : Bool} {forgotten : List Nat} {world : World},
      Run step Always { keyring := keyring, forgotten := forgotten } world → OwnerOpens world := by
  intro always
  have opens := always (Run.of_runs .start (meets_always _ saltedRun) rfl : Run step Always { keyring := true, forgotten := [] } _)
  obtain ⟨password, owner, ⟨opened, -⟩, -⟩ := opens (by intro absent; cases absent)
  cases owner
  revert opened
  decide

end TaskExplorer.CredentialOwner
