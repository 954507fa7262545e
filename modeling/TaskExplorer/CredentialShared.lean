import TaskExplorer.CredentialFailure

/-!
# Programs that share a store

Several programs keep their credentials in one file. Each writes out all that it
holds in memory, so what another has written since is lost, unless the memory is
as the file in what the call leaves alone.

A call looks at the file once: it reads it, or it replaces it. So the calls in any
order are all there is to the interleavings of their file steps.
-/

namespace TaskExplorer.CredentialShared
open Codec OrderedMap Sealing Transition CredentialStore
open CredentialOwner CredentialFailure

variable {Process : Type} [DecidableEq Process]

/-- The file, and what each process has in memory. -/
structure Shared (Process : Type) where
  file : Option Header
  stores : Process → Store := fun _ => {}
  /-- The password of the last `ChangePassword` that returned OK; not in the source. -/
  owner : Option QString
  /-- The entries of the file; not in the source. -/
  saved : Entries
  /-- The entries whose `Set` returned OK and that nobody removed or set again; not in
      the source. -/
  promised : Entries

/-- What one process sees. -/
def view (shared : Shared Process) (who : Process) : World :=
  { file := shared.file, store := shared.stores who, owner := shared.owner, saved := shared.saved }

def promise (promised : Entries) : Call → Entries
  | .set target cred _ => promised.insert target cred
  | .remove target _ => promised.erase target
  | _ => promised

def act (shared : Shared Process) (who : Process) (call : Call) : Shared Process :=
  let (status, world) := perform (view shared who) call
  { file := world.file
    stores := fun other => if other = who then world.store else shared.stores other
    owner := world.owner
    saved := world.saved
    promised := if status = .ok then promise shared.promised call else shared.promised }

/-- The calls that two programs make on a store that is there. -/
def Shares : Call → Bool
  | .unlock _ _ | .lock | .set _ _ _ | .remove _ _ | .changePassword _ _ | .restart => true
  | .create _ _ _ | .tryUnlock _ | .setPlatformUnlock _ _ => false

def step (shared : Shared Process) : Process × Call → Option (Shared Process)
  | (who, call) => if Shares call then some (act shared who call) else none

/-! ## One call -/

/-- Every key that a process can come by is the one key of the file. -/
structure Knows (master : Nat) (store : Store) : Prop where
  wrapped : store.loaded = true → ∀ box, store.header.passwordWrapped = some box → box.plain = master
  held : ∀ secret, store.master = some secret → secret = master ∧ store.loaded = true

/-- The call wrote nothing. -/
structure Quiet (master : Nat) (world later : World) : Prop where
  file : later.file = world.file
  owner : later.owner = world.owner
  saved : later.saved = world.saved
  knows : Knows master later.store

variable {master : Nat} {world : World} {password : QString}

theorem Quiet.refl (knows : Knows master world.store) : Quiet master world world :=
  ⟨rfl, rfl, rfl, knows⟩

variable {chance : Chance} {promised : Entries}

theorem Knows.unsaved {secret : Nat} (knows : Knows master world.store) :
    Knows master (unsaved world secret chance).store := ⟨knows.wrapped, knows.held⟩

theorem knows_locked {store : Store} (knows : Knows master store) : Knows master (lock store) :=
  ⟨knows.wrapped, fun _ impossible => by cases impossible⟩

theorem knows_nothing (master : Nat) : Knows master {} := by
  constructor
  · intro loaded
    cases loaded
  · intro secret unlocked
    cases unlocked

theorem unwrap_plain {header : Header} {secret : Nat} (opened : unwrap header password = some secret) :
    ∃ box, header.passwordWrapped = some box ∧ box.plain = secret := by
  obtain ⟨box, wrapped, opened⟩ := Option.bind_eq_some_iff.mp opened
  rw [decrypt_eq_some] at opened
  exact ⟨box, wrapped, by rw [opened]⟩

theorem Knows.load_ok {later : World} {read : Read} {header : Header} {entries : Entries}
    (knows : Knows master world.store) (present : world.file = some header)
    (sound : Sound header password master entries) (loading : load world read = (.ok, later)) :
    Quiet master world later ∧ later.store.loaded = true := by
  rcases CredentialOwner.load_ok loading with ⟨loaded, rfl⟩ | ⟨unread, other, here, rfl⟩
  · exact ⟨Quiet.refl knows, loaded⟩
  · rw [present] at here
    cases here
    refine ⟨⟨rfl, rfl, rfl, ?_, fun secret unlocked => ⟨(knows.held secret unlocked).1, rfl⟩⟩, rfl⟩
    intro _ box wrapped
    obtain ⟨nonce, wrapped_⟩ := sound.wrapped
    rw [show header.passwordWrapped = some box from wrapped] at wrapped_
    cases wrapped_
    rfl

theorem quiet_unlock {header : Header} {entries : Entries} (knows : Knows master world.store)
    (present : world.file = some header) (sound : Sound header password master entries) (tried : QString)
    (chance : Chance) : Quiet master world (unlock world tried chance).2 := by
  unfold unlock
  split
  · exact Quiet.refl knows
  · simp only [present, Option.isNone_some, Bool.false_eq_true, if_false]
    split
    · rename_i later loading
      obtain ⟨quiet, loaded⟩ := knows.load_ok present sound loading
      split
      · split
        · exact quiet
        · rename_i secret opened
          split
          · exact ⟨quiet.file, quiet.owner, quiet.saved, knows_locked quiet.knows⟩
          · refine ⟨quiet.file, quiet.owner, quiet.saved, quiet.knows.wrapped, ?_⟩
            intro other same
            cases same
            obtain ⟨box, wrapped, plain⟩ := unwrap_plain opened
            rw [← plain]
            exact ⟨quiet.knows.wrapped loaded box wrapped, loaded⟩
      · exact quiet
    · rename_i status later failed loading
      obtain ⟨read, rfl, unread⟩ := load_failed loading failed
      refine ⟨rfl, rfl, rfl, ?_, knows.held⟩
      intro loaded
      rw [show world.store.loaded = true from loaded] at unread
      cases unread

/-- The file is one that the owner opens onto the entries, with this key. -/
def Owned (master : Nat) (world : World) : Prop :=
  ∃ header password, world.file = some header ∧ world.owner = some password ∧ Sound header password master world.saved

theorem Owned.of_quiet {later : World} (owned : Owned master world) (quiet : Quiet master world later) :
    Owned master later := by
  rw [Owned, quiet.file, quiet.owner, quiet.saved]
  exact owned

theorem save_shared (world : World) (knows : Knows master world.store) (unlocked : world.store.master = some master)
    (owner : world.owner = some password)
    (ready : Chance.Saves chance → WrappedFor world.store.header password master ∧ Named world.store.entries) :
    ((save world chance).1 ≠ .ok ∧ Quiet master world (save world chance).2) ∨
      Chance.Saves chance ∧ (save world chance).1 = .ok ∧ Owned master (save world chance).2 ∧
        (save world chance).2.saved = world.store.entries ∧ Knows master (save world chance).2.store := by
  by_cases saves : Chance.Saves chance
  · obtain ⟨wrapped, named⟩ := ready saves
    right
    rw [save_works unlocked saves.1 saves.2]
    refine ⟨saves, rfl, ⟨_, password, rfl, owner, sound_sealing saves.1 wrapped named⟩, rfl, ?_, ?_⟩
    · intro _
      exact knows.wrapped (knows.held master unlocked).2
    · intro secret same
      exact ⟨(knows.held secret same).1, rfl⟩
  · left
    have failed : (save world chance).1 ≠ .ok := by
      cases encrypted : chance.encrypt <;> cases written : chance.write <;>
        simp [Chance.Saves, save, unlocked, encrypted, written] at saves ⊢
    rw [(save_failed failed unlocked).1]
    exact ⟨failed, rfl, rfl, rfl, knows.unsaved⟩

/-! ## Memory that is up to date -/

/-- The process has the file's wrapping of the key. -/
def HasWrapping (world : World) : Prop :=
  ∃ file, world.file = some file ∧ world.store.header.salt = file.salt ∧ world.store.header.iterations = file.iterations ∧
    world.store.header.passwordWrapped = file.passwordWrapped

/-- The process has the file's entries, all but one. -/
def HasOthers (world : World) (target : QString) : Prop :=
  ∀ other, other ≠ target → world.store.entries.get other = world.saved.get other

/-- A call that gets to write leaves nothing else of the file behind: what it does
    not edit itself is in memory as it is in the file. No entry is set without a
    target. -/
def UpToDate (shared : Shared Process) : Process × Call → Prop
  | (who, .set target _ chance) => (shared.stores who).master ≠ none → Chance.Saves chance →
    target ≠ [] ∧ HasWrapping (view shared who) ∧ HasOthers (view shared who) target
  | (who, .remove target chance) => (shared.stores who).master ≠ none → (shared.stores who).entries.get target ≠ none →
    Chance.Saves chance → HasWrapping (view shared who) ∧ HasOthers (view shared who) target
  | (who, .changePassword _ chance) => (shared.stores who).master ≠ none → chance.derive = true → chance.wrap = true →
    Chance.Saves chance → (shared.stores who).entries = shared.saved
  | _ => True

theorem HasWrapping.wrappedFor (has : HasWrapping world) (owned : Owned master world)
    (owner : world.owner = some password) : WrappedFor world.store.header password master := by
  obtain ⟨file, present, salt, iterations, wrapped⟩ := has
  obtain ⟨header, other, here, owner', sound⟩ := owned
  rw [present] at here
  cases here
  rw [owner] at owner'
  cases owner'
  obtain ⟨nonce, box⟩ := sound.wrapped
  refine ⟨nonce, ?_⟩
  rw [wrapped, box, salt, iterations]

theorem Owned.named (owned : Owned master world) : Named world.saved := by
  obtain ⟨header, password, -, -, sound⟩ := owned
  exact sound.named

/-- After a call the file is its owner's, and has all that was promised. -/
structure Fulfils (master : Nat) (promised : Entries) (call : Call) (result : Status × World) : Prop where
  owned : Owned master result.2
  knows : Knows master result.2.store
  entries : ∀ target cred, (if result.1 = .ok then promise promised call else promised).get target = some cred →
    result.2.saved.get target = some cred

theorem fulfils_quiet {call : Call} {result : Status × World} (owned : Owned master world)
    (entries : ∀ target cred, promised.get target = some cred → world.saved.get target = some cred)
    (quiet : Quiet master world result.2)
    (fewer : result.1 = .ok → ∀ target cred, (promise promised call).get target = some cred → promised.get target = some cred)
    :
    Fulfils master promised call result where
  owned := owned.of_quiet quiet
  knows := quiet.knows
  entries target cred there := by
    rw [quiet.saved]
    apply entries
    split at there
    · rename_i ok
      exact fewer ok target cred there
    · exact there

theorem fulfils_set (owned : Owned master world) (knows : Knows master world.store)
    (entries : ∀ target cred, promised.get target = some cred → world.saved.get target = some cred) (target : QString)
    (cred : SCredentials)
    (ready : world.store.master ≠ none → Chance.Saves chance → target ≠ [] ∧ HasWrapping world ∧ HasOthers world target) :
    Fulfils master promised (.set target cred chance) (CredentialStore.set world target cred chance) := by
  cases unlocked : world.store.master with
  | none =>
    have locked : CredentialStore.set world target cred chance = (.locked, world) := by
      simp [CredentialStore.set, Store.IsUnlocked, unlocked]
    rw [locked]
    exact fulfils_quiet owned entries (Quiet.refl knows) (fun ok => by cases ok)
  | some secret =>
    obtain ⟨rfl, loaded⟩ := knows.held secret unlocked
    have is_unlocked : world.store.IsUnlocked = true := by simp [Store.IsUnlocked, unlocked]
    obtain ⟨header, password, present, owner, sound⟩ := id owned
    simp only [CredentialStore.set, is_unlocked, if_true]
    have prepared : Chance.Saves chance → WrappedFor world.store.header password secret ∧
        Named (world.store.entries.insert target cred) := by
      intro saves
      obtain ⟨named, wrapping, others⟩ := ready (by simp [unlocked]) saves
      refine ⟨wrapping.wrappedFor owned owner, ?_⟩
      simp only [Named, OrdMap.get_insert, named, if_false]
      rw [others [] (Ne.symm named)]
      exact owned.named
    rcases save_shared { world with store := { world.store with entries := world.store.entries.insert target cred } }
      ⟨knows.wrapped, knows.held⟩ unlocked owner prepared with ⟨failed, quiet⟩ | ⟨saves, ok, owned, saved, knows⟩
    · exact fulfils_quiet owned entries ⟨quiet.file, quiet.owner, quiet.saved, quiet.knows⟩ (fun ok => absurd ok failed)
    · refine ⟨owned, knows, ?_⟩
      intro other value there
      obtain ⟨-, -, others⟩ := ready (by simp [unlocked]) saves
      rw [if_pos ok, promise, OrdMap.get_insert] at there
      rw [saved, OrdMap.get_insert]
      split at there
      · rename_i same
        rw [if_pos same]
        exact there
      · rename_i different
        rw [if_neg different, others other (Ne.symm different)]
        exact entries other value there

theorem fulfils_remove (owned : Owned master world) (knows : Knows master world.store)
    (entries : ∀ target cred, promised.get target = some cred → world.saved.get target = some cred) (target : QString)
    (ready : world.store.master ≠ none → world.store.entries.get target ≠ none → Chance.Saves chance → HasWrapping world ∧ HasOthers world target)
    : Fulfils master promised (.remove target chance) (remove world target chance) := by
  have fewer : ∀ other cred, (promise promised (.remove target chance)).get other = some cred → promised.get other = some cred := by
    intro other cred there
    rw [promise, OrdMap.get_erase] at there
    split at there
    · cases there
    · exact there
  cases unlocked : world.store.master with
  | none =>
    have locked : remove world target chance = (.locked, world) := by
      simp [remove, Store.IsUnlocked, unlocked]
    rw [locked]
    exact fulfils_quiet owned entries (Quiet.refl knows) (fun ok => by cases ok)
  | some secret =>
    obtain ⟨rfl, loaded⟩ := knows.held secret unlocked
    have is_unlocked : world.store.IsUnlocked = true := by simp [Store.IsUnlocked, unlocked]
    obtain ⟨header, password, present, owner, sound⟩ := id owned
    simp only [remove, is_unlocked, if_true]
    split
    · exact fulfils_quiet owned entries (Quiet.refl knows) (fun _ => fewer)
    · rename_i there
      have present : world.store.entries.get target ≠ none := by simpa using there
      have prepared : Chance.Saves chance → WrappedFor world.store.header password secret ∧
          Named (world.store.entries.erase target) := by
        intro saves
        obtain ⟨wrapping, others⟩ := ready (by simp [unlocked]) present saves
        refine ⟨wrapping.wrappedFor owned owner, ?_⟩
        rw [Named, OrdMap.get_erase]
        split
        · rfl
        · rename_i different
          rw [others [] (Ne.symm different)]
          exact owned.named
      rcases save_shared { world with store := { world.store with entries := world.store.entries.erase target } }
        ⟨knows.wrapped, knows.held⟩ unlocked owner prepared with ⟨failed, quiet⟩ | ⟨saves, ok, owned, saved, knows⟩
      · exact fulfils_quiet owned entries ⟨quiet.file, quiet.owner, quiet.saved, quiet.knows⟩ (fun ok => absurd ok failed)
      · refine ⟨owned, knows, ?_⟩
        intro other value there
        obtain ⟨-, others⟩ := ready (by simp [unlocked]) present saves
        rw [if_pos ok, promise, OrdMap.get_erase] at there
        rw [saved, OrdMap.get_erase]
        split at there
        · cases there
        · rename_i different
          rw [if_neg different, others other (Ne.symm different)]
          exact entries other value there

theorem fulfils_change_password (owned : Owned master world) (knows : Knows master world.store)
    (entries : ∀ target cred, promised.get target = some cred → world.saved.get target = some cred) (password : QString)
    (ready : world.store.master ≠ none → chance.derive = true → chance.wrap = true → Chance.Saves chance → world.store.entries = world.saved)
    : Fulfils master promised (.changePassword password chance) (change_password world password chance) := by
  cases unlocked : world.store.master with
  | none =>
    have locked : change_password world password chance = (.locked, world) := by
      simp [change_password, unlocked]
    rw [locked]
    exact fulfils_quiet owned entries (Quiet.refl knows) (fun ok => by cases ok)
  | some secret =>
    obtain ⟨rfl, loaded⟩ := knows.held secret unlocked
    by_cases works : (chance.derive = true ∧ chance.wrap = true) ∧ Chance.Saves chance
    · have same : world.store.entries = world.saved := ready (by simp [unlocked]) works.1.1 works.1.2 works.2
      simp only [change_password, unlocked, works.1.1, works.1.2, if_true]
      rw [save_works rfl works.2.1 works.2.2]
      refine ⟨⟨_, password, rfl, rfl, ?_⟩, ⟨?_, ?_⟩, ?_⟩
      · refine sound_sealing works.2.1 ⟨some chance.nonce, rfl⟩ ?_
        rw [same]
        exact owned.named
      · intro _ box wrapped
        cases wrapped
        rfl
      · intro other held
        cases held
        exact ⟨rfl, rfl⟩
      · intro target cred there
        simp only [if_true, promise] at there
        rw [same]
        exact entries target cred there
    · have quiet : Quiet secret world (change_password world password chance).2 ∧ (change_password world password chance).1 ≠ .ok := by
        by_cases wraps : chance.derive = true ∧ chance.wrap = true
        · have failed : (change_password world password chance).1 ≠ .ok := by
            cases encrypted : chance.encrypt <;> cases written : chance.write <;>
              simp [Chance.Saves, change_password, save, unlocked, wraps.1, wraps.2, encrypted, written] at works ⊢
          rw [(change_password_failed failed unlocked wraps.1 wraps.2).1]
          refine ⟨⟨rfl, rfl, rfl, ?_, knows.held⟩, failed⟩
          intro _ box wrapped
          cases wrapped
          rfl
        · obtain ⟨failed, later⟩ := change_password_unwrapped unlocked wraps
          rw [later]
          exact ⟨⟨rfl, rfl, rfl, knows.wrapped, knows.held⟩, failed⟩
      exact fulfils_quiet owned entries quiet.1 (fun ok => absurd ok quiet.2)

/-! ## Every interleaving -/

/-- A program that opens the file now. -/
def reader (shared : Shared Process) : World := { file := shared.file, owner := shared.owner, saved := shared.saved }

/-- The file has one key, which every process knows it by, and all that was promised. -/
structure Agreed (master : Nat) (shared : Shared Process) : Prop where
  owned : Owned master (reader shared)
  knows : ∀ who, Knows master (shared.stores who)
  entries : ∀ target cred, shared.promised.get target = some cred → shared.saved.get target = some cred

theorem Agreed.of_fulfils {shared : Shared Process} (agreed : Agreed master shared) {who : Process} {call : Call}
    (fulfils : Fulfils master shared.promised call (perform (view shared who) call)) :
    Agreed master (act shared who call) where
  owned := fulfils.owned
  knows other := by
    simp only [act]
    split
    · exact fulfils.knows
    · exact agreed.knows other
  entries := fulfils.entries

theorem Agreed.step {shared later : Shared Process} {event : Process × Call} (agreed : Agreed master shared)
    (current : UpToDate shared event) (moved : step shared event = some later) : Agreed master later := by
  obtain ⟨who, call⟩ := event
  have owned : Owned master (view shared who) := agreed.owned
  have knows : Knows master (view shared who).store := agreed.knows who
  simp only [CredentialShared.step] at moved
  split at moved
  · rename_i shares
    cases moved
    apply agreed.of_fulfils
    cases call with
    | unlock password chance =>
      obtain ⟨header, owner, present, -, sound⟩ := id owned
      exact fulfils_quiet owned agreed.entries (quiet_unlock knows present sound password chance) (fun _ _ _ there => there)
    | lock => exact fulfils_quiet owned agreed.entries ⟨rfl, rfl, rfl, knows_locked knows⟩ (fun _ _ _ there => there)
    | set target cred chance => exact fulfils_set owned knows agreed.entries target cred current
    | remove target chance => exact fulfils_remove owned knows agreed.entries target current
    | changePassword password chance => exact fulfils_change_password owned knows agreed.entries password current
    | restart =>
      exact fulfils_quiet owned agreed.entries ⟨rfl, rfl, rfl, knows_nothing master⟩ (fun _ _ _ there => there)
    | create password platformUnlock creation => cases shares
    | tryUnlock chance => cases shares
    | setPlatformUnlock on chance => cases shares
  · cases moved

/-- A store that is there, and programs that have not looked at it yet. -/
def Starts (shared : Shared Process) : Prop :=
  (∃ master, Owned master (reader shared)) ∧ shared.promised = shared.saved ∧ ∀ who, shared.stores who = {}

/-- The password of the last `ChangePassword` is the one that opens the file, and
    every entry whose `Set` returned OK is there unless it was removed or set again. -/
def NothingLost (shared : Shared Process) : Prop :=
  ∃ password entries, shared.owner = some password ∧ (∀ other, Admits (reader shared) other ↔ other = password) ∧
    Opens (reader shared) password entries ∧
    ∀ target cred, shared.promised.get target = some cred → entries.get target = some cred

theorem nothing_lost {first last : Shared Process} (starts : Starts first) (run : Run step UpToDate first last) :
    NothingLost last := by
  obtain ⟨⟨master, owned⟩, promised, blank⟩ := starts
  have agreed : Agreed master last := by
    apply run.invariant (Agreed master)
    · refine ⟨owned, ?_, ?_⟩
      · intro who
        rw [blank who]
        exact knows_nothing master
      · rw [promised]
        exact fun _ _ there => there
    · exact Agreed.step
  obtain ⟨header, password, present, owner, sound⟩ := agreed.owned
  have opens : Opens (reader last) password last.saved := by
    apply sound.opens present
    intro loaded
    cases loaded
  refine ⟨password, last.saved, owner, ?_, opens, agreed.entries⟩
  intro other
  constructor
  · intro admits
    obtain ⟨file, there, secret, plain, opened, -⟩ := admits_iff.mp admits
    rw [present] at there
    cases there
    exact ((unwrap_iff sound.wrapped).mp opened).1
  · rintro rfl
    exact opens.1

/-- A new store, and two programs. -/
def newStore : Shared Bool :=
  { file := some (sealing { rewrapped {} ['a'] 1 { salt := 2, nonce := 3 } with platformWrapped := none } 1 .empty { bodyNonce := 4 })
    owner := some ['a']
    saved := .empty
    promised := .empty }

theorem newStore_starts : Starts newStore := by
  refine ⟨⟨1, _, ['a'], rfl, rfl, ?_⟩, rfl, fun _ => rfl⟩
  exact sound_sealing rfl ⟨some 3, rfl⟩ rfl

/-- One program sets an entry and changes the password; the other starts after that. -/
def turnsRun : List (Bool × Call) :=
  [(true, .unlock ['a'] {}), (true, .set ['b', 'o', 'x'] ⟨[1], [2], [3]⟩ { bodyNonce := 5 }),
    (true, .changePassword ['b'] { salt := 6, nonce := 7, bodyNonce := 8 }), (false, .unlock ['b'] {}),
    (false, .set ['n', 'e', 'w'] ⟨[4], [5], [6]⟩ { bodyNonce := 9 })]

theorem nothing_lost_turns : ∃ last, runs step newStore turnsRun = some last ∧
    last.promised.get ['b', 'o', 'x'] = some ⟨[1], [2], [3]⟩ ∧ last.promised.get ['n', 'e', 'w'] = some ⟨[4], [5], [6]⟩ ∧
    NothingLost last := by
  have meets : Meets step UpToDate newStore turnsRun := by
    refine ⟨trivial, ?_, ?_, trivial, ?_, trivial⟩
    · intro _ _
      exact ⟨by decide, ⟨_, rfl, rfl, rfl, rfl⟩, fun _ _ => rfl⟩
    · intro _ _ _ _
      rfl
    · intro _ _
      exact ⟨by decide, ⟨_, rfl, rfl, rfl, rfl⟩, fun _ _ => rfl⟩
  exact ⟨_, rfl, by decide, by decide, nothing_lost newStore_starts (Run.of_runs .start meets rfl)⟩

/-- Both programs have read the file when each sets an entry: the first one is lost. -/
def clashRun : List (Bool × Call) :=
  [(true, .unlock ['a'] {}), (false, .unlock ['a'] {}), (true, .set ['b', 'o', 'x'] ⟨[1], [2], [3]⟩ { bodyNonce := 5 }),
    (false, .set ['n', 'e', 'w'] ⟨[4], [5], [6]⟩ { bodyNonce := 9 })]

theorem entry_lost : ¬ ∀ {first last : Shared Bool}, Starts first → Run step Always first last → NothingLost last := by
  intro always
  have lost := always newStore_starts (Run.of_runs .start (meets_always _ clashRun) rfl)
  obtain ⟨password, entries, owner, -, ⟨-, rfl⟩, kept⟩ := lost
  cases owner
  have box := kept ['b', 'o', 'x'] ⟨[1], [2], [3]⟩ (by decide)
  revert box
  decide

end TaskExplorer.CredentialShared
