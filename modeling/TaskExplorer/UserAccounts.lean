import TaskExplorer.ByteText
import TaskExplorer.OrderedMap
import TaskExplorer.Transition

/-!
# The accounts of the server

The accounts that may log in stand in the configuration file, one group below `Users` for
each name. `WriteUser` and `RemoveUser` make a group from the name they are given, and
`ReadUsers` lists the groups that are there. Beside the file the model keeps the accounts as
a finite map, which is what the groups are to stand for.
-/

namespace TaskExplorer.UserAccounts
open OrderedMap ByteText Transition

abbrev Name := List Char

/-! ## Settings -/

inductive Value where
  | text (s : Name)
  | flag (b : Bool)
  | number (n : Nat)
deriving DecidableEq, Repr

namespace Value

def toString : Value → Name
  | text s => s
  | flag b => if b then "true".toList else "false".toList
  | number n => (Nat.repr n).toList

local instance same_names : LawfulBEq Name := inferInstance

def toBool : Value → Bool
  | text s => s.map Char.toLower ∉ ["".toList, "0".toList, "false".toList]
  | flag b => b
  | number n => n != 0

end Value

abbrev Key := List Name

/-- Settings under keys of several parts; a key may have a value and keys below it. -/
abbrev Settings := OrdMap Key Value

/-- What divides a key into its parts. -/
def isSeparator (windows : Bool) (c : Char) : Bool := c == '/' || (windows && c == '\\')

/-- The parts of a key; parts without text are dropped. -/
def path (windows : Bool) (key : Name) : Key := words (isSeparator windows) key

def setValue (windows : Bool) (group : Key) (key : Name) (value : Value) (settings : Settings) : Settings :=
  settings.insert (group ++ path windows key) value

/-- Takes the key away and all below it. The empty key is the group itself. -/
def remove (windows : Bool) (group : Key) (key : Name) (settings : Settings) : Settings :=
  settings.filter fun other _ => !(group ++ path windows key).isPrefixOf other

def value (windows : Bool) (group : Key) (key : Name) (default : Value) (settings : Settings) : Value :=
  (settings.get (group ++ path windows key)).getD default

/-- The group right below this one that a key stands in. -/
def childGroup (group key : Key) : Option Name :=
  if group.isPrefixOf key then
    match key.drop group.length with
    | child :: _ :: _ => some child
    | _ => none
  else none

def childGroups (group : Key) (settings : Settings) : List Name :=
  (settings.entries.filterMap fun entry => childGroup group entry.1).dedup

theorem get_setValue (windows : Bool) (group : Key) (key : Name) (value : Value) (settings : Settings) (sought : Key) :
    (setValue windows group key value settings).get sought =
      if group ++ path windows key = sought then some value else settings.get sought := by
  simp only [setValue, OrdMap.get_insert]
  congr

theorem get_remove (windows : Bool) (group : Key) (key : Name) (settings : Settings) (sought : Key) :
    (remove windows group key settings).get sought =
      if group ++ path windows key <+: sought then none else settings.get sought := by
  rw [remove, OrdMap.get_filter]
  by_cases below : group ++ path windows key <+: sought
  · have yes := List.isPrefixOf_iff_prefix.mpr below
    cases settings.get sought <;> simp [below, yes]
  · have no : (group ++ path windows key).isPrefixOf sought = false := by
      rw [Bool.eq_false_iff]
      exact fun yes => below (List.isPrefixOf_iff_prefix.mp yes)
    cases settings.get sought <;> simp [below, no]

theorem childGroup_eq_some {group key : Key} {child : Name} :
    childGroup group key = some child ↔ ∃ next rest, key = group ++ child :: next :: rest := by
  rw [childGroup]
  constructor
  · intro here
    split_ifs at here with below
    obtain ⟨rest, rfl⟩ := List.isPrefixOf_iff_prefix.mp below
    rw [List.drop_left] at here
    match rest, here with
    | first :: next :: rest, here =>
      cases here
      exact ⟨next, rest, rfl⟩
  · rintro ⟨next, rest, rfl⟩
    rw [if_pos (List.isPrefixOf_iff_prefix.mpr (List.prefix_append _ _)), List.drop_left]

theorem mem_childGroups {group : Key} {settings : Settings} {child : Name} :
    child ∈ childGroups group settings ↔ ∃ next rest, settings.get (group ++ child :: next :: rest) ≠ none := by
  rw [childGroups, List.mem_dedup, List.mem_filterMap]
  constructor
  · rintro ⟨⟨key, value⟩, member, here⟩
    obtain ⟨next, rest, rfl⟩ := childGroup_eq_some.mp here
    rw [OrdMap.mem_entries] at member
    exact ⟨next, rest, by simp [member]⟩
  · rintro ⟨next, rest, present⟩
    obtain ⟨value, found⟩ := Option.ne_none_iff_exists'.mp present
    exact ⟨(_, value), OrdMap.mem_entries.mpr found, childGroup_eq_some.mpr ⟨next, rest, rfl⟩⟩

theorem path_word {windows : Bool} {name : Name} (h : Word (isSeparator windows) name) : path windows name = [name] := words_word h

/-! ## Texts -/

def isSpace (c : Char) : Bool :=
  let n := c.toNat
  n == 0x20 || (0x09 ≤ n && n ≤ 0x0d) || n == 0x85 || n == 0xa0 || n == 0x1680 || (0x2000 ≤ n && n ≤ 0x200a) ||
    n == 0x2028 || n == 0x2029 || n == 0x202f || n == 0x205f || n == 0x3000

def trimmed (s : Name) : Name := (s.dropWhile isSpace).rdropWhile isSpace

def hexDigit (n : UInt8) : Char := Char.ofNat (digit_char n.toNat).toNat

def toHex (bytes : Bytes) : Name := bytes.flatMap fun byte => [hexDigit (byte / 16), hexDigit (byte % 16)]

theorem toHex_eq_nil {bytes : Bytes} : toHex bytes = [] ↔ bytes = [] := by
  cases bytes <;> simp [toHex]

/-! ## The functions of the source -/

inductive TaskError where
  | TE_ServerSetupNeedsAdmin
  | TE_ServerServiceFailed
  | TE_ServerKeyFileFailed
deriving DecidableEq, Repr

inductive STATUS where
  | OK
  | ERR (code : TaskError) (args : List Name)
deriving DecidableEq, Repr

def STATUS.IsError : STATUS → Bool
  | OK => false
  | ERR _ _ => true

structure SServerUserRecord where
  Name : Name
  bAdmin : Bool := false
  bActions : Bool := false
  bSystemAccount : Bool := false
  NewPassword : UserAccounts.Name := []
  bSetPassword : Bool := false
deriving DecidableEq, Repr

def PWHASH_ITERATIONS_DEFAULT : Nat := 600000

def PWHASH_SALT_BYTES : Nat := 16

def PWHASH_KEY_BYTES : Nat := 32

/-- What stays the same while the program runs. -/
structure Platform where
  windows : Bool
  ConfigFilePath : Name
  deriveKeyPbkdf2 : Bytes → Bytes → Nat → Nat → Bytes
  /-- The key has the length that is asked for. -/
  length_key : ∀ Password Salt Iterations length, (deriveKeyPbkdf2 Password Salt Iterations length).length = length

/-- What one call finds: its rights, what `EnsurePrivateDirectory` comes to, whether the file is
written, and the salt it draws. A file that is not written stays as it was. -/
structure Call where
  IsPrivileged : Bool := true
  EnsurePrivateDirectory : STATUS := .OK
  sync : Bool := true
  MakeSalt : { salt : Bytes // salt.length = PWHASH_SALT_BYTES }
deriving DecidableEq

def Derive (platform : Platform) (Password Salt : Bytes) (Iterations : Nat) : Bytes :=
  if Salt.isEmpty || Iterations == 0 then [] else platform.deriveKeyPbkdf2 Password Salt Iterations PWHASH_KEY_BYTES

def Users : Key := ["Users".toList]

/-! The settings of an account. -/

def Field.Role : Name := "Role".toList

def Field.Actions : Name := "Actions".toList

def Field.Salt : Name := "Salt".toList

def Field.Hash : Name := "Hash".toList

def Field.Iterations : Name := "Iterations".toList

def readUser (windows : Bool) (settings : Settings) (Name : Name) : SServerUserRecord :=
  let group := Users ++ path windows Name
  { Name
    bAdmin := ((value windows group Field.Role (.text "User".toList) settings).toString.map Char.toLower) == "admin".toList
    bActions := (value windows group Field.Actions (.flag false) settings).toBool
    bSystemAccount := (value windows group Field.Hash (.text []) settings).toString.isEmpty }

def ReadUsers (platform : Platform) (file : Option Settings) : Bool × List SServerUserRecord :=
  match file with
  | none => (false, [])
  | some settings => (true, (childGroups Users settings).map (readUser platform.windows settings))

def isUsable (Name : Name) : Bool := !(Name.isEmpty || Name.contains '/' || Name.head? == some '.')

/-- The keys that `WriteUser` sets in the group of the account. -/
def writeGroup (platform : Platform) (User : SServerUserRecord) (call : Call) (group : Key) (settings : Settings) : Settings :=
  let windows := platform.windows
  let settings := setValue windows group Field.Role (.text (if User.bAdmin then "Admin".toList else "User".toList)) settings
  let settings := setValue windows group Field.Actions (.flag User.bActions) settings
  if User.bSetPassword then
    if User.NewPassword.isEmpty then
      let settings := remove windows group Field.Salt settings
      let settings := remove windows group Field.Hash settings
      remove windows group Field.Iterations settings
    else
      let Salt := call.MakeSalt.val
      let Hash := Derive platform (toUtf8 User.NewPassword) Salt PWHASH_ITERATIONS_DEFAULT
      let settings := setValue windows group Field.Salt (.text (toHex Salt)) settings
      let settings := setValue windows group Field.Hash (.text (toHex Hash)) settings
      setValue windows group Field.Iterations (.number PWHASH_ITERATIONS_DEFAULT) settings
  else settings

def couldNotWrite (platform : Platform) : STATUS := .ERR .TE_ServerServiceFailed ["could not write ".toList ++ platform.ConfigFilePath]

def WriteUser (platform : Platform) (User : SServerUserRecord) (call : Call) (file : Option Settings) : Option Settings × STATUS :=
  if !call.IsPrivileged then (file, .ERR .TE_ServerSetupNeedsAdmin [])
  else
    let Name := trimmed User.Name
    if !isUsable Name then
      (file, .ERR .TE_ServerServiceFailed ["\"".toList ++ User.Name ++ "\" is not a usable user name".toList])
    else if call.EnsurePrivateDirectory.IsError then (file, call.EnsurePrivateDirectory)
    else if !call.sync then (file, couldNotWrite platform)
    else
      (some (writeGroup platform User call (Users ++ path platform.windows Name) (file.getD OrdMap.empty)), .OK)

def RemoveUser (platform : Platform) (Name : Name) (call : Call) (file : Option Settings) : Option Settings × STATUS :=
  if !call.IsPrivileged then (file, .ERR .TE_ServerSetupNeedsAdmin [])
  else
    match file with
    | none => (file, .OK)
    | some settings =>
      if !call.sync then (file, couldNotWrite platform)
      else (some (remove platform.windows Users Name settings), .OK)

/-! ## The accounts as a map -/

/-- What a password is checked against. -/
structure Stored where
  Salt : Name
  Hash : Name
  Iterations : Nat
  kept : Hash ≠ []
deriving DecidableEq

/-- An account; without a stored password the operating system is asked. -/
structure Account where
  admin : Bool
  actions : Bool
  password : Option Stored
deriving DecidableEq

abbrev Accounts := OrdMap Name Account

def derived (platform : Platform) (NewPassword : Name) (call : Call) : Stored where
  Salt := toHex call.MakeSalt.val
  Hash := toHex (Derive platform (toUtf8 NewPassword) call.MakeSalt.val PWHASH_ITERATIONS_DEFAULT)
  Iterations := PWHASH_ITERATIONS_DEFAULT
  kept := by
    have salted : call.MakeSalt.val ≠ [] := List.ne_nil_of_length_pos (by rw [call.MakeSalt.2]; decide)
    have long := platform.length_key (toUtf8 NewPassword) call.MakeSalt.val PWHASH_ITERATIONS_DEFAULT PWHASH_KEY_BYTES
    rw [Ne, toHex_eq_nil, Derive, if_neg (by simp [salted, PWHASH_ITERATIONS_DEFAULT])]
    exact List.ne_nil_of_length_pos (by rw [long]; decide)

/-- The account as it is written over what stood under its name. -/
def written (platform : Platform) (User : SServerUserRecord) (call : Call) (before : Option Account) : Account where
  admin := User.bAdmin
  actions := User.bActions
  password :=
    if User.bSetPassword then
      if User.NewPassword.isEmpty then none else some (derived platform User.NewPassword call)
    else before.bind Account.password

inductive Event where
  | WriteUser (User : SServerUserRecord) (call : Call)
  | RemoveUser (Name : Name) (call : Call)
deriving DecidableEq

namespace Event

/-- The account that a call is about. A name goes by what is left of it without blanks. -/
def name : Event → Name
  | WriteUser User _ => trimmed User.Name
  | RemoveUser Name _ => trimmed Name

/-- What a call that was accepted means for the accounts. -/
def effect (platform : Platform) (accounts : Accounts) : Event → Accounts
  | WriteUser User call => accounts.insert (trimmed User.Name) (written platform User call (accounts.get (trimmed User.Name)))
  | RemoveUser Name _ => accounts.erase (trimmed Name)

def take (platform : Platform) (file : Option Settings) : Event → Option Settings × STATUS
  | WriteUser User call => UserAccounts.WriteUser platform User call file
  | RemoveUser Name call => UserAccounts.RemoveUser platform Name call file

end Event

/-- The file, and beside it the accounts that were accepted and not removed since. -/
structure State where
  file : Option Settings
  accounts : Accounts

def step (platform : Platform) (state : State) (event : Event) : Option State :=
  let result := event.take platform state.file
  some { file := result.1, accounts := if result.2.IsError then state.accounts else event.effect platform state.accounts }

/-- What stands in the file below `Users`. -/
def stored (file : Option Settings) (key : Key) : Option Value := file.bind fun settings => settings.get (Users ++ key)

/-- What the account has under a key of its group. -/
def Account.value (account : Account) (key : Name) : Option Value :=
  if key = Field.Role then some (.text (if account.admin then "Admin".toList else "User".toList))
  else if key = Field.Actions then some (.flag account.actions)
  else account.password.bind fun password =>
    if key = Field.Salt then some (.text password.Salt)
    else if key = Field.Hash then some (.text password.Hash)
    else if key = Field.Iterations then some (.number password.Iterations)
    else none

/-- What is to stand below `Users` for the accounts. -/
def layout (accounts : Accounts) : Key → Option Value
  | [name, key] => (accounts.get name).bind fun account => account.value key
  | _ => none

def shown (name : Name) (account : Account) : SServerUserRecord where
  Name := name
  bAdmin := account.admin
  bActions := account.actions
  bSystemAccount := account.password.isNone

/-- The file stands for the accounts: one record is read for each of them and no other, and
all that is kept below `Users` is theirs. -/
structure Table (platform : Platform) (state : State) : Prop where
  once : ((ReadUsers platform state.file).2.map SServerUserRecord.Name).Nodup
  read : ∀ record, record ∈ (ReadUsers platform state.file).2 ↔
    ∃ account, state.accounts.get record.Name = some account ∧ record = shown record.Name account
  kept : ∀ key, stored state.file key = layout state.accounts key

/-! ## One group -/

def Field.all : List Name := [Field.Role, Field.Actions, Field.Salt, Field.Hash, Field.Iterations]

theorem Field.distinct : Field.all.Pairwise fun left right => left ≠ right ∧ right ≠ left := by decide +kernel

theorem Field.word : ∀ key ∈ Field.all, key ≠ [] ∧ '/' ∉ key ∧ '\\' ∉ key := by decide +kernel

theorem path_field {windows : Bool} {key : Name} (member : key ∈ Field.all) : path windows key = [key] := by
  obtain ⟨text, slash, back⟩ := Field.word key member
  refine path_word ⟨text, fun c inside => ?_⟩
  have first : c ≠ '/' := fun same => slash (same ▸ inside)
  have second : c ≠ '\\' := fun same => back (same ▸ inside)
  simp [isSeparator, first, second]

theorem Field.cases (key : Name) : key = Field.Role ∨ key = Field.Actions ∨ key = Field.Salt ∨ key = Field.Hash ∨ key = Field.Iterations ∨
    ∀ field ∈ Field.all, field ≠ key ∧ key ≠ field := by
  by_cases member : key ∈ Field.all
  · have listed : key = Field.Role ∨ key = Field.Actions ∨ key = Field.Salt ∨ key = Field.Hash ∨ key = Field.Iterations := by
      simpa [Field.all] using member
    rcases listed with here | here | here | here | here <;> simp [here]
  · refine .inr (.inr (.inr (.inr (.inr fun field inside => ?_))))
    exact ⟨fun same => member (same ▸ inside), fun same => member (same ▸ inside)⟩

section Group
variable (platform : Platform) (User : SServerUserRecord) (call : Call) (group : Key) {settings : Settings}

theorem writeGroup_inside {before : Option Account}
    (stands : ∀ key, settings.get (group ++ [key]) = before.bind fun account => account.value key) (key : Name) :
    (writeGroup platform User call group settings).get (group ++ [key]) = (written platform User call before).value key := by
  have distinct := Field.distinct
  have paths := @path_field platform.windows
  have keys := Field.cases key
  simp only [Field.all, List.pairwise_cons, List.mem_cons, forall_eq_or_imp, List.not_mem_nil, or_false, forall_eq] at distinct paths keys
  rw [writeGroup, written]
  by_cases replaced : User.bSetPassword = true
  · by_cases dropped : User.NewPassword.isEmpty = true
    · rcases keys with rfl | rfl | rfl | rfl | rfl | other <;> simp [get_setValue, get_remove, Account.value, *]
    · rcases keys with rfl | rfl | rfl | rfl | rfl | other <;> simp [get_setValue, Account.value, derived, *]
  · rcases keys with rfl | rfl | rfl | rfl | rfl | other <;> cases before <;> simp [get_setValue, Account.value, *]

theorem writeGroup_below {sought : Key} (deeper : ∀ key, group ++ [key] ≠ sought) (free : settings.get sought = none) :
    (writeGroup platform User call group settings).get sought = none := by
  have paths := @path_field platform.windows
  simp only [Field.all, List.mem_cons, forall_eq_or_imp, List.not_mem_nil, or_false, forall_eq] at paths
  rw [writeGroup]
  split_ifs <;> simp [get_setValue, get_remove, *]

theorem writeGroup_outside {sought : Key} (outside : ∀ key, ¬ group ++ [key] <+: sought) :
    (writeGroup platform User call group settings).get sought = settings.get sought := by
  have different : ∀ key, group ++ [key] ≠ sought := fun key same => outside key (same ▸ List.prefix_rfl)
  have paths := @path_field platform.windows
  simp only [Field.all, List.mem_cons, forall_eq_or_imp, List.not_mem_nil, or_false, forall_eq] at paths
  rw [writeGroup]
  split_ifs <;> simp [get_setValue, get_remove, *]

end Group

/-! ## What the file stands for -/

theorem stored_eq (file : Option Settings) (key : Key) : stored file key = (file.getD OrdMap.empty).get (Users ++ key) := by
  cases file <;> rfl

/-- The file has the layout of the accounts, and each of their names is one part of a key. -/
structure Good (platform : Platform) (state : State) : Prop where
  kept : ∀ key, stored state.file key = layout state.accounts key
  words : ∀ name account, state.accounts.get name = some account → Word (isSeparator platform.windows) name

variable {accounts : Accounts}

theorem layout_role {name : Name} {account : Account} (found : accounts.get name = some account) :
    layout accounts [name, Field.Role] = some (.text (if account.admin then "Admin".toList else "User".toList)) := by
  simp only [layout, found, Option.bind_some, Account.value, if_true]

theorem layout_none {name : Name} (absent : accounts.get name = none) (key : Key) :
    layout accounts (name :: key) = none := by
  match key with
  | [] => rfl
  | [last] => simp [layout, absent]
  | _ :: _ :: _ => rfl

theorem layout_ne_none {key : Key} (present : layout accounts key ≠ none) :
    ∃ name last account, key = [name, last] ∧ accounts.get name = some account := by
  match key, present with
  | [name, last], present =>
    cases found : accounts.get name with
    | none => exact absurd (layout_none found [last]) present
    | some account => exact ⟨name, last, account, rfl, found⟩

theorem layout_other {later : Accounts} {name : Name} (same : later.get name = accounts.get name) (key : Key) :
    layout later (name :: key) = layout accounts (name :: key) := by
  match key with
  | [] => rfl
  | [last] => simp only [layout, same]
  | _ :: _ :: _ => rfl

section Table
variable {platform : Platform} {state : State}

theorem readUser_shown (good : Good platform state) {settings : Settings} (present : state.file = some settings) {name : Name}
    {account : Account} (found : state.accounts.get name = some account) : readUser platform.windows settings name = shown name account := by
  have alone : path platform.windows name = [name] := path_word (good.words name account found)
  have paths := @path_field platform.windows
  have distinct := Field.distinct
  simp only [Field.all, List.pairwise_cons, List.mem_cons, forall_eq_or_imp, List.not_mem_nil, or_false, forall_eq] at distinct paths
  have reads : ∀ field, settings.get (Users ++ [name] ++ [field]) = account.value field := by
    intro field
    have here := good.kept [name, field]
    rwa [present, stored_eq, Option.getD_some, layout, found, Option.bind_some, ← List.singleton_append, ← List.append_assoc] at here
  have role : (((account.value Field.Role).getD (.text "User".toList)).toString.map Char.toLower == "admin".toList) = account.admin := by
    simp only [Account.value, if_true, Option.getD_some, Value.toString]
    cases account.admin <;> decide +kernel
  have actions : ((account.value Field.Actions).getD (.flag false)).toBool = account.actions := by
    simp [Account.value, distinct, Value.toBool]
  have system : ((account.value Field.Hash).getD (.text [])).toString.isEmpty = account.password.isNone := by
    cases given : account.password with
    | none => simp [Account.value, distinct, given, Value.toString]
    | some password => simp [Account.value, distinct, given, Value.toString, password.kept]
  simp only [readUser, alone, value, paths, reads, shown, role, actions, system]

theorem mem_childGroups_iff (good : Good platform state) {settings : Settings} (present : state.file = some settings) {name : Name} :
    name ∈ childGroups Users settings ↔ ∃ account, state.accounts.get name = some account := by
  have reads : ∀ key, settings.get (Users ++ key) = layout state.accounts key := by
    intro key
    rw [← good.kept key, present, stored_eq, Option.getD_some]
  rw [mem_childGroups]
  constructor
  · rintro ⟨next, rest, there⟩
    rw [reads] at there
    obtain ⟨_, _, account, same, found⟩ := layout_ne_none there
    cases same
    exact ⟨account, found⟩
  · rintro ⟨account, found⟩
    refine ⟨Field.Role, [], ?_⟩
    rw [reads, layout_role found]
    simp

theorem table_of_good (good : Good platform state) : Table platform state := by
  refine ⟨?_, fun record => ?_, good.kept⟩
  · cases present : state.file with
    | none => simp [ReadUsers]
    | some settings =>
      have names : (SServerUserRecord.Name ∘ readUser platform.windows settings) = id := rfl
      rw [ReadUsers, List.map_map, names, List.map_id]
      exact List.nodup_dedup _
  · cases present : state.file with
    | none =>
      have absent : ∀ name account, state.accounts.get name ≠ some account := by
        intro name account found
        have here := good.kept [name, Field.Role]
        rw [layout_role found, present] at here
        cases here
      simp [ReadUsers, absent]
    | some settings =>
      rw [ReadUsers, List.mem_map]
      constructor
      · rintro ⟨name, member, rfl⟩
        obtain ⟨account, found⟩ := (mem_childGroups_iff good present).mp member
        exact ⟨account, found, readUser_shown good present found⟩
      · rintro ⟨account, found, same⟩
        refine ⟨record.Name, (mem_childGroups_iff good present).mpr ⟨account, found⟩, ?_⟩
        rw [readUser_shown good present found, ← same]

end Table

/-! ## Calls -/

/-- The call has the rights, a directory and a file it can write. -/
def Accepts (User : SServerUserRecord) (call : Call) : Prop :=
  call.IsPrivileged = true ∧ isUsable (trimmed User.Name) = true ∧ call.EnsurePrivateDirectory.IsError = false ∧ call.sync = true

def Removes (call : Call) : Prop := call.IsPrivileged = true ∧ call.sync = true

instance (User : SServerUserRecord) (call : Call) : Decidable (Accepts User call) := inferInstanceAs (Decidable (_ ∧ _))

instance (call : Call) : Decidable (Removes call) := inferInstanceAs (Decidable (_ ∧ _))

/-- A written name is one part of a key. A removed name is the account's own key, or nothing
stands at either. -/
def Fits (platform : Platform) (state : State) : Event → Prop
  | .WriteUser User call => Accepts User call → platform.windows = true → '\\' ∉ trimmed User.Name
  | .RemoveUser Name call => Removes call → path platform.windows Name = [trimmed Name] ∨
      ∀ key, path platform.windows Name <+: key ∨ [trimmed Name] <+: key → stored state.file key = none

section Steps
variable {platform : Platform} {state later : State} {event : Event}

theorem write_refused {User : SServerUserRecord} {call : Call} (refused : ¬ Accepts User call) (file : Option Settings) :
    (WriteUser platform User call file).1 = file ∧ (WriteUser platform User call file).2.IsError = true := by
  rw [Accepts] at refused
  rw [WriteUser]
  cases rights : call.IsPrivileged <;> cases usable : isUsable (trimmed User.Name) <;>
    cases directory : call.EnsurePrivateDirectory.IsError <;> cases synced : call.sync <;> simp_all [STATUS.IsError, couldNotWrite]

theorem write_accepted {User : SServerUserRecord} {call : Call} (accepted : Accepts User call) (file : Option Settings) :
    WriteUser platform User call file =
      (some (writeGroup platform User call (Users ++ path platform.windows (trimmed User.Name)) (file.getD OrdMap.empty)), .OK) := by
  obtain ⟨rights, usable, directory, synced⟩ := accepted
  simp [WriteUser, rights, usable, directory, synced]

theorem remove_refused {Name : Name} {call : Call} (refused : ¬ Removes call) (file : Option Settings) :
    (RemoveUser platform Name call file).1 = file ∧ ((RemoveUser platform Name call file).2.IsError = true ∨ file = none) := by
  rw [Removes] at refused
  cases rights : call.IsPrivileged <;> cases synced : call.sync <;> cases file <;> simp_all [RemoveUser, STATUS.IsError, couldNotWrite]

theorem remove_accepted {Name : Name} {call : Call} (accepted : Removes call) (file : Option Settings) :
    RemoveUser platform Name call file = (file.map (remove platform.windows Users Name), .OK) := by
  obtain ⟨rights, synced⟩ := accepted
  cases file <;> simp [RemoveUser, rights, synced]

theorem usable_word {name : Name} (usable : isUsable name = true) (plain : platform.windows = true → '\\' ∉ name) :
    Word (isSeparator platform.windows) name := by
  simp only [isUsable, Bool.not_eq_true', Bool.or_eq_false_iff, List.isEmpty_eq_false_iff, List.contains_eq_mem, decide_eq_false_iff_not] at usable
  obtain ⟨⟨text, slash⟩, -⟩ := usable
  refine ⟨text, fun c inside => ?_⟩
  have first : c ≠ '/' := fun same => slash (same ▸ inside)
  cases os : platform.windows with
  | false => simp [isSeparator, first]
  | true =>
    have second : c ≠ '\\' := fun same => plain os (same ▸ inside)
    simp [isSeparator, first, second]

theorem stored_write (good : Good platform state) (User : SServerUserRecord) (call : Call) {name : Name}
    (alone : path platform.windows (trimmed User.Name) = [name]) (key : Key) :
    stored (some (writeGroup platform User call (Users ++ path platform.windows (trimmed User.Name)) (state.file.getD OrdMap.empty))) key =
      layout (state.accounts.insert name (written platform User call (state.accounts.get name))) key := by
  have reads : ∀ key, (state.file.getD OrdMap.empty).get (Users ++ key) = layout state.accounts key := by
    intro key
    rw [← stored_eq, good.kept key]
  have group : ∀ next rest, Users ++ name :: next :: rest = Users ++ [name] ++ next :: rest := by simp
  rw [stored_eq, Option.getD_some, alone]
  match key with
  | [] =>
    have short : ∀ last, ¬ Users ++ [name] ++ [last] <+: Users ++ [] := fun last below => by simpa using below.length_le
    rw [writeGroup_outside _ _ _ _ short, reads]
    rfl
  | [other] =>
    rw [writeGroup_outside _ _ _ _ (by simp [List.prefix_append_right_inj]), reads]
    rfl
  | other :: next :: rest =>
    by_cases same : other = name
    · subst same
      match rest with
      | [] =>
        have stands : ∀ last, (state.file.getD OrdMap.empty).get (Users ++ [other] ++ [last]) =
            (state.accounts.get other).bind fun account => account.value last := by
          intro last
          rw [← group, reads, layout]
        rw [group, writeGroup_inside platform User call _ stands, layout, OrdMap.get_insert, if_pos rfl, Option.bind_some]
      | below :: rest =>
        rw [group, writeGroup_below _ _ _ _ (by simp) (by rw [← group, reads]; rfl)]
        rfl
    · have apart : (state.accounts.insert name (written platform User call (state.accounts.get name))).get other = state.accounts.get other := by
        rw [OrdMap.get_insert, if_neg (Ne.symm same)]
      rw [writeGroup_outside _ _ _ _ (by simp [List.prefix_append_right_inj, Ne.symm same]), reads, layout_other apart]

theorem stored_remove (file : Option Settings) (Name : Name) (key : Key) :
    stored (file.map (remove platform.windows Users Name)) key =
      if path platform.windows Name <+: key then none else stored file key := by
  cases file with
  | none => simp [stored]
  | some settings =>
    rw [Option.map_some, stored_eq, stored_eq, Option.getD_some, Option.getD_some, get_remove]
    simp only [List.prefix_append_right_inj]

theorem layout_erase (accounts : Accounts) (name : Name) (key : Key) :
    layout (accounts.erase name) key = if [name] <+: key then none else layout accounts key := by
  match key with
  | [] => simp [layout]
  | other :: rest =>
    by_cases same : name = other
    · subst same
      rw [if_pos (by simp), layout_none (by simp)]
    · have kept : (accounts.erase name).get other = accounts.get other := by rw [OrdMap.get_erase, if_neg same]
      rw [if_neg (by simpa using same), layout_other kept]

theorem isSeparator_space (windows : Bool) {c : Char} (separates : isSeparator windows c = true) : isSpace c = false := by
  simp only [isSeparator, Bool.or_eq_true, Bool.and_eq_true, beq_iff_eq] at separates
  rcases separates with rfl | ⟨-, rfl⟩ <;> decide

theorem mem_trimmed {s : Name} {c : Char} (member : c ∈ s) (text : isSpace c = false) : c ∈ trimmed s := by
  have kept : ∀ l : Name, c ∈ l → c ∈ l.dropWhile isSpace := by
    intro l inside
    rw [← List.takeWhile_append_dropWhile (p := isSpace) (l := l), List.mem_append] at inside
    rcases inside with blank | behind
    · rw [List.mem_takeWhile_imp blank] at text
      cases text
    · exact behind
  rw [trimmed, List.rdropWhile, List.mem_reverse]
  exact kept _ (List.mem_reverse.mpr (kept s member))

theorem path_of_trimmed {Name : Name} (word : Word (isSeparator platform.windows) (trimmed Name)) :
    path platform.windows Name = [Name] := by
  refine path_word ⟨?_, fun c inside => ?_⟩
  · rintro rfl
    exact word.1 rfl
  · by_contra separates
    rw [Bool.not_eq_false] at separates
    rw [word.2 c (mem_trimmed inside (isSeparator_space _ separates))] at separates
    cases separates

/-- Where nothing stands below `Users` there are no accounts. -/
theorem good_start (fresh : ∀ key, stored state.file key = none) (none_yet : state.accounts = OrdMap.empty) : Good platform state where
  kept key := by
    rw [fresh key, none_yet]
    match key with
    | [] => rfl
    | name :: rest => exact (layout_none (by simp) rest).symm
  words name account found := by simp [none_yet] at found

theorem good_next (good : Good platform state) (fits : Fits platform state event) (moved : step platform state event = some later) :
    Good platform later := by
  cases event with
  | WriteUser User call =>
    by_cases accepted : Accepts User call
    · have word := usable_word accepted.2.1 (fits accepted)
      rw [step, Event.take, write_accepted accepted] at moved
      cases moved
      constructor
      · exact stored_write good User call (path_word word)
      · intro name account found
        rw [STATUS.IsError, if_neg (by simp), Event.effect, OrdMap.get_insert] at found
        split_ifs at found with same
        · exact same ▸ word
        · exact good.words name account found
    · obtain ⟨kept, error⟩ := @write_refused platform _ _ accepted state.file
      rw [step, Event.take, kept, error] at moved
      cases moved
      exact good
  | RemoveUser Name call =>
    by_cases accepted : Removes call
    · rw [step, Event.take, remove_accepted accepted] at moved
      cases moved
      constructor
      · intro key
        show stored (state.file.map (remove platform.windows Users Name)) key = layout (state.accounts.erase (trimmed Name)) key
        rw [stored_remove, layout_erase, ← good.kept key]
        rcases fits accepted with alone | nothing
        · rw [alone]
        · split_ifs with below under under
          · rfl
          · exact (nothing key (.inl below)).symm
          · exact nothing key (.inr under)
          · rfl
      · intro name account found
        rw [STATUS.IsError, if_neg (by simp), Event.effect, OrdMap.get_erase] at found
        split_ifs at found with same
        exact good.words name account found
    · obtain ⟨kept, refused⟩ := @remove_refused platform Name _ accepted state.file
      rw [step, Event.take, kept] at moved
      cases moved
      rcases refused with error | absent
      · rw [error]
        exact good
      · -- without a file there is no account
        have empty : ∀ name, state.accounts.get name = none := by
          intro name
          cases found : state.accounts.get name with
          | none => rfl
          | some account =>
            have here := good.kept [name, Field.Role]
            rw [layout_role found, absent] at here
            cases here
        have same : state.accounts.erase (trimmed Name) = state.accounts := OrdMap.ext_get fun name => by simp [empty]
        rw [Event.effect, same, ite_self]
        exact good

theorem unlike_layout (good : Good platform state) (moved : step platform state event = some later) (table : Table platform later) :
    Fits platform state event := by
  cases event with
  | WriteUser User call =>
    intro accepted windows back
    rw [step, Event.take, write_accepted accepted] at moved
    cases moved
    have apart : path platform.windows (trimmed User.Name) ≠ [trimmed User.Name] := by
      intro alone
      have word : Word (isSeparator platform.windows) (trimmed User.Name) := mem_words (alone ▸ List.mem_singleton_self _)
      have separates : isSeparator platform.windows '\\' = true := by rw [windows]; rfl
      rw [word.2 _ back] at separates
      cases separates
    have absent : state.accounts.get (trimmed User.Name) = none := by
      cases found : state.accounts.get (trimmed User.Name) with
      | none => rfl
      | some account => exact absurd (path_word (good.words _ account found)) apart
    have free : (state.file.getD OrdMap.empty).get (Users ++ [trimmed User.Name, Field.Role]) = none := by
      rw [← stored_eq, good.kept, layout_none absent]
    have there := table.kept [trimmed User.Name, Field.Role]
    have account : (Event.effect platform state.accounts (.WriteUser User call)).get (trimmed User.Name) =
        some (written platform User call (state.accounts.get (trimmed User.Name))) := by
      rw [Event.effect, OrdMap.get_insert, if_pos rfl]
    rw [STATUS.IsError, if_neg (by simp), layout_role account, stored_eq, Option.getD_some, writeGroup_below _ _ _ _ _ free] at there
    · cases there
    · intro key same
      rw [List.append_assoc] at same
      have parts := List.append_cancel_left same
      rw [← List.singleton_append, ← List.singleton_append] at parts
      exact apart (List.append_inj_left' parts rfl)
  | RemoveUser Name call =>
    intro accepted
    by_contra wrong
    rw [not_or] at wrong
    obtain ⟨other, standing⟩ := wrong
    simp only [not_forall, exists_prop] at standing
    obtain ⟨key, under, stands⟩ := standing
    rw [good.kept] at stands
    obtain ⟨name, last, account, rfl, found⟩ := layout_ne_none stands
    rw [step, Event.take, remove_accepted accepted] at moved
    cases moved
    have there := table.kept [name, last]
    change stored (state.file.map (remove platform.windows Users Name)) [name, last] =
      layout (state.accounts.erase (trimmed Name)) [name, last] at there
    rw [stored_remove, layout_erase, good.kept] at there
    have word := good.words name account found
    by_cases below : path platform.windows Name <+: [name, last]
    · rw [if_pos below] at there
      split_ifs at there with mine
      · -- the account of the name itself: its key is the name as it was given
        have same : trimmed Name = name := by simpa using mine
        rw [path_of_trimmed (same ▸ word)] at below other
        have given : Name = name := by simpa using below
        exact other (by rw [same, given])
      · exact stands there.symm
    · rw [if_neg below] at there
      have mine := under.resolve_left below
      rw [if_pos mine] at there
      exact stands there

/-- A call changes no account but the one of its name, and removing one leaves of the records
only what was read before. -/
structure Frame (platform : Platform) (state : State) (event : Event) (later : State) : Prop where
  others : ∀ name, name ≠ event.name → ∀ key, stored later.file (name :: key) = stored state.file (name :: key)
  removed : ∀ Name call, event = .RemoveUser Name call →
    ∀ record ∈ (ReadUsers platform later.file).2, record ∈ (ReadUsers platform state.file).2

theorem effect_other (accounts : Accounts) {name : Name} (other : name ≠ event.name) :
    (event.effect platform accounts).get name = accounts.get name := by
  cases event with
  | WriteUser User call =>
    have apart : trimmed User.Name ≠ name := Ne.symm other
    rw [Event.effect, OrdMap.get_insert, if_neg apart]
  | RemoveUser Name call =>
    have apart : trimmed Name ≠ name := Ne.symm other
    rw [Event.effect, OrdMap.get_erase, if_neg apart]

theorem frame_of_good (good : Good platform state) (after : Good platform later) (moved : step platform state event = some later) :
    Frame platform state event later := by
  cases moved
  constructor
  · intro name other key
    rw [good.kept, after.kept]
    refine layout_other ?_ key
    dsimp only
    split_ifs
    · rfl
    · exact effect_other _ other
  · rintro Name call rfl record member
    obtain ⟨account, found, same⟩ := ((table_of_good after).read record).mp member
    refine ((table_of_good good).read record).mpr ⟨account, ?_, same⟩
    dsimp only at found
    split_ifs at found
    · exact found
    · rw [Event.effect, OrdMap.get_erase] at found
      split_ifs at found
      exact found

end Steps

/-! ## Runs -/

/-- No account yet, in the file or beside it. -/
def Fresh (state : State) : Prop := state.accounts = OrdMap.empty ∧ ∀ key, stored state.file key = none

/-- The file stands for the accounts as long as written names are one part of a key and removed
names are the key of their account, or of nothing; the first call of another kind ends it. -/
theorem accounts_kept (platform : Platform) (first last : State) (fresh : Fresh first)
    (run : Run (step platform) (Fits platform) first last) :
    Table platform last ∧ ∀ event later, step platform last event = some later →
      (Table platform later ∧ Frame platform last event later ↔ Fits platform last event) := by
  have good : Good platform last :=
    run.invariant (Good platform) (good_start fresh.2 fresh.1) fun before fits moved => good_next before fits moved
  refine ⟨table_of_good good, fun event later moved => ⟨fun both => unlike_layout good moved both.1, fun fits => ?_⟩⟩
  have after := good_next good fits moved
  exact ⟨table_of_good after, frame_of_good good after moved⟩

/-! ## One account -/

def saltBytes : Bytes := (List.range PWHASH_SALT_BYTES).map UInt8.ofNat

/-- The key of the password `secret` with the salt above. -/
def keyBytes : Bytes := [23, 52, 70, 12, 181, 205, 132, 183, 117, 83, 9, 202, 135, 76, 34, 213, 199, 234, 2, 61, 180, 242, 158, 38, 152, 226, 38,
  11, 96, 92, 39, 198]

def linux : Platform where
  windows := false
  ConfigFilePath := "/etc/taskexplorer/TaskServer.ini".toList
  deriveKeyPbkdf2 _ _ _ length := (keyBytes ++ List.replicate length 0).take length
  length_key Password Salt Iterations length := by simp

def granted : Call where
  MakeSalt := ⟨saltBytes, by decide⟩

def none_yet : State := ⟨none, OrdMap.empty⟩

def alice : SServerUserRecord where
  Name := "alice".toList
  bActions := true
  NewPassword := "secret".toList
  bSetPassword := true

theorem accounts_kept_removed : ∃ last,
    runs (step linux) none_yet [.WriteUser alice granted, .RemoveUser "alice".toList granted] = some last ∧ Table linux last := by
  have writes : Fits linux none_yet (.WriteUser alice granted) := fun _ windows => nomatch windows
  have written : Run (step linux) (Fits linux) none_yet _ := .next .start writes rfl
  have removes : ∀ state, Fits linux state (.RemoveUser "alice".toList granted) := fun _ _ => .inl (by decide +kernel)
  exact ⟨_, rfl, (accounts_kept linux none_yet _ ⟨rfl, fun _ => rfl⟩ (.next written (removes _) rfl)).1⟩

/-- Removing `alice/Hash` takes the password of the account, which then asks the operating system. -/
theorem hash_removed : ¬ ∀ (platform : Platform) (first last : State), Fresh first → Run (step platform) Always first last →
    Table platform last := by
  intro claim
  have table := claim linux none_yet _ ⟨rfl, fun _ => rfl⟩
    (Run.of_runs .start (meets_always _ [.WriteUser alice granted, .RemoveUser "alice/Hash".toList granted]) rfl)
  have there := congrArg Option.isSome (table.kept ["alice".toList, Field.Hash])
  exact absurd there (by decide +kernel)

end TaskExplorer.UserAccounts
