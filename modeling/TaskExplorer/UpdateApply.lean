import TaskExplorer.FileStore
import TaskExplorer.Transition

/-!
# Installing an update

`ApplyUpdate` moves the files that are to be replaced to the backup directory, copies the new ones from the
temporary directory, and takes both back when one of them cannot be moved or copied. Paths are those that `ScanDir` lists:
names with a backslash between them, which the file system compares without case.
-/

namespace TaskExplorer.UpdateApply
open FileStore Transition

abbrev Text := List Char

abbrev Bytes := List UInt8

/-- A file below a directory, by the names on the way to it. -/
abbrev Place := List Text

inductive EState where
  | eNone
  | eChanged
  | ePending
deriving DecidableEq, Repr

structure SFile where
  Path : Text
  Url : Text
  Hash : Text
  State : EState
deriving DecidableEq, Repr

abbrev Disk := Store Place Bytes

def UPD_ERROR_INTERNAL : Int := -6

/-- `_wcsicmp` in the C locale. -/
def same_name (one other : Text) : Bool := one.map Char.toLower == other.map Char.toLower

def place (path : Text) : Place := (path.map Char.toLower).splitOn '\\'

def backup_name : Text := "backup".toList

/-- `backup_dir` and a path. -/
def backup_place (below : Place) : Place := backup_name :: below

def is_updater (file : SFile) : Bool := same_name file.Path "UpdUtil.exe".toList

def is_pending (file : SFile) : Bool := file.State == .ePending

/-! ## Backup -/

/-- Takes the moves back, of the files that come before the one that failed. -/
def revert_file (disk : Disk) (file : SFile) : Disk :=
  if is_pending file then disk.move (backup_place (place file.Path)) (place file.Path) else disk

/-- `canMove` says which files `MoveFileEx` can move. -/
def BackupCurrent (canMove : Place → Bool) (before : List SFile) : List SFile → Disk → Bool × Disk
  | [], disk => (true, disk)
  | file :: rest, disk =>
    if is_pending file = false ∨ is_updater file = true then BackupCurrent canMove (before ++ [file]) rest disk
    else if (disk.get (place file.Path)).isNone then BackupCurrent canMove (before ++ [file]) rest disk
    else if canMove (place file.Path) then
      BackupCurrent canMove (before ++ [file]) rest (disk.move (place file.Path) (backup_place (place file.Path)))
    else (false, before.foldl revert_file disk)

def restore_file (disk : Disk) (file : SFile) : Disk :=
  if is_pending file then
    if (disk.get (backup_place (place file.Path))).isSome then
      (disk.remove (place file.Path)).move (backup_place (place file.Path)) (place file.Path)
    else disk
  else disk

def RestoreBackup (files : List SFile) (disk : Disk) : Disk := files.foldl restore_file disk

/-! ## Directories -/

def ends_with_backslash (path : Text) : Bool := path.getLast? == some '\\'

def backup_dir (base_dir : Text) : Text := base_dir ++ "\\backup".toList

/-- What a directory holds: the names in it, and which of them are directories. -/
def directory_entries (disk : Disk) (directory : Place) : List (Text × Bool) :=
  (disk.files.filterMap (fun file =>
    if directory.isPrefixOf file.1 then
      match file.1.drop directory.length with
      | name :: below => some (name, !below.isEmpty)
      | [] => none
    else none)).dedup

/-- Only a path that ends with a backslash is listed. -/
def ListDir (disk : Disk) (directory : Place) (backslash : Bool) : List (Text × Bool) :=
  bif backslash then directory_entries disk directory else []

/-- What is listed has a backslash at the end exactly if it is a directory; the depth of the directories is the fuel. -/
def DeleteDirectoryRecursively (withFiles : Bool) : Nat → Disk → Place → Bool → Bool × Disk
  | 0, disk, _, _ => (false, disk)
  | fuel + 1, disk, directory, backslash =>
    let emptied := (ListDir disk directory backslash).foldl (fun (state : Bool × Disk) entry =>
      if state.1 = false then state
      else if entry.2 then DeleteDirectoryRecursively withFiles fuel state.2 (directory ++ [entry.1]) true
      else if withFiles then (true, state.2.remove (directory ++ [entry.1]))
      else (false, state.2)) (true, disk)
    (emptied.1 && (directory_entries emptied.2 directory).isEmpty, emptied.2)

def depth (disk : Disk) : Nat := disk.files.foldr (fun file deepest => max file.1.length deepest) 0

/-! ## Installing -/

/-- A call of `ApplyUpdate`: the files in the order of their paths, what is in the temporary directory, and what can be moved and copied. -/
structure Call where
  base_dir : Text
  files : List SFile
  temp : Place → Option Bytes
  canMove : Place → Bool
  canCopy : Place → Bool

/-- The count or the error, the files afterwards, and what was copied. -/
structure Outcome where
  result : Int
  disk : Disk
  copied : List (Text × Bytes)

def install (call : Call) : List SFile → Int → List (Text × Bytes) → Disk → Outcome
  | [], count, copied, disk =>
    ⟨count, (DeleteDirectoryRecursively true (depth disk + 1) disk [backup_name] (ends_with_backslash (backup_dir call.base_dir))).2, copied⟩
  | file :: rest, count, copied, disk =>
    if is_pending file = false ∨ is_updater file = true then install call rest count copied disk
    else
      match call.temp (place file.Path), call.canCopy (place file.Path) with
      | some content, true => install call rest (count + 1) (copied ++ [(file.Path, content)]) (disk.put (place file.Path) content)
      | _, _ => ⟨UPD_ERROR_INTERNAL, RestoreBackup call.files disk, copied⟩

def ApplyUpdate (call : Call) (disk : Disk) : Outcome :=
  match BackupCurrent call.canMove [] call.files disk with
  | (true, moved) => install call call.files 0 [] moved
  | (false, reverted) => ⟨UPD_ERROR_INTERNAL, reverted, []⟩

/-! ## The property -/

def InBackup (path : Place) : Prop := ∃ below, path = backup_place below

/-- The files that are moved away and replaced. -/
def to_install (file : SFile) : Bool := is_pending file && !is_updater file

/-- An error leaves the installation as it was, and a count has it updated and the backup gone. -/
def Kept (call : Call) (disk : Disk) (outcome : Outcome) : Prop :=
  (outcome.result < 0 → ∀ path, ¬ InBackup path → outcome.disk.get path = disk.get path) ∧
  (0 ≤ outcome.result →
    (∀ file ∈ call.files, to_install file = true → outcome.disk.get (place file.Path) = call.temp (place file.Path) ∧ (call.temp (place file.Path)).isSome) ∧
    (∀ path, ¬ InBackup path → (∀ file ∈ call.files, to_install file = true → place file.Path ≠ path) → outcome.disk.get path = disk.get path) ∧
    ∀ path, InBackup path → outcome.disk.get path = none)

/-- A file that has to be moved and cannot. -/
def is_blocked (call : Call) (disk : Disk) (file : SFile) : Bool :=
  to_install file && (disk.get (place file.Path)).isSome && !call.canMove (place file.Path)

/-- A file that has to be copied and cannot. -/
def is_refused (call : Call) (file : SFile) : Bool :=
  to_install file && !((call.temp (place file.Path)).isSome && call.canCopy (place file.Path))

/-- What the backup holds of these files was moved there by this call. -/
def NoLeftover (disk : Disk) (files : List SFile) : Prop :=
  ∀ file ∈ files, is_pending file = true → (is_updater file = true ∨ disk.get (place file.Path) = none) →
    disk.get (backup_place (place file.Path)) = none

/-- No file of the update lies in the backup directory. Where a move fails, the files before it have no leftovers; where a copy fails, none
    has, and no new file was copied before; where nothing fails, nothing was to be backed up and the backup is empty. -/
def Clean (disk : Disk) (call : Call) : Prop :=
  (∀ file ∈ call.files, is_pending file = true → ¬ InBackup (place file.Path)) ∧
  if call.files.any (is_blocked call disk) then NoLeftover disk (call.files.takeWhile (fun file => !is_blocked call disk file))
  else if call.files.any (is_refused call) then
    NoLeftover disk call.files ∧
    ∀ file ∈ call.files.takeWhile (fun file => !is_refused call file), to_install file = true → (disk.get (place file.Path)).isSome
  else (∀ below, disk.get (backup_place below) = none) ∧ ∀ file ∈ call.files, to_install file = true → disk.get (place file.Path) = none

/-! ## Moving back -/

theorem backup_place_injective {one other : Place} (same : backup_place one = backup_place other) : one = other := (List.cons.inj same).2

theorem ne_backup_place {path : Place} (outside : ¬ InBackup path) (below : Place) : path ≠ backup_place below :=
  fun same => outside ⟨below, same⟩

variable {file : SFile} {files : List SFile} {disk : Disk} {call : Call}

theorem get_revert_file (disk : Disk) (outside : is_pending file = true → ¬ InBackup (place file.Path)) (sought : Place)
    :
    (revert_file disk file).get sought =
      if is_pending file = true ∧ sought = place file.Path then (disk.get (backup_place sought)).or (disk.get sought)
      else if is_pending file = true ∧ sought = backup_place (place file.Path) then none else disk.get sought := by
  by_cases pending : is_pending file = true
  · rw [revert_file, if_pos pending, Store.get_move _ (ne_backup_place (outside pending) _).symm]
    by_cases same : sought = place file.Path
    · simp [pending, same]
    · simp [pending, same]
  · simp [revert_file, pending]

theorem get_restore_file (disk : Disk) (outside : is_pending file = true → ¬ InBackup (place file.Path))
    (sought : Place) : (restore_file disk file).get sought = (revert_file disk file).get sought := by
  by_cases pending : is_pending file = true
  · have differ := (ne_backup_place (outside pending) (place file.Path)).symm
    simp only [restore_file, revert_file, pending, if_true]
    split_ifs with there
    · obtain ⟨content, isContent⟩ := Option.isSome_iff_exists.mp there
      rw [Store.get_move _ differ, Store.get_move _ differ]
      by_cases same : sought = place file.Path
      · simp [same, differ, isContent]
      · simp [same]
    · rw [Store.get_move _ differ, Option.not_isSome_iff_eq_none.mp there]
      by_cases same : sought = place file.Path
      · simp [same]
      · by_cases isBackup : sought = backup_place (place file.Path)
        · simp [isBackup, differ, Option.not_isSome_iff_eq_none.mp there]
        · simp [same, isBackup]
  · simp [restore_file, revert_file, pending]

theorem get_moved_back {step : Disk → SFile → Disk}
    (moves : ∀ disk, ∀ file ∈ files, ∀ sought, (step disk file).get sought = (revert_file disk file).get sought)
    (outside : ∀ file ∈ files, is_pending file = true → ¬ InBackup (place file.Path)) (disk : Disk) {path : Place}
    (isOutside : ¬ InBackup path) :
    (files.foldl step disk).get path =
      if ∃ file ∈ files, is_pending file = true ∧ place file.Path = path then (disk.get (backup_place path)).or (disk.get path) else disk.get path := by
  classical
  induction files generalizing disk with
  | nil => simp
  | cons first rest ih =>
    have moved := fun sought => (moves disk first List.mem_cons_self sought).trans (get_revert_file disk (outside first List.mem_cons_self) sought)
    rw [List.foldl_cons, ih (fun disk file member => moves disk file (List.mem_cons_of_mem _ member))
      (fun file member => outside file (List.mem_cons_of_mem _ member)), moved path, moved (backup_place path)]
    by_cases isFirst : is_pending first = true ∧ place first.Path = path
    · obtain ⟨pending, rfl⟩ := isFirst
      have differ := (ne_backup_place isOutside (place first.Path)).symm
      simp [pending, differ]
    · have notFirst : ¬ (is_pending first = true ∧ path = place first.Path) := fun both => isFirst ⟨both.1, both.2.symm⟩
      have notBackup : ¬ (is_pending first = true ∧ path = backup_place (place first.Path)) := fun both => ne_backup_place isOutside _ both.2
      have notIts : ¬ (is_pending first = true ∧ backup_place path = backup_place (place first.Path)) :=
        fun both => notFirst ⟨both.1, backup_place_injective both.2⟩
      have notPlace : ¬ (is_pending first = true ∧ backup_place path = place first.Path) :=
        fun both => ne_backup_place (outside first List.mem_cons_self both.1) path both.2.symm
      rw [if_neg notFirst, if_neg notBackup, if_neg notPlace, if_neg notIts]
      simp only [List.mem_cons, exists_eq_or_imp, isFirst, false_or]

/-! ## Backing up -/

/-- The file was there, and is one of those that are moved away. -/
def Taken (disk : Disk) (files : List SFile) (path : Place) : Prop :=
  (disk.get path).isSome = true ∧ ∃ file ∈ files, to_install file = true ∧ place file.Path = path

/-- The files of the list that were there are in the backup, and all else is where it was. -/
structure Backed (first : Disk) (files : List SFile) (disk : Disk) : Prop where
  taken : ∀ path, ¬ InBackup path → Taken first files path → disk.get path = none ∧ disk.get (backup_place path) = first.get path
  others : ∀ path, ¬ InBackup path → ¬ Taken first files path → disk.get path = first.get path
  leftover : ∀ below, ¬ Taken first files below → disk.get (backup_place below) = first.get (backup_place below)

theorem Backed.start (disk : Disk) : Backed disk [] disk := by
  constructor <;> simp [Taken]

theorem Backed.skip {first : Disk} (backed : Backed first files disk)
    (skipped : to_install file = true → ¬ Taken first files (place file.Path) → first.get (place file.Path) = none) :
    Backed first (files ++ [file]) disk := by
  have same : ∀ path, Taken first (files ++ [file]) path ↔ Taken first files path := by
    intro path
    constructor
    · rintro ⟨there, other, member, install, rfl⟩
      obtain older | isFile := List.mem_append.mp member
      · exact ⟨there, other, older, install, rfl⟩
      · obtain rfl := List.mem_singleton.mp isFile
        by_contra notTaken
        rw [skipped install notTaken] at there
        cases there
    · rintro ⟨there, other, member, rest⟩
      exact ⟨there, other, List.mem_append_left _ member, rest⟩
  obtain ⟨taken, others, leftover⟩ := backed
  refine ⟨?_, ?_, ?_⟩
  · simpa only [same] using taken
  · simpa only [same] using others
  · simpa only [same] using leftover

theorem Backed.move {first : Disk} (backed : Backed first files disk) (install : to_install file = true)
    (outside : ¬ InBackup (place file.Path)) (there : (disk.get (place file.Path)).isSome = true) :
    Backed first (files ++ [file]) (disk.move (place file.Path) (backup_place (place file.Path))) := by
  have notTaken : ¬ Taken first files (place file.Path) := by
    intro taken
    rw [(backed.taken _ outside taken).1] at there
    cases there
  have isFirst := backed.others _ outside notTaken
  have same : ∀ path, Taken first (files ++ [file]) path ↔ Taken first files path ∨ path = place file.Path := by
    intro path
    constructor
    · rintro ⟨isThere, other, member, installed, rfl⟩
      obtain older | isFile := List.mem_append.mp member
      · exact .inl ⟨isThere, other, older, installed, rfl⟩
      · exact .inr (by rw [List.mem_singleton.mp isFile])
    · rintro (⟨isThere, other, member, rest⟩ | rfl)
      · exact ⟨isThere, other, List.mem_append_left _ member, rest⟩
      · exact ⟨isFirst ▸ there, file, by simp, install, rfl⟩
  have moved := Store.get_move disk (ne_backup_place outside (place file.Path))
  obtain ⟨content, isContent⟩ := Option.isSome_iff_exists.mp there
  refine ⟨?_, ?_, ?_⟩
  · intro path isOutside taken
    by_cases isPath : path = place file.Path
    · subst isPath
      rw [moved, moved]
      simp [ne_backup_place outside, ← isFirst, isContent]
    · have older := backed.taken path isOutside (((same path).mp taken).resolve_right isPath)
      have differ : backup_place path ≠ backup_place (place file.Path) := fun equal => isPath (backup_place_injective equal)
      rw [moved, moved]
      simp [ne_backup_place isOutside, isPath, differ, (ne_backup_place outside path).symm, older]
  · intro path isOutside notTakenPath
    rw [same, not_or] at notTakenPath
    rw [moved]
    simp [ne_backup_place isOutside, notTakenPath.2, backed.others path isOutside notTakenPath.1]
  · intro below notTakenBelow
    rw [same, not_or] at notTakenBelow
    have differ : backup_place below ≠ backup_place (place file.Path) := fun equal => notTakenBelow.2 (backup_place_injective equal)
    rw [moved]
    simp [differ, (ne_backup_place outside below).symm, backed.leftover below notTakenBelow.1]

theorem not_blocked_of_absent {first : Disk} (backed : Backed first files disk)
    (clear : ∀ file ∈ files, is_blocked call first file = false)
    (outside : is_pending file = true → ¬ InBackup (place file.Path))
    (absent : to_install file = true → disk.get (place file.Path) = none) : is_blocked call first file = false := by
  by_cases install : to_install file = true
  · have pending : is_pending file = true := (Bool.and_eq_true_iff.mp install).1
    by_cases taken : Taken first files (place file.Path)
    · obtain ⟨there, other, member, installed, same⟩ := taken
      have otherClear := clear other member
      simp only [is_blocked, installed, same, there, Bool.true_and, Bool.not_eq_false'] at otherClear
      simp [is_blocked, otherClear]
    · have isFirst := backed.others _ (outside pending) taken
      rw [absent install] at isFirst
      simp [is_blocked, ← isFirst]
  · simp [is_blocked, install]

theorem skip_of_not_install : (is_pending file = false ∨ is_updater file = true) ↔ to_install file = false := by
  cases isPending : is_pending file <;> cases isUpdater : is_updater file <;> simp [to_install, isPending, isUpdater]

/-- What the backup comes to: all files, or those before one that is blocked, moved back. -/
def BackedOrReverted (call : Call) (first : Disk) (files rest : List SFile) (result : Bool × Disk) : Prop :=
  (rest.any (is_blocked call first) = false ∧ ∃ moved, result = (true, moved) ∧ Backed first (files ++ rest) moved) ∨
  (rest.any (is_blocked call first) = true ∧ ∃ moved, Backed first (files ++ rest.takeWhile (fun file => !is_blocked call first file)) moved ∧
    result = (false, (files ++ rest.takeWhile (fun file => !is_blocked call first file)).foldl revert_file moved))

theorem backup_current_cases (call : Call) (first : Disk) {rest : List SFile} (backed : Backed first files disk)
    (clear : ∀ file ∈ files, is_blocked call first file = false)
    (outside : ∀ file ∈ rest, is_pending file = true → ¬ InBackup (place file.Path)) :
    BackedOrReverted call first files rest (BackupCurrent call.canMove files rest disk) := by
  induction rest generalizing files disk with
  | nil => exact .inl ⟨rfl, disk, rfl, by simpa using backed⟩
  | cons file rest ih =>
    have isOutside := outside file List.mem_cons_self
    have restOutside : ∀ file ∈ rest, is_pending file = true → ¬ InBackup (place file.Path) :=
      fun other member => outside other (List.mem_cons_of_mem _ member)
    -- a file that is not blocked joins the ones before, with whatever becomes of the disk
    have goOn : ∀ {later : Disk}, is_blocked call first file = false → Backed first (files ++ [file]) later →
        BackupCurrent call.canMove files (file :: rest) disk = BackupCurrent call.canMove (files ++ [file]) rest later →
        BackedOrReverted call first files (file :: rest) (BackupCurrent call.canMove files (file :: rest) disk) := by
      intro later notBlocked backedLater equation
      have clearLater : ∀ other ∈ files ++ [file], is_blocked call first other = false := by
        intro other member
        obtain older | isFile := List.mem_append.mp member
        · exact clear other older
        · rwa [List.mem_singleton.mp isFile]
      have next := ih backedLater clearLater restOutside
      rw [BackedOrReverted, List.append_assoc, List.singleton_append, List.append_assoc, List.singleton_append] at next
      rw [equation, BackedOrReverted, List.any_cons, List.takeWhile_cons_of_pos (by simp [notBlocked]), notBlocked, Bool.false_or]
      exact next
    by_cases install : to_install file = true
    · have pending : is_pending file = true := (Bool.and_eq_true_iff.mp install).1
      have notSkipped : ¬ (is_pending file = false ∨ is_updater file = true) := by simp [skip_of_not_install, install]
      cases there : disk.get (place file.Path) with
      | none =>
        refine goOn (not_blocked_of_absent backed clear isOutside (fun _ => there)) (backed.skip ?_) ?_
        · intro _ notTaken
          rw [← backed.others _ (isOutside pending) notTaken, there]
        · simp only [BackupCurrent, notSkipped, if_false, there, Option.isNone_none, if_true]
      | some content =>
        have present : (disk.get (place file.Path)).isSome = true := by simp [there]
        by_cases can : call.canMove (place file.Path) = true
        · refine goOn (by simp [is_blocked, can]) (backed.move install (isOutside pending) present) ?_
          simp only [BackupCurrent, notSkipped, if_false, there, Option.isNone_some, Bool.false_eq_true, can, if_true]
        · have notTaken : ¬ Taken first files (place file.Path) := by
            intro taken
            rw [(backed.taken _ (isOutside pending) taken).1] at there
            cases there
          have blocked : is_blocked call first file = true := by
            simp [is_blocked, install, ← backed.others _ (isOutside pending) notTaken, there, can]
          refine .inr ⟨by simp [blocked], disk, ?_, ?_⟩
          · rw [List.takeWhile_cons_of_neg (by simp [blocked]), List.append_nil]
            exact backed
          · rw [List.takeWhile_cons_of_neg (by simp [blocked]), List.append_nil]
            simp only [BackupCurrent, notSkipped, if_false, there, Option.isNone_some, Bool.false_eq_true, can]
    · have notInstalled : to_install file = false := by simpa using install
      refine goOn (by simp [is_blocked, notInstalled]) (backed.skip (fun isInstalled => absurd isInstalled install)) ?_
      simp only [BackupCurrent, skip_of_not_install.mpr notInstalled, if_true]

/-! ## Copying -/

/-- The files of the list are what they are in the temporary directory, and all else is what it was. -/
def Copied (call : Call) (files : List SFile) (disk later : Disk) : Prop :=
  ∀ path, ((∃ file ∈ files, to_install file = true ∧ place file.Path = path) → later.get path = call.temp path) ∧
    ((∀ file ∈ files, to_install file = true → place file.Path ≠ path) → later.get path = disk.get path)

theorem copied_nothing (call : Call) (disk : Disk) : Copied call [] disk disk := fun path => ⟨by simp, fun _ => rfl⟩

variable {later : Disk}

theorem Copied.skip (copied : Copied call files disk later) (notInstalled : to_install file = false) :
    Copied call (file :: files) disk later := by
  intro path
  obtain ⟨isCopied, isOther⟩ := copied path
  refine ⟨?_, fun none => isOther (fun other member => none other (List.mem_cons_of_mem _ member))⟩
  rintro ⟨other, member, install, same⟩
  obtain rfl | inFiles := List.mem_cons.mp member
  · rw [notInstalled] at install
    cases install
  · exact isCopied ⟨other, inFiles, install, same⟩

theorem Copied.put {content : Bytes} (isContent : call.temp (place file.Path) = some content)
    (install : to_install file = true) (copied : Copied call files (disk.put (place file.Path) content) later) :
    Copied call (file :: files) disk later := by
  intro path
  obtain ⟨isCopied, isOther⟩ := copied path
  constructor
  · rintro ⟨other, member, installed, same⟩
    by_cases inFiles : ∃ further ∈ files, to_install further = true ∧ place further.Path = path
    · exact isCopied inFiles
    · have isFile : place file.Path = path := by
        obtain rfl | later := List.mem_cons.mp member
        · exact same
        · exact absurd ⟨other, later, installed, same⟩ inFiles
      rw [isOther (fun further isFurther isInstalled isPath => inFiles ⟨further, isFurther, isInstalled, isPath⟩), ← isFile, isContent]
      simp
  · intro none
    rw [isOther (fun other member => none other (List.mem_cons_of_mem _ member)), Store.get_put,
      if_neg (fun same => none file List.mem_cons_self install same.symm)]

theorem cleanup_keeps (call : Call) (fuel : Nat) (disk : Disk) :
    (DeleteDirectoryRecursively true (fuel + 1) disk [backup_name] (ends_with_backslash (backup_dir call.base_dir))).2 = disk := by
  have noBackslash : ends_with_backslash (backup_dir call.base_dir) = false := by
    simp [ends_with_backslash, backup_dir, List.getLast?_append]
  simp [noBackslash, DeleteDirectoryRecursively, ListDir]

theorem install_cases (call : Call) (files : List SFile) {count : Int} (positive : 0 ≤ count) (log : List (Text × Bytes)) (disk : Disk) :
    (files.any (is_refused call) = false ∧ 0 ≤ (install call files count log disk).result ∧ Copied call files disk (install call files count log disk).disk) ∨
    (files.any (is_refused call) = true ∧ (install call files count log disk).result = UPD_ERROR_INTERNAL ∧
      ∃ later, Copied call (files.takeWhile (fun file => !is_refused call file)) disk later ∧
        (install call files count log disk).disk = RestoreBackup call.files later) := by
  induction files generalizing count log disk with
  | nil =>
    refine .inl ⟨rfl, positive, ?_⟩
    simp only [install, cleanup_keeps]
    exact copied_nothing call disk
  | cons file rest ih =>
    by_cases install : to_install file = true
    · have notSkipped : ¬ (is_pending file = false ∨ is_updater file = true) := by simp [skip_of_not_install, install]
      cases isContent : call.temp (place file.Path) with
      | none =>
        have refused : is_refused call file = true := by simp [is_refused, install, isContent]
        have failed : UpdateApply.install call (file :: rest) count log disk = ⟨UPD_ERROR_INTERNAL, RestoreBackup call.files disk, log⟩ := by
          simp only [UpdateApply.install, notSkipped, if_false, isContent]
        refine .inr ⟨by simp [refused], by rw [failed], disk, ?_, by rw [failed]⟩
        rw [List.takeWhile_cons_of_neg (by simp [refused])]
        exact copied_nothing call disk
      | some content =>
        cases can : call.canCopy (place file.Path) with
        | false =>
          have refused : is_refused call file = true := by simp [is_refused, install, can]
          have failed : UpdateApply.install call (file :: rest) count log disk = ⟨UPD_ERROR_INTERNAL, RestoreBackup call.files disk, log⟩ := by
            simp only [UpdateApply.install, notSkipped, if_false, isContent, can]
          refine .inr ⟨by simp [refused], by rw [failed], disk, ?_, by rw [failed]⟩
          rw [List.takeWhile_cons_of_neg (by simp [refused])]
          exact copied_nothing call disk
        | true =>
          have accepted : is_refused call file = false := by simp [is_refused, isContent, can]
          have goesOn : UpdateApply.install call (file :: rest) count log disk =
              UpdateApply.install call rest (count + 1) (log ++ [(file.Path, content)]) (disk.put (place file.Path) content) := by
            simp only [UpdateApply.install, notSkipped, if_false, isContent, can]
          rw [goesOn, List.any_cons, accepted, Bool.false_or, List.takeWhile_cons_of_pos (by simp [accepted])]
          obtain ⟨none, isCount, copied⟩ | ⟨refused, isError, later, copied, restored⟩ :=
            ih (Int.add_nonneg positive Int.one_nonneg) (log ++ [(file.Path, content)]) (disk.put (place file.Path) content)
          · exact .inl ⟨none, isCount, copied.put isContent install⟩
          · exact .inr ⟨refused, isError, later, copied.put isContent install, restored⟩
    · have notInstalled : to_install file = false := by simpa using install
      have accepted : is_refused call file = false := by simp [is_refused, notInstalled]
      have goesOn : UpdateApply.install call (file :: rest) count log disk = UpdateApply.install call rest count log disk := by
        simp only [UpdateApply.install, skip_of_not_install.mpr notInstalled, if_true]
      rw [goesOn, List.any_cons, accepted, Bool.false_or, List.takeWhile_cons_of_pos (by simp [accepted])]
      obtain ⟨none, isCount, copied⟩ | ⟨refused, isError, later, copied, restored⟩ := ih positive log disk
      · exact .inl ⟨none, isCount, copied.skip notInstalled⟩
      · exact .inr ⟨refused, isError, later, copied.skip notInstalled, restored⟩

theorem mem_install_copied {count : Int} {log : List (Text × Bytes)} {copy : Text × Bytes}
    (member : copy ∈ (install call files count log disk).copied) :
    copy ∈ log ∨ ∃ file ∈ files, is_pending file = true ∧ copy.1 = file.Path ∧ call.temp (place file.Path) = some copy.2 := by
  induction files generalizing count log disk with
  | nil => exact .inl member
  | cons file rest ih =>
    rw [install] at member
    split_ifs at member with skipped
    · obtain older | ⟨other, inRest, facts⟩ := ih member
      · exact .inl older
      · exact .inr ⟨other, List.mem_cons_of_mem _ inRest, facts⟩
    · have pending : is_pending file = true := by simpa using (not_or.mp skipped).1
      cases isContent : call.temp (place file.Path) with
      | none =>
        simp only [isContent] at member
        exact .inl member
      | some content =>
        cases can : call.canCopy (place file.Path) with
        | false =>
          simp only [isContent, can] at member
          exact .inl member
        | true =>
          simp only [isContent, can] at member
          obtain logged | ⟨other, inRest, facts⟩ := ih member
          · obtain older | isNew := List.mem_append.mp logged
            · exact .inl older
            · rw [List.mem_singleton.mp isNew]
              exact .inr ⟨file, List.mem_cons_self, pending, rfl, isContent⟩
          · exact .inr ⟨other, List.mem_cons_of_mem _ inRest, facts⟩

theorem mem_copied {copy : Text × Bytes} (member : copy ∈ (ApplyUpdate call disk).copied) :
    ∃ file ∈ call.files, is_pending file = true ∧ copy.1 = file.Path ∧ call.temp (place file.Path) = some copy.2 := by
  rw [ApplyUpdate] at member
  cases backup : BackupCurrent call.canMove [] call.files disk with
  | mk done moved =>
    rw [backup] at member
    cases done with
    | true =>
      obtain none | found := mem_install_copied member
      · cases none
      · exact found
    | false => cases member

/-! ## One call -/

theorem to_install_pending (install : to_install file = true) :
    is_pending file = true := (Bool.and_eq_true_iff.mp install).1

theorem get_moved_back_backed {step : Disk → SFile → Disk} {first : Disk} (backed : Backed first files disk)
    (moves : ∀ disk, ∀ file ∈ files, ∀ sought, (step disk file).get sought = (revert_file disk file).get sought)
    (outside : ∀ file ∈ files, is_pending file = true → ¬ InBackup (place file.Path))
    (noLeftover : NoLeftover first files)
    (backups : ∀ below, later.get (backup_place below) = disk.get (backup_place below)) {path : Place}
    (isOutside : ¬ InBackup path) (same : ¬ Taken first files path → later.get path = first.get path) :
    (files.foldl step later).get path = first.get path := by
  rw [get_moved_back moves outside later isOutside, backups]
  by_cases taken : Taken first files path
  · obtain ⟨content, isContent⟩ := Option.isSome_iff_exists.mp taken.1
    have isPending : ∃ file ∈ files, is_pending file = true ∧ place file.Path = path := by
      obtain ⟨-, file, member, install, isPath⟩ := taken
      exact ⟨file, member, to_install_pending install, isPath⟩
    rw [if_pos isPending, (backed.taken path isOutside taken).2, isContent]
    rfl
  · rw [same taken, backed.leftover path taken]
    split_ifs with isPending
    · obtain ⟨file, member, pending, rfl⟩ := isPending
      have absent : is_updater file = true ∨ first.get (place file.Path) = none := by
        by_contra both
        obtain ⟨notUpdater, there⟩ := not_or.mp both
        exact taken ⟨Option.isSome_iff_ne_none.mpr there, file, member, by simpa [to_install, pending] using notUpdater, rfl⟩
      rw [noLeftover file member pending absent]
      rfl
    · rfl

theorem Copied.backup (copied : Copied call files disk later)
    (outside : ∀ file ∈ files, is_pending file = true → ¬ InBackup (place file.Path)) (below : Place) :
    later.get (backup_place below) = disk.get (backup_place below) :=
  (copied (backup_place below)).2 (fun file member install => ne_backup_place (outside file member (to_install_pending install)) below)

theorem kept_of_blocked (outside : ∀ file ∈ call.files, is_pending file = true → ¬ InBackup (place file.Path))
    (noLeftover : NoLeftover disk (call.files.takeWhile (fun file => !is_blocked call disk file))) {moved : Disk}
    (backed : Backed disk (call.files.takeWhile (fun file => !is_blocked call disk file)) moved)
    (isReverted : BackupCurrent call.canMove [] call.files disk = (false, (call.files.takeWhile (fun file => !is_blocked call disk file)).foldl revert_file moved))
    : Kept call disk (ApplyUpdate call disk) := by
  rw [ApplyUpdate, isReverted]
  refine ⟨fun _ path isOutside => ?_, fun isCount => absurd isCount (by simp [UPD_ERROR_INTERNAL])⟩
  exact get_moved_back_backed backed (fun _ _ _ _ => rfl) (fun file member => outside file (List.takeWhile_sublist _ |>.subset member)) noLeftover
    (fun _ => rfl) isOutside (backed.others path isOutside)

theorem kept_of_refused (outside : ∀ file ∈ call.files, is_pending file = true → ¬ InBackup (place file.Path))
    (noLeftover : NoLeftover disk call.files)
    (noneNew : ∀ file ∈ call.files.takeWhile (fun file => !is_refused call file), to_install file = true → (disk.get (place file.Path)).isSome)
    {moved : Disk} (backed : Backed disk call.files moved)
    (copied : Copied call (call.files.takeWhile (fun file => !is_refused call file)) moved later) {outcome : Outcome}
    (isError : outcome.result = UPD_ERROR_INTERNAL) (restored : outcome.disk = RestoreBackup call.files later) :
    Kept call disk outcome := by
  have within : ∀ file ∈ call.files.takeWhile (fun file => !is_refused call file), file ∈ call.files :=
    fun file member => List.takeWhile_sublist _ |>.subset member
  refine ⟨fun _ path isOutside => ?_, fun isCount => ?_⟩
  · rw [restored, RestoreBackup]
    refine get_moved_back_backed backed (fun disk file member => get_restore_file disk (outside file member)) outside noLeftover
      (copied.backup (fun file member => outside file (within file member))) isOutside (fun notTaken => ?_)
    rw [(copied path).2, backed.others path isOutside notTaken]
    intro file member install isPath
    exact notTaken ⟨isPath ▸ noneNew file member install, file, within file member, install, isPath⟩
  · rw [isError] at isCount
    exact absurd isCount (by decide)

theorem kept_of_success (outside : ∀ file ∈ call.files, is_pending file = true → ¬ InBackup (place file.Path))
    (noBackup : ∀ below, disk.get (backup_place below) = none)
    (allNew : ∀ file ∈ call.files, to_install file = true → disk.get (place file.Path) = none)
    (accepted : call.files.any (is_refused call) = false) {moved : Disk} (backed : Backed disk call.files moved)
    {outcome : Outcome} (isCount : 0 ≤ outcome.result) (copied : Copied call call.files moved outcome.disk) :
    Kept call disk outcome := by
  have noneTaken : ∀ path, ¬ Taken disk call.files path := by
    rintro path ⟨there, file, member, install, rfl⟩
    rw [allNew file member install] at there
    cases there
  refine ⟨fun isError => absurd isError (by omega), fun _ => ⟨?_, ?_, ?_⟩⟩
  · intro file member install
    refine ⟨(copied (place file.Path)).1 ⟨file, member, install, rfl⟩, ?_⟩
    have notRefused := List.any_eq_false.mp accepted file member
    simp only [is_refused, install, Bool.true_and, Bool.not_eq_true, Bool.not_eq_false', Bool.and_eq_true] at notRefused
    exact notRefused.1
  · intro path isOutside others
    rw [(copied path).2 others, backed.others path isOutside (noneTaken path)]
  · rintro path ⟨below, rfl⟩
    rw [copied.backup outside, backed.leftover below (noneTaken below), noBackup]

theorem kept_of_clean (clean : Clean disk call) : Kept call disk (ApplyUpdate call disk) := by
  obtain ⟨outside, rest⟩ := clean
  obtain ⟨noneBlocked, moved, isMoved, backed⟩ | ⟨someBlocked, moved, backed, isReverted⟩ :=
    backup_current_cases call disk (Backed.start disk) (by simp) outside
  · rw [List.nil_append] at backed
    rw [noneBlocked, if_neg (by simp)] at rest
    rw [ApplyUpdate, isMoved]
    dsimp only
    obtain ⟨accepted, isCount, copied⟩ | ⟨someRefused, isError, later, copied, restored⟩ := install_cases call call.files (Int.le_refl 0) [] moved
    · rw [accepted, if_neg (by simp)] at rest
      exact kept_of_success outside rest.1 rest.2 accepted backed isCount copied
    · rw [someRefused, if_pos rfl] at rest
      exact kept_of_refused outside rest.1 rest.2 backed copied isError restored
  · rw [List.nil_append] at backed isReverted
    rw [someBlocked, if_pos rfl] at rest
    exact kept_of_blocked outside rest backed isReverted

/-! ## Histories -/

def step (disk : Disk) (call : Call) : Option Disk := some (ApplyUpdate call disk).disk

/-- Every call of the history keeps the installation, from the files the ones before it left. -/
def KeptAlways : Disk → List Call → Prop
  | _, [] => True
  | disk, call :: rest => Kept call disk (ApplyUpdate call disk) ∧ KeptAlways (ApplyUpdate call disk).disk rest

def pending_file (path : String) : SFile := ⟨path.toList, [], [], .ePending⟩

/-- All files are to be had in the temporary directory, as one byte; some cannot be copied. -/
def update_of (files : List SFile) (byte : UInt8) (canCopy : Place → Bool) : Call :=
  ⟨"C:\\App".toList, files, fun _ => some [byte], fun _ => true, canCopy⟩

/-- A first installation, and an update of it that fails. -/
def installation : Call := update_of [pending_file "App.exe", pending_file "Lib\\Core.dll"] 1 (fun _ => true)

def failing_update : Call :=
  update_of [pending_file "App.exe", pending_file "Lib\\Core.dll"] 2 (fun path => path ≠ place "Lib\\Core.dll".toList)

theorem outside_of_head {path : Place} (other : path.head? ≠ some backup_name) : ¬ InBackup path := by
  rintro ⟨below, rfl⟩
  exact other rfl

end TaskExplorer.UpdateApply
