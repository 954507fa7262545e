import TaskExplorer.UpdateScan

/-!
# Updating until nothing has changed

After an update that succeeds there should be nothing left to update. `ApplyUpdate` is given here with the names that it leaves on the
drive, which the next scan depends on; what it takes back when a file cannot be moved or copied is not part of this.
-/

namespace TaskExplorer.UpdateConvergence
open OrderedMap FileStore UpdateScan
open UpdateApply (Text Bytes Place SFile EState is_updater is_pending)
open UpdateRun (Fetch DownloadUpdate Digest changed hexStr Ready)

/-! ## Installing -/

section
variable (site : Site)

/-- The names of the directories on the way, and the last name. -/
def directories (path : Text) : List Text := (path.splitOn '\\').dropLast

def last_name (path : Text) : Text := (path.splitOn '\\').getLastD []

/-- `CreateDirectoryW`, which fails where there is something already, and where there is nothing above. -/
def create_directory (drive : Drive) (above name : Text) : Drive :=
  match drive.get (site.windows.place above), drive.get (site.windows.place (above ++ '\\' :: name)) with
  | some ⟨_, none⟩, none => drive.put (site.windows.place (above ++ '\\' :: name)) ⟨name, none⟩
  | _, _ => drive

def CreateDirectoryTree (drive : Drive) (root : Text) : List Text → Drive
  | [] => drive
  | name :: rest => CreateDirectoryTree (create_directory site drive root name) (root ++ '\\' :: name) rest

/-- What is at a place goes to another one with everything below it, and replaces what is there. -/
def move_tree (drive : Drive) (source target : Place) (name : Text) : Drive :=
  ⟨drive.files.filterMap (fun file =>
    if source.isPrefixOf file.1 then some (target ++ file.1.drop source.length, if file.1 = source then { file.2 with name := name } else file.2)
    else if target.isPrefixOf file.1 then none
    else some file)⟩

def backup_dir : Text := site.base_dir ++ "\\backup".toList

/-- What of the files is moved and copied. -/
def to_install (file : SFile) : Bool := is_pending file && !is_updater file

/-- `canMove` says which files `MoveFileEx` can move. -/
def BackupCurrent (canMove : Text → Bool) : List SFile → Drive → Option Drive
  | [], drive => some drive
  | file :: rest, drive =>
    if to_install file = false then BackupCurrent canMove rest drive
    else
      match drive.get (site.file_place file.Path) with
      | none => BackupCurrent canMove rest drive
      | some _ =>
        let made := CreateDirectoryTree site drive (backup_dir site) (directories file.Path)
        if canMove file.Path then
          BackupCurrent canMove rest
            (move_tree made (site.file_place file.Path) (site.windows.place (backup_dir site ++ '\\' :: file.Path)) (last_name file.Path))
        else none

/-- `CopyFileW` puts nothing in the place of a directory, and keeps the name of a file that is there. -/
def copy_file (drive : Drive) (path : Text) (content : Bytes) : Option Drive :=
  match drive.get (site.windows.place path) with
  | some node => node.content.map (fun _ => drive.put (site.windows.place path) ⟨node.name, some content⟩)
  | none =>
    match drive.get (site.windows.place path).dropLast with
    | some ⟨_, none⟩ => some (drive.put (site.windows.place path) ⟨last_name path, some content⟩)
    | _ => none

/-- `RemoveDirectoryW`. -/
def remove_directory (drive : Drive) (path : Text) : Drive :=
  match drive.get (site.windows.place path) with
  | some ⟨_, none⟩ => if (children drive (site.windows.place path)).isEmpty then drive.remove (site.windows.place path) else drive
  | _ => drive

/-- `ListDir` lists only what ends with a backslash, and `backup_dir` does not, so all of the clean-up is that the directory goes if it is empty. -/
def install (temp : Place → Option Bytes) (canCopy : Text → Bool) : List SFile → Nat → Drive → Option (Nat × Drive)
  | [], count, drive => some (count, remove_directory site drive (backup_dir site))
  | file :: rest, count, drive =>
    if to_install file = false then install temp canCopy rest count drive
    else
      let made := CreateDirectoryTree site drive site.base_dir (directories file.Path)
      match temp (UpdateApply.place file.Path), canCopy file.Path with
      | some content, true => (copy_file site made (site.base_dir ++ '\\' :: file.Path) content).bind (install temp canCopy rest (count + 1))
      | _, _ => none

/-- The count and the drive, if all could be moved and copied. -/
def ApplyUpdate (temp : Place → Option Bytes) (canMove canCopy : Text → Bool) (files : List SFile) (drive : Drive) : Option (Nat × Drive) :=
  (BackupCurrent site canMove files drive).bind (install site temp canCopy files 0)

/-- What an update meets: the downloads, the temporary directory, and what can be moved and copied. -/
structure Attempt where
  fetch : Text → Fetch
  temp : Store Place Bytes
  canMove : Text → Bool
  canCopy : Text → Bool

variable {site}

/-- The drive after an update without a filter, if it succeeds. -/
def update (manifest : Manifest site) (attempt : Attempt) (drive : Drive) : Option Drive :=
  let files := (site.find_changes drive none manifest.release.Map).entries.map Prod.snd
  match DownloadUpdate site.sha attempt.fetch files attempt.temp with
  | (.ok downloaded, temp) => (ApplyUpdate site temp.get attempt.canMove attempt.canCopy downloaded drive).map Prod.snd
  | (.error _, _) => none

/-! ## What is expected -/

/-- After an update that succeeds nothing has changed any more. -/
def Converges (manifest : Manifest site) (attempt : Attempt) (drive : Drive) : Prop :=
  ∀ later, update manifest attempt drive = some later → changed (site.find_changes later none manifest.release.Map) = 0

/-- The downloads can be hashed and written. -/
def Sure (attempt : Attempt) : Prop := ∀ path, (attempt.fetch path).computed = true ∧ (attempt.fetch path).written = .done

/-- No file of the manifest lies below another one, or in the backup directory. -/
structure Apart (manifest : Manifest site) : Prop where
  separate : ∀ key file other further, manifest.release.Map.get key = some file → manifest.release.Map.get other = some further →
    site.file_place key <+: site.file_place other → key = other
  outside : ∀ key file, manifest.release.Map.get key = some file → ¬ site.windows.place (backup_dir site) <+: site.file_place key

/-- The updater itself, which is never copied, is as the manifest says. -/
def UpdaterCurrent (manifest : Manifest site) (drive : Drive) : Prop :=
  ∀ key file, manifest.release.Map.get key = some file → is_updater file = true → Current site drive file

end

/-! ## Contents -/

section
variable {site : Site} {drive later : Drive}

def content_at (drive : Drive) (sought : Place) : Option Bytes := (drive.get sought).bind Node.content

theorem content_put (sought path : Place) (node : Node) :
    content_at (drive.put path node) sought = if sought = path then node.content else content_at drive sought := by
  rw [content_at, Store.get_put]
  split_ifs
  · rfl
  · rfl

theorem content_create_directory (above name : Text) (sought : Place) : content_at (create_directory site drive above name) sought = content_at drive sought := by
  rw [create_directory]
  split
  · rename_i nothing
    rw [content_put]
    split_ifs with isPlace
    · rw [isPlace, content_at, nothing]
      rfl
    · rfl
  · rfl

theorem content_directory_tree (names : List Text) (root : Text) (sought : Place) :
    content_at (CreateDirectoryTree site drive root names) sought = content_at drive sought := by
  induction names generalizing drive root with
  | nil => rfl
  | cons name rest ih => rw [CreateDirectoryTree, ih, content_create_directory]

theorem get_move_tree {source target sought : Place} (notMoved : ¬ source <+: sought) (notReplaced : ¬ target <+: sought) (name : Text) :
    (move_tree drive source target name).get sought = drive.get sought := by
  obtain ⟨files⟩ := drive
  simp only [move_tree, Store.get]
  congr 1
  induction files with
  | nil => rfl
  | cons file rest ih =>
    rw [List.filterMap_cons]
    by_cases isMoved : source.isPrefixOf file.1 = true
    · rw [if_pos isMoved]
      have other : target ++ file.1.drop source.length ≠ sought := fun same => notReplaced (same ▸ List.prefix_append _ _)
      have isOther : file.1 ≠ sought := fun same => notMoved (same ▸ List.isPrefixOf_iff_prefix.mp isMoved)
      rw [List.find?_cons_of_neg (by simpa using other), List.find?_cons_of_neg (by simpa using isOther)]
      exact ih
    · rw [if_neg isMoved]
      by_cases isReplaced : target.isPrefixOf file.1 = true
      · rw [if_pos isReplaced]
        have isOther : file.1 ≠ sought := fun same => notReplaced (same ▸ List.isPrefixOf_iff_prefix.mp isReplaced)
        rw [List.find?_cons_of_neg (by simpa using isOther)]
        exact ih
      · rw [if_neg isReplaced]
        simp only [List.find?_cons, ih]

theorem place_below (base path : Text) (windows : Windows) :
    windows.place (base ++ '\\' :: path) = windows.place base ++ place windows.fold path := by
  rw [Windows.place, place, List.splitOn_append_cons_self, List.map_append]
  rfl

theorem content_backup {canMove : Text → Bool} {files : List SFile} (moved : BackupCurrent site canMove files drive = some later) {sought : Place}
    (notMoved : ∀ file ∈ files, to_install file = true → ¬ site.file_place file.Path <+: sought)
    (outside : ¬ site.windows.place (backup_dir site) <+: sought) : content_at later sought = content_at drive sought := by
  induction files generalizing drive with
  | nil =>
    cases moved
    rfl
  | cons file rest ih =>
    have after := fun {drive : Drive} (moved : BackupCurrent site canMove rest drive = some later) =>
      ih moved (fun other among => notMoved other (List.mem_cons_of_mem _ among))
    rw [BackupCurrent] at moved
    by_cases skipped : to_install file = false
    · rw [if_pos skipped] at moved
      exact after moved
    · rw [if_neg skipped] at moved
      split at moved
      · exact after moved
      · dsimp only at moved
        split_ifs at moved with can
        have installed : to_install file = true := by simpa using skipped
        rw [after moved, content_at, get_move_tree (notMoved file List.mem_cons_self installed)]
        · exact content_directory_tree _ _ _
        · intro below
          rw [place_below] at below
          exact outside ((List.prefix_append _ _).trans below)

theorem content_copy {path : Text} {content : Bytes} (copied : copy_file site drive path content = some later) (sought : Place) :
    content_at later sought = if sought = site.windows.place path then some content else content_at drive sought := by
  rw [copy_file] at copied
  split at copied
  · obtain ⟨-, -, rfl⟩ := Option.map_eq_some_iff.mp copied
    rw [content_put]
  · split at copied
    · cases copied
      rw [content_put]
    · cases copied

theorem content_remove_directory (path : Text) (sought : Place) : content_at (remove_directory site drive path) sought = content_at drive sought := by
  rw [remove_directory]
  split
  · rename_i isDirectory
    split_ifs
    · rw [content_at, Store.get_remove]
      split_ifs with isPlace
      · rw [isPlace, content_at, isDirectory]
        rfl
      · rfl
    · rfl
  · rfl

theorem content_install {temp : Place → Option Bytes} {canCopy : Text → Bool} {files : List SFile} {count total : Nat}
    (installed : install site temp canCopy files count drive = some (total, later)) :
    (∀ sought, (∀ file ∈ files, to_install file = true → site.file_place file.Path ≠ sought) → content_at later sought = content_at drive sought) ∧
      (files.Pairwise (fun file other => site.file_place file.Path ≠ site.file_place other.Path) → ∀ file ∈ files, to_install file = true →
        ∃ content, temp (UpdateApply.place file.Path) = some content ∧ content_at later (site.file_place file.Path) = some content) := by
  induction files generalizing drive count with
  | nil =>
    cases installed
    exact ⟨fun sought _ => content_remove_directory _ _, by simp⟩
  | cons file rest ih =>
    rw [install] at installed
    by_cases skipped : to_install file = false
    · rw [if_pos skipped] at installed
      obtain ⟨others, copies⟩ := ih installed
      refine ⟨fun sought none => others sought (fun other among => none other (List.mem_cons_of_mem _ among)), ?_⟩
      intro apart other among isInstalled
      rcases List.mem_cons.mp among with rfl | later
      · rw [skipped] at isInstalled
        cases isInstalled
      · exact copies (List.pairwise_cons.mp apart).2 other later isInstalled
    · rw [if_neg skipped] at installed
      dsimp only at installed
      split at installed
      · rename_i content isContent _
        obtain ⟨copied, isCopied, rest⟩ := Option.bind_eq_some_iff.mp installed
        obtain ⟨others, copies⟩ := ih rest
        have contents := fun sought => (content_copy isCopied sought).trans (if_congr Iff.rfl rfl (content_directory_tree _ _ _))
        refine ⟨?_, ?_⟩
        · intro sought none
          rw [others sought (fun other among => none other (List.mem_cons_of_mem _ among)), contents]
          exact if_neg (Ne.symm (none file List.mem_cons_self (by simpa using skipped)))
        · intro apart other among isInstalled
          obtain ⟨alone, apartRest⟩ := List.pairwise_cons.mp apart
          rcases List.mem_cons.mp among with rfl | later
          · refine ⟨content, isContent, ?_⟩
            rw [others _ (fun further among _ same => alone further among same.symm), contents]
            exact if_pos rfl
          · exact copies apartRest other later isInstalled
      · cases installed

end

/-! ## Downloads -/

/-- What a download that succeeds leaves of a file. -/
def downloaded (file : SFile) : SFile := if file.State = .eChanged then { file with State := .ePending } else file

@[simp] theorem downloaded_path (file : SFile) : (downloaded file).Path = file.Path := by
  rw [downloaded]
  split_ifs <;> rfl

@[simp] theorem downloaded_hash (file : SFile) : (downloaded file).Hash = file.Hash := by
  rw [downloaded]
  split_ifs <;> rfl

theorem download_states {attempt : Attempt} (sure : Sure attempt) {sha : Bytes → Digest} {files results : List SFile} {temp later : Store Place Bytes}
    (isDone : DownloadUpdate sha attempt.fetch files temp = (.ok results, later)) : results = files.map downloaded := by
  induction files generalizing results temp with
  | nil =>
    cases isDone
    rfl
  | cons file rest ih =>
    rw [DownloadUpdate] at isDone
    cases isFile : UpdateRun.download_file sha attempt.fetch temp file with
    | error code => simp [isFile] at isDone
    | ok pair =>
      obtain ⟨middle, first⟩ := pair
      simp only [isFile] at isDone
      cases isRest : DownloadUpdate sha attempt.fetch rest middle with
      | mk outcome last =>
        cases outcome with
        | error code => simp [isRest] at isDone
        | ok others =>
          simp only [isRest, Prod.mk.injEq, Except.ok.injEq] at isDone
          obtain ⟨rfl, rfl⟩ := isDone
          rw [ih isRest, List.map_cons]
          congr 1
          rw [UpdateRun.download_file] at isFile
          rw [downloaded]
          by_cases unchanged : file.State ≠ .eChanged
          · rw [if_pos unchanged] at isFile
            cases isFile
            rw [if_neg unchanged]
          · rw [if_neg unchanged] at isFile
            rw [if_pos (not_not.mp unchanged)]
            by_cases already : ((attempt.fetch file.Path).hashed &&
                ((temp.get (UpdateApply.place file.Path)).map (fun content => hexStr (sha content)) == some file.Hash)) = true
            · rw [if_pos already] at isFile
              cases isFile
              rfl
            · rw [if_neg already] at isFile
              cases got : (attempt.fetch file.Path).downloaded with
              | none => simp [got] at isFile
              | some content =>
                simp only [got, (sure file.Path).1, if_true] at isFile
                split_ifs at isFile
                cases isFile
                rfl

/-! ## Runs -/

section
variable {site : Site} {manifest : Manifest site} {attempt : Attempt} {drive later : Drive}

theorem file_place_of_place {one other : Text} (same : UpdateApply.place one = UpdateApply.place other) : site.file_place one = site.file_place other := by
  have lower : ∀ path : Text, place site.windows.fold path = (UpdateApply.place path).map (List.map site.windows.fold) := by
    intro path
    have backslash : ∀ letter : Char, letter.toLower = '\\' ↔ letter = '\\' := by
      intro letter
      rw [Char.toLower]
      split_ifs with upper
      · constructor
        · intro isBackslash
          have value := congrArg Char.toNat isBackslash
          simp only [Char.toNat, ge_iff_le, UInt32.le_iff_toNat_le] at value upper
          simp at value upper
          omega
        · rintro rfl
          simp at upper
      · exact Iff.rfl
    rw [place, UpdateApply.place]
    induction path with
    | nil => rfl
    | cons letter rest ih =>
      rw [List.map_cons, List.splitOn_cons_eq_if_modifyHead, List.splitOn_cons_eq_if_modifyHead]
      obtain ⟨first, others, split⟩ := List.exists_cons_of_ne_nil (List.splitOn_ne_nil '\\' rest)
      obtain ⟨head, tail, splitLower⟩ := List.exists_cons_of_ne_nil (List.splitOn_ne_nil '\\' (rest.map Char.toLower))
      rw [split, splitLower, List.map_cons, List.map_cons, List.cons.injEq] at ih
      by_cases isBackslash : letter = '\\'
      · rw [if_pos (by simpa using isBackslash), if_pos (by simpa using (backslash letter).mpr isBackslash), split, splitLower]
        simp [ih.1, ih.2]
      · rw [if_neg (by simpa using isBackslash), if_neg (by simpa using fun lower => isBackslash ((backslash letter).mp lower)), split, splitLower]
        simp [ih.1, ih.2, site.windows.letters]
  rw [Site.file_place, Site.file_place, place_below, place_below, lower, lower, same]

theorem mem_files {file : SFile} : file ∈ (site.find_changes drive none manifest.release.Map).entries.map Prod.snd ↔
    (site.find_changes drive none manifest.release.Map).get file.Path = some file := by
  rw [List.mem_map]
  constructor
  · rintro ⟨pair, among, rfl⟩
    have found := OrdMap.mem_entries.mp among
    obtain ⟨old, isOld, same⟩ := find_changes_get.mp found
    have isPath : pair.2.Path = pair.1 := by
      rw [same]
      exact manifest.release.keyed pair.1 old isOld
    rwa [isPath]
  · exact fun found => ⟨_, OrdMap.mem_entries.mpr found, rfl⟩

theorem file_of_manifest {file : SFile} (found : (site.find_changes drive none manifest.release.Map).get file.Path = some file) :
    ∃ old, manifest.release.Map.get file.Path = some old := by
  obtain ⟨old, isOld, -⟩ := find_changes_get.mp found
  exact ⟨old, isOld⟩

theorem files_apart : ((site.find_changes drive none manifest.release.Map).entries.map Prod.snd).Pairwise
    (fun file other => site.file_place file.Path ≠ site.file_place other.Path) := by
  rw [List.pairwise_map]
  refine (site.find_changes drive none manifest.release.Map).sorted.imp_of_mem ?_
  intro one other isOne isOther less same
  obtain ⟨oldOne, isOldOne, sameOne⟩ := find_changes_get.mp (OrdMap.mem_entries.mp isOne)
  obtain ⟨oldOther, isOldOther, sameOther⟩ := find_changes_get.mp (OrdMap.mem_entries.mp isOther)
  have pathOne : one.2.Path = one.1 := by
    rw [sameOne]
    exact manifest.release.keyed one.1 oldOne isOldOne
  have pathOther : other.2.Path = other.1 := by
    rw [sameOther]
    exact manifest.release.keyed other.1 oldOther isOldOther
  rw [pathOne, pathOther] at same
  rw [manifest.distinct one.1 oldOne other.1 oldOther isOldOne isOldOther same] at less
  exact lt_irrefl _ less

theorem current_iff_content {file : SFile} :
    Current site drive file ↔ ∃ content, content_at drive (site.file_place file.Path) = some content ∧ hexStr (site.sha content) = file.Hash :=
  Option.map_eq_some_iff

theorem current_after (sure : Sure attempt) (apart : Apart manifest) (updated : update manifest attempt drive = some later) {key : Text} {old : SFile}
    (isOld : manifest.release.Map.get key = some old) : Current site later old ↔ (is_updater old = true → Current site drive old) := by
  rw [update] at updated
  set files := (site.find_changes drive none manifest.release.Map).entries.map Prod.snd with isFiles
  have isKey := manifest.release.keyed key old isOld
  cases isDone : DownloadUpdate site.sha attempt.fetch files attempt.temp with
  | mk outcome temp =>
    cases outcome with
    | error code => simp [isDone] at updated
    | ok results =>
      simp only [isDone, ApplyUpdate, Option.map_eq_some_iff, Option.bind_eq_some_iff] at updated
      obtain ⟨⟨total, after⟩, ⟨moved, isMoved, isInstalled⟩, rfl⟩ := updated
      have states := download_states sure isDone
      subst states
      have notPending : ∀ file ∈ files, file.State ≠ .ePending := by
        intro file among
        obtain ⟨other, -, same⟩ := find_changes_get.mp (mem_files.mp among)
        rw [same]
        split_ifs <;> simp
      have apartTemp : files.Pairwise (fun file other => UpdateRun.HashOf site.sha file → UpdateRun.HashOf site.sha other →
          UpdateApply.place file.Path ≠ UpdateApply.place other.Path) :=
        files_apart.imp fun differ _ _ same => differ (file_place_of_place same)
      have ready := (UpdateRun.download_ok (fun path => (sure path).2) notPending apartTemp isDone).1
      obtain ⟨others, copies⟩ := content_install isInstalled
      -- The file as it is marked.
      have marked := (@find_changes_get site drive none manifest.release.Map key _).mpr ⟨old, isOld, rfl⟩
      set file : SFile := { old with State := if InFileFilter none old.Path = true ∧
        (ScanDir site.windows site.sha drive site.base_dir).get key ≠ some old.Hash then .eChanged else .eNone } with isFile
      have isPath : file.Path = old.Path := rfl
      have among : file ∈ files := mem_files.mpr (by rwa [isPath, isKey])
      -- What is installed with a place above it is this file itself.
      have itself : ∀ other ∈ files.map downloaded, to_install other = true → site.file_place other.Path <+: site.file_place old.Path → other = downloaded file := by
        rintro other isOther - above
        obtain ⟨further, isFurther, rfl⟩ := List.mem_map.mp isOther
        obtain ⟨found, isFound⟩ := file_of_manifest (mem_files.mp isFurther)
        rw [downloaded_path, isKey] at above
        have same := apart.separate further.Path found key old isFound isOld above
        have isMarked := mem_files.mp isFurther
        rw [same, marked] at isMarked
        rw [Option.some.inj isMarked]
      have unchanged : to_install (downloaded file) = false → content_at after (site.file_place old.Path) = content_at drive (site.file_place old.Path) := by
        intro skipped
        have none : ∀ other ∈ files.map downloaded, to_install other = true → ¬ site.file_place other.Path <+: site.file_place old.Path := by
          intro other isOther installs above
          rw [itself other isOther installs above, skipped] at installs
          cases installs
        rw [others _ (fun other isOther installs same => none other isOther installs (same ▸ List.prefix_refl _))]
        exact content_backup isMoved none (isKey ▸ apart.outside key old isOld)
      rw [current_iff_content, current_iff_content]
      by_cases isUpdater : is_updater old = true
      · have skipped : to_install (downloaded file) = false := by
          have same : is_updater (downloaded file) = true := by
            rw [is_updater, downloaded_path]
            exact isUpdater
          rw [to_install, same]
          simp
        rw [unchanged skipped]
        simp [isUpdater]
      · refine iff_of_true ?_ (fun updater => absurd updater isUpdater)
        have notUpdater : is_updater (downloaded file) = false := by
          rw [is_updater, downloaded_path]
          exact Bool.not_eq_true _ ▸ isUpdater
        by_cases changes : file.State = .eChanged
        · have pending : (downloaded file).State = .ePending := by rw [downloaded, if_pos changes]
          have installs : to_install (downloaded file) = true := by simp [to_install, is_pending, pending, notUpdater]
          have isResult := List.mem_map_of_mem (f := downloaded) among
          have apartResults : (files.map downloaded).Pairwise (fun file other => site.file_place file.Path ≠ site.file_place other.Path) := by
            rw [List.pairwise_map]
            simp only [downloaded_path]
            exact files_apart
          obtain ⟨content, isContent, isThere⟩ := copies apartResults _ isResult installs
          obtain ⟨fetched, isFetched, isHash⟩ := (ready _ isResult).2 pending
          rw [isContent] at isFetched
          cases isFetched
          rw [downloaded_path, isPath] at isThere
          rw [downloaded_hash] at isHash
          exact ⟨content, isThere, isHash.symm⟩
        · have skipped : to_install (downloaded file) = false := by
            have pending : is_pending (downloaded file) = false := by
              rw [downloaded, if_neg changes, is_pending]
              simpa using notPending file among
            rw [to_install, pending, Bool.false_and]
          rw [unchanged skipped]
          have known := (marked_iff manifest marked).not.mp changes
          rw [not_and_not_right] at known
          exact current_iff_content.mp (known rfl).2

theorem unchanged_iff : changed (site.find_changes drive none manifest.release.Map) = 0 ↔
    ∀ key file, manifest.release.Map.get key = some file → Findable site drive file.Path ∧ Current site drive file := by
  rw [changed, List.countP_eq_zero]
  constructor
  · intro none key file isFile
    have found := (@find_changes_get site drive Option.none manifest.release.Map key _).mpr ⟨file, isFile, rfl⟩
    have state := none _ (OrdMap.mem_entries.mpr found)
    rw [beq_iff_eq, marked_iff manifest found, not_and_not_right] at state
    exact state rfl
  · intro all pair among
    have found := OrdMap.mem_entries.mp among
    obtain ⟨old, isOld, same⟩ := find_changes_get.mp found
    rw [beq_iff_eq, marked_iff manifest found, not_and_not_right]
    intro _
    have known := all pair.1 old isOld
    rw [same]
    exact known

theorem converges_iff (sure : Sure attempt) (apart : Apart manifest) : Converges manifest attempt drive ↔
    ∀ later, update manifest attempt drive = some later → CurrentFindable site later none manifest ∧ UpdaterCurrent manifest drive := by
  refine forall_congr' fun later => forall_congr' fun updated => ?_
  rw [unchanged_iff]
  constructor
  · intro all
    refine ⟨fun key file isFile _ _ => (all key file isFile).1, fun key file isFile updater => ?_⟩
    exact (current_after sure apart updated isFile).mp (all key file isFile).2 updater
  · rintro ⟨findable, updater⟩ key file isFile
    have current := (current_after sure apart updated isFile).mpr (updater key file isFile)
    exact ⟨findable key file isFile rfl current, current⟩

end

/-! ## An installation in `C:\App` -/

theorem toLower_toLower (letter : Char) : letter.toLower.toLower = letter.toLower := by
  have low : ∀ upper : Char, upper.val ≥ 'A'.val ∧ upper.val ≤ 'Z'.val → 'Z'.val < upper.toLower.val := by
    intro upper isUpper
    rw [Char.toLower, dif_pos isUpper]
    have bounds := isUpper
    rw [ge_iff_le, UInt32.le_iff_toNat_le, UInt32.le_iff_toNat_le] at bounds
    have first : ('A'.val).toNat = 65 := rfl
    have last : ('Z'.val).toNat = 90 := rfl
    have shift : ('a'.val - 'A'.val).toNat = 32 := rfl
    rw [UInt32.lt_iff_toNat_lt]
    change _ < (upper.val + ('a'.val - 'A'.val)).toNat
    rw [UInt32.toNat_add, shift]
    omega
  by_cases upper : letter.val ≥ 'A'.val ∧ letter.val ≤ 'Z'.val
  · have above := low letter upper
    generalize letter.toLower = lower at above
    rw [Char.toLower, dif_neg (fun bounds => absurd bounds.2 (not_le.mpr above))]
  · have same : letter.toLower = letter := by rw [Char.toLower, dif_neg upper]
    rw [same, same]

/-- A code page of single bytes, the first 256 letters, with a question mark for all others. -/
def latin : Windows where
  fold := Char.toLower
  shows name := if name = [] then [0x3F] else name.map (fun letter => if letter.toNat < 256 then UInt8.ofNat letter.toNat else 0x3F)
  opens bytes := place Char.toLower (bytes.map (fun byte => Char.ofNat byte.toNat)).dropLast
  letters := toLower_toLower
  showsSome name := by
    split_ifs with none
    · simp
    · simpa using none
  plainShows name some plain := by
    rw [if_neg some, to_bytes_plain plain]
    refine List.map_congr_left fun letter among => if_pos ?_
    have small := plain letter among
    omega
  plainOpens directory plain _ := by
    have whole : Plain (directory ++ ['\\']) := by
      intro letter among
      rcases List.mem_append.mp among with before | last
      · exact plain letter before
      · rw [List.mem_singleton.mp last]
        decide
    rw [to_bytes_plain whole, List.map_map, ← List.map_dropLast, List.dropLast_concat]
    congr 1
    refine (List.map_congr_left fun letter among => ?_).trans (List.map_id _)
    have small := plain letter among
    have value : (UInt8.ofNat letter.toNat).toNat = letter.toNat := by
      rw [UInt8.toNat_ofNat']
      omega
    rw [Function.comp_apply, value]
    exact Char.ofNat_toNat letter

def app : Site where
  windows := latin
  sha := UpdateRun.sha256
  base_dir := "C:\\App".toList
  proper := by decide

/-- A file whose contents are the byte 1. -/
def file_for (path : Text) : SFile := ⟨path, "https://host/file".toList, hexStr UpdateRun.fileDigest, .eNone⟩

/-- A manifest of one such file. -/
def one_file (path : Text) (relative : ∀ name ∈ path.splitOn '\\', Proper name) : Manifest app where
  release := {
    Map := OrdMap.empty.insert path (file_for path)
    Sign := []
    keyed := by
      intro key file found
      rw [OrdMap.get_insert] at found
      split_ifs at found with same
      · cases found
        exact same
      · cases found }
  relative key file found := by
    rw [OrdMap.get_insert] at found
    split_ifs at found with same
    · rwa [← same]
    · cases found
  distinct key file other further found foundOther _ := by
    rw [OrdMap.get_insert] at found foundOther
    split_ifs at found foundOther with same sameOther
    · exact same.symm.trans sameOther
    · cases foundOther
    · cases found
    · cases found

theorem file_of_one {path : Text} {relative : ∀ name ∈ path.splitOn '\\', Proper name} {key : Text} {file : SFile}
    (found : (one_file path relative).release.Map.get key = some file) :
    key = path ∧ file = file_for path := by
  change (OrdMap.empty.insert path (file_for path)).get key = some file at found
  rw [OrdMap.get_insert] at found
  split_ifs at found with same
  · cases found
    exact ⟨same.symm, rfl⟩
  · cases found

theorem get_one {path : Text} {relative : ∀ name ∈ path.splitOn '\\', Proper name} :
    (one_file path relative).release.Map.get path = some (file_for path) := by
  change (OrdMap.empty.insert path (file_for path)).get path = some (file_for path)
  rw [OrdMap.get_insert, if_pos rfl]

theorem one_file_apart {path : Text} {relative : ∀ name ∈ path.splitOn '\\', Proper name}
    (outside : ¬ app.windows.place (backup_dir app) <+: app.file_place path) : Apart (one_file path relative) where
  separate _ _ _ _ found foundOther _ := (file_of_one found).1.trans (file_of_one foundOther).1.symm
  outside _ _ found := (file_of_one found).1 ▸ outside

def folder : Place × Node := (latin.place "C:\\App".toList, ⟨"App".toList, none⟩)

/-- Every download has the byte 1, and everything can be moved and copied. -/
def online : Attempt := ⟨fun _ => ⟨true, some [1], true, .done⟩, Store.empty, fun _ => true, fun _ => true⟩

/-- A file whose name is not plain, as the manifest has it. -/
def accented : Drive := ⟨[folder, (latin.place "C:\\App\\é.txt".toList, ⟨"é.txt".toList, some [1]⟩)]⟩

end TaskExplorer.UpdateConvergence
