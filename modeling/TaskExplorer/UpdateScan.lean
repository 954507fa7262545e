import TaskExplorer.UpdateRun

/-!
# What the updater finds of an installation

`ScanDir` goes through the directories with functions of the system's code page, while the files are opened under their wide names. So the
paths it keeps are what became of the names on the way, and `FindChanges` looks up the paths of the manifest among them letter by letter.
The file system itself compares names without case.
-/

namespace TaskExplorer.UpdateScan
open OrderedMap FileStore
open UpdateApply (Text Bytes Place SFile EState same_name)
open UpdateRun (SRelease Digest hexStr to_bytes changed)

/-! ## The file system -/

/-- What is under a name: a file with its contents, or a directory. -/
structure Node where
  name : Text
  content : Option Bytes
deriving DecidableEq, Repr

/-- What there is on a drive, each under the names that lead to it as the file system compares them. -/
abbrev Drive := Store Place Node

/-- A path in names that mean the same however it is opened. -/
def Proper (name : Text) : Prop := name ≠ [] ∧ '/' ∉ name ∧ name.getLast? ≠ some '.' ∧ name.getLast? ≠ some ' '

instance (name : Text) : Decidable (Proper name) := inferInstanceAs (Decidable (_ ∧ _ ∧ _ ∧ _))

def Plain (text : Text) : Prop := ∀ letter ∈ text, letter.toNat < 128

instance (text : Text) : Decidable (Plain text) := decidable_of_iff (text.all (fun letter => letter.toNat < 128) = true) (by simp [Plain])

def place (fold : Char → Char) (path : Text) : Place := (path.splitOn '\\').map (List.map fold)

/-- What the system does with names: how the file system compares letters, how `FindFirstFileA` gives a name in the code page, and
which directory it lists for the bytes of a path. Plain names are the same in every code page, and none is empty. -/
structure Windows where
  fold : Char → Char
  shows : Text → Bytes
  opens : Bytes → Place
  letters : ∀ letter, fold letter.toLower = fold letter
  showsSome : ∀ name, shows name ≠ []
  plainShows : ∀ name, name ≠ [] → Plain name → shows name = to_bytes name
  plainOpens : ∀ directory, Plain directory → (∀ name ∈ directory.splitOn '\\', Proper name) →
    opens (to_bytes (directory ++ ['\\'])) = place fold directory

def Windows.place (windows : Windows) (path : Text) : Place := UpdateScan.place windows.fold path

/-- `MAX_PATH`. -/
def maxPath : Nat := 260

def utf16_length (path : Text) : Nat := (path.map (fun letter => if letter.toNat < 0x10000 then 1 else 2)).sum

/-- What is directly below a directory. -/
def children (drive : Drive) (directory : Place) : List Node :=
  drive.files.filterMap (fun file => if file.1 ≠ [] ∧ file.1.dropLast = directory then drive.get file.1 else none)

/-! ## Scanning -/

/-- `std::wstring(aName.begin(), aName.end())`, whose characters are signed. -/
def wide_name (bytes : Bytes) : Text := bytes.map (fun byte => Char.ofNat (if byte.toNat < 128 then byte.toNat else 0xFF00 + byte.toNat))

section
variable (windows : Windows)

/-- What is listed of a child. -/
def list_child (path : Text) (node : Node) : Option Text :=
  let name := wide_name (windows.shows node.name)
  match node.content with
  | none => if name = "..".toList ∨ name = ".".toList then none else some (path ++ name ++ ['\\'])
  | some _ => some (path ++ name)

/-- What `ListDir` adds to the entries. -/
def ListDir (drive : Drive) (path : Text) : List Text :=
  if path.getLast? ≠ some '\\' then []
  else if maxPath ≤ (to_bytes path).length + 3 then []
  else (children drive (windows.opens (to_bytes path))).filterMap (list_child windows path)

/-- The entries as the loop of `ScanDir` adds them: each generation has what the one before lists. -/
def generation (drive : Drive) (path : Text) : Nat → List Text
  | 0 => [path]
  | number + 1 => (generation drive path number).flatMap (ListDir windows drive)

def scan_entries (drive : Drive) (path : Text) : List Text := (List.range maxPath).flatMap (generation windows drive path)

variable (sha : Bytes → Digest)

/-- `MyHashFile`, in hexadecimal; the path has to fit a buffer. -/
def hash_file (drive : Drive) (path : Text) : Option Text :=
  if maxPath ≤ utf16_length path + 4 then none
  else ((drive.get (windows.place path)).bind Node.content).map (fun content => hexStr (sha content))

def scan_entry (drive : Drive) (path : Text) (found : OrdMap Text Text) (entry : Text) : OrdMap Text Text :=
  if entry.getLast? = some '\\' then found
  else
    match hash_file windows sha drive entry with
    | some hash => found.insert (entry.drop path.length) hash
    | none => found

def scan_path (path : Text) : Text := if path.getLast? = some '\\' then path else path ++ ['\\']

/-- The hashes of the files, by their paths. -/
def ScanDir (drive : Drive) (path : Text) : OrdMap Text Text :=
  (scan_entries windows drive (scan_path path)).foldl (scan_entry windows sha drive (scan_path path)) OrdMap.empty

/-! ## Finding changes -/

/-- Without a filter every name passes. -/
def InFileFilter (filter : Option (List Text)) (name : Text) : Bool :=
  match filter with
  | none => true
  | some names => names.any (fun entry => same_name entry name)

def FindChanges (drive : Drive) (base_dir : Text) (filter : Option (List Text)) (files : OrdMap Text SFile) : OrdMap Text SFile :=
  let old := ScanDir windows sha drive base_dir
  files.mapValues (fun key file =>
    if InFileFilter filter file.Path && (old.get key != some file.Hash) then { file with State := .eChanged } else { file with State := .eNone })

end

/-! ## What is expected -/

/-- An installation in a directory, given by a path in normal form. -/
structure Site where
  windows : Windows
  sha : Bytes → Digest
  base_dir : Text
  proper : ∀ name ∈ base_dir.splitOn '\\', Proper name

namespace Site
variable (site : Site)

/-- Where a relative path leads to. -/
def file_place (path : Text) : Place := site.windows.place (site.base_dir ++ '\\' :: path)

def hash_at (drive : Drive) (path : Text) : Option Text :=
  ((drive.get (site.file_place path)).bind Node.content).map (fun content => hexStr (site.sha content))

def find_changes (drive : Drive) (filter : Option (List Text)) (files : OrdMap Text SFile) : OrdMap Text SFile :=
  FindChanges site.windows site.sha drive site.base_dir filter files

end Site

/-- A manifest of relative paths in normal form, which are distinct without their case. -/
structure Manifest (site : Site) where
  release : SRelease
  relative : ∀ key file, release.Map.get key = some file → ∀ name ∈ key.splitOn '\\', Proper name
  distinct : ∀ key file other further, release.Map.get key = some file → release.Map.get other = some further →
    site.file_place key = site.file_place other → key = other

/-- The file is there, with the contents that the manifest says. -/
def Current (site : Site) (drive : Drive) (file : SFile) : Prop := site.hash_at drive file.Path = some file.Hash

instance (site : Site) (drive : Drive) (file : SFile) : Decidable (Current site drive file) := inferInstanceAs (Decidable (_ = _))

/-- What passes the filter and is not current is marked, and nothing else is. -/
def MarksExactly (site : Site) (drive : Drive) (filter : Option (List Text)) (manifest : Manifest site) : Prop :=
  ∀ key file, (site.find_changes drive filter manifest.release.Map).get key = some file →
    (file.State = .eChanged ↔ InFileFilter filter file.Path = true ∧ ¬ Current site drive file)

/-- The names on the way to an entry come out of the listings as they are in it. -/
inductive Listed (site : Site) (drive : Drive) : Text → Prop where
  | start : Listed site drive (site.base_dir ++ ['\\'])
  | next {directory entry : Text} (before : Listed site drive directory) (among : entry ∈ ListDir site.windows drive directory) :
    Listed site drive entry

/-- The path is listed letter by letter, and is not too long to be opened. -/
def Findable (site : Site) (drive : Drive) (path : Text) : Prop :=
  Listed site drive (site.base_dir ++ '\\' :: path) ∧ utf16_length (site.base_dir ++ '\\' :: path) + 4 < maxPath

/-- Every file that passes the filter and is current can be found. -/
def CurrentFindable (site : Site) (drive : Drive) (filter : Option (List Text)) (manifest : Manifest site) : Prop :=
  ∀ key file, manifest.release.Map.get key = some file → InFileFilter filter file.Path = true → Current site drive file →
    Findable site drive file.Path

/-! ## Entries -/

section
variable {windows : Windows} {drive : Drive} {path entry : Text}

theorem mem_listDir (among : entry ∈ ListDir windows drive path) :
    path.getLast? = some '\\' ∧ (to_bytes path).length + 3 < maxPath ∧
      ∃ node ∈ children drive (windows.opens (to_bytes path)), list_child windows path node = some entry := by
  rw [ListDir] at among
  split_ifs at among with isFile isLong
  · cases among
  · cases among
  · exact ⟨not_not.mp isFile, by omega, List.mem_filterMap.mp among⟩

theorem wide_name_some (node : Node) : wide_name (windows.shows node.name) ≠ [] := by
  rw [wide_name, Ne, List.map_eq_nil_iff]
  exact windows.showsSome _

theorem list_child_longer {node : Node} (listed : list_child windows path node = some entry) : ∃ below, below ≠ [] ∧ entry = path ++ below := by
  rw [list_child] at listed
  cases content : node.content with
  | none =>
    simp only [content] at listed
    split_ifs at listed
    cases listed
    exact ⟨wide_name (windows.shows node.name) ++ ['\\'], by simp, List.append_assoc _ _ _⟩
  | some bytes =>
    simp only [content] at listed
    cases listed
    exact ⟨wide_name (windows.shows node.name), wide_name_some node, rfl⟩

theorem length_to_bytes (text : Text) : text.length ≤ (to_bytes text).length := by
  induction text with
  | nil => exact le_rfl
  | cons letter rest ih =>
    rw [to_bytes, List.flatMap_cons, List.length_append, List.length_cons]
    have some := String.length_utf8EncodeChar letter
    have positive := Char.utf8Size_pos letter
    rw [to_bytes] at ih
    omega

theorem generation_longer (number : Nat) (among : entry ∈ generation windows drive path number) :
    ∃ below, entry = path ++ below ∧ number ≤ below.length := by
  induction number generalizing entry with
  | zero =>
    rw [List.mem_singleton.mp among]
    exact ⟨[], (List.append_nil _).symm, le_rfl⟩
  | succ number ih =>
    obtain ⟨directory, isBefore, isListed⟩ := List.mem_flatMap.mp among
    obtain ⟨upper, rfl, enough⟩ := ih isBefore
    obtain ⟨-, -, node, -, listed⟩ := mem_listDir isListed
    obtain ⟨below, some, rfl⟩ := list_child_longer listed
    refine ⟨upper ++ below, List.append_assoc _ _ _, ?_⟩
    rw [List.length_append]
    have positive := List.length_pos_iff.mpr some
    omega

theorem generation_end {number : Nat} (enough : maxPath ≤ number) : generation windows drive path number = [] := by
  obtain ⟨before, rfl⟩ := Nat.exists_eq_add_of_le' (show 1 ≤ number from le_trans (by decide) enough)
  rw [List.eq_nil_iff_forall_not_mem]
  intro entry among
  obtain ⟨directory, isBefore, isListed⟩ := List.mem_flatMap.mp among
  obtain ⟨below, rfl, long⟩ := generation_longer before isBefore
  obtain ⟨-, short, -⟩ := mem_listDir isListed
  have bytes := length_to_bytes (path ++ below)
  rw [List.length_append] at bytes
  omega

theorem mem_scan_entries : entry ∈ scan_entries windows drive path ↔ ∃ number, entry ∈ generation windows drive path number := by
  rw [scan_entries, List.mem_flatMap]
  constructor
  · rintro ⟨number, -, among⟩
    exact ⟨number, among⟩
  · rintro ⟨number, among⟩
    refine ⟨number, List.mem_range.mpr ?_, among⟩
    by_contra beyond
    rw [generation_end (not_lt.mp beyond)] at among
    cases among

end

section
variable {site : Site} {drive : Drive}

theorem scan_path_base (site : Site) : scan_path site.base_dir = site.base_dir ++ ['\\'] := by
  refine if_neg fun last => ?_
  obtain ⟨upper, isUpper⟩ := List.getLast?_eq_some_iff.mp last
  refine (site.proper [] ?_).1 rfl
  rw [isUpper, List.splitOn_append_cons_self, List.splitOn_nil]
  simp

theorem mem_entries_iff {entry : Text} : entry ∈ scan_entries site.windows drive (site.base_dir ++ ['\\']) ↔ Listed site drive entry := by
  rw [mem_scan_entries]
  constructor
  · rintro ⟨number, among⟩
    induction number generalizing entry with
    | zero =>
      rw [List.mem_singleton.mp among]
      exact .start
    | succ number ih =>
      obtain ⟨directory, isBefore, isListed⟩ := List.mem_flatMap.mp among
      exact .next (ih isBefore) isListed
  · intro listed
    induction listed with
    | start => exact ⟨0, List.mem_singleton_self _⟩
    | next _ among ih =>
      obtain ⟨number, isBefore⟩ := ih
      exact ⟨number + 1, List.mem_flatMap.mpr ⟨_, isBefore, among⟩⟩

theorem scan_get (entries : List Text) (path : Text) (long : ∀ entry ∈ entries, path <+: entry) (key hash : Text) :
    (entries.foldl (scan_entry site.windows site.sha drive path) OrdMap.empty).get key = some hash ↔
      path ++ key ∈ entries ∧ (path ++ key).getLast? ≠ some '\\' ∧ hash_file site.windows site.sha drive (path ++ key) = some hash := by
  induction entries using List.reverseRecOn with
  | nil => simp
  | append_singleton before entry ih =>
    have ihBefore := ih (fun other among => long other (List.mem_append_left _ among))
    obtain ⟨below, rfl⟩ := long entry (by simp)
    rw [List.foldl_append, List.foldl_cons, List.foldl_nil, scan_entry, List.mem_append, List.mem_singleton, List.append_cancel_left_eq]
    by_cases isDirectory : (path ++ below).getLast? = some '\\'
    · rw [if_pos isDirectory, ihBefore]
      by_cases isKey : key = below
      · subst isKey
        exact iff_of_false (fun kept => kept.2.1 isDirectory) (fun kept => kept.2.1 isDirectory)
      · simp only [isKey, or_false]
    · rw [if_neg isDirectory]
      by_cases isKey : key = below
      · subst isKey
        cases isHash : hash_file site.windows site.sha drive (path ++ key) with
        | none => simp [ihBefore, isHash]
        | some other => simp only [OrdMap.get_insert, List.drop_left, if_true, or_true, true_and, ne_eq, isDirectory, not_false_eq_true]
      · cases isHash : hash_file site.windows site.sha drive (path ++ below) with
        | none => simp only [ihBefore, isKey, or_false]
        | some other => simp only [OrdMap.get_insert, List.drop_left, Ne.symm isKey, isKey, if_false, ihBefore, or_false]

theorem scanDir_get (path : Text) (isFile : (site.base_dir ++ '\\' :: path).getLast? ≠ some '\\') (hash : Text) :
    (ScanDir site.windows site.sha drive site.base_dir).get path = some hash ↔ Findable site drive path ∧ site.hash_at drive path = some hash := by
  have long : ∀ entry ∈ scan_entries site.windows drive (site.base_dir ++ ['\\']), site.base_dir ++ ['\\'] <+: entry := by
    intro entry among
    obtain ⟨number, isNumber⟩ := mem_scan_entries.mp among
    obtain ⟨below, rfl, -⟩ := generation_longer number isNumber
    exact List.prefix_append _ _
  have whole : site.base_dir ++ ['\\'] ++ path = site.base_dir ++ '\\' :: path := by simp
  rw [ScanDir, scan_path_base, scan_get _ _ long, whole, mem_entries_iff, Findable, hash_file, and_assoc]
  refine and_congr_right fun _ => ?_
  rw [and_iff_right isFile]
  by_cases fits : utf16_length (site.base_dir ++ '\\' :: path) + 4 < maxPath
  · rw [if_neg (not_le.mpr fits), and_iff_right fits]
    exact Iff.rfl
  · rw [if_pos (not_lt.mp fits)]
    simp [fits]

theorem file_not_directory {path : Text} (relative : ∀ name ∈ path.splitOn '\\', Proper name) :
    (site.base_dir ++ '\\' :: path).getLast? ≠ some '\\' := by
  intro last
  cases path with
  | nil => exact (relative [] (by simp)).1 rfl
  | cons letter rest =>
    rw [List.getLast?_append_of_ne_nil _ (by simp), List.getLast?_cons_cons] at last
    obtain ⟨upper, isUpper⟩ := List.getLast?_eq_some_iff.mp last
    refine (relative [] ?_).1 rfl
    rw [isUpper, List.splitOn_append_cons_self, List.splitOn_nil]
    simp

theorem find_changes_get {filter : Option (List Text)} {files : OrdMap Text SFile} {key : Text} {file : SFile} :
    (site.find_changes drive filter files).get key = some file ↔ ∃ old, files.get key = some old ∧
      file = { old with State := if InFileFilter filter old.Path = true ∧
        (ScanDir site.windows site.sha drive site.base_dir).get key ≠ some old.Hash then .eChanged else .eNone } := by
  rw [Site.find_changes, FindChanges, OrdMap.get_mapValues, Option.map_eq_some_iff]
  refine exists_congr fun old => and_congr_right fun _ => ?_
  simp only [Bool.and_eq_true, bne_iff_ne, ne_eq]
  constructor
  · rintro rfl
    split_ifs <;> rfl
  · rintro rfl
    split_ifs <;> rfl

theorem marked_iff (manifest : Manifest site) {filter : Option (List Text)} {key : Text} {file : SFile}
    (found : (site.find_changes drive filter manifest.release.Map).get key = some file) :
    file.State = .eChanged ↔ InFileFilter filter file.Path = true ∧ ¬ (Findable site drive file.Path ∧ Current site drive file) := by
  obtain ⟨old, isOld, rfl⟩ := find_changes_get.mp found
  have isKey := manifest.release.keyed key old isOld
  have scanned := @scanDir_get site drive key (file_not_directory (manifest.relative key old isOld)) old.Hash
  simp only [Current, isKey, ← scanned]
  by_cases marked : InFileFilter filter key = true ∧ (ScanDir site.windows site.sha drive site.base_dir).get key ≠ some old.Hash
  · rw [if_pos marked]
    simp only [true_iff]
    exact marked
  · rw [if_neg marked]
    simp only [reduceCtorEq, false_iff]
    exact marked

theorem marks_exactly_iff (manifest : Manifest site) (filter : Option (List Text)) :
    MarksExactly site drive filter manifest ↔ CurrentFindable site drive filter manifest := by
  constructor
  · intro exact key file isFile passes current
    have marked := (@find_changes_get site drive filter manifest.release.Map key _).mpr ⟨file, isFile, rfl⟩
    have agrees := exact key _ marked
    rw [marked_iff manifest marked] at agrees
    by_contra hidden
    exact (agrees.mp ⟨passes, fun found => hidden found.1⟩).2 current
  · intro findable key file found
    rw [marked_iff manifest found]
    obtain ⟨old, isOld, same⟩ := find_changes_get.mp found
    refine and_congr_right fun passes => not_congr ⟨And.right, fun current => ⟨?_, current⟩⟩
    have isPath : file.Path = old.Path := by rw [same]
    have isHash : file.Hash = old.Hash := by rw [same]
    rw [isPath] at passes ⊢
    refine findable key old isOld passes ?_
    rw [Current, isPath, isHash] at current
    exact current

/-! ## What can be found -/

theorem listed_letters {entry : Text} (listed : Listed site drive entry) :
    ∃ below, entry = site.base_dir ++ '\\' :: below ∧ ∀ letter ∈ below, letter.toNat < 128 ∨ 0xFF80 ≤ letter.toNat := by
  have shown : ∀ node : Node, ∀ letter ∈ wide_name (site.windows.shows node.name), letter.toNat < 128 ∨ 0xFF80 ≤ letter.toNat := by
    intro node letter among
    obtain ⟨byte, -, rfl⟩ := List.mem_map.mp among
    have small := byte.toNat_lt
    split_ifs with plain
    · left
      rw [Char.toNat_ofNat, if_pos (.inl (by omega))]
      exact plain
    · right
      rw [Char.toNat_ofNat, if_pos (.inr (by omega))]
      omega
  induction listed with
  | start => exact ⟨[], rfl, by simp⟩
  | next _ among ih =>
    obtain ⟨upper, rfl, plain⟩ := ih
    obtain ⟨-, -, node, -, isChild⟩ := mem_listDir among
    rw [list_child] at isChild
    cases content : node.content with
    | none =>
      simp only [content] at isChild
      split_ifs at isChild
      cases isChild
      refine ⟨upper ++ (wide_name (site.windows.shows node.name) ++ ['\\']), by simp, ?_⟩
      intro letter inside
      rcases List.mem_append.mp inside with before | inside
      · exact plain letter before
      · rcases List.mem_append.mp inside with name | last
        · exact shown node letter name
        · rw [List.mem_singleton.mp last]
          exact .inl (by decide)
    | some bytes =>
      simp only [content] at isChild
      cases isChild
      refine ⟨upper ++ wide_name (site.windows.shows node.name), by simp, ?_⟩
      intro letter inside
      rcases List.mem_append.mp inside with before | name
      · exact plain letter before
      · exact shown node letter name

theorem not_findable {path : Text} {letter : Char} (among : letter ∈ path) (foreign : 128 ≤ letter.toNat ∧ letter.toNat < 0xFF80) :
    ¬ Findable site drive path := by
  rintro ⟨listed, -⟩
  obtain ⟨below, same, plain⟩ := listed_letters listed
  rw [List.append_cancel_left_eq, List.cons.injEq] at same
  rw [same.2] at among
  have known := plain letter among
  omega

theorem to_bytes_plain {text : Text} (plain : Plain text) : to_bytes text = text.map (fun letter => UInt8.ofNat letter.toNat) := by
  induction text with
  | nil => rfl
  | cons letter rest ih =>
    have small := plain letter List.mem_cons_self
    have one : String.utf8EncodeChar letter = [UInt8.ofNat letter.toNat] := by
      rw [String.utf8EncodeChar]
      simp only [show letter.val.toNat = letter.toNat from rfl, if_pos (show letter.toNat ≤ 0x7f by omega)]
    rw [to_bytes, List.flatMap_cons, one, List.map_cons, ← ih (fun other among => plain other (List.mem_cons_of_mem _ among))]
    rfl

end

end TaskExplorer.UpdateScan
