import TaskExplorer.OrderedMap
import TaskExplorer.UpdateApply

/-!
# A run of the updater

`UpdUtil update` gets a manifest from the server or from the temporary directory, finds the files that have changed, downloads them to the
temporary directory and installs them. Hashes are those of SHA-256; what `VerifyHashSignature` accepts, and how a manifest is
written and read as JSON, are parameters. Other programs may write to the temporary directory between two runs.
-/

namespace TaskExplorer.UpdateRun
open OrderedMap FileStore Transition UpdateApply

def UPD_ERROR_INVALID : Int := -1
def UPD_ERROR_HASH : Int := -3
def UPD_ERROR_DOWNLOAD : Int := -4
def UPD_ERROR_GET : Int := -9
def UPD_ERROR_LOAD : Int := -10

def UPDATE_FILE : Text := "update.json".toList

abbrev Digest := Vector UInt8 32

/-- What of an `SRelease` the update uses. -/
structure SRelease where
  Map : OrdMap Text SFile
  Sign : Text
  keyed : ∀ key file, Map.get key = some file → file.Path = key

/-- `g_str_conv.to_bytes`. -/
def to_bytes (text : Text) : Bytes := text.flatMap String.utf8EncodeChar

def hexmap : List Char := ['0', '1', '2', '3', '4', '5', '6', '7', '8', '9', 'a', 'b', 'c', 'd', 'e', 'f']

def hexStr (data : Digest) : Text :=
  data.toList.flatMap (fun byte => [hexmap.getD (byte.toNat / 16) ' ', hexmap.getD (byte.toNat % 16) ' '])

/-- The lines in order and once each, every one with its end. -/
def hashes (lines : List Text) : Text :=
  (lines.foldl (fun set line => set.insert line ()) (OrdMap.empty : OrdMap Text Unit)).entries.flatMap (fun line => line.1 ++ ['\n'])

def line (path hash : Text) : Text := path ++ [':'] ++ hash

def lines (files : OrdMap Text SFile) : List Text := files.entries.map (fun pair => line pair.2.Path pair.2.Hash)

section
variable (sha : Bytes → Digest) (accepts : Digest → Text → Bool) (parse : Bytes → Option SRelease) (render : SRelease → Bytes)

/-- `hashed` says whether the hash could be computed. -/
def VerifyUpdate (hashed : Bool) (release : SRelease) : Bool :=
  hashed && accepts (sha (to_bytes (hashes (lines release.Map)))) release.Sign

/-! ## Getting the manifest -/

def LoadUpdateFromDisk (temp : Store Place Bytes) : Option SRelease :=
  match temp.get (place UPDATE_FILE) with
  | some content => if content.length ≤ 1024 * 1024 then parse content else none
  | none => none

def DownloadUpdateFromServer (answer : Option SRelease) (hashed : Bool) : Option SRelease :=
  match answer with
  | some release => if VerifyUpdate sha accepts hashed release then some release else none
  | none => none

/-- How `MyWriteFile` ends: all is written, the file cannot be opened, or it is cut and only a part is written. -/
inductive Written where
  | done
  | refused
  | cut (length : Nat)
deriving DecidableEq, Repr

def MyWriteFile (temp : Store Place Bytes) (path : Text) (content : Bytes) : Written → Store Place Bytes
  | .done => temp.put (place path) content
  | .refused => temp
  | .cut length => temp.put (place path) (content.take length)

/-! ## Finding changes -/

def ParseFileList (files : Text) : List Text := if files = [] then [] else files.splitOn ';'

def InFileFilter (filter : List Text) (name : Text) : Bool := filter.isEmpty || filter.any (same_name name)

/-- `scanned` has the hashes that `ScanDir` found. -/
def FindChanges (scanned : OrdMap Text Text) (filter : List Text) (files : OrdMap Text SFile) : OrdMap Text SFile :=
  files.mapValues (fun key file =>
    if InFileFilter filter file.Path && (scanned.get key != some file.Hash) then { file with State := .eChanged } else { file with State := .eNone })

def changed (files : OrdMap Text SFile) : Nat := files.entries.countP (fun pair => pair.2.State == .eChanged)

/-! ## Downloading -/

/-- What becomes of one file: whether the old one and the download could be hashed, what was downloaded and how it was written. -/
structure Fetch where
  hashed : Bool
  downloaded : Option Bytes
  computed : Bool
  written : Written

/-- One turn of the loop of `DownloadUpdate`; the result of the write is not looked at. -/
def download_file (fetch : Text → Fetch) (temp : Store Place Bytes) (file : SFile) : Except Int (Store Place Bytes × SFile) :=
  if file.State ≠ .eChanged then .ok (temp, file)
  else if (fetch file.Path).hashed && ((temp.get (place file.Path)).map (fun content => hexStr (sha content)) == some file.Hash) then
    .ok (temp, { file with State := .ePending })
  else
    match (fetch file.Path).downloaded with
    | none => .error UPD_ERROR_DOWNLOAD
    | some content =>
      if (fetch file.Path).computed then
        if file.Hash = hexStr (sha content) then
          .ok (MyWriteFile temp file.Path content (fetch file.Path).written, { file with State := .ePending })
        else .error UPD_ERROR_HASH
      else .ok (temp, file)

/-- The error, or the files with their states; and the temporary directory. -/
def DownloadUpdate (fetch : Text → Fetch) : List SFile → Store Place Bytes → Except Int (List SFile) × Store Place Bytes
  | [], temp => (.ok [], temp)
  | file :: rest, temp =>
    match download_file sha fetch temp file with
    | .error code => (.error code, temp)
    | .ok (temp, file) =>
      match DownloadUpdate fetch rest temp with
      | (.error code, temp) => (.error code, temp)
      | (.ok rest, temp) => (.ok (file :: rest), temp)

/-! ## Steps -/

structure Arguments where
  channel : Text
  version : Text
  step : Text
  files : Text
  base_dir : Text

/-- What the run meets: the answer of the server, the hashes of the installation, and how each operation ends. -/
structure Environment where
  answer : Option SRelease
  hashed : Bool
  stored : Written
  scanned : OrdMap Text Text
  fetch : Text → Fetch
  shutDown : Bool
  canMove : Place → Bool
  canCopy : Place → Bool

structure State where
  temp : Store Place Bytes
  base : Disk
  copied : List (Text × Bytes)

def can_get (arguments : Arguments) : Bool := !arguments.channel.isEmpty || !arguments.version.isEmpty

/-- Whether the run asks the server. -/
def gets (arguments : Arguments) : Bool := (can_get arguments && arguments.step.isEmpty) || arguments.step == "get".toList

/-- The steps from SCAN on. -/
def update_files (arguments : Arguments) (environment : Environment) (state : State) (release : SRelease) : State × Int :=
  let step := arguments.step
  let files := FindChanges environment.scanned (ParseFileList arguments.files) release.Map
  if step ∉ [[], "scan".toList, "prepare".toList, "apply".toList] then (state, 0)
  else if changed files = 0 then (state, 0)
  else if step = "scan".toList then (state, changed files)
  else
    match DownloadUpdate sha environment.fetch (files.entries.map Prod.snd) state.temp with
    | (.error code, temp) => ({ state with temp := temp }, code)
    | (.ok downloaded, temp) =>
      if step = "prepare".toList then ({ state with temp := temp }, changed files)
      else if environment.shutDown = false then ({ state with temp := temp }, UPD_ERROR_INTERNAL)
      else
        let outcome := ApplyUpdate ⟨arguments.base_dir, downloaded, temp.get, environment.canMove, environment.canCopy⟩ state.base
        (⟨temp, outcome.disk, state.copied ++ outcome.copied⟩, if outcome.result < 0 then outcome.result else 0)

def update (arguments : Arguments) (environment : Environment) (state : State) : State × Int :=
  if gets arguments then
    match DownloadUpdateFromServer sha accepts environment.answer environment.hashed with
    | none => (state, UPD_ERROR_GET)
    | some release =>
      let state := { state with temp := MyWriteFile state.temp UPDATE_FILE (render release) environment.stored }
      if arguments.step = "get".toList then (state, 0) else update_files sha arguments environment state release
  else
    match LoadUpdateFromDisk parse state.temp with
    | none => (state, if can_get arguments then UPD_ERROR_LOAD else UPD_ERROR_INVALID)
    | some release => update_files sha arguments environment state release

inductive Event where
  | update (arguments : Arguments) (environment : Environment)
  | written (temp : Store Place Bytes)

def step (state : State) : Event → Option State
  | .update arguments environment => some (update sha accepts parse render arguments environment state).1
  | .written temp => some { state with temp := temp }

/-! ## The property -/

end

/-- What `UploadUpdate` signs: the files of one scan of a directory, with their hashes. -/
structure Release where
  files : List (Text × Text)
  plain : ∀ file ∈ files, '\n' ∉ file.1
  hashed : ∀ file ∈ files, ∃ digest, file.2 = hexStr digest
  apart : ∀ file ∈ files, ∀ other ∈ files, place file.1 = place other.1 → file = other

def Release.text (release : Release) : Bytes := to_bytes (hashes (release.files.map (fun file => line file.1 file.2)))

/-- A signature that is accepted was made for a release, whose text no other one has the hash of. -/
structure Signing (sha : Bytes → Digest) (accepts : Digest → Text → Bool) (signed : Release → Prop) : Prop where
  made : ∀ digest sign, accepts digest sign = true → ∃ release, signed release ∧ digest = sha release.text
  alone : ∀ release, signed release → ∀ content, sha content = sha release.text → content = release.text

/-- Every file that was copied is of a signed release, under its path. -/
def OnlySigned (sha : Bytes → Digest) (signed : Release → Prop) (state : State) : Prop :=
  ∀ copy ∈ state.copied, ∃ release, signed release ∧ (copy.1, hexStr (sha copy.2)) ∈ release.files

/-- No path has a line end. -/
def OneLine (release : SRelease) : Prop := ∀ key file, release.Map.get key = some file → '\n' ∉ file.Path

/-- Downloads are written, and a manifest that is loaded from the temporary directory is a signed one. -/
def Careful (sha : Bytes → Digest) (accepts : Digest → Text → Bool) (parse : Bytes → Option SRelease) (state : State) : Event → Prop
  | .update arguments environment =>
    (∀ path, (environment.fetch path).written = .done) ∧
    if gets arguments then ∀ release, environment.answer = some release → OneLine release
    else ∀ release, LoadUpdateFromDisk parse state.temp = some release → OneLine release ∧ VerifyUpdate sha accepts true release = true
  | .written _ => True

/-! ## Lines -/

theorem to_bytes_injective {one other : Text} (same : to_bytes one = to_bytes other) : one = other := by
  have encoded : one.utf8Encode = other.utf8Encode := by
    rw [List.utf8Encode, List.utf8Encode]
    exact congrArg List.toByteArray same
  have decoded := congrArg ByteArray.utf8Decode? encoded
  simpa using decoded

/-- The lines, each with its end. -/
def ended (lines : List Text) : Text := lines.flatMap (fun line => line ++ ['\n'])

theorem ended_drop {lines : List Text} (plain : ∀ line ∈ lines, '\n' ∉ line) {first rest : Text} (same : first ++ '\n' :: rest = ended lines) :
    ∃ fewer, rest = ended fewer ∧ fewer ⊆ lines := by
  induction lines generalizing first with
  | nil => simp [ended] at same
  | cons line lines ih =>
    rw [ended, List.flatMap_cons, List.append_assoc, List.singleton_append] at same
    have notLine := plain line List.mem_cons_self
    obtain ⟨middle, isLine, isRest⟩ | ⟨middle, isFirst, isRest⟩ := List.append_eq_append_iff.mp same
    · cases middle with
      | nil =>
        rw [List.nil_append] at isRest
        exact ⟨lines, (List.cons.inj isRest).2, List.subset_cons_self _ _⟩
      | cons char middle =>
        have isEnd := (List.cons.inj isRest).1
        exact absurd (by simp [isLine, ← isEnd]) notLine
    · cases middle with
      | nil =>
        rw [List.nil_append] at isRest
        exact ⟨lines, ((List.cons.inj isRest).2).symm, List.subset_cons_self _ _⟩
      | cons char middle =>
        obtain ⟨isEnd, tail⟩ := List.cons.inj isRest
        obtain ⟨fewer, isFewer, within⟩ := ih (fun other member => plain other (List.mem_cons_of_mem _ member)) tail.symm
        exact ⟨fewer, isFewer, List.subset_cons_of_subset _ within⟩

theorem mem_of_ended {lines others : List Text} (plain : ∀ line ∈ others, '\n' ∉ line) (same : ended lines = ended others) {sought : Text}
    (member : sought ∈ lines) (isPlain : '\n' ∉ sought) : sought ∈ others := by
  induction lines generalizing others with
  | nil => cases member
  | cons first rest ih =>
    rw [ended, List.flatMap_cons, List.append_assoc, List.singleton_append] at same
    obtain rfl | inRest := List.mem_cons.mp member
    · cases others with
      | nil => simp [ended] at same
      | cons other others =>
        rw [ended, List.flatMap_cons, List.append_assoc, List.singleton_append] at same
        have notOther := plain other List.mem_cons_self
        obtain ⟨middle, isOther, isRest⟩ | ⟨middle, isSought, isRest⟩ := List.append_eq_append_iff.mp same
        · cases middle with
          | nil => simp [isOther]
          | cons char middle => exact absurd (by simp [isOther, ← (List.cons.inj isRest).1]) notOther
        · cases middle with
          | nil => simp [isSought]
          | cons char middle => exact absurd (by simp [isSought, ← (List.cons.inj isRest).1]) isPlain
    · obtain ⟨fewer, isFewer, within⟩ := ended_drop plain same
      exact within (ih (fun line inFewer => plain line (within inFewer)) isFewer inRest)

theorem mem_line_set (lines : List Text) (set : OrdMap Text Unit) (sought : Text) :
    (sought, ()) ∈ (lines.foldl (fun set line => set.insert line ()) set).entries ↔ sought ∈ lines ∨ (sought, ()) ∈ set.entries := by
  induction lines generalizing set with
  | nil => simp
  | cons first rest ih =>
    rw [List.foldl_cons, ih, OrdMap.mem_entries, OrdMap.mem_entries, OrdMap.get_insert, List.mem_cons]
    by_cases same : first = sought
    · simp [same]
    · simp [same, Ne.symm same]

theorem hashes_ended (lines : List Text) : ∃ kept, hashes lines = ended kept ∧ ∀ sought, sought ∈ kept ↔ sought ∈ lines := by
  refine ⟨(lines.foldl (fun set line => set.insert line ()) (OrdMap.empty : OrdMap Text Unit)).entries.map Prod.fst, ?_, ?_⟩
  · rw [ended, List.flatMap_map]
    rfl
  · intro sought
    have both := mem_line_set lines OrdMap.empty sought
    simp only [OrdMap.empty, List.not_mem_nil, or_false] at both
    rw [← both, List.mem_map]
    constructor
    · rintro ⟨⟨line, _⟩, member, rfl⟩
      exact member
    · intro member
      exact ⟨_, member, rfl⟩

theorem hexStr_length (data : Digest) : (hexStr data).length = 64 := by
  have each : ∀ bytes : List UInt8, (bytes.flatMap (fun byte => [hexmap.getD (byte.toNat / 16) ' ', hexmap.getD (byte.toNat % 16) ' '])).length =
      2 * bytes.length := by
    intro bytes
    induction bytes with
    | nil => rfl
    | cons first rest ih =>
      rw [List.flatMap_cons, List.length_append, ih]
      simp only [List.length_cons, List.length_nil]
      omega
  rw [hexStr, each]
  simp

theorem hexStr_plain (data : Digest) : '\n' ∉ hexStr data := by
  have digit : ∀ position, hexmap.getD position ' ' ≠ '\n' := by
    intro position
    rw [List.getD_eq_getElem?_getD]
    cases found : hexmap[position]? with
    | none => decide
    | some char =>
      have notEnd : ∀ char ∈ hexmap, char ≠ '\n' := by simp [hexmap]
      exact notEnd char (List.mem_of_getElem? found)
  simp only [hexStr, List.mem_flatMap, List.mem_cons, List.not_mem_nil, or_false, not_exists, not_and, not_or]
  intro byte _
  exact ⟨(digit _).symm, (digit _).symm⟩

theorem line_injective {path other hash further : Text} (same : line path hash = line other further) (length : hash.length = further.length) :
    path = other ∧ hash = further := by
  have both := List.append_inj' same length
  exact ⟨List.append_cancel_right both.1, both.2⟩

theorem mem_release {release : Release} {files : OrdMap Text SFile} (same : to_bytes (hashes (lines files)) = release.text) {key : Text} {file : SFile}
    (member : files.get key = some file) (plain : '\n' ∉ file.Path) {digest : Digest} (isHash : file.Hash = hexStr digest) :
    (file.Path, file.Hash) ∈ release.files := by
  have texts := to_bytes_injective same
  obtain ⟨kept, isKept, inKept⟩ := hashes_ended (lines files)
  obtain ⟨signed, isSigned, inSigned⟩ := hashes_ended (release.files.map (fun file => line file.1 file.2))
  have signedPlain : ∀ sought ∈ signed, '\n' ∉ sought := by
    intro sought inText
    obtain ⟨other, isOther, rfl⟩ := List.mem_map.mp ((inSigned sought).mp inText)
    obtain ⟨otherDigest, isOtherHash⟩ := release.hashed other isOther
    simp [line, release.plain other isOther, isOtherHash, hexStr_plain]
  have inFiles : line file.Path file.Hash ∈ kept :=
    (inKept _).mpr (List.mem_map.mpr ⟨(key, file), OrdMap.mem_entries.mpr member, rfl⟩)
  have found := mem_of_ended signedPlain (isKept.symm.trans (texts.trans isSigned)) inFiles (by simp [line, plain, isHash, hexStr_plain])
  obtain ⟨other, isOther, isLine⟩ := List.mem_map.mp ((inSigned _).mp found)
  obtain ⟨otherDigest, isOtherHash⟩ := release.hashed other isOther
  obtain ⟨samePath, sameHash⟩ := line_injective isLine (by rw [isOtherHash, isHash, hexStr_length, hexStr_length])
  rwa [← samePath, ← sameHash]

/-! ## Downloads -/

section
variable {sha : Bytes → Digest} {fetch : Text → Fetch}

/-- The file has the hash of something. -/
def HashOf (sha : Bytes → Digest) (file : SFile) : Prop := ∃ content, file.Hash = hexStr (sha content)

/-- The temporary directory holds what the hash is of. -/
def Ready (sha : Bytes → Digest) (temp : Store Place Bytes) (file : SFile) : Prop :=
  ∃ content, temp.get (place file.Path) = some content ∧ file.Hash = hexStr (sha content)

theorem download_file_ok (written : ∀ path, (fetch path).written = .done) {temp later : Store Place Bytes} {file result : SFile}
    (notPending : file.State ≠ .ePending) (isDone : download_file sha fetch temp file = .ok (later, result)) :
    result.Path = file.Path ∧ result.Hash = file.Hash ∧ (result.State = .ePending → Ready sha later result) ∧
      ∀ path, (HashOf sha file → place file.Path ≠ path) → later.get path = temp.get path := by
  rw [download_file] at isDone
  by_cases unchanged : file.State ≠ .eChanged
  · rw [if_pos unchanged] at isDone
    cases isDone
    exact ⟨rfl, rfl, fun pending => absurd pending notPending, fun _ _ => rfl⟩
  rw [if_neg unchanged] at isDone
  by_cases already : ((fetch file.Path).hashed && ((temp.get (place file.Path)).map (fun content => hexStr (sha content)) == some file.Hash)) = true
  · rw [if_pos already] at isDone
    cases isDone
    refine ⟨rfl, rfl, fun _ => ?_, fun _ _ => rfl⟩
    have isHash := (Bool.and_eq_true_iff.mp already).2
    simp only [beq_iff_eq, Option.map_eq_some_iff] at isHash
    obtain ⟨content, isContent, same⟩ := isHash
    exact ⟨content, isContent, same.symm⟩
  rw [if_neg already] at isDone
  cases downloaded : (fetch file.Path).downloaded with
  | none => simp [downloaded] at isDone
  | some content =>
    simp only [downloaded] at isDone
    split_ifs at isDone with computed isHash
    · cases isDone
      refine ⟨rfl, rfl, fun _ => ⟨content, by simp [MyWriteFile, written], isHash⟩, fun path other => ?_⟩
      have differ := other ⟨content, isHash⟩
      simp [MyWriteFile, written, Ne.symm differ]
    · cases isDone
      exact ⟨rfl, rfl, fun pending => absurd pending notPending, fun _ _ => rfl⟩

theorem download_ok (written : ∀ path, (fetch path).written = .done) {files results : List SFile} {temp later : Store Place Bytes}
    (notPending : ∀ file ∈ files, file.State ≠ .ePending)
    (apart : files.Pairwise (fun file other => HashOf sha file → HashOf sha other → place file.Path ≠ place other.Path))
    (isDone : DownloadUpdate sha fetch files temp = (.ok results, later)) :
    (∀ result ∈ results, (∃ file ∈ files, result.Path = file.Path ∧ result.Hash = file.Hash) ∧ (result.State = .ePending → Ready sha later result)) ∧
      ∀ path, (∀ file ∈ files, HashOf sha file → place file.Path ≠ path) → later.get path = temp.get path := by
  induction files generalizing results temp later with
  | nil =>
    cases isDone
    exact ⟨by simp, fun _ _ => rfl⟩
  | cons file rest ih =>
    obtain ⟨alone, apartRest⟩ := List.pairwise_cons.mp apart
    rw [DownloadUpdate] at isDone
    cases isFile : download_file sha fetch temp file with
    | error code => simp [isFile] at isDone
    | ok pair =>
      obtain ⟨middle, first⟩ := pair
      simp only [isFile] at isDone
      cases isRest : DownloadUpdate sha fetch rest middle with
      | mk outcome last =>
        cases outcome with
        | error code => simp [isRest] at isDone
        | ok others =>
          simp only [isRest, Prod.mk.injEq, Except.ok.injEq] at isDone
          obtain ⟨rfl, rfl⟩ := isDone
          obtain ⟨samePath, sameHash, isReady, unchanged⟩ := download_file_ok written (notPending file List.mem_cons_self) isFile
          obtain ⟨ready, unchangedRest⟩ := ih (fun other member => notPending other (List.mem_cons_of_mem _ member)) apartRest isRest
          refine ⟨?_, ?_⟩
          · intro result member
            obtain rfl | inRest := List.mem_cons.mp member
            · refine ⟨⟨file, List.mem_cons_self, samePath, sameHash⟩, fun pending => ?_⟩
              obtain ⟨content, isContent, isHash⟩ := isReady pending
              refine ⟨content, ?_, isHash⟩
              rw [unchangedRest (place result.Path), isContent]
              intro other inFiles isHashOf same
              exact alone other inFiles ⟨content, sameHash ▸ isHash⟩ isHashOf (samePath ▸ same.symm)
            · obtain ⟨⟨other, inFiles, facts⟩, pendingReady⟩ := ready result inRest
              exact ⟨⟨other, List.mem_cons_of_mem _ inFiles, facts⟩, pendingReady⟩
          · intro path none
            rw [unchangedRest path (fun other member => none other (List.mem_cons_of_mem _ member)),
              unchanged path (none file List.mem_cons_self)]

/-- What `FindChanges` leaves of a file. -/
theorem find_changes_get {scanned : OrdMap Text Text} {filter : List Text} {files : OrdMap Text SFile} {key : Text} {file : SFile}
    (found : (FindChanges scanned filter files).get key = some file) :
    file.State ≠ .ePending ∧ ∃ old, files.get key = some old ∧ old.Path = file.Path ∧ old.Hash = file.Hash := by
  rw [FindChanges, OrdMap.get_mapValues] at found
  obtain ⟨old, isOld, rfl⟩ := Option.map_eq_some_iff.mp found
  split_ifs
  · exact ⟨by simp, old, isOld, rfl, rfl⟩
  · exact ⟨by simp, old, isOld, rfl, rfl⟩

variable {manifest : SRelease}

theorem find_changes_apart {release : Release} (same : to_bytes (hashes (lines manifest.Map)) = release.text)
    (oneLine : OneLine manifest) (scanned : OrdMap Text Text) (filter : List Text) :
    ((FindChanges scanned filter manifest.Map).entries.map Prod.snd).Pairwise
      (fun file other => HashOf sha file → HashOf sha other → place file.Path ≠ place other.Path) := by
  have inRelease : ∀ pair ∈ (FindChanges scanned filter manifest.Map).entries, HashOf sha pair.2 →
      pair.2.Path = pair.1 ∧ (pair.2.Path, pair.2.Hash) ∈ release.files := by
    rintro ⟨key, file⟩ member ⟨content, isHash⟩
    obtain ⟨-, old, isOld, samePath, sameHash⟩ := find_changes_get (OrdMap.mem_entries.mp member)
    refine ⟨samePath ▸ manifest.keyed key old isOld, ?_⟩
    rw [← samePath, ← sameHash]
    exact mem_release same isOld (oneLine key old isOld) (sameHash.trans isHash)
  rw [List.pairwise_map]
  refine (FindChanges scanned filter manifest.Map).sorted.imp_of_mem ?_
  intro one other isOne isOther less hashOne hashOther samePlace
  obtain ⟨keyOne, inOne⟩ := inRelease one isOne hashOne
  obtain ⟨keyOther, inOther⟩ := inRelease other isOther hashOther
  have samePair := release.apart _ inOne _ inOther samePlace
  exact absurd less (by rw [← keyOne, ← keyOther, (Prod.mk.inj samePair).1]; exact lt_irrefl _)

theorem copied_signed {release : Release} (same : to_bytes (hashes (lines manifest.Map)) = release.text)
    (oneLine : OneLine manifest) (written : ∀ path, (fetch path).written = .done) {scanned : OrdMap Text Text}
    {filter : List Text} {downloaded : List SFile} {before temp : Store Place Bytes}
    (isDone : DownloadUpdate sha fetch ((FindChanges scanned filter manifest.Map).entries.map Prod.snd) before = (.ok downloaded, temp))
    {base_dir : Text} {canMove canCopy : Place → Bool} {base : Disk} {copy : Text × Bytes}
    (member : copy ∈ (ApplyUpdate ⟨base_dir, downloaded, temp.get, canMove, canCopy⟩ base).copied) :
    (copy.1, hexStr (sha copy.2)) ∈ release.files := by
  have notPending : ∀ file ∈ (FindChanges scanned filter manifest.Map).entries.map Prod.snd, file.State ≠ .ePending := by
    intro file inFound
    obtain ⟨pair, isPair, rfl⟩ := List.mem_map.mp inFound
    exact (find_changes_get (OrdMap.mem_entries.mp isPair)).1
  have ready := (download_ok written notPending (find_changes_apart same oneLine scanned filter) isDone).1
  obtain ⟨file, inDownloaded, pending, isPath, isContent⟩ := mem_copied member
  obtain ⟨⟨found, inFound, samePath, sameHash⟩, isReady⟩ := ready file inDownloaded
  obtain ⟨content, inTemp, isHash⟩ := isReady (by simpa [is_pending] using pending)
  have isCopy : content = copy.2 := Option.some.inj (inTemp.symm.trans isContent)
  obtain ⟨⟨key, changed⟩, isPair, rfl⟩ := List.mem_map.mp inFound
  obtain ⟨-, old, isOld, oldPath, oldHash⟩ := find_changes_get (OrdMap.mem_entries.mp isPair)
  have inRelease := mem_release same isOld (oneLine key old isOld) (oldHash.trans (sameHash.symm.trans isHash))
  rwa [isPath, samePath, ← isCopy, ← isHash, sameHash, ← oldPath, ← oldHash]

theorem update_files_signed {signed : Release → Prop} {release : Release} (isSigned : signed release)
    (same : to_bytes (hashes (lines manifest.Map)) = release.text) (oneLine : OneLine manifest) (arguments : Arguments)
    {environment : Environment} (written : ∀ path, (environment.fetch path).written = .done) {state : State}
    (only : OnlySigned sha signed state) :
    OnlySigned sha signed (update_files sha arguments environment state manifest).1 := by
  rw [update_files]
  dsimp only
  cases isDone : DownloadUpdate sha environment.fetch
      ((FindChanges environment.scanned (ParseFileList arguments.files) manifest.Map).entries.map Prod.snd) state.temp with
  | mk outcome temp =>
    cases outcome with
    | error code =>
      dsimp only
      split_ifs <;> exact only
    | ok downloaded =>
      have installed : OnlySigned sha signed ⟨temp, (ApplyUpdate ⟨arguments.base_dir, downloaded, temp.get, environment.canMove,
          environment.canCopy⟩ state.base).disk, state.copied ++ (ApplyUpdate ⟨arguments.base_dir, downloaded, temp.get, environment.canMove,
          environment.canCopy⟩ state.base).copied⟩ := by
        intro copy member
        obtain older | isNew := List.mem_append.mp member
        · exact only copy older
        · exact ⟨release, isSigned, copied_signed same oneLine written isDone isNew⟩
      dsimp only
      split_ifs
      all_goals first | exact only | exact installed

variable {accepts : Digest → Text → Bool} {signed : Release → Prop}

theorem Signing.verified (signing : Signing sha accepts signed) {hashed : Bool}
    (verified : VerifyUpdate sha accepts hashed manifest = true) :
    ∃ release, signed release ∧ to_bytes (hashes (lines manifest.Map)) = release.text := by
  obtain ⟨release, isSigned, sameHash⟩ := signing.made _ _ (Bool.and_eq_true_iff.mp verified).2
  exact ⟨release, isSigned, signing.alone release isSigned _ sameHash⟩

theorem step_signed (signing : Signing sha accepts signed) {parse : Bytes → Option SRelease} {render : SRelease → Bytes} {state later : State}
    {event : Event} (only : OnlySigned sha signed state) (careful : Careful sha accepts parse state event)
    (moved : step sha accepts parse render state event = some later) : OnlySigned sha signed later := by
  cases event with
  | written temp =>
    cases moved
    exact only
  | update arguments environment =>
    cases moved
    obtain ⟨written, rest⟩ := careful
    rw [update]
    by_cases asks : gets arguments = true
    · rw [if_pos asks] at rest ⊢
      cases answered : environment.answer with
      | none => exact only
      | some manifest =>
        by_cases verified : VerifyUpdate sha accepts environment.hashed manifest = true
        · simp only [DownloadUpdateFromServer, verified, if_true]
          split_ifs
          · exact only
          · obtain ⟨release, isSigned, same⟩ := signing.verified verified
            exact update_files_signed isSigned same (rest manifest answered) arguments written only
        · simp only [DownloadUpdateFromServer, verified, Bool.false_eq_true, if_false]
          exact only
    · rw [if_neg asks] at rest ⊢
      cases loaded : LoadUpdateFromDisk parse state.temp with
      | none => exact only
      | some manifest =>
        obtain ⟨oneLine, verified⟩ := rest manifest loaded
        obtain ⟨release, isSigned, same⟩ := signing.verified verified
        exact update_files_signed isSigned same oneLine arguments written only

/-- In every run of careful updates, with any changes to the temporary directory between them, only signed files are installed. -/
theorem only_signed_installed (signing : Signing sha accepts signed) {parse : Bytes → Option SRelease} {render : SRelease → Bytes}
    {temp : Store Place Bytes} {base : Disk} {state : State}
    (run : Run (step sha accepts parse render) (Careful sha accepts parse) ⟨temp, base, []⟩ state) : OnlySigned sha signed state :=
  run.invariant (OnlySigned sha signed) (by simp [OnlySigned]) (step_signed signing)

end

/-! ## A release of one file -/

/-- The hashes of the file, of another one and of the text that is signed. -/
def fileDigest : Digest :=
  #v[75, 245, 18, 47, 52, 69, 84, 197, 59, 222, 46, 187, 140, 210, 183, 227, 209, 96, 10, 214, 49, 195, 133, 165, 215, 204, 226, 60, 119, 133, 69, 154]

def otherDigest : Digest :=
  #v[219, 193, 180, 201, 0, 255, 228, 141, 87, 91, 93, 165, 198, 56, 4, 1, 37, 246, 93, 176, 254, 62, 36, 73, 75, 118, 234, 152, 100, 87, 217, 134]

def textDigest : Digest :=
  #v[252, 3, 221, 212, 107, 223, 224, 137, 144, 241, 44, 149, 46, 17, 134, 162, 238, 92, 31, 40, 202, 116, 49, 175, 106, 240, 173, 134, 139, 0, 22, 203]

def oneFile : Release where
  files := [("App.exe".toList, hexStr fileDigest)]
  plain := by simp
  hashed := by simp
  apart := by simp

/-- SHA-256 of the contents that occur here. -/
def sha256 (content : Bytes) : Digest :=
  if content = oneFile.text then textDigest else if content = [1] then fileDigest else if content = [2] then otherDigest else Vector.replicate 32 0

def manifest_of (hash sign : Text) : SRelease where
  Map := OrdMap.empty.insert "App.exe".toList ⟨"App.exe".toList, "https://host/App.exe".toList, hash, .eNone⟩
  Sign := sign
  keyed := by
    intro key file found
    rw [OrdMap.get_insert] at found
    split_ifs at found with same
    · cases found
      exact same
    · cases found

/-- The key has signed the one release. -/
def accepts_one (digest : Digest) (sign : Text) : Bool := digest == textDigest && sign == "c2ln".toList

theorem signing_one : Signing sha256 accepts_one (fun release => release = oneFile) := by
  have differ : textDigest ≠ fileDigest ∧ textDigest ≠ otherDigest ∧ textDigest ≠ Vector.replicate 32 0 := by decide
  have isText : sha256 oneFile.text = textDigest := by simp [sha256]
  refine ⟨?_, ?_⟩
  · intro digest sign accepted
    refine ⟨oneFile, rfl, ?_⟩
    rw [isText]
    exact beq_iff_eq.mp (Bool.and_eq_true_iff.mp accepted).1
  · rintro release rfl content same
    rw [isText, sha256] at same
    split_ifs at same with isSame isFile isOther
    · exact isSame
    · exact absurd same.symm differ.1
    · exact absurd same.symm differ.2.1
    · exact absurd same.symm differ.2.2

/-- All steps on the stable channel. -/
def stable : Arguments := ⟨"stable".toList, [], [], [], "C:\\App".toList⟩

/-- The server has the release, and the download is written as it is said. -/
def server (written : Written) : Environment :=
  ⟨some (manifest_of (hexStr fileDigest) "c2ln".toList), true, .done, OrdMap.empty, fun _ => ⟨true, some [1], true, written⟩, true,
    fun _ => true, fun _ => true⟩

theorem manifest_one_line (hash sign : Text) : OneLine (manifest_of hash sign) := by
  intro key file found
  simp only [manifest_of, OrdMap.get_insert] at found
  split_ifs at found
  · cases found
    simp
  · cases found

theorem only_signed_installed_once : ∃ state : State, state.copied = [("App.exe".toList, [1])] ∧
    OnlySigned sha256 (fun release => release = oneFile) state := by
  have moved : ∃ state : State, step sha256 accepts_one (fun _ => none) (fun _ => []) ⟨Store.empty, Store.empty, []⟩ (.update stable (server .done)) =
      some state ∧ state.copied = [("App.exe".toList, [1])] := ⟨_, rfl, by decide⟩
  obtain ⟨state, isState, isCopied⟩ := moved
  have careful : Careful sha256 accepts_one (fun _ => none) ⟨Store.empty, Store.empty, []⟩ (.update stable (server .done)) := by
    refine ⟨fun _ => rfl, ?_⟩
    rw [if_pos (by decide)]
    rintro release isRelease
    cases isRelease
    exact manifest_one_line _ _
  exact ⟨state, isCopied, only_signed_installed signing_one (.next .start careful isState)⟩

/-- What another program left in the temporary directory. -/
def planted : Store Place Bytes := ⟨[(place "App.exe".toList, [2]), (place UPDATE_FILE, [])]⟩

/-- A manifest that nobody signed is loaded and its file installed; and the file is installed too when the download cannot be written in its place. -/
theorem unsigned_file_installed :
    (∃ state : State, Run (step sha256 accepts_one (fun _ => some (manifest_of (hexStr otherDigest) [])) (fun _ => [])) Always ⟨planted, Store.empty, []⟩ state ∧
      state.copied = [("App.exe".toList, [2])] ∧ ¬ OnlySigned sha256 (fun release => release = oneFile) state) ∧
    ∃ state : State, Run (step sha256 accepts_one (fun _ => none) (fun _ => [])) Always ⟨planted, Store.empty, []⟩ state ∧
      state.copied = [("App.exe".toList, [2])] ∧ ¬ OnlySigned sha256 (fun release => release = oneFile) state := by
  have foreign : ∀ state : State, state.copied = [("App.exe".toList, [2])] → ¬ OnlySigned sha256 (fun release => release = oneFile) state := by
    intro state isCopied only
    obtain ⟨release, rfl, member⟩ := only ("App.exe".toList, [2]) (by simp [isCopied])
    revert member
    decide
  have loaded : ∃ state : State, step sha256 accepts_one (fun _ => some (manifest_of (hexStr otherDigest) [])) (fun _ => []) ⟨planted, Store.empty, []⟩
      (.update { stable with step := "apply".toList } (server .done)) = some state ∧ state.copied = [("App.exe".toList, [2])] := ⟨_, rfl, by decide⟩
  have refused : ∃ state : State, step sha256 accepts_one (fun _ => none) (fun _ => []) ⟨planted, Store.empty, []⟩
      (.update stable (server .refused)) = some state ∧ state.copied = [("App.exe".toList, [2])] := ⟨_, rfl, by decide⟩
  obtain ⟨one, isOne, oneCopied⟩ := loaded
  obtain ⟨other, isOther, otherCopied⟩ := refused
  exact ⟨⟨one, .next .start trivial isOne, oneCopied, foreign one oneCopied⟩,
    ⟨other, .next .start trivial isOther, otherCopied, foreign other otherCopied⟩⟩

end TaskExplorer.UpdateRun
