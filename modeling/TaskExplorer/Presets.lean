import TaskExplorer.PresetMatch
import TaskExplorer.Xml

/-!
# Presets

The table of presets, the file it is stored in and what the processes hold of it. Storing and applying
are queued behind a change.
-/

namespace TaskExplorer.Presets
open OrderedMap
open ByteText (bom)
open HelperClient (filled)
open HelperReads (filled_sorted mem_of_filled sorted_filled)
open Xml (QVariant Token to_string convert parse_document shown_eq_iff value_map Every PlainKeys KeysUnique Kept plain_variant leaf_keys value)
open PresetMatch (QString Folding Test6 FindPersistentPreset)

/-! ## Presets -/

structure CPersistentPresetData where
  sPattern : QString := []
  bTerminate : Bool := false
  bPriority : Bool := false
  iPriority : Int32 := 0
  bAffinity : Bool := false
  uAffinity : UInt64 := 0
  bIOPriority : Bool := false
  iIOPriority : Int32 := 0
  bPagePriority : Bool := false
  iPagePriority : Int32 := 0
deriving DecidableEq

abbrev QVariantMap := List (QString × QVariant)

/-- `Map[key] = value`, behind a condition. -/
def put_if (flag : Bool) (key : QString) (value : QVariant) (Map : QVariantMap) : QVariantMap := if flag then put key value Map else Map

/-- `CPersistentPreset::Store`. -/
def Store (m_Data : CPersistentPresetData) : QVariantMap :=
  let Map := put "Pattern".toList (.string m_Data.sPattern) []
  let Map := put_if m_Data.bTerminate "Terminate".toList (.bool true) Map
  let Map := put_if m_Data.bPriority "CpuPriority".toList (.int m_Data.iPriority) Map
  let Map := put_if m_Data.bAffinity "CpuAffinity".toList (.uLongLong m_Data.uAffinity) Map
  let Map := put_if m_Data.bIOPriority "IoPriority".toList (.int m_Data.iIOPriority) Map
  put_if m_Data.bPagePriority "PagePriority".toList (.int m_Data.iPagePriority) Map

/-- `Map[key]`, invalid where there is nothing. -/
def at_key (Map : QVariantMap) (key : QString) : QVariant := (find key Map).getD .invalid

def toBool (v : QVariant) : Bool :=
  match v with
  | .bool value => value
  | .int value => value ≠ 0
  | .uint value => value ≠ 0
  | .longLong value => value ≠ 0
  | .uLongLong value => value ≠ 0
  | other => match convert (to_string other) .Bool with | .bool value => value | _ => false

def toInt (v : QVariant) : Int32 :=
  match v with
  | .bool value => if value then 1 else 0
  | .int value => value
  | .uint value => Int32.ofNat value.toNat
  | .longLong value => Int32.ofInt value.toInt
  | .uLongLong value => Int32.ofNat value.toNat
  | other => match convert (to_string other) .Int with | .int value => value | _ => 0

def toULongLong (v : QVariant) : UInt64 :=
  match v with
  | .bool value => if value then 1 else 0
  | .int value => UInt64.ofInt value.toInt
  | .uint value => UInt64.ofNat value.toNat
  | .longLong value => UInt64.ofInt value.toInt
  | .uLongLong value => value
  | other => match convert (to_string other) .ULongLong with | .uLongLong value => value | _ => 0

/-- `CPersistentPreset::Load` into a new preset. It is refused without a pattern. -/
def Load (Map : QVariantMap) : Option CPersistentPresetData :=
  let contains key := (find key Map).isSome
  let sPattern := to_string (at_key Map "Pattern".toList)
  let m_Data : CPersistentPresetData := {
    sPattern
    bTerminate := toBool (at_key Map "Terminate".toList)
    bPriority := contains "CpuPriority".toList
    iPriority := if contains "CpuPriority".toList then toInt (at_key Map "CpuPriority".toList) else 0
    bAffinity := contains "CpuAffinity".toList
    uAffinity := if contains "CpuAffinity".toList then toULongLong (at_key Map "CpuAffinity".toList) else 0
    bIOPriority := contains "IoPriority".toList
    iIOPriority := if contains "IoPriority".toList then toInt (at_key Map "IoPriority".toList) else 0
    bPagePriority := contains "PagePriority".toList
    iPagePriority := if contains "PagePriority".toList then toInt (at_key Map "PagePriority".toList) else 0 }
  if sPattern = [] then none else some m_Data

/-! ## The table -/

/-- A preset is an object, whose data can be set. -/
structure CPersistentPreset where
  object : Nat
  m_Data : CPersistentPresetData
deriving DecidableEq

abbrev Table := List (QString × CPersistentPreset)

/-- What Qt brings: the names in the file are valid, and texts have a lower case. -/
structure Qt where
  xml : Xml.Qt
  keys_valid : ∀ key ∈ ["Pattern".toList, "Terminate".toList, "CpuPriority".toList, "CpuAffinity".toList, "IoPriority".toList, "PagePriority".toList],
    xml.valid key = true
  formatting : Bool
  toLower : QString → QString
  folding : Folding

/-- A listed process, with the object that its weak reference is to. -/
structure CProcessInfo where
  m_FileName : QString
  m_CommandLine : QString
  m_PersistentPreset : Option Nat

structure State where
  /-- `Processes.xml`. -/
  file : List Token
  m_PersistentPresets : Table
  /-- How many `ApplyPersistentPresets` are queued. -/
  queued : Nat
  processes : List CProcessInfo
  /-- The next object that is created. -/
  next : Nat

variable (qt : Qt)

def toList : QVariant → List QVariant
  | .list items => items
  | .stringList items => items.map .string
  | _ => []

def toMap : QVariant → QVariantMap
  | .map entries | .hash entries => entries
  | _ => []

/-- What the loop of `LoadPersistentPresets` inserts, in order. -/
def loaded_presets (file : List Token) : List (QString × CPersistentPresetData) :=
  (toList (Xml.Parse qt.xml false file)).filterMap fun vMap => (Load (toMap vMap)).map fun m_Data => (qt.toLower m_Data.sPattern, m_Data)

/-- `LoadPersistentPresets`, as the data under each key. -/
def load_data (file : List Token) : List (QString × CPersistentPresetData) := filled (loaded_presets qt file)

/-- The data under each key. -/
def table_data (table : Table) : List (QString × CPersistentPresetData) := table.map fun pair => (pair.1, pair.2.m_Data)

def stored_list (table : Table) : QVariant := .list (table.map fun pair => .map (Store pair.2.m_Data))

def StorePersistentPresets (s : State) : State :=
  { s with file := Xml.document qt.xml false qt.formatting (stored_list s.m_PersistentPresets) }

/-- `CSystemAPI::FindPersistentPreset`. -/
def find_preset (table : Table) (FileName CommandLine : QString) : Option CPersistentPreset :=
  FindPersistentPreset (fun preset : CPersistentPreset => preset.m_Data.sPattern) (fun preset => Test6 qt.folding preset.m_Data.sPattern FileName CommandLine)
    (table.map (·.2))

/-- `UpdatePresets` and `InitPresets`. -/
def UpdatePresets (table : Table) (process : CProcessInfo) : CProcessInfo :=
  { process with m_PersistentPreset := (find_preset qt table process.m_FileName process.m_CommandLine).map (·.object) }

/-- `GetPresets`: nothing once the object is gone, which only the table keeps. -/
def GetPresets (table : Table) (process : CProcessInfo) : Option CPersistentPreset :=
  process.m_PersistentPreset.bind fun object => (table.map (·.2)).find? fun preset => preset.object = object

def set_data (object : Nat) (m_Data : CPersistentPresetData) (table : Table) : Table :=
  table.map fun pair => (pair.1, if pair.2.object = object then { pair.2 with m_Data } else pair.2)

/-- The loop of `SetPersistentPresets` over the presets, with the table and `OldPreset`. -/
def set_presets : List CPersistentPresetData → Table → Table → Nat → Table × Table × Nat
  | [], table, OldPreset, next => (table, OldPreset, next)
  | Preset :: rest, table, OldPreset, next =>
    let key := qt.toLower Preset.sPattern
    match find key OldPreset with
    | some pPreset => set_presets rest (set_data pPreset.object Preset table) (erase key OldPreset) next
    | none => set_presets rest (set_data next Preset (put key ⟨next, {}⟩ table)) OldPreset (next + 1)

/-! ## Runs -/

inductive Call where
  | AddPersistentPreset (FileName : QString)
  | RemovePersistentPreset (FileName : QString)
  | SetPersistentPresets (PersistentPreset : List CPersistentPresetData)
  /-- What was queued, with the processes that are listed by then. -/
  | ApplyPersistentPresets (GetProcessList : List CProcessInfo)

def step (s : State) : Call → State
  | .AddPersistentPreset FileName =>
    let key := qt.toLower FileName
    if (find key s.m_PersistentPresets).isSome then s
    else
      { s with
        m_PersistentPresets := put key ⟨s.next, { sPattern := FileName }⟩ s.m_PersistentPresets
        queued := s.queued + 1
        next := s.next + 1 }
  | .RemovePersistentPreset FileName => { s with m_PersistentPresets := erase (qt.toLower FileName) s.m_PersistentPresets }
  | .SetPersistentPresets PersistentPreset =>
    let (table, OldPreset, next) := set_presets qt PersistentPreset s.m_PersistentPresets s.m_PersistentPresets s.next
    { s with
      m_PersistentPresets := OldPreset.foldl (fun table pair => erase pair.1 table) table
      queued := s.queued + 1
      next }
  | .ApplyPersistentPresets GetProcessList =>
    if s.queued = 0 then s
    else
      { StorePersistentPresets qt s with
        processes := GetProcessList.map (UpdatePresets qt s.m_PersistentPresets)
        queued := s.queued - 1 }

/-- New objects for what is loaded. -/
def numbered (pairs : List (QString × CPersistentPresetData)) : Table := pairs.zipIdx.map fun pair => (pair.1.1, ⟨pair.2, pair.1.2⟩)

/-- The start, with the presets of a file. -/
def start (file : List Token) : State := ⟨file, numbered (load_data qt file), 0, [], (load_data qt file).length⟩

def run (file : List Token) (calls : List Call) : State := calls.foldl (step qt) (start qt file)

/-! ## What is to hold -/

/-- The table, its file and the processes agree. -/
structure Agreed (s : State) : Prop where
  keys : ∀ pair ∈ s.m_PersistentPresets, pair.1 = qt.toLower pair.2.m_Data.sPattern
  file : s.queued = 0 → load_data qt s.file = table_data s.m_PersistentPresets
  processes : s.queued = 0 → ∀ process ∈ s.processes,
    GetPresets s.m_PersistentPresets process = find_preset qt s.m_PersistentPresets process.m_FileName process.m_CommandLine

/-- What a file keeps all of: there is a pattern, without a byte order mark in front, and what is off is at its default. -/
structure Storable (m_Data : CPersistentPresetData) : Prop where
  pattern : m_Data.sPattern ≠ []
  unmarked : m_Data.sPattern.head? ≠ some bom
  priority : m_Data.bPriority = false → m_Data.iPriority = 0
  affinity : m_Data.bAffinity = false → m_Data.uAffinity = 0
  io_priority : m_Data.bIOPriority = false → m_Data.iIOPriority = 0
  page_priority : m_Data.bPagePriority = false → m_Data.iPagePriority = 0

/-- Nothing is removed with nothing queued, and what is stored can be. -/
def Meets (s : State) : Call → Prop
  | .RemovePersistentPreset FileName => s.queued ≠ 0 ∨ find (qt.toLower FileName) s.m_PersistentPresets = none
  | .ApplyPersistentPresets _ => s.queued ≠ 0 → ∀ pair ∈ s.m_PersistentPresets, Storable pair.2.m_Data
  | _ => True

def AllMeet : State → List Call → Prop
  | _, [] => True
  | s, call :: calls => Meets qt s call ∧ AllMeet (step qt s call) calls

/-! ## A preset and its entries in the file -/

section Stored
variable {m_Data : CPersistentPresetData} {qt : Qt}

theorem find_put_text (key sought : QString) (value : QVariant) (Map : QVariantMap) :
    find sought (put key value Map) = if key = sought then some value else find sought Map := by
  by_cases same : key = sought
  · rw [find_put, if_pos same, if_pos same]
  · rw [find_put, if_neg same, if_neg same]

theorem find_put_if (flag : Bool) (key sought : QString) (value : QVariant) (Map : QVariantMap) :
    find sought (put_if flag key value Map) = if flag = true ∧ key = sought then some value else find sought Map := by
  unfold put_if
  cases flag with
  | false => simp
  | true => simp [find_put_text]

theorem sorted_put_if {flag : Bool} {key : QString} {value : QVariant} {Map : QVariantMap} (sorted : Sorted Map) : Sorted (put_if flag key value Map) := by
  unfold put_if
  split_ifs
  · exact sorted_put sorted
  · exact sorted

theorem mem_put_if {flag : Bool} {key : QString} {value : QVariant} {Map : QVariantMap} {pair : QString × QVariant}
    (member : pair ∈ put_if flag key value Map) : pair = (key, value) ∨ pair ∈ Map := by
  unfold put_if at member
  split_ifs at member
  · exact mem_put member
  · exact .inr member

theorem sorted_store (m_Data : CPersistentPresetData) : Sorted (Store m_Data) := by
  unfold Store
  exact sorted_put_if (sorted_put_if (sorted_put_if (sorted_put_if (sorted_put_if (sorted_put .nil)))))

theorem mem_store {pair : QString × QVariant} (member : pair ∈ Store m_Data) :
    pair.1 ∈ ["Pattern".toList, "Terminate".toList, "CpuPriority".toList, "CpuAffinity".toList, "IoPriority".toList, "PagePriority".toList] ∧
      (pair.2 = .string m_Data.sPattern ∨ pair.2 = .bool true ∨ (∃ n, pair.2 = .int n) ∨ ∃ n, pair.2 = .uLongLong n) := by
  unfold Store at member
  rcases mem_put_if member with rfl | member
  · exact ⟨by simp, .inr (.inr (.inl ⟨_, rfl⟩))⟩
  rcases mem_put_if member with rfl | member
  · exact ⟨by simp, .inr (.inr (.inl ⟨_, rfl⟩))⟩
  rcases mem_put_if member with rfl | member
  · exact ⟨by simp, .inr (.inr (.inr ⟨_, rfl⟩))⟩
  rcases mem_put_if member with rfl | member
  · exact ⟨by simp, .inr (.inr (.inl ⟨_, rfl⟩))⟩
  rcases mem_put_if member with rfl | member
  · exact ⟨by simp, .inr (.inl rfl)⟩
  rcases mem_put member with rfl | nothing
  · exact ⟨by simp, .inl rfl⟩
  · simp at nothing

theorem find_store (sought : QString) : find sought (Store m_Data) =
    if m_Data.bPagePriority = true ∧ "PagePriority".toList = sought then some (.int m_Data.iPagePriority)
    else if m_Data.bIOPriority = true ∧ "IoPriority".toList = sought then some (.int m_Data.iIOPriority)
    else if m_Data.bAffinity = true ∧ "CpuAffinity".toList = sought then some (.uLongLong m_Data.uAffinity)
    else if m_Data.bPriority = true ∧ "CpuPriority".toList = sought then some (.int m_Data.iPriority)
    else if m_Data.bTerminate = true ∧ "Terminate".toList = sought then some (.bool true)
    else if "Pattern".toList = sought then some (.string m_Data.sPattern) else none := by
  unfold Store
  rw [find_put_if, find_put_if, find_put_if, find_put_if, find_put_if, find_put_text, find_nil]

theorem flagged {α : Type} {flag : Bool} {stored : QVariant} {found : Option QVariant} (is_found : found = if flag then some stored else none)
    {read : QVariant → α} {entry zero : α} (back : read stored = entry) (off : flag = false → entry = zero) :
    found.isSome = flag ∧ (if found.isSome then read (found.getD .invalid) else zero) = entry := by
  cases flag with
  | true =>
    rw [is_found, if_pos rfl]
    exact ⟨rfl, back⟩
  | false =>
    rw [is_found, if_neg Bool.false_ne_true]
    exact ⟨rfl, (off rfl).symm⟩

theorem load_store (storable : Storable m_Data) : Load (Store m_Data) = some m_Data := by
  have pattern : find "Pattern".toList (Store m_Data) = some (.string m_Data.sPattern) := by simp [find_store]
  have terminate : find "Terminate".toList (Store m_Data) = if m_Data.bTerminate then some (.bool true) else none := by simp [find_store]
  have priority : find "CpuPriority".toList (Store m_Data) = if m_Data.bPriority then some (.int m_Data.iPriority) else none := by simp [find_store]
  have affinity : find "CpuAffinity".toList (Store m_Data) = if m_Data.bAffinity then some (.uLongLong m_Data.uAffinity) else none := by
    simp [find_store]
  have io_priority : find "IoPriority".toList (Store m_Data) = if m_Data.bIOPriority then some (.int m_Data.iIOPriority) else none := by
    simp [find_store]
  have page_priority : find "PagePriority".toList (Store m_Data) = if m_Data.bPagePriority then some (.int m_Data.iPagePriority) else none := by
    simp [find_store]
  have text : to_string (at_key (Store m_Data) "Pattern".toList) = m_Data.sPattern := by
    rw [at_key, pattern]
    rfl
  have ends : toBool (at_key (Store m_Data) "Terminate".toList) = m_Data.bTerminate := by
    rw [at_key, terminate]
    cases m_Data.bTerminate <;> rfl
  obtain ⟨is_priority, priority⟩ := @flagged _ _ _ _ priority toInt _ 0 rfl storable.priority
  obtain ⟨is_affinity, affinity⟩ := @flagged _ _ _ _ affinity toULongLong _ 0 rfl storable.affinity
  obtain ⟨is_io_priority, io_priority⟩ := @flagged _ _ _ _ io_priority toInt _ 0 rfl storable.io_priority
  obtain ⟨is_page_priority, page_priority⟩ := @flagged _ _ _ _ page_priority toInt _ 0 rfl storable.page_priority
  have whole : Load (Store m_Data) = some ⟨m_Data.sPattern, m_Data.bTerminate, m_Data.bPriority, m_Data.iPriority, m_Data.bAffinity, m_Data.uAffinity,
      m_Data.bIOPriority, m_Data.iIOPriority, m_Data.bPagePriority, m_Data.iPagePriority⟩ := by
    unfold Load
    simp only [text, ends, if_neg storable.pattern]
    simp only [at_key, is_priority, is_affinity, is_io_priority, is_page_priority] at priority affinity io_priority page_priority ⊢
    simp only [priority, affinity, io_priority, page_priority]
    rfl
  exact whole

/-! The file of a table. -/

theorem every_list {holds : QVariant → Prop} {items : List QVariant} (here : holds (.list items)) (inner : ∀ item ∈ items, Every holds item) :
    Every holds (.list items) := by
  refine .node here fun pair member => ?_
  obtain ⟨item, inside, rfl⟩ := List.mem_map.mp member
  exact inner item inside

theorem every_store {holds : QVariant → Prop} (here : holds (.map (Store m_Data))) (inner : ∀ pair ∈ Store m_Data, holds pair.2) :
    Every holds (.map (Store m_Data)) := by
  refine .node here fun pair member => .of_leaf ?_ (inner pair member)
  rcases (mem_store member).2 with is_leaf | is_leaf | ⟨n, is_leaf⟩ | ⟨n, is_leaf⟩ <;> (rw [is_leaf]; rfl)

variable {table : Table}

theorem stored_plain : Every (PlainKeys qt.xml) (stored_list table) := by
  refine every_list (fun pair member => ?_) fun item member => ?_
  · obtain ⟨item, -, rfl⟩ := List.mem_map.mp member
    exact plain_variant
  · obtain ⟨pair, -, rfl⟩ := List.mem_map.mp member
    refine every_store (fun entry inside => ?_) fun entry inside => ?_
    · have key := (mem_store inside).1
      refine ⟨qt.keys_valid entry.1 key, ?_⟩
      simp only [List.mem_cons, List.not_mem_nil, or_false] at key
      rcases key with e | e | e | e | e | e <;> (rw [e]; decide)
    · intro child impossible
      rcases (mem_store inside).2 with is_leaf | is_leaf | ⟨n, is_leaf⟩ | ⟨n, is_leaf⟩ <;> simp [is_leaf, QVariant.children] at impossible

theorem nodup_of_sorted {V : Type} {pairs : List (QString × V)} (sorted : Sorted pairs) : (pairs.map (·.1)).Nodup := by
  rw [List.Nodup, List.pairwise_map]
  exact sorted.imp fun less same => by simp [same] at less

theorem stored_unique : Every KeysUnique (stored_list table) := by
  refine every_list trivial fun item member => ?_
  obtain ⟨pair, -, rfl⟩ := List.mem_map.mp member
  refine every_store (nodup_of_sorted (sorted_store _)) fun entry inside => ?_
  rcases (mem_store inside).2 with is_leaf | is_leaf | ⟨n, is_leaf⟩ | ⟨n, is_leaf⟩ <;> (rw [is_leaf]; trivial)

theorem stored_kept (storable : ∀ pair ∈ table, Storable pair.2.m_Data) : Every Kept (stored_list table) := by
  refine every_list trivial fun item member => ?_
  obtain ⟨pair, inside, rfl⟩ := List.mem_map.mp member
  refine every_store trivial fun entry in_entry => ?_
  rcases (mem_store in_entry).2 with is_leaf | is_leaf | ⟨n, is_leaf⟩ | ⟨n, is_leaf⟩
  · rw [is_leaf]
    exact (storable pair inside).unmarked
  all_goals
    rw [is_leaf]
    trivial

theorem stored_value : value (stored_list table) = stored_list table := by
  have entries (m_Data : CPersistentPresetData) : value (.map (Store m_Data)) = .map (Store m_Data) := by
    refine value_map (sorted_store m_Data) fun entry inside => ?_
    rcases (mem_store inside).2 with is_leaf | is_leaf | ⟨n, is_leaf⟩ | ⟨n, is_leaf⟩ <;> simp [is_leaf, value, Xml.rebuilt]
  rw [stored_list, value, Xml.rebuilt, Xml.rebuilt_items_eq, List.map_map]
  exact congrArg _ (List.map_congr_left fun pair _ => entries pair.2.m_Data)

theorem load_stored (sorted : Sorted table) (keys : ∀ pair ∈ table, pair.1 = qt.toLower pair.2.m_Data.sPattern)
    (storable : ∀ pair ∈ table, Storable pair.2.m_Data) :
    load_data qt (Xml.document qt.xml false qt.formatting (stored_list table)) = table_data table := by
  have read : Xml.Parse qt.xml false (Xml.document qt.xml false qt.formatting (stored_list table)) = stored_list table := by
    rw [parse_document stored_plain, (shown_eq_iff stored_unique).mpr (stored_kept storable), stored_value]
  have inserted : loaded_presets qt (Xml.document qt.xml false qt.formatting (stored_list table)) = table_data table := by
    rw [loaded_presets, read, stored_list, toList, List.filterMap_map, table_data]
    refine (List.filterMap_congr (g := some ∘ fun pair : QString × CPersistentPreset => (pair.1, pair.2.m_Data)) fun pair member => ?_).trans
      (congrFun List.filterMap_eq_map table)
    rw [Function.comp_apply, toMap, load_store (storable pair member), Option.map_some, ← keys pair member]
    rfl
  rw [load_data, inserted]
  exact filled_sorted (sorted_map (f := fun _ (preset : CPersistentPreset) => preset.m_Data) sorted)

end Stored

/-! ## Runs keep the table sound -/

section Runs
variable {qt : Qt}

/-- A table in the order of its keys, each the pattern in lower case, with an object of its own for each key. -/
structure Sound (qt : Qt) (table : Table) (next : Nat) : Prop where
  sorted : Sorted table
  keys : ∀ pair ∈ table, pair.1 = qt.toLower pair.2.m_Data.sPattern
  unique : ∀ pair ∈ table, ∀ other ∈ table, pair.2.object = other.2.object → pair.1 = other.1
  below : ∀ pair ∈ table, pair.2.object < next

variable {table : Table} {next : Nat}

theorem Sound.one (sound : Sound qt table next) {pair other : QString × CPersistentPreset} (member : pair ∈ table) (among : other ∈ table)
    (same : pair.2.object = other.2.object) : pair = other := by
  have keys := sound.unique pair member other among same
  have here := find_of_mem sound.sorted (show (pair.1, pair.2) ∈ table from member)
  have there := find_of_mem sound.sorted (show (other.1, other.2) ∈ table from among)
  rw [keys, there] at here
  exact Prod.ext keys (Option.some.inj here).symm

theorem Sound.put (sound : Sound qt table next) (m_Data : CPersistentPresetData) :
    Sound qt (put (qt.toLower m_Data.sPattern) ⟨next, m_Data⟩ table) (next + 1) where
  sorted := sorted_put sound.sorted
  keys pair member := by
    rcases mem_put member with rfl | old
    · rfl
    · exact sound.keys pair old
  unique pair member other among same := by
    rcases mem_put member with rfl | old <;> rcases mem_put among with rfl | old'
    · rfl
    · have := sound.below other old'
      simp only at same
      omega
    · have := sound.below pair old
      simp only at same
      omega
    · exact sound.unique pair old other old' same
  below pair member := by
    rcases mem_put member with rfl | old
    · exact Nat.lt_succ_self next
    · exact Nat.lt_succ_of_lt (sound.below pair old)

theorem Sound.erase (sound : Sound qt table next) (key : QString) : Sound qt (erase key table) next where
  sorted := sorted_filter sound.sorted
  keys pair member := sound.keys pair (List.mem_of_mem_filter member)
  unique pair member other among := sound.unique pair (List.mem_of_mem_filter member) other (List.mem_of_mem_filter among)
  below pair member := sound.below pair (List.mem_of_mem_filter member)

theorem Sound.erase_all (sound : Sound qt table next) (OldPreset : Table) :
    Sound qt (OldPreset.foldl (fun table pair => OrderedMap.erase pair.1 table) table) next := by
  induction OldPreset generalizing table with
  | nil => exact sound
  | cons pair rest ih => exact ih (sound.erase pair.1)

theorem sorted_set_data (sorted : Sorted table) (object : Nat) (m_Data : CPersistentPresetData) : Sorted (set_data object m_Data table) :=
  sorted_map (f := fun _ (p : CPersistentPreset) => if p.object = object then (⟨p.object, m_Data⟩ : CPersistentPreset) else p) sorted

theorem find_set_data (object : Nat) (m_Data : CPersistentPresetData) (sought : QString) : find sought (set_data object m_Data table) =
    (find sought table).map fun p => if p.object = object then (⟨p.object, m_Data⟩ : CPersistentPreset) else p :=
  find_map sought (fun _ (p : CPersistentPreset) => if p.object = object then (⟨p.object, m_Data⟩ : CPersistentPreset) else p) table

theorem Sound.set_data (sound : Sound qt table next) {key : QString} {preset : CPersistentPreset} (found : find key table = some preset)
    {m_Data : CPersistentPresetData} (same : key = qt.toLower m_Data.sPattern) : Sound qt (set_data preset.object m_Data table) next := by
  have origin {pair : QString × CPersistentPreset} (member : pair ∈ Presets.set_data preset.object m_Data table) :
      ∃ old ∈ table, pair.1 = old.1 ∧ pair.2.object = old.2.object := by
    obtain ⟨old, inside, rfl⟩ := List.mem_map.mp member
    refine ⟨old, inside, rfl, ?_⟩
    split_ifs <;> rfl
  refine ⟨sorted_set_data sound.sorted _ _, fun pair member => ?_, fun pair member other among objects => ?_, fun pair member => ?_⟩
  · obtain ⟨old, inside, rfl⟩ := List.mem_map.mp member
    split_ifs with is_object
    · have one := sound.one inside (find_mem found) is_object
      rw [one]
      exact same
    · exact sound.keys old inside
  · obtain ⟨old, inside, key_eq, object_eq⟩ := origin member
    obtain ⟨old', inside', key_eq', object_eq'⟩ := origin among
    rw [key_eq, key_eq']
    exact sound.unique old inside old' inside' (by rw [← object_eq, ← object_eq', objects])
  · obtain ⟨old, inside, -, object_eq⟩ := origin member
    rw [object_eq]
    exact sound.below old inside

theorem set_data_put (sound : Sound qt table next) (key : QString) (fresh : CPersistentPresetData) (m_Data : CPersistentPresetData) :
    set_data next m_Data (OrderedMap.put key ⟨next, fresh⟩ table) = OrderedMap.put key ⟨next, m_Data⟩ table := by
  refine sorted_ext (sorted_set_data (sorted_put sound.sorted) _ _) (sorted_put sound.sorted) fun sought => ?_
  rw [find_set_data, find_put, find_put]
  by_cases same : key = sought
  · rw [if_pos same, if_pos same, Option.map_some, if_pos rfl]
  · rw [if_neg same, if_neg same]
    cases found : find sought table with
    | none => rfl
    | some preset =>
      have old := sound.below _ (find_mem found)
      rw [Option.map_some, if_neg (Nat.ne_of_lt old)]

/-- What is left of the old table is in the new one with the same objects. -/
def Left (OldPreset table : Table) : Prop :=
  ∀ key preset, find key OldPreset = some preset → ∃ now, find key table = some now ∧ now.object = preset.object

theorem sound_set_presets (PersistentPreset : List CPersistentPresetData) {OldPreset : Table} (sound : Sound qt table next) (left : Left OldPreset table) :
    Sound qt (set_presets qt PersistentPreset table OldPreset next).1 (set_presets qt PersistentPreset table OldPreset next).2.2 := by
  induction PersistentPreset generalizing table OldPreset next with
  | nil => exact sound
  | cons Preset rest ih =>
    rw [set_presets]
    cases found : find (qt.toLower Preset.sPattern) OldPreset with
    | some pPreset =>
      obtain ⟨now, here, object⟩ := left _ _ found
      have kept := @Sound.set_data qt table next sound _ _ here Preset rfl
      rw [object] at kept
      refine ih kept fun key preset old => ?_
      rw [find_erase] at old
      split_ifs at old with taken
      obtain ⟨now', there, object'⟩ := left key preset old
      refine ⟨_, by rw [find_set_data, there, Option.map_some], ?_⟩
      split_ifs <;> exact object'
    | none =>
      simp only [set_data_put sound]
      refine ih (sound.put Preset) fun key preset old => ?_
      obtain ⟨now, there, object⟩ := left key preset old
      refine ⟨now, ?_, object⟩
      rw [find_put, if_neg, there]
      rintro rfl
      rw [found] at old
      exact absurd old (by simp)

theorem find_preset_mem {FileName CommandLine : QString} {preset : CPersistentPreset} (found : find_preset qt table FileName CommandLine = some preset) :
    preset ∈ table.map (·.2) := by
  have longest := @PresetMatch.find_longest _ (fun preset : CPersistentPreset => preset.m_Data.sPattern)
    (fun preset => Test6 qt.folding preset.m_Data.sPattern FileName CommandLine) (table.map (·.2))
  rw [find_preset] at found
  rw [found] at longest
  exact longest.1

theorem Sound.get_presets (sound : Sound qt table next) (process : CProcessInfo) :
    GetPresets table (UpdatePresets qt table process) = find_preset qt table process.m_FileName process.m_CommandLine := by
  rw [GetPresets, UpdatePresets]
  cases found : find_preset qt table process.m_FileName process.m_CommandLine with
  | none => rfl
  | some preset =>
    have inside := find_preset_mem found
    simp only [Option.map_some, Option.bind_some]
    cases search : (table.map (·.2)).find? fun other => other.object = preset.object with
    | none => exact absurd (List.find?_eq_none.mp search preset inside) (by simp)
    | some other =>
      have same : other.object = preset.object := by simpa using List.find?_some search
      obtain ⟨pair, member, rfl⟩ := List.mem_map.mp inside
      obtain ⟨pair', member', rfl⟩ := List.mem_map.mp (List.mem_of_find?_eq_some search)
      rw [sound.one member' member same]

theorem numbered_data (pairs : List (QString × CPersistentPresetData)) : table_data (numbered pairs) = pairs := by
  rw [table_data, numbered, List.map_map]
  exact List.zipIdx_map_fst 0 pairs

theorem sound_start (file : List Token) : Sound qt (start qt file).m_PersistentPresets (start qt file).next := by
  have origin {pair : QString × CPersistentPreset} (member : pair ∈ numbered (load_data qt file)) :
      (load_data qt file)[pair.2.object]? = some (pair.1, pair.2.m_Data) := by
    obtain ⟨⟨source, index⟩, inside, rfl⟩ := List.mem_map.mp member
    exact List.mem_zipIdx_iff_getElem?.mp inside
  refine ⟨?_, fun pair member => ?_, fun pair member other among same => ?_, fun pair member => ?_⟩
  · have whole : Sorted (table_data (numbered (load_data qt file))) := by
      rw [numbered_data]
      exact sorted_filled _
    exact (List.pairwise_map (f := fun pair : QString × CPersistentPreset => (pair.1, pair.2.m_Data))).mp whole
  · have inside := mem_of_filled (List.mem_of_getElem? (origin member))
    obtain ⟨vMap, -, loaded⟩ := List.mem_filterMap.mp inside
    obtain ⟨m_Data, -, same⟩ := Option.map_eq_some_iff.mp loaded
    rw [Prod.mk.injEq] at same
    rw [← same.1, same.2]
  · have here := origin member
    have there := origin among
    rw [same, there, Option.some.injEq, Prod.mk.injEq] at here
    exact here.1.symm
  · exact (List.getElem?_eq_some_iff.mp (origin member)).1

/-- What holds in every state of a run whose steps all meet the condition. -/
structure Invariant (qt : Qt) (s : State) : Prop where
  sound : Sound qt s.m_PersistentPresets s.next
  file : s.queued = 0 → load_data qt s.file = table_data s.m_PersistentPresets
  processes : s.queued = 0 → ∀ process ∈ s.processes,
    GetPresets s.m_PersistentPresets process = find_preset qt s.m_PersistentPresets process.m_FileName process.m_CommandLine

theorem Invariant.agreed {s : State} (h : Invariant qt s) : Agreed qt s := ⟨h.sound.keys, h.file, h.processes⟩

theorem invariant_start (file : List Token) : Invariant qt (start qt file) :=
  ⟨sound_start file, fun _ => (numbered_data _).symm, fun _ process member => by simp [start] at member⟩

theorem Invariant.step {s : State} (h : Invariant qt s) {call : Call} (meets : Meets qt s call) : Invariant qt (step qt s call) := by
  cases call with
  | AddPersistentPreset FileName =>
    rw [Presets.step]
    split_ifs with contains
    · exact h
    · exact ⟨h.sound.put { sPattern := FileName }, fun none => by simp at none, fun none => by simp at none⟩
  | RemovePersistentPreset FileName =>
    rw [Presets.step]
    rcases meets with queued | absent
    · exact ⟨h.sound.erase _, fun none => absurd none queued, fun none => absurd none queued⟩
    · have same : erase (qt.toLower FileName) s.m_PersistentPresets = s.m_PersistentPresets := by
        refine sorted_ext (sorted_filter h.sound.sorted) h.sound.sorted fun sought => ?_
        rw [find_erase]
        split_ifs with here
        · rw [← here, absent]
        · rfl
      rw [same]
      exact h
  | SetPersistentPresets PersistentPreset =>
    have left : Left s.m_PersistentPresets s.m_PersistentPresets := fun key preset found => ⟨preset, found, rfl⟩
    have sound := sound_set_presets PersistentPreset h.sound left
    exact ⟨sound.erase_all _, fun none => by simp [Presets.step] at none, fun none => by simp [Presets.step] at none⟩
  | ApplyPersistentPresets GetProcessList =>
    rw [Presets.step]
    split_ifs with none
    · exact h
    · refine ⟨h.sound, fun _ => load_stored h.sound.sorted h.sound.keys (meets none), fun _ process member => ?_⟩
      obtain ⟨listed, -, rfl⟩ := List.mem_map.mp member
      exact h.sound.get_presets listed

theorem Invariant.run {s : State} (h : Invariant qt s) {calls : List Call} (meet : AllMeet qt s calls) (n : Nat) :
    Invariant qt ((calls.take n).foldl (Presets.step qt) s) := by
  induction calls generalizing s n with
  | nil =>
    rw [List.take_nil]
    exact h
  | cons call calls ih =>
    cases n with
    | zero => exact h
    | succ n =>
      rw [List.take_succ_cons, List.foldl_cons]
      exact ih (h.step meet.1) meet.2 n

/-- In every run whose steps all meet the condition the table, its file and the processes agree in every state. -/
theorem presets_agree (qt : Qt) (file : List Token) (calls : List Call) (meet : AllMeet qt (start qt file) calls) (n : Nat) :
    Agreed qt (Presets.run qt file (calls.take n)) :=
  ((invariant_start file).run meet n).agreed

/-! A preset for `Calc.exe`, with ASCII letters and no file at the start. -/

def sample_qt : Qt where
  xml := Xml.digits_qt
  keys_valid _ _ := rfl
  formatting := false
  toLower := List.map Char.toLower
  folding := PresetMatch.ascii

theorem start_empty : start sample_qt [] = ⟨[], [], 0, [], 0⟩ := rfl

theorem calc_added : step sample_qt (start sample_qt []) (.AddPersistentPreset "Calc.exe".toList) =
    ⟨[], [("calc.exe".toList, ⟨0, { sPattern := "Calc.exe".toList }⟩)], 1, [], 1⟩ := by
  rw [start_empty]
  rfl

theorem calc_storable : Storable { sPattern := "Calc.exe".toList } :=
  ⟨by decide, by decide, fun _ => rfl, fun _ => rfl, fun _ => rfl, fun _ => rfl⟩

theorem presets_agree_calc : AllMeet sample_qt (start sample_qt [])
      [.AddPersistentPreset "Calc.exe".toList, .ApplyPersistentPresets [⟨"calc.exe".toList, [], none⟩]] ∧
    Agreed sample_qt (run sample_qt []
      ([Call.AddPersistentPreset "Calc.exe".toList, .ApplyPersistentPresets [⟨"calc.exe".toList, [], none⟩]].take 2)) := by
  have meet : AllMeet sample_qt (start sample_qt [])
      [.AddPersistentPreset "Calc.exe".toList, .ApplyPersistentPresets [⟨"calc.exe".toList, [], none⟩]] := by
    refine ⟨trivial, fun _ pair member => ?_, trivial⟩
    rw [calc_added] at member
    rw [List.mem_singleton.mp member]
    exact calc_storable
  exact ⟨meet, presets_agree sample_qt [] _ meet 2⟩

def removed_calls : List Call :=
  [.AddPersistentPreset "Calc.exe".toList, .ApplyPersistentPresets [], .RemovePersistentPreset "calc.exe".toList]

/-- What is removed with nothing queued stays in the file. -/
theorem removed_preset_stored :
    ((run sample_qt [] removed_calls).queued = 0 ∧ (run sample_qt [] removed_calls).m_PersistentPresets = [] ∧
      load_data sample_qt (run sample_qt [] removed_calls).file = [("calc.exe".toList, { sPattern := "Calc.exe".toList })]) ∧
    ¬ ∀ qt file calls, Agreed qt (run qt file calls) := by
  have applied : Invariant sample_qt (run sample_qt [] [.AddPersistentPreset "Calc.exe".toList, .ApplyPersistentPresets []]) := by
    have meet : AllMeet sample_qt (start sample_qt []) [.AddPersistentPreset "Calc.exe".toList, .ApplyPersistentPresets []] := by
      refine ⟨trivial, fun _ pair member => ?_, trivial⟩
      rw [calc_added] at member
      rw [List.mem_singleton.mp member]
      exact calc_storable
    exact (invariant_start []).run meet 2
  have table : (run sample_qt [] [.AddPersistentPreset "Calc.exe".toList, .ApplyPersistentPresets []]).m_PersistentPresets =
      [("calc.exe".toList, ⟨0, { sPattern := "Calc.exe".toList }⟩)] := rfl
  have loaded : load_data sample_qt (run sample_qt [] removed_calls).file = [("calc.exe".toList, { sPattern := "Calc.exe".toList })] :=
    (applied.file rfl).trans (by rw [table]; rfl)
  refine ⟨⟨rfl, rfl, loaded⟩, fun all => ?_⟩
  have nothing : load_data sample_qt (run sample_qt [] removed_calls).file = [] := (all sample_qt [] removed_calls).file rfl
  rw [loaded] at nothing
  exact absurd nothing (by simp)

end Runs

end TaskExplorer.Presets
