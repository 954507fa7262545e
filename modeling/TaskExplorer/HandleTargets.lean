import TaskExplorer.Lingering
import TaskExplorer.Transition

/-!
# What handles and modules show

The handles of a process are kept under the numbers of their descriptors, and the
files that are open anywhere under a number made of the pid and the descriptor. An
object that is there is kept, and only its position is read again. Modules are kept
under their base addresses; one with another path is replaced. The inode and the size of
a handle are left out.
-/

namespace TaskExplorer.HandleTargets
open OrderedMap
open Lingering
open Transition

inductive EHandleType where
  | unknown | file | directory | socket | pipe | anonInode | charDevice | blockDevice
deriving DecidableEq, Repr

/-- What `fdinfo` says. -/
structure FdInfo where
  position : Nat
  flags : Nat
deriving DecidableEq, Repr

/-- A descriptor as it is read: where it points, which is nothing when it was closed,
    whether that is a directory, and its `fdinfo`. -/
structure Descriptor where
  fd : Nat
  target : List Char
  isDirectory : Bool
  info : Option FdInfo
deriving DecidableEq, Repr

structure CLinuxHandle where
  fileName : List Char
  type : EHandleType
  flags : Nat
  position : Nat
deriving DecidableEq, Repr

/-- An object of a Windows program; it is read again as a whole. -/
structure CWineHandle where
  typeIndex : Nat
  grantedAccess : Nat
  objectAddress : Nat
  fileName : List Char
deriving DecidableEq, Repr

inductive CHandleInfo where
  | linux (handle : CLinuxHandle)
  | wine (handle : CWineHandle)
deriving DecidableEq, Repr

def handle_type (target : List Char) (isDirectory : Bool) : EHandleType :=
  if "socket:".toList.isPrefixOf target then .socket
  else if "pipe:".toList.isPrefixOf target then .pipe
  else if "anon_inode:".toList.isPrefixOf target then .anonInode
  else if isDirectory then .directory
  else if "/dev/".toList.isPrefixOf target then .charDevice
  else .file

def init_static_data (descriptor : Descriptor) : Option CLinuxHandle :=
  if descriptor.target = [] then none
  else
    some {
      fileName := descriptor.target
      type := handle_type descriptor.target descriptor.isDirectory
      flags := (descriptor.info.map FdInfo.flags).getD 0
      position := (descriptor.info.map FdInfo.position).getD 0 }

def update_dynamic_data (descriptor : Descriptor) (handle : CLinuxHandle) : CLinuxHandle :=
  match descriptor.info with
  | some info => { handle with position := info.position }
  | none => handle

def CHandleInfo.onLinux (change : CLinuxHandle → CLinuxHandle) : CHandleInfo → CHandleInfo
  | .linux handle => .linux (change handle)
  | .wine handle => .wine handle

abbrev HandleList := OrdMap Nat (Listed CHandleInfo)

/-! ## The handles of a process -/

def handle_reading (descriptor : Descriptor) : Reading Nat CHandleInfo :=
  ⟨descriptor.fd, (init_static_data descriptor).map .linux, CHandleInfo.onLinux (update_dynamic_data descriptor)⟩

/-- Above every descriptor there can be. -/
def wineHandleKey : Nat := 0x100000000

structure WineEntry where
  value : Nat
  /-- What `Apply` makes of it. -/
  applied : Option CWineHandle
deriving DecidableEq, Repr

def wine_reading (entry : WineEntry) : Reading Nat CHandleInfo :=
  ⟨wineHandleKey ||| entry.value, entry.applied.map .wine, fun handle => (entry.applied.map .wine).getD handle⟩

/-- The descriptors, read directly or by the helper, and the objects of a prefix. -/
structure HandleSample where
  descriptors : List Descriptor
  wine : List WineEntry
  distinct : (descriptors.map Descriptor.fd).Nodup ∧ (wine.map (fun entry => wineHandleKey ||| entry.value)).Nodup
  small : ∀ descriptor ∈ descriptors, descriptor.fd < wineHandleKey

def HandleSample.readings (sample : HandleSample) : List (Reading Nat CHandleInfo) :=
  sample.descriptors.map handle_reading ++ sample.wine.map wine_reading

def update_handles (persistence now : Nat) (sample : HandleSample) (list : HandleList) : HandleList :=
  (refresh persistence now sample.readings list).list

/-! ## All open files -/

structure OpenFile where
  pid : Nat
  descriptor : Descriptor
deriving DecidableEq, Repr

def OpenFile.handleId (file : OpenFile) : Nat := (file.pid <<< 32) ||| (file.descriptor.fd &&& 0xFFFFFFFF)

def open_file_reading (file : OpenFile) : Reading Nat CHandleInfo :=
  ⟨file.handleId, (init_static_data file.descriptor).map .linux, id⟩

/-- Only paths are listed. -/
def listed_files (files : List OpenFile) : List OpenFile := files.filter (fun file => file.descriptor.target.head? == some '/')

structure FileSample where
  files : List OpenFile
  distinct : (files.map (fun file => (file.pid, file.descriptor.fd))).Nodup
  small : ∀ file ∈ files, file.descriptor.fd < 2 ^ 32

def update_open_file_list (persistence now : Nat) (sample : FileSample) (list : HandleList) : HandleList :=
  (refresh persistence now ((listed_files sample.files).map open_file_reading) list).list

/-! ## Modules -/

structure SMapEntry where
  start : Nat
  stop : Nat
  exec : Bool
  inode : Nat
  path : List Char
deriving DecidableEq, Repr

structure SModuleRange where
  path : List Char
  start : Nat
  stop : Nat
  executable : Bool
deriving DecidableEq, Repr

structure CLinuxModule where
  fileName : List Char
  baseAddress : Nat
  size : Nat
deriving DecidableEq, Repr

abbrev ModuleList := OrdMap Nat CLinuxModule

def SMapEntry.fileBacked (entry : SMapEntry) : Bool :=
  entry.inode != 0 && !entry.path.isEmpty && entry.path.head? != some '['

def SMapEntry.range (entry : SMapEntry) : SModuleRange := ⟨entry.path, entry.start, entry.stop, entry.exec⟩

def SModuleRange.extend (range : SModuleRange) (entry : SMapEntry) : SModuleRange :=
  { range with
    stop := if range.stop < entry.stop then entry.stop else range.stop
    executable := range.executable || entry.exec }

/-- Neighbouring mappings of one file make one range; `last` is the one that may grow. -/
def module_ranges : Option SModuleRange → List SMapEntry → List SModuleRange
  | last, [] => last.toList
  | last, entry :: rest =>
    if entry.fileBacked then
      match last with
      | some range =>
        if range.path = entry.path then module_ranges (some (range.extend entry)) rest
        else range :: module_ranges (some entry.range) rest
      | none => module_ranges (some entry.range) rest
    else module_ranges last rest

def SModuleRange.size (range : SModuleRange) : Nat := range.stop - range.start

/-- The list and what of it was not found yet. -/
structure Modules where
  list : ModuleList
  old : ModuleList

def module_one (modules : Modules) (range : SModuleRange) : Modules :=
  let made : CLinuxModule := ⟨range.path, range.start, range.size⟩
  match modules.old.get range.start with
  | some module =>
    if module.fileName = range.path then { modules with old := modules.old.erase range.start }
    else ⟨modules.list.insert range.start made, modules.old.erase range.start⟩
  | none => { modules with list := modules.list.insert range.start made }

/-- A memory map, which is in the order of the addresses. -/
structure Maps where
  entries : List SMapEntry
  ordered : entries.Pairwise (fun first second => first.start < second.start)

def update_modules (maps : Maps) (list : ModuleList) : ModuleList :=
  if maps.entries = [] then list
  else
    let modules := (module_ranges none maps.entries).foldl module_one ⟨list, list⟩
    (modules.old.entries.map Prod.fst).foldl OrdMap.erase modules.list

/-! ## Handles -/

/-- A handle that is not marked is of a descriptor of the sample, and one that is of such a
    descriptor shows where it points. -/
def Follows (descriptors : List (Nat × Descriptor)) (list : HandleList) : Prop :=
  ∀ number item handle, list.get number = some item → item.object = .linux handle →
    (item.stamp = 0 → number ∈ descriptors.map Prod.fst) ∧
    ∀ descriptor, (number, descriptor) ∈ descriptors →
      handle.fileName = descriptor.target ∧ handle.type = handle_type descriptor.target descriptor.isDirectory

/-- No descriptor points elsewhere while its object is listed, and no mark is made at tick 0. -/
structure Unmoved (now : Nat) (descriptors : List (Nat × Descriptor)) (list : HandleList) : Prop where
  target : ∀ number descriptor, (number, descriptor) ∈ descriptors → ∀ item handle, list.get number = some item → item.object = .linux handle →
    handle.fileName = descriptor.target ∧ handle.type = handle_type descriptor.target descriptor.isDirectory
  tick : ∀ number item, list.get number = some item → item.stamp = 0 → number ∉ descriptors.map Prod.fst → now ≠ 0

theorem init_static_data_shows {descriptor : Descriptor} {handle : CLinuxHandle} (made : init_static_data descriptor = some handle) :
    handle.fileName = descriptor.target ∧ handle.type = handle_type descriptor.target descriptor.isDirectory := by
  rw [init_static_data] at made
  split_ifs at made
  cases made
  exact ⟨rfl, rfl⟩

theorem update_dynamic_data_keeps (descriptor : Descriptor) (handle : CLinuxHandle) :
    (update_dynamic_data descriptor handle).fileName = handle.fileName ∧ (update_dynamic_data descriptor handle).type = handle.type := by
  rw [update_dynamic_data]
  cases descriptor.info <;> exact ⟨rfl, rfl⟩

/-- What is read of a descriptor under a number. -/
structure Reads (reading : Reading Nat CHandleInfo) (number : Nat) (descriptor : Descriptor) : Prop where
  key : reading.key = number
  made : reading.made = (init_static_data descriptor).map .linux
  changed : ∃ change, reading.changed = CHandleInfo.onLinux change ∧
    ∀ handle, (change handle).fileName = handle.fileName ∧ (change handle).type = handle.type

theorem follows_refresh {persistence now : Nat} {descriptors : List (Nat × Descriptor)} {readings : List (Reading Nat CHandleInfo)}
    {list : HandleList} (distinct : (readings.map Reading.key).Nodup)
    (each : ∀ number descriptor, (number, descriptor) ∈ descriptors → ∃ reading ∈ readings, Reads reading number descriptor)
    (unmoved : Unmoved now descriptors list)
    (others : ∀ number item handle, (refresh persistence now readings list).list.get number = some item → item.object = .linux handle →
      number ∉ descriptors.map Prod.fst → ¬ Sampled readings number) :
    Follows descriptors (refresh persistence now readings list).list := by
  intro number item handle found isLinux
  constructor
  · intro unmarked
    by_contra absent
    rw [refresh_absent persistence now readings list (others number item handle found isLinux absent)] at found
    obtain ⟨old, there, isAged⟩ := Option.bind_eq_some_iff.mp found
    rw [aged] at isAged
    split_ifs at isAged with expired zero
    · cases isAged
      exact unmoved.tick number old there zero absent unmarked
    · cases isAged
      exact zero unmarked
  · intro descriptor member
    obtain ⟨reading, among, reads⟩ := each number descriptor member
    obtain ⟨change, isChange, keeps⟩ := reads.changed
    have once := refresh_once persistence now readings list distinct among
    rw [reads.key, found] at once
    cases there : list.get number with
    | some old =>
      rw [there] at once
      cases once
      dsimp only at isLinux
      rw [isChange] at isLinux
      cases kind : old.object with
      | wine other =>
        rw [kind] at isLinux
        cases isLinux
      | linux before =>
        rw [kind] at isLinux
        cases isLinux
        rw [(keeps before).1, (keeps before).2]
        exact unmoved.target number descriptor member old before there kind
    | none =>
      rw [there] at once
      obtain ⟨object, made, rfl⟩ := Option.map_eq_some_iff.mp once.symm
      rw [reads.made] at made
      obtain ⟨fresh, isFresh, rfl⟩ := Option.map_eq_some_iff.mp made
      dsimp only at isLinux
      rw [isChange] at isLinux
      cases isLinux
      rw [(keeps fresh).1, (keeps fresh).2]
      exact init_static_data_shows isFresh

/-- Descriptors and the objects of a prefix do not share numbers. -/
def Kinds (list : HandleList) : Prop :=
  ∀ number item, list.get number = some item →
    match item.object with
    | .linux _ => number < wineHandleKey
    | .wine _ => wineHandleKey ≤ number

def HandleSample.numbered (sample : HandleSample) : List (Nat × Descriptor) :=
  sample.descriptors.map (fun descriptor => (descriptor.fd, descriptor))

section
variable (sample : HandleSample)

theorem HandleSample.keys : sample.readings.map Reading.key =
    sample.descriptors.map Descriptor.fd ++ sample.wine.map (fun entry => wineHandleKey ||| entry.value) := by
  rw [HandleSample.readings, List.map_append, List.map_map, List.map_map]
  rfl

theorem HandleSample.nodup : (sample.readings.map Reading.key).Nodup := by
  rw [sample.keys]
  refine List.nodup_append.mpr ⟨sample.distinct.1, sample.distinct.2, ?_⟩
  rintro number fd other wine rfl
  obtain ⟨descriptor, member, rfl⟩ := List.mem_map.mp fd
  obtain ⟨entry, -, same⟩ := List.mem_map.mp wine
  have below := sample.small descriptor member
  have above : wineHandleKey ≤ wineHandleKey ||| entry.value := Nat.left_le_or
  omega

theorem HandleSample.reads (number : Nat) (descriptor : Descriptor) (member : (number, descriptor) ∈ sample.numbered) :
    ∃ reading ∈ sample.readings, Reads reading number descriptor := by
  obtain ⟨other, among, same⟩ := List.mem_map.mp member
  cases same
  refine ⟨handle_reading descriptor, List.mem_append_left _ (List.mem_map.mpr ⟨descriptor, among, rfl⟩), rfl, rfl, ?_⟩
  exact ⟨update_dynamic_data descriptor, rfl, update_dynamic_data_keeps descriptor⟩

theorem Kinds.update_handles {list : HandleList} (kinds : Kinds list) (persistence now : Nat) :
    Kinds (update_handles persistence now sample list) := by
  intro number item found
  rw [HandleTargets.update_handles] at found
  by_cases sampled : Sampled sample.readings number
  · obtain ⟨reading, member, rfl⟩ := List.mem_map.mp sampled
    rw [refresh_once persistence now sample.readings list sample.nodup member] at found
    rcases List.mem_append.mp member with isHandle | isWine
    · obtain ⟨descriptor, among, rfl⟩ := List.mem_map.mp isHandle
      have below := sample.small descriptor among
      cases there : list.get (handle_reading descriptor).key with
      | some old =>
        rw [there] at found
        cases found
        have before := kinds _ old there
        cases kind : old.object with
        | linux handle =>
          simp only [handle_reading, CHandleInfo.onLinux]
          exact below
        | wine handle =>
          rw [kind] at before
          exact absurd below (Nat.not_lt.mpr before)
      | none =>
        rw [there] at found
        obtain ⟨object, made, rfl⟩ := Option.map_eq_some_iff.mp found
        obtain ⟨handle, -, rfl⟩ := Option.map_eq_some_iff.mp made
        exact below
    · obtain ⟨entry, among, rfl⟩ := List.mem_map.mp isWine
      have above : wineHandleKey ≤ (wine_reading entry).key := Nat.left_le_or
      cases there : list.get (wine_reading entry).key with
      | some old =>
        rw [there] at found
        cases found
        have before := kinds _ old there
        cases applied : entry.applied with
        | some handle =>
          simp only [wine_reading, applied, Option.map_some, Option.getD_some]
          exact above
        | none =>
          simp only [wine_reading, applied, Option.map_none, Option.getD_none]
          exact before
      | none =>
        rw [there] at found
        obtain ⟨object, made, rfl⟩ := Option.map_eq_some_iff.mp found
        obtain ⟨handle, applied, rfl⟩ := Option.map_eq_some_iff.mp made
        simp only [wine_reading, applied, Option.map_some, Option.getD_some]
        exact above
  · rw [refresh_absent persistence now sample.readings list sampled] at found
    obtain ⟨old, there, isAged⟩ := Option.bind_eq_some_iff.mp found
    have same : item.object = old.object := by
      rw [aged] at isAged
      split_ifs at isAged <;> cases isAged <;> rfl
    rw [same]
    exact kinds number old there

theorem update_handles_follows {persistence now : Nat} {list : HandleList} (kinds : Kinds list) (unmoved : Unmoved now sample.numbered list) :
    Follows sample.numbered (update_handles persistence now sample list) := by
  apply follows_refresh sample.nodup sample.reads unmoved
  intro number item handle found isLinux absent sampled
  have kind := kinds.update_handles sample persistence now number item found
  rw [isLinux] at kind
  have kind : number < wineHandleKey := kind
  rw [Sampled, sample.keys] at sampled
  rcases List.mem_append.mp sampled with fd | wine
  · obtain ⟨descriptor, member, rfl⟩ := List.mem_map.mp fd
    exact absent (List.mem_map.mpr ⟨(descriptor.fd, descriptor), List.mem_map.mpr ⟨descriptor, member, rfl⟩, rfl⟩)
  · obtain ⟨entry, -, rfl⟩ := List.mem_map.mp wine
    exact absurd kind (Nat.not_lt.mpr Nat.left_le_or)

end

/-! ## Open files -/

theorem handleId_eq {file : OpenFile} (small : file.descriptor.fd < 2 ^ 32) : file.handleId = file.pid * 2 ^ 32 + file.descriptor.fd := by
  have mask : (0xFFFFFFFF : Nat) = 2 ^ 32 - 1 := by decide
  rw [OpenFile.handleId, mask, Nat.and_two_pow_sub_one_eq_mod, Nat.mod_eq_of_lt small, ← Nat.shiftLeft_add_eq_or_of_lt small, Nat.shiftLeft_eq]

def FileSample.numbered (sample : FileSample) : List (Nat × Descriptor) :=
  (listed_files sample.files).map (fun file => (file.handleId, file.descriptor))

theorem FileSample.nodup (sample : FileSample) : (((listed_files sample.files).map open_file_reading).map Reading.key).Nodup := by
  have listed : ((listed_files sample.files).map (fun file => (file.pid, file.descriptor.fd))).Nodup :=
    sample.distinct.sublist (List.filter_sublist.map _)
  rw [List.map_map]
  have files : (listed_files sample.files).Nodup := List.Nodup.of_map _ listed
  apply (List.nodup_map_iff_inj_on files).mpr
  intro file member other also same
  have small := sample.small file (List.mem_filter.mp member).1
  have smallToo := sample.small other (List.mem_filter.mp also).1
  have same : file.handleId = other.handleId := same
  rw [handleId_eq small, handleId_eq smallToo] at same
  apply (List.nodup_map_iff_inj_on files).mp listed file member other also
  rw [Prod.mk.injEq]
  omega

theorem update_open_file_list_follows {persistence now : Nat} (sample : FileSample) {list : HandleList}
    (unmoved : Unmoved now sample.numbered list) : Follows sample.numbered (update_open_file_list persistence now sample list) := by
  apply follows_refresh sample.nodup _ unmoved
  · intro number item handle found isLinux absent sampled
    obtain ⟨reading, member, rfl⟩ := List.mem_map.mp sampled
    obtain ⟨file, among, rfl⟩ := List.mem_map.mp member
    exact absent (List.mem_map.mpr ⟨(file.handleId, file.descriptor), List.mem_map.mpr ⟨file, among, rfl⟩, rfl⟩)
  · intro number descriptor member
    obtain ⟨file, among, same⟩ := List.mem_map.mp member
    cases same
    refine ⟨open_file_reading file, List.mem_map.mpr ⟨file, among, rfl⟩, rfl, rfl, id, ?_, fun handle => ⟨rfl, rfl⟩⟩
    funext handle
    cases handle <;> rfl

/-! ## Modules -/

theorem module_ranges_nil (last : Option SModuleRange) : module_ranges last [] = last.toList := by
  rw [module_ranges.eq_def]

theorem module_ranges_cons (last : Option SModuleRange) (entry : SMapEntry) (rest : List SMapEntry) :
    module_ranges last (entry :: rest) =
      if entry.fileBacked then
        match last with
        | some range =>
          if range.path = entry.path then module_ranges (some (range.extend entry)) rest
          else range :: module_ranges (some entry.range) rest
        | none => module_ranges (some entry.range) rest
      else module_ranges last rest := by
  rw [module_ranges.eq_def]

theorem module_ranges_start {last : Option SModuleRange} {maps : List SMapEntry} {range : SModuleRange} (member : range ∈ module_ranges last maps) :
    (∃ first, last = some first ∧ range.start = first.start) ∨ ∃ entry ∈ maps, range.start = entry.start := by
  induction maps generalizing last with
  | nil =>
    rw [module_ranges_nil, Option.mem_toList] at member
    exact .inl ⟨range, member, rfl⟩
  | cons entry rest ih =>
    have later {other : Option SModuleRange} (inside : range ∈ module_ranges other rest)
        (start : ∀ first, other = some first → (∃ before, last = some before ∧ first.start = before.start) ∨ first.start = entry.start) :
        (∃ first, last = some first ∧ range.start = first.start) ∨ ∃ entry' ∈ entry :: rest, range.start = entry'.start := by
      rcases ih inside with ⟨first, isFirst, same⟩ | ⟨other, among, same⟩
      · rcases start first isFirst with ⟨before, isBefore, also⟩ | also
        · exact .inl ⟨before, isBefore, same.trans also⟩
        · exact .inr ⟨entry, List.mem_cons_self, same.trans also⟩
      · exact .inr ⟨other, List.mem_cons_of_mem _ among, same⟩
    rw [module_ranges_cons] at member
    split_ifs at member
    · cases last with
      | none =>
        apply later member
        rintro first (⟨⟩)
        exact .inr rfl
      | some before =>
        dsimp only at member
        split_ifs at member
        · apply later member
          rintro first (⟨⟩)
          exact .inl ⟨before, rfl, rfl⟩
        · rcases List.mem_cons.mp member with rfl | inside
          · exact .inl ⟨_, rfl, rfl⟩
          · apply later inside
            rintro first (⟨⟩)
            exact .inr rfl
    · exact later member (fun first isFirst => .inl ⟨first, isFirst, rfl⟩)

theorem module_ranges_ordered {last : Option SModuleRange} {maps : List SMapEntry}
    (ordered : maps.Pairwise (fun first second => first.start < second.start))
    (before : ∀ first, last = some first → ∀ entry ∈ maps, first.start < entry.start) :
    (module_ranges last maps).Pairwise (fun first second => first.start < second.start) := by
  induction maps generalizing last with
  | nil =>
    rw [module_ranges_nil]
    cases last with
    | none => exact List.Pairwise.nil
    | some first => exact List.pairwise_singleton _ _
  | cons entry rest ih =>
    obtain ⟨first, ordered⟩ := List.pairwise_cons.mp ordered
    have next {other : Option SModuleRange} (start : ∀ range, other = some range → range.start = entry.start ∨ last = some range ∨
        ∃ before, last = some before ∧ range.start = before.start) :
        (module_ranges other rest).Pairwise (fun first second => first.start < second.start) := by
      apply ih ordered
      intro range isRange later member
      rcases start range isRange with same | same | ⟨other, isOther, same⟩
      · rw [same]
        exact first later member
      · exact before range same later (List.mem_cons_of_mem _ member)
      · rw [same]
        exact before other isOther later (List.mem_cons_of_mem _ member)
    rw [module_ranges_cons]
    split_ifs
    · cases last with
      | none =>
        apply next
        rintro range (⟨⟩)
        exact .inl rfl
      | some growing =>
        dsimp only
        split_ifs
        · apply next
          rintro range (⟨⟩)
          exact .inr (.inr ⟨growing, rfl, rfl⟩)
        · refine List.pairwise_cons.mpr ⟨?_, ?_⟩
          · intro range member
            rcases module_ranges_start member with ⟨fresh, isFresh, same⟩ | ⟨later, among, same⟩
            · cases isFresh
              rw [same]
              exact before growing rfl entry List.mem_cons_self
            · rw [same]
              exact before growing rfl later (List.mem_cons_of_mem _ among)
          · apply next
            rintro range (⟨⟩)
            exact .inl rfl
    · exact next (fun range isRange => .inr (.inl isRange))

theorem module_one_other (modules : Modules) {range : SModuleRange} {base : Nat} (differs : range.start ≠ base) :
    (module_one modules range).list.get base = modules.list.get base ∧ (module_one modules range).old.get base = modules.old.get base := by
  rw [module_one]
  cases modules.old.get range.start with
  | none => simp [differs]
  | some module =>
    dsimp only
    split_ifs <;> simp [differs]

theorem module_one_here (modules : Modules) {range : SModuleRange} (same : modules.old.get range.start = modules.list.get range.start) :
    (∀ module, (module_one modules range).list.get range.start = some module ↔
      (modules.list.get range.start = some module ∧ module.fileName = range.path) ∨
      (module = ⟨range.path, range.start, range.size⟩ ∧ ∀ before, modules.list.get range.start = some before → before.fileName ≠ range.path)) ∧
    (module_one modules range).old.get range.start = none := by
  rw [module_one]
  cases found : modules.old.get range.start with
  | none =>
    rw [found] at same
    refine ⟨fun module => ?_, found⟩
    simp [← same, eq_comm]
  | some before =>
    rw [found] at same
    dsimp only
    split_ifs with kept
    · refine ⟨fun module => ?_, by simp⟩
      rw [← same, Option.some.injEq]
      constructor
      · rintro rfl
        exact .inl ⟨rfl, kept⟩
      · rintro (⟨rfl, -⟩ | ⟨-, differs⟩)
        · rfl
        · exact absurd kept (differs before rfl)
    · refine ⟨fun module => ?_, by simp⟩
      simp only [OrdMap.get_insert, if_true, Option.some.injEq, ← same]
      constructor
      · rintro rfl
        exact .inr ⟨rfl, fun other isOther => isOther ▸ kept⟩
      · rintro (⟨rfl, named⟩ | ⟨rfl, -⟩)
        · exact absurd named kept
        · rfl

theorem module_fold_other {ranges : List SModuleRange} {base : Nat} (absent : base ∉ ranges.map SModuleRange.start) (modules : Modules) :
    (ranges.foldl module_one modules).list.get base = modules.list.get base ∧
      (ranges.foldl module_one modules).old.get base = modules.old.get base := by
  induction ranges generalizing modules with
  | nil => exact ⟨rfl, rfl⟩
  | cons range rest ih =>
    rw [List.map_cons, List.mem_cons, not_or] at absent
    obtain ⟨list, old⟩ := module_one_other modules (Ne.symm absent.1)
    obtain ⟨listRest, oldRest⟩ := ih absent.2 (module_one modules range)
    exact ⟨listRest.trans list, oldRest.trans old⟩

theorem foldl_erase_get (keys : List Nat) (list : ModuleList) (base : Nat) :
    (keys.foldl OrdMap.erase list).get base = if base ∈ keys then none else list.get base := by
  induction keys generalizing list with
  | nil => simp
  | cons first rest ih =>
    rw [List.foldl_cons, ih, OrdMap.get_erase]
    by_cases here : base = first
    · simp [here]
    · simp [here, Ne.symm here]

/-- The modules that are listed are those that are mapped. -/
def Mapped (maps : Maps) (list : ModuleList) : Prop :=
  ∀ base path size, (∃ module, list.get base = some module ∧ module.fileName = path ∧ module.size = size) ↔
    ∃ range ∈ module_ranges none maps.entries, range.start = base ∧ range.path = path ∧ range.size = size

/-- The map could be read, and a file that stays mapped at its address keeps its size. -/
structure Fixed (maps : Maps) (list : ModuleList) : Prop where
  size : ∀ range ∈ module_ranges none maps.entries, ∀ module, list.get range.start = some module → module.fileName = range.path →
    module.size = range.size
  readable : maps.entries = [] → ∀ base, list.get base = none

theorem update_modules_mapped {maps : Maps} {list : ModuleList} (fixed : Fixed maps list) : Mapped maps (update_modules maps list) := by
  by_cases none : maps.entries = []
  · intro base path size
    rw [update_modules, if_pos none, none, fixed.readable none base]
    simp [module_ranges_nil]
  set ranges := module_ranges .none maps.entries with isRanges
  have ordered : ranges.Pairwise (fun first second => first.start < second.start) := module_ranges_ordered maps.ordered (by simp)
  have distinct : (ranges.map SModuleRange.start).Nodup := by
    apply List.pairwise_map.mpr
    exact ordered.imp (fun less => Nat.ne_of_lt less)
  set modules := ranges.foldl module_one ⟨list, list⟩ with isModules
  have keys (base : Nat) : base ∈ modules.old.entries.map Prod.fst ↔ modules.old.get base ≠ .none := by
    constructor
    · intro member
      obtain ⟨⟨key, module⟩, among, rfl⟩ := List.mem_map.mp member
      rw [OrdMap.mem_entries.mp among]
      exact Option.some_ne_none module
    · intro there
      obtain ⟨module, found⟩ := Option.ne_none_iff_exists'.mp there
      exact List.mem_map.mpr ⟨(base, module), OrdMap.mem_entries.mpr found, rfl⟩
  have result (base : Nat) : (update_modules maps list).get base = if modules.old.get base ≠ .none then .none else modules.list.get base := by
    rw [update_modules, if_neg none, foldl_erase_get]
    exact if_congr (keys base) rfl rfl
  -- What is under the start of a range.
  have here {range : SModuleRange} (member : range ∈ ranges) (module : CLinuxModule) :
      (update_modules maps list).get range.start = some module ↔
        (list.get range.start = some module ∧ module.fileName = range.path) ∨
        (module = ⟨range.path, range.start, range.size⟩ ∧ ∀ before, list.get range.start = some before → before.fileName ≠ range.path) := by
    obtain ⟨earlier, later, split⟩ := List.append_of_mem member
    rw [split, List.map_append, List.map_cons, List.nodup_append, List.nodup_cons] at distinct
    obtain ⟨-, ⟨notLater, -⟩, apart⟩ := distinct
    have notEarlier : range.start ∉ earlier.map SModuleRange.start := fun early => apart _ early _ List.mem_cons_self rfl
    obtain ⟨listBefore, oldBefore⟩ := module_fold_other notEarlier ⟨list, list⟩
    obtain ⟨listAfter, oldAfter⟩ := module_fold_other notLater (module_one (earlier.foldl module_one ⟨list, list⟩) range)
    obtain ⟨one, gone⟩ := module_one_here (earlier.foldl module_one ⟨list, list⟩) (oldBefore.trans listBefore.symm)
    have whole : modules = later.foldl module_one (module_one (earlier.foldl module_one ⟨list, list⟩) range) := by
      rw [isModules, split, List.foldl_append, List.foldl_cons]
    rw [result, whole, oldAfter, gone, if_neg (by simp), listAfter, one, listBefore]
  intro base path size
  constructor
  · rintro ⟨module, found, rfl, rfl⟩
    by_cases mapped : base ∈ ranges.map SModuleRange.start
    · obtain ⟨range, member, rfl⟩ := List.mem_map.mp mapped
      refine ⟨range, member, rfl, ?_⟩
      rcases (here member module).mp found with ⟨before, named⟩ | ⟨rfl, -⟩
      · exact ⟨named.symm, (fixed.size range member module before named).symm⟩
      · exact ⟨rfl, rfl⟩
    · obtain ⟨listSame, oldSame⟩ := module_fold_other mapped ⟨list, list⟩
      rw [result, isModules, listSame, oldSame] at found
      split_ifs at found with there
      rw [found] at there
      exact absurd (Option.some_ne_none module) there
  · rintro ⟨range, member, rfl, rfl, rfl⟩
    by_cases kept : ∃ before, list.get range.start = some before ∧ before.fileName = range.path
    · obtain ⟨before, there, named⟩ := kept
      exact ⟨before, (here member before).mpr (.inl ⟨there, named⟩), named, fixed.size range member before there named⟩
    · push Not at kept
      exact ⟨_, (here member _).mpr (.inr ⟨rfl, kept⟩), rfl, rfl⟩

/-! ## Histories -/

structure Lists where
  handles : HandleList
  openFiles : HandleList
  modules : ModuleList

def nothing : Lists := ⟨.empty, .empty, .empty⟩

inductive Event where
  | handles (persistence now : Nat) (sample : HandleSample)
  | openFiles (persistence now : Nat) (sample : FileSample)
  | modules (maps : Maps)

def update (lists : Lists) : Event → Lists
  | .handles persistence now sample => { lists with handles := update_handles persistence now sample lists.handles }
  | .openFiles persistence now sample => { lists with openFiles := update_open_file_list persistence now sample lists.openFiles }
  | .modules maps => { lists with modules := update_modules maps lists.modules }

def step (lists : Lists) (event : Event) : Option Lists := some (update lists event)

/-- What is sampled has not changed under an object that is kept. -/
def Kept (lists : Lists) : Event → Prop
  | .handles _ now sample => Unmoved now sample.numbered lists.handles
  | .openFiles _ now sample => Unmoved now sample.numbered lists.openFiles
  | .modules maps => Fixed maps lists.modules

/-- The list that was refreshed shows what was sampled. -/
def Current (lists : Lists) : Event → Prop
  | .handles _ _ sample => Follows sample.numbered lists.handles
  | .openFiles _ _ sample => Follows sample.numbered lists.openFiles
  | .modules maps => Mapped maps lists.modules

/-- In a history in which nothing changes under an object that is kept, every refresh
    shows what was sampled. -/
theorem lists_current {lists : Lists} (run : Run step Kept nothing lists) {event : Event} (kept : Kept lists event) :
    Current (update lists event) event := by
  have kinds : Kinds lists.handles := by
    apply run.invariant (fun lists => Kinds lists.handles)
    · intro number item found
      cases found
    · intro state event later kinds _ moved
      cases moved
      cases event with
      | handles persistence now sample => exact kinds.update_handles sample persistence now
      | openFiles persistence now sample => exact kinds
      | modules maps => exact kinds
  cases event with
  | handles persistence now sample => exact update_handles_follows sample kinds kept
  | openFiles persistence now sample => exact update_open_file_list_follows sample kept
  | modules maps => exact update_modules_mapped kept

/-! ## A descriptor that is used again -/

/-- Descriptor 3 points at a path. -/
def opened (path : List Char) : HandleSample where
  descriptors := [⟨3, path, false, some ⟨0, 0⟩⟩]
  wine := []
  distinct := by simp
  small := by simp [wineHandleKey]

/-- A socket is opened beside it. -/
def connected : HandleSample where
  descriptors := [⟨3, "/a".toList, false, some ⟨8, 0⟩⟩, ⟨4, "socket:[7]".toList, false, none⟩]
  wine := []
  distinct := by decide
  small := by decide

theorem lists_current_connected :
    let lists := update nothing (.handles 5000 10 (opened "/a".toList))
    let later := update lists (.handles 5000 20 connected)
    later.handles.entries = [(3, ⟨.linux ⟨"/a".toList, .file, 0, 8⟩, 0⟩), (4, ⟨.linux ⟨"socket:[7]".toList, .socket, 0, 0⟩, 0⟩)] ∧
      Current later (.handles 5000 20 connected) := by
  intro lists later
  have first : Kept nothing (.handles 5000 10 (opened "/a".toList)) :=
    ⟨fun number descriptor _ item handle found => (by cases found), fun number item found => (by cases found)⟩
  have target : ∀ number item, lists.handles.get number = some item → ∀ handle, item.object = .linux handle →
      ∀ descriptor, (number, descriptor) ∈ connected.numbered →
      handle.fileName = descriptor.target ∧ handle.type = handle_type descriptor.target descriptor.isDirectory := by
    apply OrdMap.forall_get
    intro pair member handle isLinux descriptor among
    cases List.mem_singleton.mp (show pair ∈ [(3, ⟨.linux ⟨"/a".toList, .file, 0, 0⟩, 0⟩)] from member)
    cases isLinux
    rcases List.mem_cons.mp among with here | other
    · cases here
      exact ⟨rfl, rfl⟩
    · cases List.mem_singleton.mp other
  have second : Kept lists (.handles 5000 20 connected) :=
    ⟨fun number descriptor among item handle found isLinux => target number item found handle isLinux descriptor among,
      fun _ _ _ _ _ => by decide⟩
  exact ⟨by decide, lists_current (.next .start first rfl) second⟩

/-- The handle still shows the path that was closed. -/
theorem reopened_stale :
    let lists := update nothing (.handles 5000 10 (opened "/a".toList))
    runs step nothing [.handles 5000 10 (opened "/a".toList)] = some lists ∧
      ¬ Current (update lists (.handles 5000 20 (opened "/b".toList))) (.handles 5000 20 (opened "/b".toList)) := by
  intro lists
  refine ⟨rfl, fun current => ?_⟩
  have shown := (current 3 ⟨.linux ⟨"/a".toList, .file, 0, 0⟩, 0⟩ _ (by decide) rfl).2 ⟨3, "/b".toList, false, some ⟨0, 0⟩⟩ (by decide)
  revert shown
  decide

end TaskExplorer.HandleTargets
