import TaskExplorer.CoreDump

/-!
# What a small dump leaves out

Without full memory only the first page of a file mapping is written, for the rest is taken to be in the file. But a process can have
written on its own copies of the pages of a private mapping, and the file may be gone by then.
-/

namespace TaskExplorer.CoreRecovery
open Codec CoreDump

/-! ## The process and its files -/

/-- Files by their numbers, and the paths that lead to one. -/
structure Files where
  content : Nat → Bytes
  lookup : Bytes → Option Nat

/-- A mapping as the kernel has it. `own` are the bytes the process has written on pages of its own, which those of a file mapping are only
when it is private: what is written to a shared one is in the file. -/
structure VmArea where
  entry : SMapEntry
  isPrivate : Bool
  device : Bool
  file : Option Nat
  own : Nat → Option UInt8
  ordered : entry.start ≤ entry.stop
  shared : isPrivate = false → ∀ index, own index = none

/-- The byte of the mapped file, and 0 behind its end and where there is none. -/
def mapped (files : Files) (area : VmArea) (index : Nat) : UInt8 :=
  (area.file.bind (fun number => (files.content number)[area.entry.offset.toNat + index]?)).getD 0

/-- What the process sees in a mapping. -/
def seen (files : Files) (area : VmArea) (index : Nat) : UInt8 := (area.own index).getD (mapped files area index)

/-- The pages that the kernel maps into every process. -/
def kernel_pages (map : SMapEntry) : Bool := (ascii "[vvar").isPrefixOf map.path || decide (map.path = ascii "[vsyscall]")

/-- A process that is dumped without full memory. Its mappings lie apart, and their offsets are those of pages; the pages of the kernel
cannot be read. -/
structure Image where
  dumper : Dumper
  files : Files
  areas : List VmArea
  small : dumper.dumpType &&& fullMemory = 0
  maps : dumper.maps = areas.map VmArea.entry
  apart : areas.Pairwise (fun area other => area.entry.stop ≤ other.entry.start)
  offsets : ∀ area ∈ areas, dumper.pageSize ∣ area.entry.offset.toNat
  bytes : ∀ area ∈ areas, ∀ index < area.entry.size, dumper.memory.byte (area.entry.start.toNat + index) = seen files area index
  kernel : ∀ area ∈ areas, kernel_pages area.entry = true → ∀ index < area.entry.size,
    dumper.memory.readable ((area.entry.start.toNat + index) / dumper.pageSize) = false

/-! ## What can be recovered -/

/-- A program header of the core has the byte. -/
def Dumped (dumper : Dumper) (address : Nat) : Prop :=
  ∃ region ∈ dumper.regions, (load_phdr dumper region).vaddr ≤ address ∧ address < (load_phdr dumper region).vaddr + (load_phdr dumper region).filesz

/-- The regions that `NT_FILE` names. -/
def named (dumper : Dumper) : List SDumpRegion := dumper.regions.filter (fun region => decide (region.path ≠ []))

/-- An existing file that is named for the address has the byte there. -/
def Recovered (image : Image) (address : Nat) : Prop :=
  ∃ region ∈ named image.dumper, region.start.toNat ≤ address ∧ address < region.stop.toNat ∧
    ∃ number, image.files.lookup region.path = some number ∧
      (image.files.content number)[region.pageOffset * image.dumper.pageSize + (address - region.start.toNat)]? =
        some (image.dumper.memory.byte address)

/-- What can be read of the mapping and is not in the core can be recovered. -/
def AreaRecoverable (image : Image) (area : VmArea) : Prop :=
  ∀ index < area.entry.size, image.dumper.memory.readable ((area.entry.start.toNat + index) / image.dumper.pageSize) = true →
    ¬ Dumped image.dumper (area.entry.start.toNat + index) → Recovered image (area.entry.start.toNat + index)

def Recoverable (image : Image) : Prop :=
  ∀ area ∈ image.areas, area.entry.read = true → area.device = false → AreaRecoverable image area

/-! ## When it can -/

/-- The path is that of a file that has there what the process sees: its own byte where it has written one, and else that of the mapped file. -/
def Intact (image : Image) (area : VmArea) (index : Nat) : Prop :=
  ∃ number, image.files.lookup area.entry.path = some number ∧
    (image.files.content number)[area.entry.offset.toNat + index]? = some (seen image.files area index)

def below_dev (map : SMapEntry) : Bool := (ascii "/dev/").isPrefixOf map.path

/-- A mapping of a file is intact behind its first page, and on that as well when its path is below `/dev/`. Anything else below `/dev/`
has nothing to be read. -/
def Covered (image : Image) (area : VmArea) : Prop :=
  ∀ index < area.entry.size, image.dumper.memory.readable ((area.entry.start.toNat + index) / image.dumper.pageSize) = true →
    if area.entry.fileBacked then (below_dev area.entry = true ∨ image.dumper.pageSize ≤ index) → Intact image area index
    else below_dev area.entry = false

section
variable {image : Image} {area : VmArea}

theorem size_eq (area : VmArea) : area.entry.start.toNat + area.entry.size = area.entry.stop.toNat := by
  have ordered := UInt64.le_iff_toNat_le.mp area.ordered
  rw [SMapEntry.size, UInt64.toNat_sub_of_le _ _ area.ordered]
  omega

theorem dump_bytes_le (dumper : Dumper) (map : SMapEntry) : dump_bytes dumper map ≤ map.size := by
  rw [dump_bytes]
  split_ifs
  · exact Nat.zero_le _
  · exact le_rfl
  · exact le_rfl
  · exact Nat.min_le_left _ _

theorem same_area {other : VmArea} (among : area ∈ image.areas) (isOther : other ∈ image.areas) {address : Nat}
    (low : area.entry.start.toNat ≤ address) (high : address < area.entry.stop.toNat)
    (otherLow : other.entry.start.toNat ≤ address) (otherHigh : address < other.entry.stop.toNat) : other = area := by
  by_contra differ
  have symmetric : Std.Symm (fun area other : VmArea => area.entry.stop ≤ other.entry.start ∨ other.entry.stop ≤ area.entry.start) :=
    ⟨fun _ _ apart => apart.symm⟩
  have around := (image.apart.imp Or.inl : image.areas.Pairwise
    (fun area other => area.entry.stop ≤ other.entry.start ∨ other.entry.stop ≤ area.entry.start)).forall isOther among differ
  rw [UInt64.le_iff_toNat_le, UInt64.le_iff_toNat_le] at around
  omega

theorem mem_regions {region : SDumpRegion} : region ∈ image.dumper.regions ↔ ∃ area ∈ image.areas, make_region image.dumper area.entry = region := by
  simp [Dumper.regions, image.maps]

theorem dumped_iff (among : area ∈ image.areas) {index : Nat} (inside : index < area.entry.size) :
    Dumped image.dumper (area.entry.start.toNat + index) ↔ index < dump_bytes image.dumper area.entry := by
  have whole := size_eq area
  constructor
  · rintro ⟨region, isRegion, low, high⟩
    obtain ⟨other, isOther, rfl⟩ := mem_regions.mp isRegion
    have less := dump_bytes_le image.dumper other.entry
    have otherWhole := size_eq other
    change other.entry.start.toNat ≤ _ at low
    change _ < other.entry.start.toNat + dump_bytes image.dumper other.entry at high
    rw [same_area among isOther (by omega) (by omega) low (by omega)] at high
    omega
  · intro early
    refine ⟨_, mem_regions.mpr ⟨area, among, rfl⟩, Nat.le_add_right _ _, ?_⟩
    change _ < area.entry.start.toNat + dump_bytes image.dumper area.entry
    omega

theorem recovered_iff (among : area ∈ image.areas) {index : Nat} (inside : index < area.entry.size) :
    Recovered image (area.entry.start.toNat + index) ↔ area.entry.fileBacked = true ∧ Intact image area index := by
  have whole := size_eq area
  have isOffset : area.entry.offset.toNat / image.dumper.pageSize * image.dumper.pageSize = area.entry.offset.toNat :=
    Nat.div_mul_cancel (image.offsets area among)
  have isByte := image.bytes area among index inside
  constructor
  · rintro ⟨region, isNamed, low, high, number, found, same⟩
    obtain ⟨isRegion, hasPath⟩ := List.mem_filter.mp isNamed
    obtain ⟨other, isOther, rfl⟩ := mem_regions.mp isRegion
    rw [same_area among isOther (by omega) (by omega) low high] at hasPath found same
    rw [make_region] at hasPath found same
    dsimp only at hasPath found same
    rw [isOffset, Nat.add_sub_cancel_left, isByte] at same
    cases backed : area.entry.fileBacked with
    | false =>
      rw [backed] at hasPath
      cases hasPath
    | true =>
      rw [backed, if_pos rfl] at found
      exact ⟨rfl, number, found, same⟩
  · rintro ⟨backed, number, found, same⟩
    have hasPath : area.entry.path ≠ [] := by
      intro none
      rw [SMapEntry.fileBacked, none, Bool.and_eq_true] at backed
      exact absurd backed.2 (by decide)
    have path : (make_region image.dumper area.entry).path = area.entry.path := if_pos backed
    refine ⟨make_region image.dumper area.entry, List.mem_filter.mpr ⟨mem_regions.mpr ⟨area, among, rfl⟩, ?_⟩, Nat.le_add_right _ _, ?_, number, ?_, ?_⟩
    · rw [path]
      exact decide_eq_true hasPath
    · change _ < area.entry.stop.toNat
      omega
    · rw [path]
      exact found
    · change (image.files.content number)[area.entry.offset.toNat / image.dumper.pageSize * image.dumper.pageSize +
        (area.entry.start.toNat + index - area.entry.start.toNat)]? = _
      rw [isOffset, Nat.add_sub_cancel_left, isByte]
      exact same

theorem kept_iff (among : area ∈ image.areas) (reads : area.entry.read = true) {index : Nat} (inside : index < area.entry.size)
    (readable : image.dumper.memory.readable ((area.entry.start.toNat + index) / image.dumper.pageSize) = true) :
    index < dump_bytes image.dumper area.entry ↔
      below_dev area.entry = false ∧ (area.entry.fileBacked = true → index < image.dumper.pageSize) := by
  have ordinary : kernel_pages area.entry = false := by
    by_contra isKernel
    rw [Bool.not_eq_false] at isKernel
    rw [image.kernel area among isKernel index inside] at readable
    cases readable
  have unreadable : is_unreadable_region area.entry = below_dev area.entry := by
    rw [is_unreadable_region, ← kernel_pages, ordinary, Bool.false_or, below_dev]
  rw [dump_bytes, reads, unreadable]
  cases below_dev area.entry with
  | true => simp
  | false =>
    cases area.entry.fileBacked with
    | true => simp [image.small, inside]
    | false => simp [image.small, inside]

theorem area_recoverable_iff (among : area ∈ image.areas) (reads : area.entry.read = true) : AreaRecoverable image area ↔ Covered image area := by
  refine forall_congr' fun index => forall_congr' fun inside => forall_congr' fun readable => ?_
  rw [dumped_iff among inside, kept_iff among reads inside readable, recovered_iff among inside]
  cases area.entry.fileBacked with
  | true => cases below_dev area.entry <;> simp
  | false => cases below_dev area.entry <;> simp

end

/-- What a small dump leaves out can be recovered exactly when every mapping that is not a device's is covered. -/
theorem small_dump_recoverable (image : Image) :
    Recoverable image ↔ ∀ area ∈ image.areas, area.entry.read = true → area.device = false → Covered image area :=
  forall_congr' fun _ => forall_congr' fun among => forall_congr' fun reads => imp_congr_right fun _ => area_recoverable_iff among reads

/-! ## A page of its own -/

/-- Two pages of a file, of which the process has written on the second one. -/
def dataArea : VmArea where
  entry := ⟨0x1000, 0x3000, true, true, false, 0, 5, ascii "/bin/cat"⟩
  isPrivate := true
  device := false
  file := some 0
  own index := if index = 0x1000 then some 1 else none
  ordered := by decide
  shared isShared := by cases isShared

def dataFiles : Files where
  content _ := List.replicate 0x2000 0
  lookup path := if path = ascii "/bin/cat" then some 0 else none

def dataMemory : Memory (2 ^ 12) where
  byte address := seen dataFiles dataArea (address - 0x1000)
  readable number := decide (number = 1 ∨ number = 2)
  pread address count := if 0x1000 ≤ address ∧ address + count ≤ 0x3000 then
    some ((List.range count).map (fun index => seen dataFiles dataArea (address + index - 0x1000))) else none
  honest address count data aligned whole found := by
    split_ifs at found with inside
    cases found
    simp only [List.length_map, List.length_range]
    refine ⟨whole, le_rfl, by omega, trivial, ?_⟩
    intro index early
    rw [decide_eq_true_eq]
    omega
  whole number isReadable := by
    rw [decide_eq_true_eq] at isReadable
    refine ⟨_, if_pos (by omega), ?_⟩
    rw [List.length_map, List.length_range]

theorem data_byte (index : Nat) : dataMemory.byte (0x1000 + index) = seen dataFiles dataArea index := by
  have same : 0x1000 + index - 0x1000 = index := by omega
  rw [dataMemory]
  simp only [same]

theorem data_pages : 12 ≤ 20 := by decide

theorem data_limit : 2 ^ 40 < 2 ^ 63 := by decide

def dataImage : Image where
  dumper := {
    pageBits := 12
    pages := data_pages
    bigEndian := false
    machine := 62
    dumpType := 0
    maps := [dataArea.entry]
    notes := []
    access := .mem
    memory := dataMemory
    limit := 2 ^ 40
    bounded := data_limit
    isCanceling _ := false }
  files := dataFiles
  areas := [dataArea]
  small := rfl
  maps := rfl
  apart := List.pairwise_singleton _ _
  offsets area among := by
    cases List.mem_singleton.mp among
    exact dvd_zero _
  bytes area among index inside := by
    cases List.mem_singleton.mp among
    have start : dataArea.entry.start.toNat = 0x1000 := by decide
    rw [start]
    exact data_byte index
  kernel area among isKernel := by
    cases List.mem_singleton.mp among
    exact absurd isKernel (by decide)

/-- What the process has written on its own page is neither in the core nor in the file. -/
theorem own_page_lost : ¬ Recoverable dataImage := by
  intro recoverable
  have among : dataArea ∈ dataImage.areas := List.mem_singleton_self _
  have inside : 0x1000 < dataArea.entry.size := by decide
  have recovered := recoverable dataArea among rfl rfl 0x1000 inside (by decide) (by
    rw [dumped_iff among inside]
    decide)
  obtain ⟨-, number, -, same⟩ := (recovered_iff among inside).mp recovered
  change (List.replicate 0x2000 0)[0 + 0x1000]? = some 1 at same
  rw [List.getElem?_replicate_of_lt (by decide)] at same
  exact absurd same (by decide)

end TaskExplorer.CoreRecovery
