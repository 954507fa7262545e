import TaskExplorer.Records

/-!
# Writing a core file

The offsets of everything in the file are computed first, and the headers are written
with them. The contents of the mappings follow in chunks; a chunk that could not be read
whole is read again page by page, and a page that cannot be read is written as zeros.
The memory is read directly or by the privileged helper. Registers and names only
reach the file as notes, so they are given as such.
-/

namespace TaskExplorer.CoreDump
open Codec
open Records

def ascii (text : String) : Bytes := text.toList.map (fun letter => UInt8.ofNat letter.toNat)

/-! ## The target -/

structure SMapEntry where
  start : UInt64
  stop : UInt64
  read : Bool
  write : Bool
  exec : Bool
  offset : UInt64
  inode : UInt64
  /-- In the local encoding. -/
  path : Bytes
deriving DecidableEq, Repr

/-- The memory of a process. A read that fails, or comes back short, stops in front of a page. -/
structure Memory (page : Nat) where
  byte : Nat → UInt8
  /-- Of each page, by its number. -/
  readable : Nat → Bool
  /-- From an address, so many bytes. -/
  pread : Nat → Nat → Option Bytes
  honest : ∀ address count data, page ∣ address → page ∣ count → pread address count = some data →
    page ∣ data.length ∧ data.length ≤ count ∧ address + data.length ≤ 2 ^ 64 ∧
      data = (List.range data.length).map (fun index => byte (address + index)) ∧
      ∀ index < data.length, readable ((address + index) / page) = true
  whole : ∀ number, readable number = true → ∃ data, pread (number * page) page = some data ∧ data.length = page

/-- How the memory is read: `mem` was opened, or the helper has the threads, or neither. -/
inductive Access where
  | mem
  | helper
  | closed
deriving DecidableEq, Repr

structure Dumper where
  /-- The size of a page is a power of two, and no larger than the buffer. -/
  pageBits : Nat
  pages : pageBits ≤ 20
  bigEndian : Bool
  machine : Nat
  dumpType : Nat
  maps : List SMapEntry
  /-- The notes on the process and its threads, and the auxiliary vector: type and contents. -/
  notes : List (Nat × Bytes)
  access : Access
  memory : Memory (2 ^ pageBits)
  /-- How long the file can get. -/
  limit : Nat
  bounded : limit < 2 ^ 63
  /-- `IsCanceling`, at each chunk. -/
  isCanceling : Nat → Bool

def Dumper.pageSize (dumper : Dumper) : Nat := 2 ^ dumper.pageBits

/-! ## Regions -/

structure SDumpRegion where
  start : UInt64
  stop : UInt64
  dumpBytes : Nat
  fileOffset : Nat := 0
  flags : Nat
  pageOffset : Nat
  path : Bytes
deriving DecidableEq, Repr

def is_unreadable_region (map : SMapEntry) : Bool :=
  (ascii "[vvar").isPrefixOf map.path || decide (map.path = ascii "[vsyscall]") || (ascii "/dev/").isPrefixOf map.path

def SMapEntry.fileBacked (map : SMapEntry) : Bool := decide (map.inode ≠ 0) && (ascii "/").isPrefixOf map.path

def SMapEntry.size (map : SMapEntry) : Nat := (map.stop - map.start).toNat

/-- `MiniDumpWithFullMemory`. -/
def fullMemory : Nat := 0x2

def dump_bytes (dumper : Dumper) (map : SMapEntry) : Nat :=
  if !map.read || is_unreadable_region map then 0
  else if dumper.dumpType &&& fullMemory ≠ 0 then map.size
  else if !map.fileBacked then map.size
  else min map.size dumper.pageSize

def make_region (dumper : Dumper) (map : SMapEntry) : SDumpRegion where
  start := map.start
  stop := map.stop
  dumpBytes := dump_bytes dumper map
  flags := (if map.read then 4 else 0) ||| (if map.write then 2 else 0) ||| (if map.exec then 1 else 0)
  pageOffset := map.offset.toNat / dumper.pageSize
  path := if map.fileBacked then map.path else []

def Dumper.regions (dumper : Dumper) : List SDumpRegion := dumper.maps.map (make_region dumper)

/-! ## Notes -/

/-- Zeros up to a multiple of 4. -/
def pad4 (bytes : Bytes) : Bytes := bytes ++ List.replicate ((4 - bytes.length % 4) % 4) 0

def append_note (big : Bool) (notes name : Bytes) (type : Nat) (desc : Bytes) : Bytes :=
  let header := encode big [(4, name.length + 1), (4, desc.length), (4, type)]
  pad4 (pad4 (notes ++ header ++ name ++ [0]) ++ desc.take (desc.length % 2 ^ 32))

def ntFile : Nat := 0x46494c45

/-- The contents of `NT_FILE`, for the regions that are files. -/
def file_note (dumper : Dumper) (regions : List SDumpRegion) : Bytes :=
  encode dumper.bigEndian [(8, regions.length), (8, dumper.pageSize)] ++
    regions.flatMap (fun region => encode dumper.bigEndian [(8, region.start.toNat), (8, region.stop.toNat), (8, region.pageOffset)]) ++
    regions.flatMap (fun region => region.path ++ [0])

def Dumper.noteBytes (dumper : Dumper) : Bytes :=
  let notes := dumper.notes.foldl (fun notes note => append_note dumper.bigEndian notes (ascii "CORE") note.1 note.2) []
  let files := dumper.regions.filter (fun region => decide (region.path ≠ []))
  if files = [] then notes else append_note dumper.bigEndian notes (ascii "CORE") ntFile (file_note dumper files)

/-! ## Layout -/

/-- `RoundUp`, in 64 bits. -/
def round_up (value alignment : Nat) : Nat := (value + alignment + (2 ^ 64 - 1)) % 2 ^ 64 &&& ((2 ^ 64 - 1) ^^^ (alignment - 1))

/-- `PhdrCount`, an `int`. -/
def phdr_count (dumper : Dumper) : Int := Int.bmod (1 + dumper.regions.length) (2 ^ 32)

/-- `PN_XNUM`. -/
def pnXnum : Nat := 0xffff

def extended_phnum (dumper : Dumper) : Bool := decide ((pnXnum : Int) ≤ phdr_count dumper)

def ehdrSize : Nat := 64
def shdrSize : Nat := 64
def phdrSize : Nat := 56

def phdr_offset (dumper : Dumper) : Nat := if extended_phnum dumper then ehdrSize + shdrSize else ehdrSize

def note_offset (dumper : Dumper) : Nat := (phdr_offset dumper + (phdr_count dumper % 2 ^ 64).toNat * phdrSize) % 2 ^ 64

def data_offset (dumper : Dumper) : Nat := round_up ((note_offset dumper + dumper.noteBytes.length) % 2 ^ 64) dumper.pageSize

def place : Nat → List SDumpRegion → List SDumpRegion
  | _, [] => []
  | offset, region :: rest => { region with fileOffset := offset } :: place ((offset + region.dumpBytes) % 2 ^ 64) rest

/-! ## Headers -/

def elfIdent (big : Bool) : Fields := [(1, 0x7f), (1, 0x45), (1, 0x4c), (1, 0x46), (1, 2), (1, bif big then 2 else 1), (1, 1)] ++ List.replicate 9 (1, 0)

def ehdr (dumper : Dumper) : Fields :=
  let extended := extended_phnum dumper
  elfIdent dumper.bigEndian ++
    [(2, 4), (2, dumper.machine), (4, 1), (8, 0), (8, phdr_offset dumper), (8, if extended then ehdrSize else 0), (4, 0), (2, ehdrSize),
      (2, phdrSize), (2, if extended then pnXnum else (phdr_count dumper % 2 ^ 16).toNat), (2, if extended then shdrSize else 0),
      (2, if extended then 1 else 0), (2, 0)]

def shdr (dumper : Dumper) : Fields :=
  [(4, 0), (4, 0), (8, 0), (8, 0), (8, 0), (8, 1), (4, 0), (4, (phdr_count dumper % 2 ^ 32).toNat), (8, 0), (8, 0)]

/-- A program header. -/
structure Phdr where
  type : Nat
  flags : Nat
  offset : Nat
  vaddr : Nat
  paddr : Nat
  filesz : Nat
  memsz : Nat
  align : Nat
deriving DecidableEq, Repr

def Phdr.fields (header : Phdr) : Fields :=
  [(4, header.type), (4, header.flags), (8, header.offset), (8, header.vaddr), (8, header.paddr), (8, header.filesz), (8, header.memsz), (8, header.align)]

def ptLoad : Nat := 1
def ptNote : Nat := 4

def note_phdr (dumper : Dumper) : Phdr := ⟨ptNote, 0, note_offset dumper, 0, 0, dumper.noteBytes.length, 0, 4⟩

def load_phdr (dumper : Dumper) (region : SDumpRegion) : Phdr :=
  ⟨ptLoad, region.flags, if region.dumpBytes = 0 then 0 else region.fileOffset, region.start.toNat, 0, region.dumpBytes,
    (region.stop - region.start).toNat, dumper.pageSize⟩

/-! ## The file -/

/-- The file, and whether something could not be written to it. -/
structure File where
  bytes : Bytes := []
  failed : Bool := false
deriving DecidableEq, Repr

def File.write (limit : Nat) (file : File) (data : Bytes) : File :=
  if file.bytes.length + data.length ≤ limit then { file with bytes := file.bytes ++ data } else { file with failed := true }

/-- What is written in front of the padding, one call after the other. -/
def header_writes (dumper : Dumper) : List Bytes :=
  let big := dumper.bigEndian
  [encode big (ehdr dumper)] ++ (if extended_phnum dumper then [encode big (shdr dumper)] else []) ++ [encode big (note_phdr dumper).fields] ++
    (place (data_offset dumper) dumper.regions).map (fun region => encode big (load_phdr dumper region).fields) ++ [dumper.noteBytes]

def write_headers (dumper : Dumper) : File :=
  let file := (header_writes dumper).foldl (File.write dumper.limit) {}
  let pad := (round_up file.bytes.length dumper.pageSize + 2 ^ 64 - file.bytes.length) % 2 ^ 64
  if pad = 0 then file else file.write dumper.limit (List.replicate pad 0)

/-! ## Contents -/

def maxSize : Nat := 16 * 1024 * 1024

/-- The helper's `ReadProcMemory`, as it arrives. -/
def read_proc_memory {page : Nat} (memory : Memory page) (address size : Nat) : Bytes :=
  if size = 0 ∨ maxSize < size then ascii "Invalid Parameters" else (memory.pread address size).getD []

/-- A chunk, or as much as could be read of it. -/
def read_chunk (dumper : Dumper) (address chunk : Nat) : Option Bytes :=
  match dumper.access with
  | .mem => dumper.memory.pread address chunk
  | .helper =>
    let data := read_proc_memory dumper.memory address chunk
    if data = [] then none else some (data.take chunk)
  | .closed => none

/-- A page, if it could be read whole. -/
def read_page (dumper : Dumper) (address pageBytes : Nat) : Option Bytes :=
  match dumper.access with
  | .mem =>
    match dumper.memory.pread address pageBytes with
    | some data => if data.length = pageBytes then some data else none
    | none => none
  | .helper =>
    let data := read_proc_memory dumper.memory address pageBytes
    if pageBytes ≤ data.length then some (data.take pageBytes) else none
  | .closed => none

/-- The bytes of a chunk and how many of them could not be read. -/
structure Filled where
  buffer : Bytes
  unreadable : Nat
deriving DecidableEq, Repr

/-- The loop over the pages of a chunk; `fuel` bounds its rounds. -/
def retry_pages (dumper : Dumper) (address chunk : Nat) : Nat → Filled → Filled
  | 0, filled => filled
  | fuel + 1, filled =>
    let got := filled.buffer.length
    if got < chunk then
      let pageBytes := min dumper.pageSize (chunk - got)
      match read_page dumper ((address + got) % 2 ^ 64) pageBytes with
      | some data => retry_pages dumper address chunk fuel ⟨filled.buffer ++ data, filled.unreadable⟩
      | none => retry_pages dumper address chunk fuel ⟨filled.buffer ++ List.replicate pageBytes 0, filled.unreadable + pageBytes⟩
    else filled

def fill_chunk (dumper : Dumper) (address chunk : Nat) : Filled :=
  let data := (read_chunk dumper address chunk).getD []
  if data.length < chunk then retry_pages dumper address chunk chunk ⟨data, 0⟩ else ⟨data, 0⟩

structure Writing where
  file : File
  unreadable : Nat := 0
  chunks : Nat := 0
  canceled : Bool := false

def bufferSize : Nat := 1024 * 1024

/-- The loop over the chunks of a region; `fuel` bounds its rounds. -/
def write_chunks (dumper : Dumper) (region : SDumpRegion) : Nat → Nat → Writing → Writing
  | 0, _, writing => writing
  | fuel + 1, done, writing =>
    if done < region.dumpBytes then
      if dumper.isCanceling writing.chunks then { writing with canceled := true }
      else
        let chunk := min (region.dumpBytes - done) bufferSize
        let filled := fill_chunk dumper ((region.start.toNat + done) % 2 ^ 64) chunk
        let file := writing.file.write dumper.limit filled.buffer
        let later : Writing := ⟨file, writing.unreadable + filled.unreadable, writing.chunks + 1, false⟩
        if file.bytes.length = writing.file.bytes.length + filled.buffer.length then write_chunks dumper region fuel (done + filled.buffer.length) later
        else { later with canceled := true }
    else writing

def write_region (dumper : Dumper) (writing : Writing) (region : SDumpRegion) : Writing :=
  if writing.canceled then writing else write_chunks dumper region region.dumpBytes 0 writing

/-- What a dump leaves behind: the file, unless it was canceled, what was counted, and whether a write failed. -/
structure Outcome where
  core : Option Bytes
  unreadableBytes : Nat
  failed : Bool
deriving DecidableEq, Repr

/-- `CLinuxDumper::run`. The regions are counted by an `int`, and more of them than it can count leave it undefined. -/
def run (dumper : Dumper) : Option Outcome :=
  if dumper.regions.length < 2 ^ 31 then
    let writing := dumper.regions.foldl (write_region dumper) { file := write_headers dumper }
    some ⟨if writing.canceled then none else some writing.file.bytes, writing.unreadable, writing.file.failed⟩
  else none

/-! ## What is to be read -/

/-- Through the way the memory is read. -/
def Dumper.readable (dumper : Dumper) (number : Nat) : Bool :=
  match dumper.access with
  | .closed => false
  | _ => dumper.memory.readable number

/-- The byte of the target if its page is readable, and 0 otherwise. -/
def shown_byte (dumper : Dumper) (address : Nat) : UInt8 :=
  if dumper.readable (address / dumper.pageSize) then dumper.memory.byte address else 0

def shown (dumper : Dumper) (start count : Nat) : Bytes := (List.range count).map (fun index => shown_byte dumper ((start + index) % 2 ^ 64))

/-- How many bytes lie on pages that are not readable. -/
def lost (dumper : Dumper) (start count : Nat) : Nat :=
  (List.range count).countP (fun index => !dumper.readable ((start + index) % 2 ^ 64 / dumper.pageSize))

section
variable (dumper : Dumper)

@[simp] theorem shown_length (start count : Nat) : (shown dumper start count).length = count := by simp [shown]

@[simp] theorem shown_zero (start : Nat) : shown dumper start 0 = [] := rfl

@[simp] theorem lost_zero (start : Nat) : lost dumper start 0 = 0 := rfl

theorem shown_add (start front back : Nat) : shown dumper start (front + back) = shown dumper start front ++ shown dumper (start + front) back := by
  simp [shown, List.range_add, Nat.add_assoc]

theorem lost_add (start front back : Nat) : lost dumper start (front + back) = lost dumper start front + lost dumper (start + front) back := by
  simp only [lost, List.range_add, List.countP_append, List.countP_map]
  congr 2
  funext index
  simp [Nat.add_assoc]

theorem shown_wrap (start count : Nat) : shown dumper (start % 2 ^ 64) count = shown dumper start count := by simp [shown, Nat.mod_add_mod]

theorem lost_wrap (start count : Nat) : lost dumper (start % 2 ^ 64) count = lost dumper start count := by simp [lost, Nat.mod_add_mod]

theorem pageSize_pos : 0 < dumper.pageSize := Nat.two_pow_pos _

theorem pageSize_buffer : dumper.pageSize ∣ bufferSize := Nat.pow_dvd_pow 2 dumper.pages

theorem pageSize_space : dumper.pageSize ∣ 2 ^ 64 := Nat.pow_dvd_pow 2 (Nat.le_trans dumper.pages (by decide))

theorem pageSize_small : dumper.pageSize ≤ bufferSize := Nat.le_of_dvd (by decide) (pageSize_buffer dumper)

theorem page_inside {address index : Nat} (aligned : dumper.pageSize ∣ address) (below : address < 2 ^ 64) (inside : index < dumper.pageSize) :
    (address + index) % 2 ^ 64 = address + index ∧ (address + index) / dumper.pageSize = address / dumper.pageSize := by
  obtain ⟨number, rfl⟩ := aligned
  obtain ⟨many, space⟩ := pageSize_space dumper
  have fewer : number + 1 ≤ many := by
    rw [space] at below
    exact Nat.lt_of_mul_lt_mul_left below
  have room : dumper.pageSize * number + dumper.pageSize ≤ 2 ^ 64 := by
    rw [space, ← Nat.mul_succ]
    exact Nat.mul_le_mul_left _ fewer
  refine ⟨Nat.mod_eq_of_lt (by omega), ?_⟩
  rw [Nat.mul_add_div (pageSize_pos dumper), Nat.mul_div_cancel_left _ (pageSize_pos dumper), Nat.div_eq_of_lt inside, Nat.add_zero]

theorem shown_page {address : Nat} (aligned : dumper.pageSize ∣ address) (below : address < 2 ^ 64) :
    shown dumper address dumper.pageSize =
      if dumper.readable (address / dumper.pageSize) then (List.range dumper.pageSize).map (fun index => dumper.memory.byte (address + index))
      else List.replicate dumper.pageSize 0 := by
  have every : ∀ index ∈ List.range dumper.pageSize, shown_byte dumper ((address + index) % 2 ^ 64) =
      if dumper.readable (address / dumper.pageSize) then dumper.memory.byte (address + index) else 0 := by
    intro index member
    obtain ⟨same, page⟩ := page_inside dumper aligned below (List.mem_range.mp member)
    rw [same, shown_byte, page]
  rw [shown, List.map_congr_left every]
  split_ifs
  · rfl
  · rw [List.map_const', List.length_range]

theorem lost_page {address : Nat} (aligned : dumper.pageSize ∣ address) (below : address < 2 ^ 64) :
    lost dumper address dumper.pageSize = if dumper.readable (address / dumper.pageSize) then 0 else dumper.pageSize := by
  have every : ∀ index ∈ List.range dumper.pageSize, (!dumper.readable ((address + index) % 2 ^ 64 / dumper.pageSize)) = true ↔
      (!dumper.readable (address / dumper.pageSize)) = true := by
    intro index member
    obtain ⟨same, page⟩ := page_inside dumper aligned below (List.mem_range.mp member)
    rw [same, page]
  rw [lost, List.countP_congr every]
  cases dumper.readable (address / dumper.pageSize) with
  | true => simp
  | false => simp

end

/-! ## Reading -/

section
variable {dumper : Dumper}

variable {address : Nat}

theorem shown_read {count : Nat} {data : Bytes} (opened : dumper.access ≠ .closed) (aligned : dumper.pageSize ∣ address)
    (whole : dumper.pageSize ∣ count) (found : dumper.memory.pread address count = some data) :
    data = shown dumper address data.length ∧ lost dumper address data.length = 0 ∧ dumper.pageSize ∣ data.length ∧ data.length ≤ count := by
  obtain ⟨pages, short, inside, bytes, readable⟩ := dumper.memory.honest address count data aligned whole found
  have isReadable {index : Nat} (early : index < data.length) :
      (address + index) % 2 ^ 64 = address + index ∧ dumper.readable ((address + index) / dumper.pageSize) = true := by
    refine ⟨Nat.mod_eq_of_lt (by omega), ?_⟩
    rw [Dumper.readable]
    cases access : dumper.access with
    | mem => exact readable index early
    | helper => exact readable index early
    | closed => exact absurd access opened
  refine ⟨?_, ?_, pages, short⟩
  · nth_rewrite 1 [bytes]
    apply List.map_congr_left
    intro index member
    obtain ⟨same, yes⟩ := isReadable (List.mem_range.mp member)
    rw [same, shown_byte, yes, if_pos rfl]
  · rw [lost, List.countP_eq_zero]
    intro index member
    obtain ⟨same, yes⟩ := isReadable (List.mem_range.mp member)
    rw [same, yes]
    exact Bool.false_ne_true

theorem read_proc_memory_eq {size : Nat} (some : 0 < size) (small : size ≤ bufferSize) :
    read_proc_memory dumper.memory address size = (dumper.memory.pread address size).getD [] := by
  have fits : size ≤ maxSize := Nat.le_trans small (by decide)
  rw [read_proc_memory, if_neg (by omega)]

theorem read_page_eq (aligned : dumper.pageSize ∣ address) (below : address < 2 ^ 64) :
    read_page dumper address dumper.pageSize =
      if dumper.readable (address / dumper.pageSize) then some (shown dumper address dumper.pageSize) else none := by
  have positive := pageSize_pos dumper
  have notPage {data : Bytes} (opened : dumper.access ≠ .closed) (unreadable : dumper.readable (address / dumper.pageSize) = false)
      (found : dumper.memory.pread address dumper.pageSize = some data) : data.length ≠ dumper.pageSize := by
    intro full
    obtain ⟨-, none, -⟩ := shown_read opened aligned (dvd_refl _) found
    rw [full, lost_page dumper aligned below, unreadable] at none
    exact absurd none (Nat.ne_of_gt positive)
  have isPage (opened : dumper.access ≠ .closed) (readable : dumper.readable (address / dumper.pageSize) = true) :
      dumper.memory.pread address dumper.pageSize = some (shown dumper address dumper.pageSize) := by
    have also : dumper.memory.readable (address / dumper.pageSize) = true := by
      rw [Dumper.readable] at readable
      cases access : dumper.access with
      | mem => simpa [access] using readable
      | helper => simpa [access] using readable
      | closed => exact absurd access opened
    obtain ⟨data, found, full⟩ := dumper.memory.whole _ also
    have here : dumper.memory.pread address dumper.pageSize = some data := by
      have same : address / dumper.pageSize * 2 ^ dumper.pageBits = address := Nat.div_mul_cancel aligned
      rw [same] at found
      exact found
    have bytes := (shown_read opened aligned (dvd_refl _) here).1
    have full : data.length = dumper.pageSize := full
    rw [here, bytes, full]
  rw [read_page]
  cases access : dumper.access with
  | closed =>
    have unreadable : dumper.readable (address / dumper.pageSize) = false := by simp [Dumper.readable, access]
    rw [unreadable]
    rfl
  | mem =>
    have opened : dumper.access ≠ .closed := by simp [access]
    cases readable : dumper.readable (address / dumper.pageSize) with
    | true =>
      rw [isPage opened readable]
      simp
    | false =>
      cases found : dumper.memory.pread address dumper.pageSize with
      | none => rfl
      | some data =>
        simp [notPage opened readable found]
  | helper =>
    have opened : dumper.access ≠ .closed := by simp [access]
    dsimp only
    rw [read_proc_memory_eq positive (pageSize_small dumper)]
    cases readable : dumper.readable (address / dumper.pageSize) with
    | true =>
      rw [isPage opened readable]
      simp
    | false =>
      cases found : dumper.memory.pread address dumper.pageSize with
      | none => simp [Nat.ne_of_gt positive]
      | some data =>
        have short := (shown_read opened aligned (dvd_refl _) found).2.2.2
        have less : ¬ dumper.pageSize ≤ data.length := by
          have differs := notPage opened readable found
          omega
        simp [less]

theorem read_chunk_eq {chunk : Nat} (aligned : dumper.pageSize ∣ address) (whole : dumper.pageSize ∣ chunk)
    (some : 0 < chunk) (small : chunk ≤ bufferSize) :
    ∃ count, (read_chunk dumper address chunk).getD [] = shown dumper address count ∧
      lost dumper address count = 0 ∧ dumper.pageSize ∣ count ∧ count ≤ chunk := by
  have nothing : ∃ count, [] = shown dumper address count ∧ lost dumper address count = 0 ∧ dumper.pageSize ∣ count ∧ count ≤ chunk :=
    ⟨0, rfl, rfl, dvd_zero _, Nat.zero_le _⟩
  rw [read_chunk]
  cases access : dumper.access with
  | closed => exact nothing
  | mem =>
    have opened : dumper.access ≠ .closed := by simp [access]
    cases found : dumper.memory.pread address chunk with
    | none => exact nothing
    | some data => exact ⟨data.length, shown_read opened aligned whole found⟩
  | helper =>
    have opened : dumper.access ≠ .closed := by simp [access]
    dsimp only
    rw [read_proc_memory_eq some small]
    cases found : dumper.memory.pread address chunk with
    | none => exact nothing
    | some data =>
      obtain ⟨bytes, rest⟩ := shown_read opened aligned whole found
      rw [Option.getD_some]
      by_cases empty : data = []
      · rw [if_pos empty]
        exact nothing
      · rw [if_neg empty, Option.getD_some, List.take_of_length_le rest.2.2]
        exact ⟨data.length, bytes, rest⟩

theorem retry_pages_eq {chunk : Nat} (aligned : dumper.pageSize ∣ address) (whole : dumper.pageSize ∣ chunk)
    (fuel : Nat) {got unreadable : Nat} (pages : dumper.pageSize ∣ got) (inside : got ≤ chunk)
    (enough : chunk - got ≤ fuel) :
    retry_pages dumper address chunk fuel ⟨shown dumper address got, unreadable⟩ =
      ⟨shown dumper address chunk, unreadable + lost dumper (address + got) (chunk - got)⟩ := by
  induction fuel generalizing got unreadable with
  | zero =>
    have same : got = chunk := by omega
    rw [retry_pages, same]
    simp
  | succ fuel ih =>
    rw [retry_pages]
    dsimp only
    rw [shown_length]
    by_cases more : got < chunk
    · rw [if_pos more]
      have positive := pageSize_pos dumper
      have room : dumper.pageSize ≤ chunk - got := Nat.le_of_dvd (by omega) (Nat.dvd_sub whole pages)
      have onPage : dumper.pageSize ∣ (address + got) % 2 ^ 64 := (Nat.dvd_mod_iff (pageSize_space dumper)).mpr (dvd_add aligned pages)
      have below : (address + got) % 2 ^ 64 < 2 ^ 64 := Nat.mod_lt _ (by decide)
      have later (missed : Nat) := @ih (got + dumper.pageSize) missed (dvd_add pages (dvd_refl dumper.pageSize)) (by omega) (by omega)
      have rest : lost dumper (address + got) (chunk - got) =
          lost dumper (address + got) dumper.pageSize + lost dumper (address + (got + dumper.pageSize)) (chunk - (got + dumper.pageSize)) := by
        rw [← Nat.add_assoc, ← lost_add]
        congr 1
        omega
      rw [Nat.min_eq_left room, read_page_eq onPage below]
      have page := shown_page dumper onPage below
      have lostPage := lost_page dumper onPage below
      rw [shown_wrap] at page
      rw [lost_wrap] at lostPage
      cases readable : dumper.readable ((address + got) % 2 ^ 64 / dumper.pageSize) with
      | true =>
        rw [if_pos rfl]
        dsimp only
        rw [shown_wrap, ← shown_add, later, rest, lostPage, readable]
        simp
      | false =>
        rw [readable] at page lostPage
        rw [if_neg Bool.false_ne_true] at page lostPage
        rw [if_neg Bool.false_ne_true]
        dsimp only
        rw [← page, ← shown_add, later, rest, lostPage, Nat.add_assoc]
    · rw [if_neg more]
      have same : got = chunk := by omega
      rw [same]
      simp

theorem fill_chunk_eq {chunk : Nat} (aligned : dumper.pageSize ∣ address) (whole : dumper.pageSize ∣ chunk)
    (some : 0 < chunk) (small : chunk ≤ bufferSize) :
    fill_chunk dumper address chunk = ⟨shown dumper address chunk, lost dumper address chunk⟩ := by
  obtain ⟨count, bytes, nothing, pages, inside⟩ := read_chunk_eq aligned whole some small
  rw [fill_chunk, bytes, shown_length]
  have split := lost_add dumper address count (chunk - count)
  rw [Nat.add_sub_cancel' inside, nothing, Nat.zero_add] at split
  by_cases less : count < chunk
  · rw [if_pos less, retry_pages_eq aligned whole chunk pages inside (Nat.sub_le _ _), split, Nat.zero_add]
  · have same : count = chunk := by omega
    rw [if_neg less, ← same, nothing]

end

/-! ## Writing -/

theorem write_fits {limit : Nat} {file : File} {data : Bytes} (fits : file.bytes.length + data.length ≤ limit) :
    file.write limit data = ⟨file.bytes ++ data, file.failed⟩ := by
  rw [File.write, if_pos fits]

theorem write_unfailed {limit : Nat} {file : File} {data : Bytes} (unfailed : (file.write limit data).failed = false) :
    file.failed = false ∧ (file.write limit data).bytes = file.bytes ++ data ∧ (file.write limit data).bytes.length ≤ limit := by
  rw [File.write] at unfailed ⊢
  split_ifs at unfailed ⊢ with fits
  exact ⟨unfailed, rfl, by rw [List.length_append]; exact fits⟩

theorem writes_unfailed {limit : Nat} (pieces : List Bytes) {file : File} (unfailed : (pieces.foldl (File.write limit) file).failed = false) :
    file.failed = false ∧ (pieces.foldl (File.write limit) file).bytes = file.bytes ++ pieces.flatten ∧
      (file.bytes.length ≤ limit → (pieces.foldl (File.write limit) file).bytes.length ≤ limit) := by
  induction pieces generalizing file with
  | nil => exact ⟨unfailed, by simp, id⟩
  | cons piece rest ih =>
    rw [List.foldl_cons] at unfailed ⊢
    obtain ⟨before, bytes, within⟩ := ih unfailed
    obtain ⟨first, appended, room⟩ := write_unfailed before
    refine ⟨first, ?_, fun _ => within room⟩
    rw [bytes, appended, List.flatten_cons, List.append_assoc]

theorem writes_fit {limit : Nat} (pieces : List Bytes) {file : File} (fits : file.bytes.length + pieces.flatten.length ≤ limit) :
    pieces.foldl (File.write limit) file = ⟨file.bytes ++ pieces.flatten, file.failed⟩ := by
  induction pieces generalizing file with
  | nil => simp
  | cons piece rest ih =>
    rw [List.flatten_cons, List.length_append] at fits
    rw [List.foldl_cons, write_fits (by omega), ih (by simp only [List.length_append]; omega)]
    simp

/-- The bytes have been written, and so many of them could not be read. -/
structure Appended (limit : Nat) (writing later : Writing) (bytes : Bytes) (count : Nat) : Prop where
  bytes : later.file.bytes = writing.file.bytes ++ bytes
  failed : later.file.failed = writing.file.failed
  unreadable : later.unreadable = writing.unreadable + count
  within : writing.file.bytes.length ≤ limit → later.file.bytes.length ≤ limit

theorem appended_nothing (limit : Nat) (writing : Writing) : Appended limit writing writing [] 0 := ⟨by simp, rfl, rfl, id⟩

theorem Appended.trans {limit : Nat} {writing middle later : Writing} {front back : Bytes} {few many : Nat}
    (first : Appended limit writing middle front few) (second : Appended limit middle later back many) :
    Appended limit writing later (front ++ back) (few + many) where
  bytes := by rw [second.bytes, first.bytes, List.append_assoc]
  failed := second.failed.trans first.failed
  unreadable := by rw [second.unreadable, first.unreadable, Nat.add_assoc]
  within room := second.within (first.within room)

section
variable {dumper : Dumper} {region : SDumpRegion}

/-- The region lies on whole pages. -/
structure Aligned (dumper : Dumper) (region : SDumpRegion) : Prop where
  start : dumper.pageSize ∣ region.start.toNat
  bytes : dumper.pageSize ∣ region.dumpBytes

theorem Aligned.chunk (aligned : Aligned dumper region) {done : Nat} (pages : dumper.pageSize ∣ done) (more : done < region.dumpBytes) :
    fill_chunk dumper ((region.start.toNat + done) % 2 ^ 64) (min (region.dumpBytes - done) bufferSize) =
      ⟨shown dumper (region.start.toNat + done) (min (region.dumpBytes - done) bufferSize),
        lost dumper (region.start.toNat + done) (min (region.dumpBytes - done) bufferSize)⟩ := by
  have onPage : dumper.pageSize ∣ (region.start.toNat + done) % 2 ^ 64 :=
    (Nat.dvd_mod_iff (pageSize_space dumper)).mpr (dvd_add aligned.start pages)
  have whole : dumper.pageSize ∣ min (region.dumpBytes - done) bufferSize := by
    rcases min_choice (region.dumpBytes - done) bufferSize with same | same
    · rw [same]
      exact Nat.dvd_sub aligned.bytes pages
    · rw [same]
      exact pageSize_buffer dumper
  have positive : 0 < bufferSize := by decide
  rw [fill_chunk_eq onPage whole (by omega) (Nat.min_le_right _ _), shown_wrap, lost_wrap]

theorem Aligned.write_chunks (aligned : Aligned dumper region) (fuel : Nat) {done : Nat} {writing : Writing} (pages : dumper.pageSize ∣ done)
    (inside : done ≤ region.dumpBytes) (enough : region.dumpBytes - done ≤ fuel) :
    ((write_chunks dumper region fuel done writing).canceled = false →
      Appended dumper.limit writing (write_chunks dumper region fuel done writing) (shown dumper (region.start.toNat + done) (region.dumpBytes - done))
        (lost dumper (region.start.toNat + done) (region.dumpBytes - done))) ∧
    (writing.canceled = false → (∀ chunk, dumper.isCanceling chunk = false) →
      writing.file.bytes.length + (region.dumpBytes - done) ≤ dumper.limit → (write_chunks dumper region fuel done writing).canceled = false) := by
  induction fuel generalizing done writing with
  | zero =>
    have nothing : region.dumpBytes - done = 0 := by omega
    rw [CoreDump.write_chunks, nothing]
    exact ⟨fun _ => appended_nothing dumper.limit writing, fun running _ _ => running⟩
  | succ fuel ih =>
    rw [CoreDump.write_chunks]
    by_cases more : done < region.dumpBytes
    · rw [if_pos more]
      by_cases cancels : dumper.isCanceling writing.chunks = true
      · rw [if_pos cancels]
        refine ⟨fun impossible => (by cases impossible), fun _ never => ?_⟩
        rw [never] at cancels
        cases cancels
      · rw [if_neg cancels]
        dsimp only
        set chunk := min (region.dumpBytes - done) bufferSize with isChunk
        rw [aligned.chunk pages more]
        have positive : 0 < bufferSize := by decide
        have some : 0 < chunk := by omega
        have less : chunk ≤ region.dumpBytes - done := Nat.min_le_left _ _
        have onPages : dumper.pageSize ∣ done + chunk := by
          rcases min_choice (region.dumpBytes - done) bufferSize with same | same
          · rw [isChunk, same, Nat.add_sub_cancel' inside]
            exact aligned.bytes
          · rw [isChunk, same]
            exact dvd_add pages (pageSize_buffer dumper)
        have rest : region.dumpBytes - done = chunk + (region.dumpBytes - (done + chunk)) := by omega
        dsimp only
        rw [shown_length]
        by_cases fits : writing.file.bytes.length + chunk ≤ dumper.limit
        · rw [write_fits (by rw [shown_length]; exact fits), if_pos (by rw [List.length_append, shown_length])]
          set middle : Writing := ⟨⟨writing.file.bytes ++ shown dumper (region.start.toNat + done) chunk, writing.file.failed⟩,
            writing.unreadable + lost dumper (region.start.toNat + done) chunk, writing.chunks + 1, false⟩ with isMiddle
          have first : Appended dumper.limit writing middle (shown dumper (region.start.toNat + done) chunk)
              (lost dumper (region.start.toNat + done) chunk) :=
            ⟨rfl, rfl, rfl, fun _ => by rw [isMiddle, List.length_append, shown_length]; exact fits⟩
          obtain ⟨appended, completes⟩ := @ih (done + chunk) middle onPages (by omega) (by omega)
          constructor
          · intro running
            have both := first.trans (appended running)
            rw [← Nat.add_assoc, ← shown_add, ← lost_add, ← rest] at both
            exact both
          · intro _ never room
            refine completes rfl never ?_
            simp only [isMiddle, List.length_append, shown_length]
            omega
        · have full : dumper.limit < writing.file.bytes.length + chunk := Nat.lt_of_not_le fits
          rw [File.write, shown_length, if_neg fits, if_neg (by dsimp only; omega)]
          exact ⟨fun impossible => (by cases impossible), fun _ _ room => (by omega)⟩
    · have nothing : region.dumpBytes - done = 0 := by omega
      rw [if_neg more, nothing]
      exact ⟨fun _ => appended_nothing dumper.limit writing, fun running _ _ => running⟩

def region_bytes (dumper : Dumper) (region : SDumpRegion) : Bytes := shown dumper region.start.toNat region.dumpBytes

def region_lost (dumper : Dumper) (region : SDumpRegion) : Nat := lost dumper region.start.toNat region.dumpBytes

@[simp] theorem region_bytes_length : (region_bytes dumper region).length = region.dumpBytes := shown_length dumper _ _

theorem Aligned.write_region (aligned : Aligned dumper region) {writing : Writing} :
    ((write_region dumper writing region).canceled = false →
      writing.canceled = false ∧ Appended dumper.limit writing (write_region dumper writing region) (region_bytes dumper region) (region_lost dumper region)) ∧
    (writing.canceled = false → (∀ chunk, dumper.isCanceling chunk = false) →
      writing.file.bytes.length + region.dumpBytes ≤ dumper.limit → (write_region dumper writing region).canceled = false) := by
  obtain ⟨appended, completes⟩ := @Aligned.write_chunks dumper region aligned region.dumpBytes 0 writing (dvd_zero _) (Nat.zero_le _) (Nat.le_refl _)
  rw [CoreDump.write_region]
  cases canceled : writing.canceled with
  | true =>
    rw [if_pos rfl, canceled]
    exact ⟨fun impossible => (by cases impossible), fun impossible => (by cases impossible)⟩
  | false =>
    rw [if_neg Bool.false_ne_true]
    exact ⟨fun running => ⟨rfl, appended running⟩, fun _ => completes canceled⟩

theorem write_regions_canceled (regions : List SDumpRegion) {stopped : Writing} (canceled : stopped.canceled = true) :
    regions.foldl (write_region dumper) stopped = stopped := by
  induction regions with
  | nil => rfl
  | cons region rest ih =>
    have same : write_region dumper stopped region = stopped := by rw [write_region, if_pos canceled]
    rw [List.foldl_cons, same]
    exact ih

theorem write_regions {regions : List SDumpRegion} (aligned : ∀ region ∈ regions, Aligned dumper region) {writing : Writing}
    (running : (regions.foldl (write_region dumper) writing).canceled = false) :
    Appended dumper.limit writing (regions.foldl (write_region dumper) writing) (regions.flatMap (region_bytes dumper)) (regions.map (region_lost dumper)).sum := by
  induction regions generalizing writing with
  | nil => exact appended_nothing dumper.limit writing
  | cons region rest ih =>
    rw [List.foldl_cons] at running ⊢
    have after := ih (fun other member => aligned other (List.mem_cons_of_mem _ member)) running
    have before : (write_region dumper writing region).canceled = false := by
      by_contra canceled
      rw [Bool.not_eq_false] at canceled
      rw [write_regions_canceled rest canceled, canceled] at running
      cases running
    obtain ⟨-, first⟩ := (aligned region List.mem_cons_self).write_region.1 before
    rw [List.flatMap_cons, List.map_cons, List.sum_cons]
    exact first.trans after

theorem write_regions_fit {regions : List SDumpRegion} (aligned : ∀ region ∈ regions, Aligned dumper region)
    (never : ∀ chunk, dumper.isCanceling chunk = false) {writing : Writing} (running : writing.canceled = false)
    (room : writing.file.bytes.length + (regions.map SDumpRegion.dumpBytes).sum ≤ dumper.limit) :
    (regions.foldl (write_region dumper) writing).canceled = false := by
  induction regions generalizing writing with
  | nil => exact running
  | cons region rest ih =>
    rw [List.map_cons, List.sum_cons] at room
    have isAligned := aligned region List.mem_cons_self
    have after := isAligned.write_region.2 running never (by omega)
    obtain ⟨-, appended⟩ := isAligned.write_region.1 after
    rw [List.foldl_cons]
    refine ih (fun other member => aligned other (List.mem_cons_of_mem _ member)) after ?_
    rw [appended.bytes, List.length_append, region_bytes_length]
    omega

end

end TaskExplorer.CoreDump
