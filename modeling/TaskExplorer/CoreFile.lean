import TaskExplorer.CoreDump

/-!
# What a core file promises

A reader of the file finds the program headers through the ELF header, and everything
else through them.
-/

namespace TaskExplorer.CoreFile
open Codec
open Records
open CoreDump

/-! ## The reader -/

/-- The byte order that `EI_DATA` says. -/
def order (file : Bytes) : Bool := decide (field false file 5 1 = 2)

def e_phoff (file : Bytes) : Nat := field (order file) file 32 8
def e_shoff (file : Bytes) : Nat := field (order file) file 40 8
def e_phnum (file : Bytes) : Nat := field (order file) file 56 2

/-- How many program headers there are. -/
def program_headers (file : Bytes) : Nat := if e_phnum file = pnXnum then field (order file) file (e_shoff file + 44) 4 else e_phnum file

def read_phdr (file : Bytes) (index : Nat) : Phdr :=
  let big := order file
  let offset := e_phoff file + index * phdrSize
  ⟨field big file offset 4, field big file (offset + 4) 4, field big file (offset + 8) 8, field big file (offset + 16) 8,
    field big file (offset + 24) 8, field big file (offset + 32) 8, field big file (offset + 40) 8, field big file (offset + 48) 8⟩

/-- The next page boundary. -/
def next_page (dumper : Dumper) (offset : Nat) : Nat := (offset + dumper.pageSize - 1) / dumper.pageSize * dumper.pageSize

/-- Where the contents begin. -/
def contents_start (dumper : Dumper) (file : Bytes) : Nat := next_page dumper ((read_phdr file 0).offset + (read_phdr file 0).filesz)

/-! ## What is promised -/

/-- The header of a mapping describes it, and leads to its contents. -/
structure Loaded (dumper : Dumper) (file : Bytes) (region : SDumpRegion) (header : Phdr) : Prop where
  fields : header = ⟨ptLoad, region.flags, header.offset, region.start.toNat, 0, region.dumpBytes, (region.stop - region.start).toNat, dumper.pageSize⟩
  congruent : header.offset % dumper.pageSize = header.vaddr % dumper.pageSize
  contents : header.filesz ≠ 0 → contents_start dumper file ≤ header.offset ∧ Sits file header.offset (region_bytes dumper region)

structure Promised (dumper : Dumper) (file : Bytes) (unreadable : Nat) : Prop where
  count : program_headers file = dumper.maps.length + 1
  table : e_phoff file = if e_phnum file = pnXnum then ehdrSize + shdrSize else ehdrSize
  section_header : e_phnum file = pnXnum → e_shoff file = ehdrSize
  note : (read_phdr file 0).type = ptNote ∧ (read_phdr file 0).offset = e_phoff file + program_headers file * phdrSize
  notes : (read_phdr file 0).filesz = dumper.noteBytes.length ∧ Sits file (read_phdr file 0).offset dumper.noteBytes
  padding : Sits file ((read_phdr file 0).offset + (read_phdr file 0).filesz)
    (List.replicate (contents_start dumper file - ((read_phdr file 0).offset + (read_phdr file 0).filesz)) 0)
  loads : ∀ index region, dumper.regions[index]? = some region → Loaded dumper file region (read_phdr file (index + 1))
  ordered : ∀ first second, first < second → second < dumper.maps.length → (read_phdr file (first + 1)).filesz ≠ 0 →
    (read_phdr file (second + 1)).filesz ≠ 0 →
    (read_phdr file (first + 1)).offset + (read_phdr file (first + 1)).filesz ≤ (read_phdr file (second + 1)).offset
  whole : file.length = contents_start dumper file + (dumper.regions.map SDumpRegion.dumpBytes).sum
  unreadable : unreadable = (dumper.regions.map (region_lost dumper)).sum

/-- The bounds of the mappings are those of pages. -/
def PageAligned (dumper : Dumper) : Prop := ∀ map ∈ dumper.maps, dumper.pageSize ∣ map.start.toNat ∧ dumper.pageSize ∣ map.stop.toNat

/-- The dump was not canceled, and nothing that it wrote failed. -/
def Finished (dumper : Dumper) : Prop := ∀ outcome, CoreDump.run dumper = some outcome → outcome.core ≠ none ∧ outcome.failed = false

/-- The file is there, and what its headers say. -/
def Kept (dumper : Dumper) : Prop :=
  ∃ outcome file, CoreDump.run dumper = some outcome ∧ outcome.core = some file ∧ Promised dumper file outcome.unreadableBytes

/-! ## Rounding -/

/-- On a power of two `RoundUp` is the next multiple. -/
theorem round_up_eq {value bits : Nat} (small : bits ≤ 20) (fits : value + 2 ^ bits < 2 ^ 64) :
    round_up value (2 ^ bits) = (value + 2 ^ bits - 1) / 2 ^ bits * 2 ^ bits := by
  have positive : 0 < 2 ^ bits := Nat.two_pow_pos _
  have sum : (value + 2 ^ bits + (2 ^ 64 - 1)) % 2 ^ 64 = value + 2 ^ bits - 1 := by omega
  rw [round_up, sum, ← Nat.shiftRight_eq_div_pow, ← Nat.shiftLeft_eq]
  have below : value + 2 ^ bits - 1 < 2 ^ 64 := by omega
  generalize value + 2 ^ bits - 1 = total at below
  apply Nat.eq_of_testBit_eq
  intro index
  rw [Nat.testBit_and, Nat.testBit_xor, Nat.testBit_two_pow_sub_one, Nat.testBit_two_pow_sub_one, Nat.testBit_shiftLeft, Nat.testBit_shiftRight]
  by_cases early : index < bits
  · have also : index < 64 := by omega
    have notBehind : ¬ index ≥ bits := by omega
    simp [early, also, notBehind]
  · have behind : bits ≤ index := by omega
    by_cases also : index < 64
    · simp [early, also, behind, Nat.add_sub_cancel' behind]
    · have high : total.testBit index = false := Nat.testBit_lt_two_pow (Nat.lt_of_lt_of_le below (Nat.pow_le_pow_right (by decide) (by omega)))
      simp [early, also, behind, high, Nat.add_sub_cancel' behind]

section
variable (dumper : Dumper)

theorem next_page_dvd (offset : Nat) : dumper.pageSize ∣ next_page dumper offset := Nat.dvd_mul_left _ _

theorem le_next_page (offset : Nat) : offset ≤ next_page dumper offset ∧ next_page dumper offset < offset + dumper.pageSize := by
  have positive := pageSize_pos dumper
  have split := Nat.div_add_mod (offset + dumper.pageSize - 1) dumper.pageSize
  have rest := Nat.mod_lt (offset + dumper.pageSize - 1) positive
  rw [next_page, Nat.mul_comm]
  omega

theorem round_up_page {value : Nat} (fits : value < 2 ^ 63) : round_up value dumper.pageSize = next_page dumper value := by
  have small := pageSize_small dumper
  have size : bufferSize = 2 ^ 20 := rfl
  exact round_up_eq dumper.pages (by
    have page : dumper.pageSize = 2 ^ dumper.pageBits := rfl
    omega)

end

/-! ## Regions -/

theorem regions_length (dumper : Dumper) : dumper.regions.length = dumper.maps.length := List.length_map _

theorem size_dvd {dumper : Dumper} {map : SMapEntry} (start : dumper.pageSize ∣ map.start.toNat) (stop : dumper.pageSize ∣ map.stop.toNat) :
    dumper.pageSize ∣ map.size := by
  rw [SMapEntry.size, UInt64.toNat_sub]
  refine (Nat.dvd_mod_iff (pageSize_space dumper)).mpr (dvd_add (Nat.dvd_sub (pageSize_space dumper) start) stop)

theorem PageAligned.regions {dumper : Dumper} (aligned : PageAligned dumper) : ∀ region ∈ dumper.regions, Aligned dumper region := by
  intro region member
  obtain ⟨map, among, rfl⟩ := List.mem_map.mp member
  obtain ⟨start, stop⟩ := aligned map among
  have size := size_dvd start stop
  refine ⟨start, ?_⟩
  rw [make_region]
  dsimp only
  rw [dump_bytes]
  split_ifs
  · exact dvd_zero _
  · exact size
  · exact size
  · rcases min_choice map.size dumper.pageSize with same | same
    · rw [same]
      exact size
    · rw [same]

theorem make_region_flags (dumper : Dumper) (map : SMapEntry) : (make_region dumper map).flags < 256 ^ 4 := by
  have every : ∀ read write exec : Bool, ((if read then 4 else 0) ||| (if write then 2 else 0) ||| (if exec then 1 else 0)) < 256 ^ 4 := by decide
  exact every map.read map.write map.exec

section
variable {dumper : Dumper}

/-- Where a region comes to lie. -/
def offset_of (regions : List SDumpRegion) (index : Nat) : Nat := ((regions.take index).map SDumpRegion.dumpBytes).sum

variable {region : SDumpRegion}

theorem place_get {regions : List SDumpRegion} {start : Nat}
    (room : start + (regions.map SDumpRegion.dumpBytes).sum < 2 ^ 64) {index : Nat}
    (found : regions[index]? = some region) :
    (place start regions)[index]? = some { region with fileOffset := start + offset_of regions index } := by
  induction regions generalizing start index with
  | nil => simp at found
  | cons first rest ih =>
    rw [List.map_cons, List.sum_cons] at room
    rw [place]
    cases index with
    | zero =>
      rw [List.getElem?_cons_zero, Option.some.injEq] at found
      subst found
      simp [offset_of]
    | succ index =>
      rw [List.getElem?_cons_succ] at found ⊢
      rw [Nat.mod_eq_of_lt (by omega), ih (by omega) found]
      simp [offset_of, Nat.add_assoc]

theorem place_length (start : Nat) (regions : List SDumpRegion) : (place start regions).length = regions.length := by
  induction regions generalizing start with
  | nil => rfl
  | cons first rest ih =>
    rw [place, List.length_cons, List.length_cons, ih]

theorem offset_of_le (regions : List SDumpRegion) {index : Nat} (found : regions[index]? = some region) :
    offset_of regions index + region.dumpBytes ≤ (regions.map SDumpRegion.dumpBytes).sum := by
  obtain ⟨inside, here⟩ := List.getElem?_eq_some_iff.mp found
  have parts : regions = regions.take index ++ region :: regions.drop (index + 1) := by
    rw [← here, List.getElem_cons_drop, List.take_append_drop]
  have total := congrArg (fun list => (list.map SDumpRegion.dumpBytes).sum) parts
  simp only [List.map_append, List.sum_append, List.map_cons, List.sum_cons] at total
  rw [offset_of]
  omega

theorem offset_of_mono (regions : List SDumpRegion) {first second : Nat} (earlier : first < second)
    (found : regions[first]? = some region) :
    offset_of regions first + region.dumpBytes ≤ offset_of regions second := by
  have kept : (regions.take second)[first]? = some region := by
    rw [List.getElem?_take_of_lt earlier]
    exact found
  have early := offset_of_le (regions.take second) kept
  rw [offset_of, List.take_take, Nat.min_eq_left (Nat.le_of_lt earlier)] at early
  exact early

theorem offset_of_dvd {regions : List SDumpRegion} (aligned : ∀ region ∈ regions, Aligned dumper region) (index : Nat) :
    dumper.pageSize ∣ offset_of regions index := by
  rw [offset_of]
  apply List.dvd_sum
  intro count member
  obtain ⟨region, among, rfl⟩ := List.mem_map.mp member
  exact (aligned region (List.mem_of_mem_take among)).bytes

theorem contents_sit (regions : List SDumpRegion) {index : Nat} (found : regions[index]? = some region) :
    Sits (regions.flatMap (region_bytes dumper)) (offset_of regions index) (region_bytes dumper region) := by
  have length : ((regions.take index).flatMap (region_bytes dumper)).length = offset_of regions index := by
    rw [List.length_flatMap, offset_of]
    simp only [region_bytes_length]
  rw [← length]
  exact sits_flatMap (region_bytes dumper) found

end

/-! ## The bytes of the file -/

section
variable {dumper : Dumper}

/-- The section header, if there is one. -/
def section_bytes (dumper : Dumper) : Bytes := if extended_phnum dumper then encode dumper.bigEndian (shdr dumper) else []

def table_bytes (dumper : Dumper) : Bytes :=
  (place (data_offset dumper) dumper.regions).flatMap (fun region => encode dumper.bigEndian (load_phdr dumper region).fields)

theorem header_writes_flatten : (header_writes dumper).flatten = encode dumper.bigEndian (ehdr dumper) ++ (section_bytes dumper ++
    (encode dumper.bigEndian (note_phdr dumper).fields ++ (table_bytes dumper ++ dumper.noteBytes))) := by
  rw [header_writes, section_bytes, table_bytes]
  simp only [List.flatten_append, List.append_assoc, List.flatMap_def]
  split_ifs <;> simp

theorem ehdr_span : span (ehdr dumper) = ehdrSize := by simp [span, ehdr, elfIdent, ehdrSize]

theorem shdr_span : span (shdr dumper) = shdrSize := by simp [span, shdr, shdrSize]

theorem phdr_span (header : Phdr) : span header.fields = phdrSize := by simp [span, Phdr.fields, phdrSize]

theorem section_bytes_length : ehdrSize + (section_bytes dumper).length = phdr_offset dumper := by
  rw [section_bytes, phdr_offset]
  split_ifs
  · rw [encode_length, shdr_span]
  · rfl

theorem table_take_length (index : Nat) (inside : index ≤ dumper.regions.length) :
    (((place (data_offset dumper) dumper.regions).take index).flatMap
      (fun region => encode dumper.bigEndian (load_phdr dumper region).fields)).length = index * phdrSize := by
  rw [List.length_flatMap]
  simp only [encode_length, phdr_span]
  rw [List.map_const', List.sum_replicate, List.length_take, place_length, Nat.min_eq_left inside, smul_eq_mul]

theorem table_bytes_length : (table_bytes dumper).length = dumper.regions.length * phdrSize := by
  have all := @table_take_length dumper dumper.regions.length (Nat.le_refl _)
  rw [List.take_of_length_le (by rw [place_length])] at all
  exact all

theorem headers_length : (header_writes dumper).flatten.length =
    phdr_offset dumper + (dumper.regions.length + 1) * phdrSize + dumper.noteBytes.length := by
  rw [header_writes_flatten]
  simp only [List.length_append, encode_length, ehdr_span, phdr_span, table_bytes_length, ← section_bytes_length]
  ring

/-- What a finished dump has written. -/
structure Written (dumper : Dumper) (file : Bytes) (unreadable : Nat) : Prop where
  bytes : file = (header_writes dumper).flatten ++ (List.replicate
    (next_page dumper (header_writes dumper).flatten.length - (header_writes dumper).flatten.length) 0 ++
    dumper.regions.flatMap (region_bytes dumper))
  unreadable : unreadable = (dumper.regions.map (region_lost dumper)).sum
  small : file.length < 2 ^ 63

theorem padding_eq {length : Nat} (small : length < 2 ^ 63) :
    (round_up length dumper.pageSize + 2 ^ 64 - length) % 2 ^ 64 = next_page dumper length - length := by
  obtain ⟨reaches, near⟩ := le_next_page dumper length
  have page := pageSize_small dumper
  have buffer : bufferSize = 2 ^ 20 := rfl
  rw [round_up_page dumper small]
  omega

theorem headers_written (unfailed : (write_headers dumper).failed = false) :
    (write_headers dumper).bytes = (header_writes dumper).flatten ++
      List.replicate (next_page dumper (header_writes dumper).flatten.length - (header_writes dumper).flatten.length) 0 ∧
    (write_headers dumper).bytes.length ≤ dumper.limit := by
  rw [write_headers] at unfailed ⊢
  set front := (header_writes dumper).foldl (File.write dumper.limit) {} with isFront
  have frontUnfailed : front.failed = false := by
    split_ifs at unfailed with none
    · exact unfailed
    · exact (write_unfailed unfailed).1
  obtain ⟨-, bytes, within⟩ := writes_unfailed (header_writes dumper) frontUnfailed
  rw [← isFront, List.nil_append] at bytes
  have room : front.bytes.length ≤ dumper.limit := within (Nat.zero_le _)
  have pad := @padding_eq dumper front.bytes.length (Nat.lt_of_le_of_lt room dumper.bounded)
  split_ifs at unfailed ⊢ with none
  · rw [pad] at none
    rw [← bytes, none, List.replicate_zero, List.append_nil]
    exact ⟨rfl, room⟩
  · obtain ⟨-, appended, fits⟩ := write_unfailed unfailed
    rw [appended] at fits ⊢
    rw [pad] at fits ⊢
    rw [← bytes]
    exact ⟨rfl, fits⟩

theorem run_written (aligned : PageAligned dumper) {outcome : Outcome} {file : Bytes} (ran : CoreDump.run dumper = some outcome)
    (core : outcome.core = some file) (unfailed : outcome.failed = false) : Written dumper file outcome.unreadableBytes := by
  rw [CoreDump.run] at ran
  split_ifs at ran
  cases ran
  dsimp only at core unfailed ⊢
  split_ifs at core with canceled
  cases core
  have appended := @write_regions dumper dumper.regions aligned.regions { file := write_headers dumper } (Bool.eq_false_iff.mpr canceled)
  rw [appended.failed] at unfailed
  dsimp only at unfailed
  obtain ⟨bytes, room⟩ := headers_written unfailed
  refine ⟨?_, ?_, Nat.lt_of_le_of_lt (appended.within room) dumper.bounded⟩
  · rw [appended.bytes, bytes, List.append_assoc]
  · rw [appended.unreadable, Nat.zero_add]

theorem finished_fits (aligned : PageAligned dumper) (never : ∀ chunk, dumper.isCanceling chunk = false)
    (room : next_page dumper (header_writes dumper).flatten.length + (dumper.regions.map SDumpRegion.dumpBytes).sum ≤ dumper.limit) :
    Finished dumper := by
  obtain ⟨reaches, -⟩ := le_next_page dumper (header_writes dumper).flatten.length
  have front := @writes_fit dumper.limit (header_writes dumper) {} (by simp only [List.length_nil]; omega)
  rw [List.nil_append] at front
  have pad := @padding_eq dumper (header_writes dumper).flatten.length (by have bounded := dumper.bounded; omega)
  have headers : write_headers dumper = ⟨(header_writes dumper).flatten ++
      List.replicate (next_page dumper (header_writes dumper).flatten.length - (header_writes dumper).flatten.length) 0, false⟩ := by
    rw [write_headers, front]
    dsimp only
    rw [pad]
    split_ifs with none
    · rw [none, List.replicate_zero, List.append_nil]
    · rw [write_fits (by simp only [List.length_replicate]; omega)]
  intro outcome ran
  rw [CoreDump.run] at ran
  split_ifs at ran
  cases ran
  have running := @write_regions_fit dumper dumper.regions aligned.regions never { file := write_headers dumper } rfl
    (by rw [headers]; simp only [List.length_append, List.length_replicate]; omega)
  dsimp only
  rw [running, if_neg Bool.false_ne_true, (write_regions aligned.regions running).failed, headers]
  exact ⟨Option.some_ne_none _, rfl⟩

end

/-! ## What the reader finds -/

section
variable {dumper : Dumper} {file : Bytes} {unreadable : Nat} (written : Written dumper file unreadable)
include written

theorem Written.sits_whole : Sits file 0 ((header_writes dumper).flatten ++ (List.replicate
    (next_page dumper (header_writes dumper).flatten.length - (header_writes dumper).flatten.length) 0 ++
    dumper.regions.flatMap (region_bytes dumper))) := by
  rw [← written.bytes]
  exact sits_self file

theorem Written.sits_headers : Sits file 0 (encode dumper.bigEndian (ehdr dumper) ++ (section_bytes dumper ++
    (encode dumper.bigEndian (note_phdr dumper).fields ++ (table_bytes dumper ++ dumper.noteBytes)))) := by
  rw [← header_writes_flatten]
  exact written.sits_whole.left

theorem Written.sits_ehdr : Sits file 0 (encode dumper.bigEndian (ehdr dumper)) := written.sits_headers.left

theorem Written.sits_shdr (extended : extended_phnum dumper = true) : Sits file ehdrSize (encode dumper.bigEndian (shdr dumper)) := by
  have behind := written.sits_headers.right.left
  rw [section_bytes, if_pos extended, encode_length, ehdr_span, Nat.zero_add] at behind
  exact behind

theorem Written.sits_phdrs : Sits file (phdr_offset dumper) (encode dumper.bigEndian (note_phdr dumper).fields ++ (table_bytes dumper ++ dumper.noteBytes)) := by
  have behind := written.sits_headers.right.right
  rw [encode_length, ehdr_span, Nat.zero_add, section_bytes_length] at behind
  exact behind

theorem Written.sits_note : Sits file (phdr_offset dumper) (encode dumper.bigEndian (note_phdr dumper).fields) := written.sits_phdrs.left

theorem Written.sits_table : Sits file (phdr_offset dumper + phdrSize) (table_bytes dumper) := by
  have behind := written.sits_phdrs.right.left
  rw [encode_length, phdr_span] at behind
  exact behind

theorem Written.sits_notes : Sits file (phdr_offset dumper + (dumper.regions.length + 1) * phdrSize) dumper.noteBytes := by
  have behind := written.sits_phdrs.right.right
  rw [encode_length, phdr_span, table_bytes_length, Nat.add_assoc, Nat.add_comm phdrSize, ← Nat.succ_mul] at behind
  exact behind

theorem Written.sits_padding : Sits file (header_writes dumper).flatten.length
    (List.replicate (next_page dumper (header_writes dumper).flatten.length - (header_writes dumper).flatten.length) 0) := by
  have behind := written.sits_whole.right.left
  rw [Nat.zero_add] at behind
  exact behind

theorem Written.sits_contents : Sits file (next_page dumper (header_writes dumper).flatten.length) (dumper.regions.flatMap (region_bytes dumper)) := by
  have behind := written.sits_whole.right.right
  obtain ⟨reaches, -⟩ := le_next_page dumper (header_writes dumper).flatten.length
  rw [Nat.zero_add, List.length_replicate, Nat.add_sub_cancel' reaches] at behind
  exact behind

theorem Written.length_eq : file.length = next_page dumper (header_writes dumper).flatten.length + (dumper.regions.map SDumpRegion.dumpBytes).sum := by
  obtain ⟨reaches, -⟩ := le_next_page dumper (header_writes dumper).flatten.length
  have contents : (dumper.regions.flatMap (region_bytes dumper)).length = (dumper.regions.map SDumpRegion.dumpBytes).sum := by
    rw [List.length_flatMap]
    simp only [region_bytes_length]
  have total := congrArg List.length written.bytes
  rw [List.length_append, List.length_append, List.length_replicate, contents] at total
  omega

/-! ### The ELF header -/

theorem Written.order_eq : order file = dumper.bigEndian := by
  have found : (ehdr dumper)[5]? = some (1, bif dumper.bigEndian then 2 else 1) := rfl
  have read := written.sits_ehdr.field found
  have front : span ((ehdr dumper).take 5) = 5 := by simp [ehdr, elfIdent, span]
  rw [front, field_single] at read
  rw [order, read]
  cases dumper.bigEndian <;> decide

theorem Written.e_phoff_eq : e_phoff file = phdr_offset dumper := by
  have found : (ehdr dumper)[20]? = some (8, phdr_offset dumper) := rfl
  have read := written.sits_ehdr.field found
  have front : span ((ehdr dumper).take 20) = 32 := by simp [ehdr, elfIdent, span]
  have small : phdr_offset dumper < 256 ^ 8 := by
    rw [phdr_offset]
    split_ifs <;> decide
  rw [front, Nat.mod_eq_of_lt small] at read
  rw [e_phoff, written.order_eq]
  exact read

theorem Written.e_shoff_eq (extended : extended_phnum dumper = true) : e_shoff file = ehdrSize := by
  have found : (ehdr dumper)[21]? = some (8, if extended_phnum dumper then ehdrSize else 0) := rfl
  have read := written.sits_ehdr.field found
  have front : span ((ehdr dumper).take 21) = 40 := by simp [ehdr, elfIdent, span]
  rw [front, if_pos extended] at read
  rw [e_shoff, written.order_eq]
  exact read

theorem Written.e_phnum_eq : e_phnum file = if extended_phnum dumper then pnXnum else (phdr_count dumper % 2 ^ 16).toNat := by
  have found : (ehdr dumper)[25]? = some (2, if extended_phnum dumper then pnXnum else (phdr_count dumper % 2 ^ 16).toNat) := rfl
  have read := written.sits_ehdr.field found
  have front : span ((ehdr dumper).take 25) = 56 := by simp [ehdr, elfIdent, span]
  have small : (if extended_phnum dumper then pnXnum else (phdr_count dumper % 2 ^ 16).toNat) < 256 ^ 2 := by
    split_ifs
    · decide
    · have below := Int.emod_lt_of_pos (phdr_count dumper) (by decide : (0 : Int) < 2 ^ 16)
      omega
  rw [front, Nat.mod_eq_of_lt small] at read
  rw [e_phnum, written.order_eq]
  exact read

theorem Written.sh_info_eq (extended : extended_phnum dumper = true) :
    field (order file) file (e_shoff file + 44) 4 = (phdr_count dumper % 2 ^ 32).toNat := by
  have found : (shdr dumper)[7]? = some (4, (phdr_count dumper % 2 ^ 32).toNat) := rfl
  have read := (written.sits_shdr extended).field found
  have front : span ((shdr dumper).take 7) = 44 := by simp [shdr, span]
  have small : (phdr_count dumper % 2 ^ 32).toNat < 256 ^ 4 := by
    have below := Int.emod_lt_of_pos (phdr_count dumper) (by decide : (0 : Int) < 2 ^ 32)
    omega
  rw [front, Nat.mod_eq_of_lt small] at read
  rw [written.order_eq, written.e_shoff_eq extended]
  exact read

end

/-! ### Program headers -/

/-- Every field holds its value. -/
structure Fits (header : Phdr) : Prop where
  type : header.type < 256 ^ 4
  flags : header.flags < 256 ^ 4
  offset : header.offset < 256 ^ 8
  vaddr : header.vaddr < 256 ^ 8
  paddr : header.paddr < 256 ^ 8
  filesz : header.filesz < 256 ^ 8
  memsz : header.memsz < 256 ^ 8
  align : header.align < 256 ^ 8

theorem read_phdr_eq {file : Bytes} {index : Nat} {header : Phdr}
    (sits : Sits file (e_phoff file + index * phdrSize) (encode (order file) header.fields)) (fits : Fits header) : read_phdr file index = header := by
  have found {position width value : Nat} (isField : header.fields[position]? = some (width, value)) (small : value < 256 ^ width) :
      field (order file) file (e_phoff file + index * phdrSize + span (header.fields.take position)) width = value := by
    rw [sits.field isField, Nat.mod_eq_of_lt small]
  have type : header.fields[0]? = some (4, header.type) := rfl
  have flags : header.fields[1]? = some (4, header.flags) := rfl
  have offset : header.fields[2]? = some (8, header.offset) := rfl
  have vaddr : header.fields[3]? = some (8, header.vaddr) := rfl
  have paddr : header.fields[4]? = some (8, header.paddr) := rfl
  have filesz : header.fields[5]? = some (8, header.filesz) := rfl
  have memsz : header.fields[6]? = some (8, header.memsz) := rfl
  have align : header.fields[7]? = some (8, header.align) := rfl
  have eType := found type fits.type
  have eFlags := found flags fits.flags
  have eOffset := found offset fits.offset
  have eVaddr := found vaddr fits.vaddr
  have ePaddr := found paddr fits.paddr
  have eFilesz := found filesz fits.filesz
  have eMemsz := found memsz fits.memsz
  have eAlign := found align fits.align
  simp only [Phdr.fields, span, List.take_zero, List.take_succ_cons, List.map_nil, List.map_cons, List.sum_nil, List.sum_cons, Nat.add_zero,
    Nat.reduceAdd] at eType eFlags eOffset eVaddr ePaddr eFilesz eMemsz eAlign
  rw [read_phdr]
  simp only [eType, eFlags, eOffset, eVaddr, ePaddr, eFilesz, eMemsz, eAlign]

/-! ### As many headers as an `int` can count -/

theorem bmod_small {count : Nat} (small : count + 1 < 2 ^ 31) : Int.bmod (1 + count) (2 ^ 32) = ((count + 1 : Nat) : Int) := by
  rw [Int.bmod_def]
  omega

section
variable {dumper : Dumper} (few : dumper.maps.length + 1 < 2 ^ 31)
include few

theorem phdr_count_eq : phdr_count dumper = ((dumper.regions.length + 1 : Nat) : Int) := by
  have small : dumper.regions.length + 1 < 2 ^ 31 := by
    rw [regions_length]
    exact few
  exact bmod_small small

theorem extended_phnum_eq : extended_phnum dumper = true ↔ pnXnum ≤ dumper.regions.length + 1 := by
  rw [extended_phnum, phdr_count_eq few, decide_eq_true_iff]
  omega

theorem note_offset_eq : note_offset dumper = phdr_offset dumper + (dumper.regions.length + 1) * phdrSize := by
  have near : phdr_offset dumper ≤ 128 := by
    rw [phdr_offset]
    split_ifs <;> decide
  have size : phdrSize = 56 := rfl
  have length := regions_length dumper
  rw [note_offset, phdr_count_eq few, size]
  omega

theorem headers_end : (header_writes dumper).flatten.length = note_offset dumper + dumper.noteBytes.length := by
  rw [headers_length, note_offset_eq few]

end

section
variable {dumper : Dumper} {file : Bytes} {unreadable : Nat} (written : Written dumper file unreadable)
include written

theorem Written.headers_small : (header_writes dumper).flatten.length < 2 ^ 63 := by
  have length := written.length_eq
  have small := written.small
  obtain ⟨reaches, -⟩ := le_next_page dumper (header_writes dumper).flatten.length
  omega

variable (few : dumper.maps.length + 1 < 2 ^ 31)
include few

theorem Written.program_headers_eq : program_headers file = dumper.maps.length + 1 := by
  have length := regions_length dumper
  have count := phdr_count_eq few
  rw [program_headers, written.e_phnum_eq]
  by_cases extended : extended_phnum dumper = true
  · rw [if_pos extended, if_pos rfl, written.sh_info_eq extended, count]
    omega
  · have fewer : ¬ pnXnum ≤ dumper.regions.length + 1 := fun many => extended ((extended_phnum_eq few).mpr many)
    have limit : pnXnum = 65535 := rfl
    have same : (phdr_count dumper % 2 ^ 16).toNat = dumper.regions.length + 1 := by
      rw [count]
      omega
    rw [if_neg extended, same, if_neg (by omega), length]

theorem Written.data_offset_eq : data_offset dumper = next_page dumper (header_writes dumper).flatten.length := by
  have small := written.headers_small
  rw [data_offset, ← headers_end few, Nat.mod_eq_of_lt (by omega), round_up_page dumper small]

theorem Written.read_note : read_phdr file 0 = note_phdr dumper := by
  have small := written.headers_small
  have ends := headers_end few
  apply read_phdr_eq
  · rw [written.order_eq, written.e_phoff_eq, Nat.zero_mul, Nat.add_zero]
    exact written.sits_note
  · rw [note_phdr]
    exact ⟨(by decide : ptNote < 256 ^ 4), (by decide : 0 < 256 ^ 4), by dsimp only; omega, (by decide : 0 < 256 ^ 8), (by decide : 0 < 256 ^ 8),
      by dsimp only; omega, (by decide : 0 < 256 ^ 8), (by decide : 4 < 256 ^ 8)⟩

theorem Written.contents_start_eq : contents_start dumper file = next_page dumper (header_writes dumper).flatten.length := by
  rw [contents_start, written.read_note few, headers_end few]
  rfl

theorem Written.read_load {index : Nat} {region : SDumpRegion} (found : dumper.regions[index]? = some region) : read_phdr file (index + 1) =
    load_phdr dumper { region with fileOffset := contents_start dumper file + offset_of dumper.regions index } := by
  have length := written.length_eq
  have small := written.small
  have inside := offset_of_le dumper.regions found
  have start := written.contents_start_eq few
  have placed : (place (data_offset dumper) dumper.regions)[index]? =
      some { region with fileOffset := contents_start dumper file + offset_of dumper.regions index } := by
    rw [written.data_offset_eq few, ← start]
    exact place_get (by rw [start]; omega) found
  obtain ⟨before, -⟩ := List.getElem?_eq_some_iff.mp found
  apply read_phdr_eq
  · have here := written.sits_table.inside (sits_flatMap (fun region => encode dumper.bigEndian (load_phdr dumper region).fields) placed)
    rw [table_take_length index (Nat.le_of_lt before), Nat.add_assoc, Nat.add_comm phdrSize, ← Nat.succ_mul] at here
    rw [written.order_eq, written.e_phoff_eq]
    exact here
  · obtain ⟨map, -, isRegion⟩ := List.mem_map.mp (List.mem_of_getElem? found)
    have page := pageSize_small dumper
    have buffer : bufferSize = 2 ^ 20 := rfl
    rw [load_phdr]
    refine ⟨(by decide : ptLoad < 256 ^ 4), ?_, ?_, region.start.toNat_lt, (by decide : 0 < 256 ^ 8), ?_, (region.stop - region.start).toNat_lt, ?_⟩
    · rw [← isRegion]
      exact make_region_flags dumper map
    · dsimp only
      split_ifs
      · decide
      · omega
    · dsimp only
      omega
    · dsimp only
      omega

theorem Written.promised (aligned : PageAligned dumper) : Promised dumper file unreadable := by
  have note := written.read_note few
  have start := written.contents_start_eq few
  have ends := headers_end few
  have count := written.program_headers_eq few
  have length := regions_length dumper
  have noteEnd : (read_phdr file 0).offset + (read_phdr file 0).filesz = (header_writes dumper).flatten.length := by
    rw [note, ends]
    rfl
  have extended : e_phnum file = pnXnum ↔ extended_phnum dumper = true := by
    rw [written.e_phnum_eq]
    by_cases many : extended_phnum dumper = true
    · rw [if_pos many]
      exact iff_of_true rfl many
    · have fewer : ¬ pnXnum ≤ dumper.regions.length + 1 := fun more => many ((extended_phnum_eq few).mpr more)
      have limit : pnXnum = 65535 := rfl
      rw [if_neg many, phdr_count_eq few]
      refine iff_of_false ?_ many
      omega
  refine ⟨count, ?_, ?_, ?_, ?_, ?_, ?_, ?_, ?_, written.unreadable⟩
  · rw [written.e_phoff_eq, phdr_offset, if_congr extended rfl rfl]
  · exact fun isExtended => written.e_shoff_eq (extended.mp isExtended)
  · rw [note, written.e_phoff_eq, count, ← length]
    exact ⟨rfl, note_offset_eq few⟩
  · rw [note]
    refine ⟨rfl, ?_⟩
    have sits := written.sits_notes
    rw [← note_offset_eq few] at sits
    exact sits
  · rw [noteEnd, start]
    exact written.sits_padding
  · intro index region found
    have load := written.read_load few found
    have isAligned := aligned.regions region (List.mem_of_getElem? found)
    refine ⟨?_, ?_, ?_⟩
    · rw [load]
      rfl
    · have startPage : dumper.pageSize ∣ contents_start dumper file := by
        rw [start]
        exact next_page_dvd dumper _
      have offsetPage := dvd_add startPage (offset_of_dvd aligned.regions index)
      rw [load, load_phdr]
      dsimp only
      rw [Nat.mod_eq_zero_of_dvd isAligned.start]
      split_ifs
      · exact Nat.zero_mod _
      · exact Nat.mod_eq_zero_of_dvd offsetPage
    · intro some
      rw [load] at some ⊢
      have notEmpty : region.dumpBytes ≠ 0 := some
      rw [load_phdr]
      dsimp only
      rw [if_neg notEmpty]
      refine ⟨Nat.le_add_right _ _, ?_⟩
      rw [start]
      exact written.sits_contents.inside (contents_sit dumper.regions found)
  · intro first second earlier inside someFirst someSecond
    have reads {index : Nat} (among : index < dumper.maps.length) (some : (read_phdr file (index + 1)).filesz ≠ 0) :
        ∃ region, dumper.regions[index]? = .some region ∧ (read_phdr file (index + 1)).filesz = region.dumpBytes ∧
          (read_phdr file (index + 1)).offset = contents_start dumper file + offset_of dumper.regions index := by
      have found := List.getElem?_eq_getElem (show index < dumper.regions.length by omega)
      have load := written.read_load few found
      refine ⟨_, found, by rw [load]; rfl, ?_⟩
      rw [load] at some ⊢
      exact if_neg some
    obtain ⟨region, found, filesz, offset⟩ := reads (Nat.lt_trans earlier inside) someFirst
    obtain ⟨-, -, -, offsetSecond⟩ := reads inside someSecond
    have behind := offset_of_mono dumper.regions earlier found
    omega
  · rw [start]
    exact written.length_eq

end

/-! ## The promise -/

section
variable {dumper : Dumper} (aligned : PageAligned dumper) (finished : Finished dumper)
include aligned finished

theorem kept_of_few (few : dumper.maps.length + 1 < 2 ^ 31) : Kept dumper := by
  have counted : dumper.regions.length < 2 ^ 31 := by
    rw [regions_length]
    omega
  obtain ⟨outcome, ran⟩ : ∃ outcome, CoreDump.run dumper = some outcome := ⟨_, by rw [CoreDump.run, if_pos counted]⟩
  obtain ⟨there, unfailed⟩ := finished outcome ran
  obtain ⟨file, core⟩ := Option.ne_none_iff_exists'.mp there
  exact ⟨outcome, file, ran, core, (run_written aligned ran core unfailed).promised few aligned⟩

/-- One mapping more than an `int` can count, with the header of the notes, and the count is lost. -/
theorem few_of_kept (kept : Kept dumper) : dumper.maps.length + 1 < 2 ^ 31 := by
  obtain ⟨outcome, file, ran, core, promised⟩ := kept
  have written := run_written aligned ran core (finished outcome ran).2
  have length := regions_length dumper
  have counted : dumper.regions.length < 2 ^ 31 := by
    by_contra many
    rw [CoreDump.run, if_neg many] at ran
    cases ran
  by_contra many
  have full : dumper.regions.length = 2 ^ 31 - 1 := by omega
  have wraps : phdr_count dumper = -2 ^ 31 := by
    unfold phdr_count
    rw [full]
    decide
  have plain : extended_phnum dumper = false := by
    rw [extended_phnum, wraps]
    decide
  have none : e_phnum file = 0 := by
    rw [written.e_phnum_eq, plain, wraps]
    decide
  have count := promised.count
  rw [program_headers, none, if_neg (by decide)] at count
  omega

end

/-- A finished dump keeps what its headers promise if and only if an `int` can count them. -/
theorem core_kept {dumper : Dumper} (aligned : PageAligned dumper) (finished : Finished dumper) :
    Kept dumper ↔ dumper.maps.length + 1 < 2 ^ 31 :=
  ⟨few_of_kept aligned finished, kept_of_few aligned finished⟩

/-- Only the page at 0x1000 can be read. -/
def onePage : Memory (2 ^ 12) where
  byte _ := 7
  readable number := decide (number = 1)
  pread address count := if address = 4096 ∧ 4096 ≤ count then some (List.replicate 4096 7) else none
  honest address count data _ _ found := by
    split_ifs at found with here
    cases found
    rw [List.length_replicate, here.1]
    refine ⟨dvd_refl _, here.2, by decide, by rw [List.map_const', List.length_range], ?_⟩
    intro index early
    have page : (4096 + index) / 2 ^ 12 = 1 := by omega
    rw [page]
    rfl
  whole number isReadable := by
    have same : number = 1 := of_decide_eq_true isReadable
    subst same
    exact ⟨List.replicate 4096 7, if_pos ⟨rfl, Nat.le_refl _⟩, List.length_replicate⟩

/-- Anonymous memory with a guard page behind the first one. -/
def guarded : Dumper where
  pageBits := 12
  pages := by decide
  bigEndian := false
  machine := 62
  dumpType := 0
  maps := [⟨0x1000, 0x3000, true, true, false, 0, 0, []⟩]
  notes := [(6, [1, 2, 3])]
  access := .mem
  memory := onePage
  limit := 2 ^ 40
  bounded := by decide
  isCanceling _ := false

theorem core_kept_guarded : Finished guarded ∧ Kept guarded := by
  have aligned : PageAligned guarded := by
    intro map member
    cases List.mem_singleton.mp member
    exact ⟨⟨1, rfl⟩, ⟨3, rfl⟩⟩
  have finished : Finished guarded := by
    apply finished_fits aligned (fun _ => rfl)
    have length : (header_writes guarded).flatten.length = 64 + 2 * 56 + 24 := by
      rw [headers_length]
      decide
    rw [length]
    decide
  exact ⟨finished, (core_kept aligned finished).mpr (by decide)⟩

/-- The kernel counts mappings in an `int`, and this is as many. -/
def crowded : Dumper :=
  { guarded with maps := List.replicate (2 ^ 31 - 1) ⟨0x1000, 0x2000, false, false, false, 0, 0, []⟩, notes := [], limit := 2 ^ 62, bounded := by decide }

theorem crowded_regions : crowded.regions = List.replicate (2 ^ 31 - 1) ⟨0x1000, 0x2000, 0, 0, 0, 0, []⟩ := List.map_replicate

theorem crowded_noteBytes : crowded.noteBytes = [] := by
  have none : crowded.regions.filter (fun region => decide (region.path ≠ [])) = [] := by
    rw [List.filter_eq_nil_iff, crowded_regions]
    intro region member
    rw [List.eq_of_mem_replicate member]
    decide
  rw [Dumper.noteBytes, none]
  rfl

/-- The core of a process with so many mappings has a header that counts none. -/
theorem crowded_miscounted : PageAligned crowded ∧ Finished crowded ∧ ¬ Kept crowded := by
  have aligned : PageAligned crowded := by
    intro map member
    rw [List.eq_of_mem_replicate member]
    exact ⟨⟨1, rfl⟩, ⟨2, rfl⟩⟩
  have finished : Finished crowded := by
    apply finished_fits aligned (fun _ => rfl)
    have sum : (crowded.regions.map SDumpRegion.dumpBytes).sum = 0 := by
      rw [crowded_regions, List.map_replicate, List.sum_replicate]
      rfl
    have near : phdr_offset crowded ≤ 128 := by
      rw [phdr_offset]
      split_ifs <;> decide
    have count : crowded.regions.length = 2 ^ 31 - 1 := by rw [crowded_regions, List.length_replicate]
    have length := @headers_length crowded
    obtain ⟨-, reaches⟩ := le_next_page crowded (header_writes crowded).flatten.length
    have page : crowded.pageSize = 4096 := rfl
    have limit : crowded.limit = 2 ^ 62 := rfl
    have size : phdrSize = 56 := rfl
    rw [crowded_noteBytes, List.length_nil, count, size] at length
    rw [sum, limit]
    omega
  refine ⟨aligned, finished, fun kept => ?_⟩
  have few := few_of_kept aligned finished kept
  rw [← regions_length, crowded_regions, List.length_replicate] at few
  exact absurd few (by decide)

end TaskExplorer.CoreFile
