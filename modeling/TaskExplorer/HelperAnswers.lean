import TaskExplorer.HelperPaths
import TaskExplorer.HelperReads

/-!
# Asking the helper against reading directly

A question is answered when what comes back is what stands in the file system: the same
files under the same process and name, the same target, the same descriptors and the
same memory. A target is compared as `ProcFs::ReadLink` shows it.
-/

namespace TaskExplorer.HelperAnswers
open Codec OrderedMap VariantFormat VariantContainer
open HelperCommand hiding find
open HelperServer HelperClient HelperReads
open HelperPaths (decimal_digits)
open IpcSocket (get_int get_int_le)
open VariantCache (cut cut_short)

/-! ## What stands in the file system -/

/-- The bytes that the reads of a file give until it ends. -/
def delivered : List Read → Option Bytes
  | [] => some []
  | .interrupted :: rest => delivered rest
  | .failed :: _ => none
  | .bytes chunk :: rest => if chunk = [] then some [] else (delivered rest).map (fun data => chunk ++ data)

def total : List Read → Nat
  | [] => 0
  | .bytes chunk :: rest => chunk.length + total rest
  | _ :: rest => total rest

/-- Files and targets by their paths, the descriptors of a process in the order of its `fd`
    directory, and what is behind an address of it. -/
structure Proc where
  content : Bytes → Option Bytes
  target : Bytes → Option Bytes
  fds : UInt64 → Option (List UInt64)
  memory : UInt64 → UInt64 → Option Bytes

/-- Whatever was called before, the kernel shows the same; a file has at most as many bytes as
    `ReadWholeFile` takes, and a target no NUL. -/
structure Shows (kernel : Kernel) (proc : Proc) : Prop where
  content : ∀ calls path, (kernel.openFile calls path).bind delivered = proc.content path
  small : ∀ calls path reads, kernel.openFile calls path = some reads → total reads ≤ MaxFileSize
  target : ∀ calls path, kernel.readlink calls path = proc.target path
  nul : ∀ path target, proc.target path = some target → (0 : UInt8) ∉ target
  fds : ∀ calls (pid : UInt64), (kernel.opendir calls (c_str (proc_path pid.toNat (text "fd")))).map (List.filter starts_with_digit) =
    (proc.fds pid).map (List.map (fun fd => decimal fd.toNat))
  memory : ∀ calls later (pid address : UInt64),
    (if kernel.openMemory calls (c_str (proc_path pid.toNat (text "mem"))) then
      kernel.pread later (c_str (proc_path pid.toNat (text "mem"))) address.toNat else none) = proc.memory pid address

namespace Proc
variable (proc : Proc)

def file (pid : UInt64) (leaf : Bytes) : Option Bytes := proc.content (c_str (proc_path pid.toNat leaf))

/-- The target of a link, as far as the buffer of `ReadProcLink` goes; no process has the
    number zero. -/
def link (pid : UInt64) (leaf : Bytes) : Bytes :=
  if pid = 0 then [] else ((proc.target (c_str (proc_path pid.toNat leaf))).getD []).take (link_size 7)

def descriptors (pid : UInt64) : List UInt64 := if pid = 0 then [] else (proc.fds pid).getD []

/-- The target of a descriptor, as far as the buffer of `ListProcFds` goes. -/
def fd_target (pid fd : UInt64) : Option Bytes :=
  ((proc.target (c_str (proc_path pid.toNat (text "fd") ++ text "/" ++ decimal fd.toNat))).map (fun target => target.take 4095)).filter
    (fun target => target ≠ [])

def fd_info (pid fd : UInt64) : Option Bytes := proc.file pid (text "fdinfo/" ++ decimal fd.toNat)

/-- What a request for memory may read. -/
def bytes (pid address size : UInt64) : Bytes :=
  if pid = 0 ∨ size = 0 ∨ size.toNat > MaxMemorySize then [] else ((proc.memory pid address).getD []).take size.toNat

end Proc

/-! ## What the helper reads -/

section Helper
variable {kernel : Kernel} {proc : Proc}

theorem read_chunks_delivered {data : Bytes} {reads : List Read} (small : data.length + total reads ≤ MaxFileSize) (world : World) :
    (read_chunks data reads world).1 = (delivered reads).map (fun more => data ++ more) := by
  induction reads generalizing data world with
  | nil => simp [read_chunks, delivered]
  | cons read rest ih =>
    cases read with
    | interrupted =>
      rw [read_chunks, delivered]
      exact ih small world
    | failed => rfl
    | bytes chunk =>
      by_cases ended : chunk = []
      · simp [read_chunks, delivered, ended]
      · simp only [total] at small
        have fits : ¬ data.length + chunk.length > MaxFileSize := by omega
        simp only [read_chunks, delivered, ended, if_false, fits]
        rw [ih (by rw [List.length_append]; omega)]
        simp [Function.comp_def]

theorem read_whole_file_eq (shows : Shows kernel proc) (path : Bytes) (world : World) :
    (read_whole_file kernel path world).1 = proc.content (c_str path) := by
  rw [← shows.content world.calls (c_str path), read_whole_file]
  cases opened : kernel.openFile world.calls (c_str path) with
  | none => rfl
  | some reads =>
    have small : ([] : Bytes).length + total reads ≤ MaxFileSize := by simpa using shows.small _ _ reads opened
    simp [read_chunks_delivered small]

/-- A container whose bytes all count. -/
def written (kind : Kind) (entries : List (Key × Packed)) : Packed := ⟨kind.type, entries.flatMap write_entry⟩

def file_entries (proc : Proc) (leaves : List Bytes) (pid : UInt64) : List (Key × Packed) :=
  leaves.filterMap (fun leaf => (proc.file pid leaf).map (fun data => (.name leaf, ⟨VAR_TYPE_BYTES, data⟩)))

def pid_entries (proc : Proc) (leaves : List Bytes) (pids : List UInt64) : List (Key × Packed) :=
  pids.filterMap (fun pid =>
    if file_entries proc leaves pid = [] then none else some (.name (decimal pid.toNat), written .map (file_entries proc leaves pid)))

variable {leaves : List Bytes}

theorem mem_file_entries {pid : UInt64} {pair : Key × Packed} :
    pair ∈ file_entries proc leaves pid ↔ ∃ leaf ∈ leaves, ∃ data, proc.file pid leaf = some data ∧ pair = (.name leaf, ⟨VAR_TYPE_BYTES, data⟩) := by
  simp only [file_entries, List.mem_filterMap, Option.map_eq_some_iff, @eq_comm _ _ pair]

theorem mem_pid_entries {pids : List UInt64} {pair : Key × Packed} :
    pair ∈ pid_entries proc leaves pids ↔
      ∃ pid ∈ pids, file_entries proc leaves pid ≠ [] ∧ pair = (.name (decimal pid.toNat), written .map (file_entries proc leaves pid)) := by
  simp only [pid_entries, List.mem_filterMap]
  refine exists_congr fun pid => and_congr_right fun _ => ?_
  by_cases none : file_entries proc leaves pid = []
  · simp [none]
  · simp [none, eq_comm]

theorem pid_entries_short {pids : List UInt64}
    (short : ((pid_entries proc leaves pids).flatMap write_entry).length < 2 ^ 32) {pid : UInt64} (member : pid ∈ pids) :
    ((file_entries proc leaves pid).flatMap write_entry).length < 2 ^ 32 := by
  by_cases none : file_entries proc leaves pid = []
  · simp [none]
  · exact (payload_lt_flatMap (mem_pid_entries.mpr ⟨pid, member, none, rfl⟩)).trans short

theorem plain_of_readable {leaf : Bytes} (readable : is_readable_leaf leaf = true) : plain leaf = true := by
  have allowed : allowed_leaves.all (fun allowed => plain (text allowed)) = true := by decide
  simp only [is_readable_leaf, List.any_eq_true, decide_eq_true_eq] at readable
  obtain ⟨literal, member, rfl⟩ := readable
  exact List.all_eq_true.mp allowed literal member

theorem read_files_eq (shows : Shows kernel proc) (readable : ∀ leaf ∈ leaves, is_readable_leaf leaf = true)
    (pid : UInt64) (world : World) : (read_files kernel pid.toNat leaves world).1 = file_entries proc leaves pid := by
  induction leaves generalizing world with
  | nil => rfl
  | cons leaf rest ih =>
    have others := ih (fun other member => readable other (List.mem_cons_of_mem _ member))
    have here := readable leaf (by simp)
    obtain ⟨-, -, nul⟩ := plain_iff.mp (plain_of_readable here)
    have data := read_whole_file_eq shows (proc_path pid.toNat leaf) world
    rw [read_files, if_pos here, file_entries, List.filterMap_cons, Proc.file, ← data]
    cases read : read_whole_file kernel (proc_path pid.toNat leaf) world with
    | mk found after =>
      cases found with
      | none => exact others after
      | some data =>
        have more := others after
        simp only [c_str_of_plain nul, Option.map_some, file_entries] at more ⊢
        rw [more]

theorem read_pids_eq (shows : Shows kernel proc) (readable : ∀ leaf ∈ leaves, is_readable_leaf leaf = true)
    {pids : List UInt64} (short : ∀ pid ∈ pids, ((file_entries proc leaves pid).flatMap write_entry).length < 2 ^ 32)
    (world : World) : (read_pids kernel leaves (pids.map UInt64.toNat) world).1 = pid_entries proc leaves pids := by
  induction pids generalizing world with
  | nil => rfl
  | cons pid rest ih =>
    have more := ih (fun other member => short other (List.mem_cons_of_mem _ member)) (read_files kernel pid.toNat leaves world).2
    have files := read_files_eq shows readable pid world
    simp only [List.map_cons, read_pids, files, more, pid_entries, List.filterMap_cons]
    by_cases none : file_entries proc leaves pid = []
    · simp [none]
    · simp only [none, if_false, finish_short (short pid (by simp))]
      rfl

/-- The link the helper reads, unless it cannot. -/
def link_reply (proc : Proc) (pid : UInt64) (leaf : Bytes) : Packed :=
  match proc.target (c_str (proc_path pid.toNat leaf)) with
  | none => none_variant
  | some target => ⟨VAR_TYPE_ASCII, target.take (link_size 7)⟩

theorem link_size_mono {fewer more : Nat} (le : fewer ≤ more) : link_size fewer ≤ link_size more :=
  Nat.mul_le_mul_left 1024 (Nat.pow_le_pow_right (by decide) le)

theorem read_link_eq (shows : Shows kernel proc) (pid : UInt64) (leaf : Bytes) {left doublings : Nat} (most : left + doublings = 7)
    (world : World) : (read_link kernel (proc_path pid.toNat leaf) doublings world).1 = link_reply proc pid leaf := by
  induction left generalizing doublings world with
  | zero =>
    obtain rfl : doublings = 7 := by omega
    have large : link_size 7 > MaxLinkSize := by decide
    rw [read_link, shows.target, link_reply]
    cases proc.target (c_str (proc_path pid.toNat leaf)) with
    | none => rfl
    | some target => simp [large]
  | succ left ih =>
    have nearer : left + (doublings + 1) = 7 := by omega
    have further := ih nearer
    rw [read_link, shows.target]
    cases read : proc.target (c_str (proc_path pid.toNat leaf)) with
    | none => simp [link_reply, read]
    | some target =>
      have smaller : link_size doublings ≤ link_size 7 := link_size_mono (by omega)
      by_cases whole : (target.take (link_size doublings)).length < link_size doublings
      · have length : target.length < link_size doublings := by
          rw [List.length_take] at whole
          omega
        have all : target.take (link_size doublings) = target.take (link_size 7) := by
          rw [List.take_of_length_le (by omega), List.take_of_length_le (by omega)]
        simp only [if_pos whole]
        simp only [all, link_reply, read]
      · have small : ¬ link_size doublings > MaxLinkSize := by
          have bound := link_size_mono (show doublings ≤ 6 by omega)
          have last : link_size 6 = MaxLinkSize := by decide
          omega
        simp only [whole, small, if_false, dif_neg, not_false_eq_true]
        exact further _

/-! ## Descriptors -/

theorem ofDigitChars_le (digits : List Char) (value : Nat) : value ≤ Nat.ofDigitChars 10 digits value := by
  have shifted : value ≤ 10 ^ digits.length * value := Nat.le_mul_of_pos_left value (by positivity)
  rw [Nat.ofDigitChars_eq_ofDigitChars_zero]
  omega

theorem parse_digits_eq {digits : List Char} (numeric : ∀ digit ∈ digits, digit.isDigit = true) {value : Nat}
    (fits : Nat.ofDigitChars 10 digits value < 2 ^ 64) :
    parse_digits value (digits.map (fun digit => UInt8.ofNat digit.toNat)) = Nat.ofDigitChars 10 digits value := by
  induction digits generalizing value with
  | nil => simp [parse_digits, Nat.ofDigitChars_nil]
  | cons digit rest ih =>
    have number := numeric digit (by simp)
    simp only [Char.isDigit, Bool.and_eq_true, decide_eq_true_eq] at number
    obtain ⟨low, high⟩ := number
    have lower : 48 ≤ digit.toNat := low
    have upper : digit.toNat ≤ 57 := high
    have byte : (UInt8.ofNat digit.toNat).toNat = digit.toNat := by
      rw [UInt8.toNat_ofNat', Nat.mod_eq_of_lt (by omega)]
    have isDigit : is_digit (UInt8.ofNat digit.toNat) = true := by
      simp only [is_digit, Bool.and_eq_true, decide_eq_true_eq, UInt8.le_iff_toNat_le, byte]
      exact ⟨lower, upper⟩
    rw [Nat.ofDigitChars_cons, Nat.mul_comm] at fits
    have next := ofDigitChars_le rest (value * 10 + (digit.toNat - '0'.toNat))
    have zero : '0'.toNat = 48 := rfl
    rw [zero] at fits next
    have room : ¬ value > (2 ^ 64 - 1 - (digit.toNat - 48)) / 10 := by omega
    rw [List.map_cons, parse_digits, if_pos isDigit, byte, if_neg room, ih (fun other member => numeric other (List.mem_cons_of_mem _ member)) fits,
      Nat.ofDigitChars_cons, zero, Nat.mul_comm]

theorem starts_with_digit_decimal (number : Nat) : starts_with_digit (decimal number) = true := by
  obtain ⟨some, digits⟩ := decimal_digits number
  obtain ⟨first, rest, spelled⟩ := List.exists_cons_of_ne_nil some
  have first_digit := digits first (by simp [spelled])
  simp [starts_with_digit, spelled, first_digit]

/-- `ParseUInt` reads what `%llu` writes. -/
theorem parse_uint_decimal {number : Nat} (fits : number < 2 ^ 64) : parse_uint (decimal number) = number := by
  have numeric : ∀ digit ∈ Nat.toDigits 10 number, digit.isDigit = true :=
    fun digit member => Nat.isDigit_of_mem_toDigits (by decide) (by decide) member
  have value : Nat.ofDigitChars 10 (Nat.toDigits 10 number) 0 = number := Nat.ofDigitChars_ten_toDigits
  have bare : (decimal number).dropWhile (fun byte => byte = 32 || byte = 9) = decimal number := by
    have digit := starts_with_digit_decimal number
    cases spelled : decimal number with
    | nil => rfl
    | cons first rest =>
      have first_digit : is_digit first = true := by simpa [starts_with_digit, spelled] using digit
      have letter : ¬ (first = 32 ∨ first = 9) := by
        rintro (rfl | rfl)
        · exact absurd first_digit (by decide)
        · exact absurd first_digit (by decide)
      simp [letter]
  rw [parse_uint, bare, decimal, parse_digits_eq numeric (by rwa [value]), value]

def fd_entry (proc : Proc) (pid fd : UInt64) : List (Key × Packed) :=
  [named "Fd" (uint64 fd.toNat)] ++
    (match proc.fd_target pid fd with
      | some target => [named "Target" ⟨VAR_TYPE_ASCII, target⟩]
      | none => []) ++
    (match proc.fd_info pid fd with
      | some info => [named "Info" ⟨VAR_TYPE_BYTES, info⟩]
      | none => [])

theorem list_fd_eq (shows : Shows kernel proc) (pid fd : UInt64) (world : World) :
    (list_fd kernel pid.toNat (decimal fd.toNat) world).1 = finish .map (fd_entry proc pid fd) := by
  have path : c_str (proc_path pid.toNat (text "fd") ++ text "/" ++ decimal fd.toNat) =
      proc_path pid.toNat (text "fd") ++ text "/" ++ decimal fd.toNat := by
    have literals : (0 : UInt8) ∉ text "/proc/" ∧ (0 : UInt8) ∉ text "/" ∧ (0 : UInt8) ∉ text "fd" := by decide
    have first := (decimal_digits pid.toNat).plain
    have second := (decimal_digits fd.toNat).plain
    exact c_str_of_plain (by simp [proc_path, literals, first, second])
  have info := read_whole_file_eq shows (proc_path pid.toNat (text "fdinfo/" ++ decimal fd.toNat))
  simp only [list_fd, path, shows.target, info, parse_uint_decimal fd.toNat_lt, fd_entry, Proc.fd_target, Proc.fd_info, Proc.file]
  congr 3
  cases read : proc.target (proc_path pid.toNat (text "fd") ++ text "/" ++ decimal fd.toNat) with
  | none => rfl
  | some target =>
    have plain := shows.nul _ target read
    have cut : c_str (target.take 4095) = target.take 4095 := c_str_of_plain fun member => plain (List.mem_of_mem_take member)
    by_cases empty : target.take 4095 = []
    · simp [empty, Option.filter_some]
    · simp [empty, cut, Option.filter_some]

def fds_entries (proc : Proc) (pid : UInt64) (fds : List UInt64) : List (Key × Packed) :=
  fds.map (fun fd => (.item, written .map (fd_entry proc pid fd)))

theorem mem_fds_entries {pid : UInt64} {fds : List UInt64} {pair : Key × Packed} :
    pair ∈ fds_entries proc pid fds ↔ ∃ fd ∈ fds, pair = (.item, written .map (fd_entry proc pid fd)) := by
  simp only [fds_entries, List.mem_map, @eq_comm _ _ pair]

theorem fds_entries_short {pid : UInt64} {fds : List UInt64} (short : ((fds_entries proc pid fds).flatMap write_entry).length < 2 ^ 32)
    {fd : UInt64} (member : fd ∈ fds) : ((fd_entry proc pid fd).flatMap write_entry).length < 2 ^ 32 :=
  (payload_lt_flatMap (mem_fds_entries.mpr ⟨fd, member, rfl⟩)).trans short

theorem list_fds_eq (shows : Shows kernel proc) (pid : UInt64) {names : List Bytes} {fds : List UInt64}
    (numbers : names.filter starts_with_digit = fds.map (fun fd => decimal fd.toNat))
    (short : ∀ fd ∈ fds, ((fd_entry proc pid fd).flatMap write_entry).length < 2 ^ 32) (world : World) :
    (list_fds kernel pid.toNat names world).1 = fds_entries proc pid fds := by
  induction names generalizing fds world with
  | nil =>
    obtain rfl : fds = [] := by simpa using numbers.symm
    rfl
  | cons name rest ih =>
    rw [List.filter_cons] at numbers
    by_cases digit : starts_with_digit name = true
    · rw [if_pos digit] at numbers
      obtain ⟨fd, fds, rfl, rfl, later⟩ := List.map_eq_cons_iff.mp numbers.symm
      have more := ih later.symm (fun other member => short other (List.mem_cons_of_mem _ member))
        (list_fd kernel pid.toNat (decimal fd.toNat) world).2
      simp only [list_fds, digit, if_true, more, list_fd_eq shows, finish_short (short fd (by simp))]
      rfl
    · rw [if_neg digit] at numbers
      rw [list_fds, if_neg digit]
      exact ih numbers short world

end Helper

/-! ## What is asked -/

/-- What the callers ask for. -/
inductive Question where
  | files (pids : List UInt64) (leaves : List Bytes)
  | link (pid : UInt64) (leaf : Bytes)
  | fds (pid : UInt64)
  | memory (pid address size : UInt64)

namespace Question

/-- The leaves are on the list of the helper. -/
def Listed : Question → Prop
  | .files _ leaves => ∀ leaf ∈ leaves, is_readable_leaf leaf = true
  | .link _ leaf => is_readable_link leaf = true
  | _ => True

def command : Question → String
  | .files _ _ => "ReadProcFiles"
  | .link _ _ => "ReadProcLink"
  | .fds _ => "ListProcFds"
  | .memory _ _ _ => "ReadProcMemory"

end Question

section Parameters
variable (qt : Qt) (literal : String)

def number (value : UInt64) : Parameter := ⟨literal, .uLongLong value.toNat, uint64 value.toNat⟩

def string (value : Bytes) : Parameter := ⟨literal, .string (word value), from_string qt (word value)⟩

def numbers (values : List UInt64) : Parameter :=
  ⟨literal, .list ((values.map UInt64.toNat).map .uLongLong), ⟨VAR_TYPE_LIST, (values.map (fun value => uint64 value.toNat)).flatMap to_packet⟩⟩

def strings (values : List Bytes) : Parameter :=
  ⟨literal, .stringList (values.map word), ⟨VAR_TYPE_LIST, (values.map (fun value => from_string qt (word value))).flatMap to_packet⟩⟩

end Parameters

def Question.parameters (qt : Qt) : Question → List Parameter
  | .files pids leaves => [strings qt "Leaves" leaves, numbers "Pids" pids]
  | .link pid leaf => [string qt "Leaf" leaf, number "ProcessId" pid]
  | .fds pid => [number "ProcessId" pid]
  | .memory pid address size => [number "Address" address, number "ProcessId" pid, number "Size" size]

section Asking
variable {qt : Qt}

/-- A parameter whose name is plain and whose value is packed as said. -/
structure Parameter.Packs (qt : Qt) (parameter : Parameter) : Prop where
  name : plain (text parameter.literal) = true
  value : from_qvariant qt parameter.value = .ok parameter.packed
  bare : parameter.packed.type ≠ VAR_TYPE_EMPTY

theorem number_packs {literal : String} (name : plain (text literal) = true) (value : UInt64) : Parameter.Packs qt (number literal value) :=
  ⟨name, rfl, (by decide : VAR_TYPE_UINT ≠ VAR_TYPE_EMPTY)⟩

theorem string_packs {literal : String} (name : plain (text literal) = true) (value : Bytes) : Parameter.Packs qt (string qt literal value) :=
  ⟨name, rfl, (by decide : VAR_TYPE_UNICODE ≠ VAR_TYPE_EMPTY)⟩

theorem strings_packs {literal : String} (name : plain (text literal) = true) (values : List Bytes) :
    Parameter.Packs qt (strings qt literal values) := by
  refine ⟨name, ?_, (by decide : VAR_TYPE_LIST ≠ VAR_TYPE_EMPTY)⟩
  simp [strings, from_qvariant, Function.comp_def]

theorem numbers_packs {literal : String} (name : plain (text literal) = true) (values : List UInt64) :
    Parameter.Packs qt (numbers literal values) := by
  refine ⟨name, ?_, (by decide : VAR_TYPE_LIST ≠ VAR_TYPE_EMPTY)⟩
  have items : from_items qt ((values.map UInt64.toNat).map .uLongLong) = .ok (values.map (fun value => uint64 value.toNat)) := by
    induction values with
    | nil => rfl
    | cons value rest ih =>
      simp only [List.map_cons, from_items, from_qvariant, ih, bind, Except.bind, pure, Except.pure]
      rfl
  simp only [numbers, from_qvariant, items, bind, Except.bind, pure, Except.pure]

theorem packs_of {parameters : List Parameter} (each : ∀ parameter ∈ parameters, Parameter.Packs qt parameter)
    (sorted : (parameters.map (fun parameter => Key.name (text parameter.literal))).Pairwise (· < ·)) : Packs qt parameters where
  names parameter member := (each parameter member).name
  sorted := List.pairwise_map.mpr (List.pairwise_map.mp sorted)
  values parameter member := (each parameter member).value
  bare parameter member := (each parameter member).bare

theorem parameters_packs (question : Question) : Packs qt (question.parameters qt) := by
  have names : plain (text "Leaves") = true ∧ plain (text "Pids") = true ∧ plain (text "Leaf") = true ∧ plain (text "ProcessId") = true ∧
      plain (text "Address") = true ∧ plain (text "Size") = true := by decide
  obtain ⟨leaves, pids, leaf, processId, address, size⟩ := names
  have files : Key.name (text "Leaves") < Key.name (text "Pids") := by decide
  have link : Key.name (text "Leaf") < Key.name (text "ProcessId") := by decide
  have memory : Key.name (text "Address") < Key.name (text "ProcessId") ∧ Key.name (text "ProcessId") < Key.name (text "Size") := by decide
  cases question with
  | files pidList leafList =>
    refine packs_of ?_ (by simpa [Question.parameters, strings, numbers] using files)
    simpa [Question.parameters] using And.intro (strings_packs leaves leafList) (numbers_packs pids pidList)
  | link pid value =>
    refine packs_of ?_ (by simpa [Question.parameters, string, number] using link)
    simpa [Question.parameters] using And.intro (string_packs leaf value) (number_packs processId pid)
  | fds pid =>
    refine packs_of ?_ (by simp [Question.parameters])
    simpa [Question.parameters] using number_packs processId pid
  | memory pid start length =>
    refine packs_of ?_ (by simpa [Question.parameters, number] using ⟨⟨memory.1, memory.1.trans memory.2⟩, memory.2⟩)
    simpa [Question.parameters] using ⟨number_packs address start, number_packs processId pid, number_packs size length⟩

theorem list_writable {items : List Packed} (bare : ∀ item ∈ items, item.type ≠ VAR_TYPE_EMPTY)
    (short : (items.flatMap to_packet).length < 2 ^ 32) : Writable .list (items.map (fun item => (.item, item))) := by
  have spelled : (items.map (fun item => ((.item, item) : Key × Packed))).flatMap write_entry = items.flatMap to_packet := by
    simp [List.flatMap_map, write_entry, write_key]
  refine ⟨fun pair member => ?_, by rwa [spelled]⟩
  have small := payload_lt_flatMap member
  rw [spelled] at small
  obtain ⟨item, listed, rfl⟩ := List.mem_map.mp member
  exact ⟨trivial, fun empty => absurd empty (bare item listed), small.trans short⟩

theorem read_raw_list_written {α β : Type} {callback : Packed → Except CException β} {pack : α → Packed} {result : α → β} {values : List α}
    (bare : ∀ value ∈ values, (pack value).type ≠ VAR_TYPE_EMPTY) (short : ((values.map pack).flatMap to_packet).length < 2 ^ 32)
    (reads : ∀ value ∈ values, callback (pack value) = .ok (result value)) :
    read_raw_list callback ⟨VAR_TYPE_LIST, (values.map pack).flatMap to_packet⟩ = .ok (values.map result) := by
  have writable : Writable .list ((values.map pack).map (fun item => (.item, item))) := by
    refine list_writable (fun item member => ?_) short
    obtain ⟨value, listed, rfl⟩ := List.mem_map.mp member
    exact bare value listed
  have spelled : ((values.map pack).map (fun item => ((.item, item) : Key × Packed))).flatMap write_entry = (values.map pack).flatMap to_packet := by
    simp [List.flatMap_map, write_entry, write_key]
  have entries := raw_entries_written .list _ writable.fits
  rw [spelled] at entries
  have read : ((values.map pack).map (fun item => ((.item, item) : Key × Packed))).mapM (fun pair => callback pair.2) = .ok (values.map result) := by
    rw [List.map_map, List.mapM_map]
    exact mapM_ok reads
  simp only [read_raw_list, ne_eq, not_true_eq_false, if_false, entries, read, bind, Except.bind, pure, Except.pure]

theorem to_uint64_uint64 (value : UInt64) : to_uint64 (uint64 value.toNat) = .ok value.toNat := get_int_le 8 value.toNat value.toNat_lt

end Asking

/-! ## What the helper does with it -/

def Question.packed (qt : Qt) (question : Question) : Packed := finish .map (packedEntries (question.parameters qt))

section Taken
variable {qt : Qt}

/-- The parameters of a question fit in a variant. -/
def Short (qt : Qt) (question : Question) : Prop := ((packedEntries (question.parameters qt)).flatMap write_entry).length < 2 ^ 32

theorem find_asked {question : Question} (short : Short qt question) {parameter : Parameter} (member : parameter ∈ question.parameters qt) :
    HelperCommand.find (question.packed qt) parameter.literal = .ok parameter.packed := find_parameter (parameters_packs question) short member

theorem asked_lt {question : Question} (short : Short qt question) {parameter : Parameter} (member : parameter ∈ question.parameters qt) :
    parameter.packed.payload.length < 2 ^ 32 := by
  have among : named parameter.literal parameter.packed ∈ packedEntries (question.parameters qt) := List.mem_map_of_mem member
  exact (payload_lt_flatMap among).trans short

/-- What the helper replies, when nothing of it is cut. -/
def Question.reply (proc : Proc) : Question → Packed
  | .files pids leaves => written .map (pid_entries proc leaves pids)
  | .link pid leaf => if pid = 0 then ascii "Invalid Parameters" else link_reply proc pid leaf
  | .fds pid => if pid = 0 then ascii "Invalid Parameters" else written .list (fds_entries proc pid ((proc.fds pid).getD []))
  | .memory pid address size =>
    if pid = 0 ∨ size = 0 ∨ size.toNat > MaxMemorySize then ascii "Invalid Parameters"
    else if proc.bytes pid address size = [] then none_variant
    else ⟨VAR_TYPE_BYTES, proc.bytes pid address size⟩

/-- The action for a question ends with a reply whatever the state it starts in. -/
def Replied (kernel : Kernel) (proc : Proc) (qt : Qt) (question : Question) : Prop :=
  ∃ action : Action, run_command kernel (question.packed qt) (command_of (text question.command)) = .ok action ∧
    ∀ world, (action world).1 = question.reply proc

variable {kernel : Kernel} {proc : Proc}

theorem toNat_eq_zero {value : UInt64} : value.toNat = 0 ↔ value = 0 := by
  rw [← UInt64.toNat_inj]
  rfl

theorem files_replied (documented : Documented qt) (shows : Shows kernel proc) {pids : List UInt64} {leaves : List Bytes}
    (listed : (Question.files pids leaves).Listed) (short : Short qt (.files pids leaves))
    (replied : ((pid_entries proc leaves pids).flatMap write_entry).length < 2 ^ 32) :
    Replied kernel proc qt (.files pids leaves) := by
  have leavesAsked : strings qt "Leaves" leaves ∈ (Question.files pids leaves).parameters qt := by simp [Question.parameters]
  have pidsAsked : numbers "Pids" pids ∈ (Question.files pids leaves).parameters qt := by simp [Question.parameters]
  have leavesRead : read_raw_list to_string (strings qt "Leaves" leaves).packed = .ok leaves := by
    have read := @read_raw_list_written _ _ to_string (fun leaf => from_string qt (word leaf)) id leaves
      (fun _ _ => (by decide : VAR_TYPE_UNICODE ≠ VAR_TYPE_EMPTY)) (asked_lt short leavesAsked)
      (fun leaf member => to_string_from_string documented (plain_iff.mp (plain_of_readable (listed leaf member))).2.1)
    rwa [List.map_id] at read
  have pidsRead : read_raw_list to_uint64 (numbers "Pids" pids).packed = .ok (pids.map UInt64.toNat) :=
    read_raw_list_written (fun _ _ => (by decide : VAR_TYPE_UINT ≠ VAR_TYPE_EMPTY)) (asked_lt short pidsAsked) (fun pid _ => to_uint64_uint64 pid)
  have leavesFound := find_asked short leavesAsked
  have pidsFound := find_asked short pidsAsked
  have command : command_of (text "ReadProcFiles") = .readProcFiles := by decide
  simp only [strings, numbers] at leavesFound pidsFound leavesRead pidsRead
  refine ⟨fun world => (finish .map (read_pids kernel leaves (pids.map UInt64.toNat) world).1,
    (read_pids kernel leaves (pids.map UInt64.toNat) world).2), ?_, fun world => ?_⟩
  · simp only [Question.command, command, run_command, read_proc_files, leavesFound, pidsFound, leavesRead, pidsRead, bind, Except.bind, pure,
      Except.pure]
  · simp only [read_pids_eq shows listed (fun pid member => pid_entries_short replied member), finish_short replied]
    rfl

theorem link_replied (documented : Documented qt) (shows : Shows kernel proc) {pid : UInt64} {leaf : Bytes} (listed : (Question.link pid leaf).Listed)
    (ascii : Ascii leaf) (short : Short qt (.link pid leaf)) : Replied kernel proc qt (.link pid leaf) := by
  have leafFound := find_asked short (show string qt "Leaf" leaf ∈ (Question.link pid leaf).parameters qt by simp [Question.parameters])
  have pidFound := find_asked short (show number "ProcessId" pid ∈ (Question.link pid leaf).parameters qt by simp [Question.parameters])
  simp only [string, number] at leafFound pidFound
  have allowed : is_readable_link leaf = true := listed
  have command : command_of (text "ReadProcLink") = .readProcLink := by decide
  refine ⟨if pid = 0 then answer (HelperCommand.ascii "Invalid Parameters") else read_link kernel (proc_path pid.toNat leaf) 0, ?_, fun world => ?_⟩
  · simp only [Question.command, command, run_command, read_proc_link, leafFound, pidFound, to_uint64_uint64,
      to_string_from_string documented ascii, bind, Except.bind, pure, Except.pure, toNat_eq_zero]
    by_cases nobody : pid = 0
    · simp [nobody]
    · simp [nobody, allowed]
  · by_cases nobody : pid = 0
    · simp [nobody, Question.reply, answer]
    · simp only [nobody, if_false, Question.reply]
      exact read_link_eq shows pid leaf rfl world

theorem fds_replied (shows : Shows kernel proc) {pid : UInt64} (short : Short qt (.fds pid))
    (replied : pid ≠ 0 → ((fds_entries proc pid ((proc.fds pid).getD [])).flatMap write_entry).length < 2 ^ 32) :
    Replied kernel proc qt (.fds pid) := by
  have pidFound := find_asked short (show number "ProcessId" pid ∈ (Question.fds pid).parameters qt by simp [Question.parameters])
  simp only [number] at pidFound
  have command : command_of (text "ListProcFds") = .listProcFds := by decide
  by_cases nobody : pid = 0
  · refine ⟨answer (ascii "Invalid Parameters"), ?_, fun world => ?_⟩
    · simp only [Question.command, command, run_command, list_proc_fds, pidFound, to_uint64_uint64, bind, Except.bind, pure, Except.pure,
        toNat_eq_zero]
      rw [if_pos nobody]
    · simp [nobody, Question.reply, answer]
  · refine ⟨?action, ?taken, fun world => ?reply⟩
    case taken =>
      simp only [Question.command, command, run_command, list_proc_fds, pidFound, to_uint64_uint64, bind, Except.bind, pure, Except.pure,
        toNat_eq_zero, nobody, if_false]
      rfl
    case reply =>
      have names := shows.fds world.calls pid
      simp only [Question.reply, nobody, if_false]
      cases opened : kernel.opendir world.calls (c_str (proc_path pid.toNat (text "fd"))) with
      | none =>
        have none : proc.fds pid = none := by simpa [opened, eq_comm] using names
        simp [none, fds_entries, finish, written, cut]
      | some listed =>
        obtain ⟨fds, there, spelled⟩ : ∃ fds, proc.fds pid = some fds ∧ fds.map (fun fd => decimal fd.toNat) = listed.filter starts_with_digit := by
          simpa [opened, eq_comm] using names
        have whole := replied nobody
        rw [there, Option.getD_some] at whole
        simp only [there, Option.getD_some, list_fds_eq shows pid spelled.symm (fun fd member => fds_entries_short whole member), finish_short whole]
        rfl

theorem memory_replied (shows : Shows kernel proc) {pid address size : UInt64} (short : Short qt (.memory pid address size)) :
    Replied kernel proc qt (.memory pid address size) := by
  have pidFound := find_asked short (show number "ProcessId" pid ∈ (Question.memory pid address size).parameters qt by simp [Question.parameters])
  have addressFound := find_asked short (show number "Address" address ∈ (Question.memory pid address size).parameters qt by simp [Question.parameters])
  have sizeFound := find_asked short (show number "Size" size ∈ (Question.memory pid address size).parameters qt by simp [Question.parameters])
  simp only [number] at pidFound addressFound sizeFound
  have command : command_of (text "ReadProcMemory") = .readProcMemory := by decide
  by_cases rejected : pid = 0 ∨ size = 0 ∨ size.toNat > MaxMemorySize
  · refine ⟨answer (ascii "Invalid Parameters"), ?_, fun world => ?_⟩
    · simp only [Question.command, command, run_command, read_proc_memory, pidFound, addressFound, sizeFound, to_uint64_uint64, bind, Except.bind,
        pure, Except.pure, toNat_eq_zero]
      rw [if_pos rejected]
    · simp [rejected, Question.reply, answer]
  · refine ⟨?action, ?taken, fun world => ?reply⟩
    case taken =>
      simp only [Question.command, command, run_command, read_proc_memory, pidFound, addressFound, sizeFound, to_uint64_uint64, bind, Except.bind,
        pure, Except.pure, toNat_eq_zero, rejected, if_false]
      rfl
    case reply =>
      have read := fun later => shows.memory world.calls later pid address
      simp only [Question.reply, rejected, if_false, Proc.bytes]
      by_cases opened : kernel.openMemory world.calls (c_str (proc_path pid.toNat (text "mem"))) = true
      · simp only [opened, if_true] at read ⊢
        rw [read]
        cases proc.memory pid address with
        | none => simp
        | some data => simp
      · have none : proc.memory pid address = none := by simpa [opened, eq_comm] using read []
        simp [opened, none]

end Taken

/-! ## What comes back -/

/-- What comes back is what stands in the file system. -/
def Answered (qt : Qt) (kernel : Kernel) (world : World) (proc : Proc) : Question → Prop
  | .files pids leaves => ∃ result, helper_read_proc_files qt kernel world (pids.map UInt64.toNat) (leaves.map word) = .ok result ∧
      (∀ pid leaf data, (∃ files, find pid result = some files ∧ find leaf files = some data) ↔
        ∃ asked ∈ pids, ∃ name ∈ leaves, pid = asked.toNat ∧ leaf = word name ∧ proc.file asked name = some data) ∧
      ∀ pid, find pid result ≠ some []
  | .link pid leaf => helper_read_proc_link qt kernel world pid.toNat (word leaf) = .ok (qt.fromLocal8Bit (proc.link pid leaf))
  | .fds pid => ∃ result, helper_list_fds qt kernel world pid.toNat = .ok result ∧
      result.map (fun entry => (find (name "Fd") entry, find (name "Target") entry, find (name "Info") entry)) =
        (proc.descriptors pid).map (fun fd => (some (.uLongLong fd.toNat),
          (proc.fd_target pid fd).map (fun target => .string (qt.fromLocal8Bit target)), (proc.fd_info pid fd).map .byteArray))
  | .memory pid address size => helper_read_memory qt kernel world pid.toNat address.toNat size.toNat = .ok (proc.bytes pid address size)

/-- The targets are ASCII, and the one of a link is not a text by which the helper rejects a
    request. -/
def Spelled (proc : Proc) : Question → Prop
  | .files _ _ => True
  | .link pid leaf =>
    Ascii (proc.link pid leaf) ∧ proc.link pid leaf ≠ text "Invalid Parameters" ∧ proc.link pid leaf ≠ text "Unknown Command"
  | .fds pid => ∀ fd ∈ proc.descriptors pid, ∀ target, proc.fd_target pid fd = some target → Ascii target
  | .memory _ _ _ => True

def Carried (qt : Qt) (proc : Proc) (question : Question) : Prop :=
  Sendable qt question.command (question.parameters qt) ∧ (to_packet (question.reply proc)).length < 2 ^ 32

/-- The request fits in a packet that the helper takes, and the length of the reply in 32 bits.
    Nothing is sent for no process or no leaf; a target and memory are never too long, and a
    request with numbers alone is not either. -/
def Fits (qt : Qt) (proc : Proc) : Question → Prop
  | .files pids leaves => pids = [] ∨ leaves = [] ∨ Carried qt proc (.files pids leaves)
  | .link pid leaf => Sendable qt "ReadProcLink" (Question.parameters qt (.link pid leaf))
  | .fds pid => (to_packet (Question.reply proc (.fds pid))).length < 2 ^ 32
  | .memory _ _ _ => True

section Back
variable {qt : Qt} {kernel : Kernel} {proc : Proc} {world : World}

theorem command_ascii (question : Question) : Ascii (text question.command) := by
  have names : plain (text "ReadProcFiles") = true ∧ plain (text "ReadProcLink") = true ∧ plain (text "ListProcFds") = true ∧
      plain (text "ReadProcMemory") = true := by decide
  obtain ⟨files, link, fds, memory⟩ := names
  cases question with
  | files => exact (plain_iff.mp files).2.1
  | link => exact (plain_iff.mp link).2.1
  | fds => exact (plain_iff.mp fds).2.1
  | memory => exact (plain_iff.mp memory).2.1

theorem payload_lt_of_packet {packed : Packed} (small : (to_packet packed).length < 2 ^ 32) : packed.payload.length < 2 ^ 32 := by
  rw [to_packet, List.length_append] at small
  omega

theorem ascii_of_readable_link {leaf : Bytes} (readable : is_readable_link leaf = true) : Ascii leaf := by
  have names : plain (text "exe") = true ∧ plain (text "cwd") = true ∧ plain (text "root") = true ∧ plain (text "fd/") = true := by decide
  obtain ⟨exe, cwd, root, fd⟩ := names
  unfold is_readable_link at readable
  split_ifs at readable with known
  · rcases known with rfl | rfl | rfl
    · exact (plain_iff.mp exe).2.1
    · exact (plain_iff.mp cwd).2.1
    · exact (plain_iff.mp root).2.1
  · simp only [Bool.and_eq_true, decide_eq_true_eq, List.all_eq_true] at readable
    obtain ⟨⟨front, -⟩, digits⟩ := readable
    intro byte member
    rw [← List.take_append_drop 3 leaf, List.mem_append] at member
    rcases member with early | late
    · rw [front] at early
      exact (plain_iff.mp fd).2.1 byte early
    · have digit := digits byte late
      simp only [is_digit, Bool.and_eq_true, decide_eq_true_eq, UInt8.le_iff_toNat_le] at digit
      have upper : byte.toNat ≤ 57 := digit.2
      exact UInt8.lt_iff_toNat_lt.mpr (show byte.toNat < 128 by omega)

/-! ### Requests of a few parameters -/

theorem to_packet_le (packed : Packed) : (to_packet packed).length ≤ 5 + packed.payload.length := by
  rw [to_packet, List.length_append, packet_header_length]
  split_ifs <;> omega

theorem write_named_le (literal : String) (packed : Packed) : (write_entry (named literal packed)).length ≤ 261 + packed.payload.length := by
  have packet := to_packet_le packed
  have key : (write_key (.name (text literal))).length ≤ 256 := by
    rw [write_key, List.length_cons, List.length_take]
    omega
  rw [write_entry, List.length_append]
  exact (Nat.add_le_add key packet).trans (by omega)

theorem packedEntries_le {parameters : List Parameter} {most : Nat} (small : ∀ parameter ∈ parameters, parameter.packed.payload.length ≤ most) :
    ((packedEntries parameters).flatMap write_entry).length ≤ parameters.length * (261 + most) := by
  induction parameters with
  | nil => simp [packedEntries]
  | cons parameter rest ih =>
    have first := write_named_le parameter.literal parameter.packed
    have here := small parameter (by simp)
    have more := ih (fun other member => small other (List.mem_cons_of_mem _ member))
    simp only [packedEntries, List.map_cons, List.flatMap_cons, List.length_append, List.length_cons, Nat.add_mul, one_mul] at more ⊢
    omega

theorem from_string_length (documented : Documented qt) {bytes : Bytes} (ascii : Ascii bytes) :
    (from_string qt (word bytes)).payload.length = 4 * bytes.length := by
  simp [from_string, documented.toStdWString_ascii bytes ascii, List.length_flatMap, Function.comp_def, leBytes_length, Nat.mul_comm]

theorem sendable_few (documented : Documented qt) {question : Question} (few : (question.parameters qt).length ≤ 3)
    (small : ∀ parameter ∈ question.parameters qt, parameter.packed.payload.length ≤ 2 ^ 20) :
    Sendable qt question.command (question.parameters qt) := by
  have command : (text question.command).length ≤ 255 := by
    have names : (text "ReadProcFiles").length ≤ 255 ∧ (text "ReadProcLink").length ≤ 255 ∧ (text "ListProcFds").length ≤ 255 ∧
        (text "ReadProcMemory").length ≤ 255 := by decide
    cases question with
    | files => exact names.1
    | link => exact names.2.1
    | fds => exact names.2.2.1
    | memory => exact names.2.2.2
  have inner := packedEntries_le small
  have values : (question.parameters qt).length * (261 + 2 ^ 20) ≤ 3 * (261 + 2 ^ 20) := Nat.mul_le_mul_right _ few
  have outer : ∀ parameter ∈ request qt question.command (question.parameters qt), parameter.packed.payload.length ≤ 3 * (261 + 2 ^ 20) := by
    intro parameter member
    simp only [request, List.mem_cons, List.not_mem_nil, or_false] at member
    rcases member with rfl | rfl
    · have length := from_string_length documented (command_ascii question)
      simp only [name, length]
      omega
    · exact inner.trans values
  have whole := packedEntries_le outer
  have packet := to_packet_le ⟨VAR_TYPE_MAP, (packedEntries (request qt question.command (question.parameters qt))).flatMap write_entry⟩
  have two : (request qt question.command (question.parameters qt)).length = 2 := rfl
  rw [two] at whole
  rw [Sendable, MaxPacketSize]
  simp only at packet
  omega

theorem uint64_length (value : Nat) : (uint64 value).payload.length = 8 := by simp [uint64, leBytes_length]

theorem ascii_carried {literal : String} (short : (text literal).length ≤ 255) : (to_packet (ascii literal)).length < 2 ^ 32 := by
  have packet := to_packet_le (ascii literal)
  have payload : (ascii literal).payload = text literal := rfl
  rw [payload] at packet
  omega

variable {pid : UInt64} {leaves : List Bytes}

theorem link_carried {leaf : Bytes} (fits : Fits qt proc (.link pid leaf)) : Carried qt proc (.link pid leaf) := by
  refine ⟨fits, ?_⟩
  rw [Question.reply]
  split_ifs with nobody
  · exact ascii_carried (by decide)
  · rw [link_reply]
    cases proc.target (c_str (proc_path pid.toNat leaf)) with
    | none => exact (by decide : (to_packet none_variant).length < 2 ^ 32)
    | some target =>
      have packet := to_packet_le ⟨VAR_TYPE_ASCII, target.take (link_size 7)⟩
      have size : link_size 7 = 131072 := by decide
      simp only [List.length_take, size] at packet ⊢
      omega

theorem link_fits (documented : Documented qt) {leaf : Bytes} (listed : is_readable_link leaf = true)
    (short : leaf.length ≤ 2 ^ 18) : Fits qt proc (.link pid leaf) := by
  have length := from_string_length documented (ascii_of_readable_link listed)
  refine @sendable_few _ documented (.link pid leaf) (by simp [Question.parameters]) ?_
  simp only [Question.parameters, string, number, List.mem_cons, List.not_mem_nil, or_false, forall_eq_or_imp, forall_eq, uint64_length, length]
  omega

theorem fds_carried (documented : Documented qt) (fits : Fits qt proc (.fds pid)) : Carried qt proc (.fds pid) := by
  refine ⟨sendable_few documented (by simp [Question.parameters]) ?_, fits⟩
  simp [Question.parameters, number, uint64_length]

theorem memory_carried (documented : Documented qt) {pid address size : UInt64} : Carried qt proc (.memory pid address size) := by
  refine ⟨sendable_few documented (by simp [Question.parameters]) (by simp [Question.parameters, number, uint64_length]), ?_⟩
  rw [Question.reply]
  split_ifs with rejected none
  · exact ascii_carried (by decide)
  · exact (by decide : (to_packet none_variant).length < 2 ^ 32)
  · have packet := to_packet_le ⟨VAR_TYPE_BYTES, proc.bytes pid address size⟩
    have bound : (proc.bytes pid address size).length ≤ MaxMemorySize := by
      rw [Proc.bytes, if_neg rejected, List.length_take]
      simp only [not_or, not_lt, gt_iff_lt] at rejected
      omega
    simp only [MaxMemorySize] at bound
    simp only at packet
    omega

theorem call_replied (documented : Documented qt) {question : Question} (sendable : Sendable qt question.command (question.parameters qt))
    (small : (to_packet (question.reply proc)).length < 2 ^ 32) (replied : Replied kernel proc qt question)
    (bare : (question.reply proc).type = VAR_TYPE_EMPTY → (question.reply proc).payload = []) {value : QVariant}
    (becomes : Becomes qt (question.reply proc) value) :
    linux_helper_call qt kernel world question.command (asked (question.parameters qt)) = .ok (accepted value) := by
  obtain ⟨action, taken, replies⟩ := replied
  have reply := replies world
  rw [← reply] at small bare becomes
  exact linux_helper_call_eq documented (parameters_packs question) (command_ascii question) sendable taken
    ⟨bare, payload_lt_of_packet small⟩ small becomes

theorem file_replies (listed : ∀ leaf ∈ leaves, is_readable_leaf leaf = true)
    (short : ((file_entries proc leaves pid).flatMap write_entry).length < 2 ^ 32) :
    Replies qt (file_entries proc leaves pid) where
  writable := by
    refine ⟨fun pair member => ?_, short⟩
    have small := payload_lt_flatMap member
    obtain ⟨leaf, among, data, -, rfl⟩ := mem_file_entries.mp member
    obtain ⟨length, -, -⟩ := plain_iff.mp (plain_of_readable (listed leaf among))
    exact ⟨length, fun empty => absurd empty (by decide : VAR_TYPE_BYTES ≠ VAR_TYPE_EMPTY), small.trans short⟩
  names pair member := by
    obtain ⟨leaf, among, data, -, rfl⟩ := mem_file_entries.mp member
    obtain ⟨-, ascii, nul⟩ := plain_iff.mp (plain_of_readable (listed leaf among))
    exact ⟨leaf, rfl, ascii, nul⟩
  single left member right among same := by
    obtain ⟨leaf, -, data, read, rfl⟩ := mem_file_entries.mp member
    obtain ⟨other, -, others, readOther, rfl⟩ := mem_file_entries.mp among
    cases same
    cases read.symm.trans readOther
    rfl
  becomes pair member := by
    obtain ⟨leaf, -, data, -, rfl⟩ := mem_file_entries.mp member
    exact ⟨_, becomes_bytes data⟩

theorem decimal_injective {left right : UInt64} (same : decimal left.toNat = decimal right.toNat) : left = right := by
  have value := congrArg parse_uint same
  rw [parse_uint_decimal left.toNat_lt, parse_uint_decimal right.toNat_lt] at value
  exact UInt64.toNat_inj.mp value

theorem decimal_length (value : UInt64) : (decimal value.toNat).length < 256 := by
  have bound : (Nat.toDigits 10 value.toNat).length ≤ 20 := by
    rw [Nat.length_toDigits_le_iff (by decide) (by decide)]
    exact value.toNat_lt.trans (by decide)
  rw [decimal, List.length_map]
  omega

theorem decimal_ascii (value : Nat) : Ascii (decimal value) := by
  intro byte member
  have digit := (decimal_digits value).2 byte member
  simp only [is_digit, Bool.and_eq_true, decide_eq_true_eq, UInt8.le_iff_toNat_le] at digit
  have upper : byte.toNat ≤ 57 := digit.2
  exact UInt8.lt_iff_toNat_lt.mpr (show byte.toNat < 128 by omega)

theorem written_becomes {kind : Kind} {entries : List (Key × Packed)} {value : QVariant} (short : (entries.flatMap write_entry).length < 2 ^ 32)
    (becomes : Becomes qt (finish kind entries) value) : Becomes qt (written kind entries) value := by
  rw [finish_short short] at becomes
  exact becomes

theorem pid_replies (listed : ∀ leaf ∈ leaves, is_readable_leaf leaf = true) {pids : List UInt64}
    (short : ((pid_entries proc leaves pids).flatMap write_entry).length < 2 ^ 32) :
    Replies qt (pid_entries proc leaves pids) where
  writable := by
    refine ⟨fun pair member => ?_, short⟩
    have small := payload_lt_flatMap member
    obtain ⟨pid, -, -, rfl⟩ := mem_pid_entries.mp member
    exact ⟨decimal_length pid, fun empty => absurd empty (kind_type_ne_empty .map), small.trans short⟩
  names pair member := by
    obtain ⟨pid, -, -, rfl⟩ := mem_pid_entries.mp member
    exact ⟨_, rfl, decimal_ascii _, (decimal_digits _).plain⟩
  single left member right among same := by
    obtain ⟨pid, -, -, rfl⟩ := mem_pid_entries.mp member
    obtain ⟨other, -, -, rfl⟩ := mem_pid_entries.mp among
    obtain rfl := decimal_injective (Key.name.inj same)
    rfl
  becomes pair member := by
    obtain ⟨pid, asked, -, rfl⟩ := mem_pid_entries.mp member
    have inner := pid_entries_short short asked
    exact ⟨_, written_becomes inner (becomes_map (file_replies listed inner))⟩

theorem find_files_of (documented : Documented qt) (listed : ∀ leaf ∈ leaves, is_readable_leaf leaf = true)
    (short : ((file_entries proc leaves pid).flatMap write_entry).length < 2 ^ 32) {leaf : QString} {data : Bytes} :
    find leaf (files_of qt (.map (shown_entries qt (file_entries proc leaves pid)))) = some data ↔
      ∃ name ∈ leaves, leaf = word name ∧ proc.file pid name = some data := by
  have sorted : Sorted ((shown_entries qt (file_entries proc leaves pid)).map (fun pair => (pair.1, qt.toByteArray pair.2))) :=
    sorted_map (f := fun _ value => qt.toByteArray value) (sorted_filled _)
  rw [files_of, documented.map, find_filled (single_of_sorted sorted), List.mem_map]
  constructor
  · rintro ⟨⟨string, value⟩, member, same⟩
    cases same
    obtain ⟨name, packed, entry, rfl, rfl⟩ := (mem_shown_entries documented (file_replies listed short)).mp member
    obtain ⟨leaf, among, data, read, spelled⟩ := mem_file_entries.mp entry
    cases spelled
    rw [(becomes_bytes data).shown_eq, documented.byteArray]
    exact ⟨name, among, rfl, read⟩
  · rintro ⟨name, among, rfl, read⟩
    have entry := mem_file_entries.mpr ⟨name, among, data, read, rfl⟩
    refine ⟨(word name, .byteArray data), ?_, by rw [documented.byteArray]⟩
    exact (mem_shown_entries documented (file_replies listed short)).mpr ⟨name, _, entry, rfl, (becomes_bytes data).shown_eq⟩

/-- What `LinuxHelperReadProcFiles` makes of the reply. -/
theorem find_pids (documented : Documented qt) (listed : ∀ leaf ∈ leaves, is_readable_leaf leaf = true)
    {pids : List UInt64} (short : ((pid_entries proc leaves pids).flatMap write_entry).length < 2 ^ 32) {pid : Nat}
    {files : List (QString × Bytes)} :
    find pid (filled ((shown_entries qt (pid_entries proc leaves pids)).filterMap
        (fun pair => (qt.toULongLong pair.1).map (fun pid => (pid, files_of qt pair.2))))) = some files ↔
      ∃ asked ∈ pids, file_entries proc leaves asked ≠ [] ∧ pid = asked.toNat ∧
        files = files_of qt (.map (shown_entries qt (file_entries proc leaves asked))) := by
  have members (pid : Nat) (files : List (QString × Bytes)) :
      (pid, files) ∈ (shown_entries qt (pid_entries proc leaves pids)).filterMap
        (fun pair => (qt.toULongLong pair.1).map (fun pid => (pid, files_of qt pair.2))) ↔
      ∃ asked ∈ pids, file_entries proc leaves asked ≠ [] ∧ pid = asked.toNat ∧
        files = files_of qt (.map (shown_entries qt (file_entries proc leaves asked))) := by
    have inner (asked : UInt64) (among : asked ∈ pids) :
        shown qt (written .map (file_entries proc leaves asked)) = .map (shown_entries qt (file_entries proc leaves asked)) := by
      have fits := pid_entries_short short among
      exact (written_becomes fits (becomes_map (file_replies listed fits))).shown_eq
    rw [List.mem_filterMap]
    constructor
    · rintro ⟨⟨string, value⟩, member, parsed⟩
      obtain ⟨name, packed, entry, rfl, rfl⟩ := (mem_shown_entries documented (pid_replies listed short)).mp member
      obtain ⟨asked, among, some, spelled⟩ := mem_pid_entries.mp entry
      cases spelled
      rw [documented.number _ asked.toNat_lt, inner asked among] at parsed
      cases parsed
      exact ⟨asked, among, some, rfl, rfl⟩
    · rintro ⟨asked, among, some, rfl, rfl⟩
      have entry := mem_pid_entries.mpr ⟨asked, among, some, rfl⟩
      refine ⟨(word (decimal asked.toNat), .map (shown_entries qt (file_entries proc leaves asked))), ?_, ?_⟩
      · exact (mem_shown_entries documented (pid_replies listed short)).mpr ⟨_, _, entry, rfl, inner asked among⟩
      · simp only [documented.number _ asked.toNat_lt, Option.map_some]
  have single : Single ((shown_entries qt (pid_entries proc leaves pids)).filterMap
      (fun pair => (qt.toULongLong pair.1).map (fun pid => (pid, files_of qt pair.2)))) := by
    rintro ⟨left, leftFiles⟩ member ⟨right, rightFiles⟩ among same
    obtain ⟨first, -, -, rfl, rfl⟩ := (members _ _).mp member
    obtain ⟨second, -, -, rfl, rfl⟩ := (members _ _).mp among
    obtain rfl := UInt64.toNat_inj.mp same
    rfl
  rw [find_filled single, members]

theorem files_answered (documented : Documented qt) (shows : Shows kernel proc) {pids : List UInt64}
    (listed : (Question.files pids leaves).Listed) (fits : Fits qt proc (.files pids leaves)) :
    Answered qt kernel world proc (.files pids leaves) := by
  by_cases idle : pids = [] ∨ leaves = []
  · refine ⟨[], ?_, fun pid leaf data => ?_, fun pid => by simp⟩
    · simp [helper_read_proc_files, idle]
    · rcases idle with rfl | rfl <;> simp
  · obtain ⟨sendable, small⟩ : Carried qt proc (.files pids leaves) := by
      rcases fits with nobody | nothing | carried
      · exact absurd (.inl nobody) idle
      · exact absurd (.inr nothing) idle
      · exact carried
    have short := payload_lt_of_packet small
    have replied := files_replied documented shows listed (sendable_inner sendable) short
    have called := @call_replied _ _ _ world documented _ sendable small replied (fun empty => absurd empty (kind_type_ne_empty .map)) _
      (written_becomes short (becomes_map (pid_replies listed short)))
    have result : helper_read_proc_files qt kernel world (pids.map UInt64.toNat) (leaves.map word) =
        .ok (filled ((shown_entries qt (pid_entries proc leaves pids)).filterMap
          (fun pair => (qt.toULongLong pair.1).map (fun pid => (pid, files_of qt pair.2))))) := by
      change linux_helper_call qt kernel world "ReadProcFiles" [(name "Leaves", .stringList (leaves.map word)),
        (name "Pids", .list ((pids.map UInt64.toNat).map .uLongLong))] = _ at called
      have some : ¬ (pids.map UInt64.toNat = [] ∨ leaves.map word = []) := by simpa using idle
      simp only [helper_read_proc_files, some, if_false, called, accepted, documented.map, bind, Except.bind, pure, Except.pure]
    refine ⟨_, result, fun pid leaf data => ?_, fun pid nothing => ?_⟩
    · simp only [find_pids documented listed short]
      constructor
      · rintro ⟨files, ⟨asked, among, -, rfl, rfl⟩, found⟩
        obtain ⟨name, member, rfl, read⟩ := (find_files_of documented listed (pid_entries_short short among)).mp found
        exact ⟨asked, among, name, member, rfl, rfl, read⟩
      · rintro ⟨asked, among, name, member, rfl, rfl, read⟩
        have entry := mem_file_entries.mpr ⟨name, member, data, read, rfl⟩
        refine ⟨_, ⟨asked, among, List.ne_nil_of_mem entry, rfl, rfl⟩, ?_⟩
        exact (find_files_of documented listed (pid_entries_short short among)).mpr ⟨name, member, rfl, read⟩
    · obtain ⟨asked, among, some, rfl, none⟩ := (find_pids documented listed short).mp nothing
      obtain ⟨pair, entry⟩ := List.exists_mem_of_ne_nil _ some
      obtain ⟨leaf, member, data, read, -⟩ := mem_file_entries.mp entry
      have found := (find_files_of documented listed (pid_entries_short short among)).mpr ⟨leaf, member, rfl, read⟩
      simp [← none] at found

theorem becomes_none : Becomes qt none_variant .invalid := becomes_plain rfl rfl

theorem local8Bit_nil (documented : Documented qt) : qt.fromLocal8Bit [] = [] := (local8Bit_word_iff documented []).mpr (by simp [Ascii])

theorem accepted_text (documented : Documented qt) (target : Bytes) :
    qt.toString (accepted (.string (qt.fromLatin1 target))) =
      if target = text "Invalid Parameters" ∨ target = text "Unknown Command" then [] else word target := by
  have same (literal : String) : word target = word (text literal) ↔ target = text literal := word_injective.eq_iff
  simp only [accepted, documented.latin1, invalid_parameters, unknown_command, same]
  by_cases rejection : target = text "Invalid Parameters" ∨ target = text "Unknown Command"
  · rw [if_pos rejection, if_pos rejection, documented.string_invalid]
  · rw [if_neg rejection, if_neg rejection, documented.string]

theorem link_answered_iff (documented : Documented qt) (shows : Shows kernel proc) {leaf : Bytes}
    (listed : (Question.link pid leaf).Listed) (fits : Fits qt proc (.link pid leaf)) :
    Answered qt kernel world proc (.link pid leaf) ↔ Spelled proc (.link pid leaf) := by
  obtain ⟨sendable, small⟩ := link_carried fits
  have replied := link_replied documented shows listed (ascii_of_readable_link listed) (sendable_inner sendable)
  have nothing : Ascii ([] : Bytes) ∧ [] ≠ text "Invalid Parameters" ∧ [] ≠ text "Unknown Command" := by
    exact ⟨by simp [Ascii], by decide, by decide⟩
  have returned {value : QVariant} (bare : (Question.reply proc (.link pid leaf)).type = VAR_TYPE_EMPTY → (Question.reply proc (.link pid leaf)).payload = [])
      (becomes : Becomes qt (Question.reply proc (.link pid leaf)) value) :
      helper_read_proc_link qt kernel world pid.toNat (word leaf) = .ok (qt.toString (accepted value)) := by
    have called := @call_replied _ _ _ world documented _ sendable small replied bare _ becomes
    change linux_helper_call qt kernel world "ReadProcLink" [(name "Leaf", .string (word leaf)), (name "ProcessId", .uLongLong pid.toNat)] = _ at called
    simp only [helper_read_proc_link, called, bind, Except.bind, pure, Except.pure]
  simp only [Answered, Spelled]
  by_cases nobody : pid = 0
  · have reply : Question.reply proc (.link pid leaf) = ascii "Invalid Parameters" := if_pos nobody
    rw [reply] at returned
    rw [returned (fun empty => absurd empty (by decide : VAR_TYPE_ASCII ≠ VAR_TYPE_EMPTY)) (becomes_ascii _), accepted_text documented,
      Proc.link, if_pos nobody, local8Bit_nil documented]
    simpa using nothing
  · have reply : Question.reply proc (.link pid leaf) = link_reply proc pid leaf := if_neg nobody
    rw [reply, link_reply] at returned
    rw [Proc.link, if_neg nobody]
    cases read : proc.target (c_str (proc_path pid.toNat leaf)) with
    | none =>
      rw [read] at returned
      rw [returned (fun _ => rfl) becomes_none]
      simpa [accepted, documented.string_invalid, local8Bit_nil documented] using nothing
    | some target =>
      rw [read] at returned
      rw [returned (fun empty => absurd empty (by decide : VAR_TYPE_ASCII ≠ VAR_TYPE_EMPTY)) (becomes_ascii _), accepted_text documented,
        Option.getD_some, Except.ok.injEq]
      by_cases rejection : target.take (link_size 7) = text "Invalid Parameters" ∨ target.take (link_size 7) = text "Unknown Command"
      · have plain : plain (text "Invalid Parameters") = true ∧ plain (text "Unknown Command") = true := by decide
        have lost : qt.fromLocal8Bit (target.take (link_size 7)) ≠ [] := by
          rcases rejection with spelled | spelled
          · rw [spelled, (local8Bit_word_iff documented _).mpr (plain_iff.mp plain.1).2.1]
            decide
          · rw [spelled, (local8Bit_word_iff documented _).mpr (plain_iff.mp plain.2).2.1]
            decide
        rw [if_pos rejection]
        constructor
        · exact fun same => absurd same.symm lost
        · exact fun spelled => absurd rejection (not_or.mpr spelled.2)
      · rw [if_neg rejection, eq_comm, local8Bit_word_iff documented]
        exact ⟨fun ascii => ⟨ascii, not_or.mp rejection⟩, And.left⟩

theorem memory_answered (documented : Documented qt) (shows : Shows kernel proc) {address size : UInt64} :
    Answered qt kernel world proc (.memory pid address size) := by
  obtain ⟨sendable, small⟩ := @memory_carried _ proc documented pid address size
  have replied := memory_replied shows (sendable_inner sendable)
  have returned {value : QVariant} (bare : (Question.reply proc (.memory pid address size)).type = VAR_TYPE_EMPTY →
        (Question.reply proc (.memory pid address size)).payload = [])
      (becomes : Becomes qt (Question.reply proc (.memory pid address size)) value) :
      helper_read_memory qt kernel world pid.toNat address.toNat size.toNat = .ok (qt.toByteArray (accepted value)) := by
    have called := @call_replied _ _ _ world documented _ sendable small replied bare _ becomes
    change linux_helper_call qt kernel world "ReadProcMemory" [(name "Address", .uLongLong address.toNat), (name "ProcessId", .uLongLong pid.toNat),
      (name "Size", .uLongLong size.toNat)] = _ at called
    simp only [helper_read_memory, called, bind, Except.bind, pure, Except.pure]
  rw [Question.reply] at returned
  simp only [Answered]
  by_cases rejected : pid = 0 ∨ size = 0 ∨ size.toNat > MaxMemorySize
  · rw [if_pos rejected] at returned
    have invalid : accepted (.string (qt.fromLatin1 (text "Invalid Parameters"))) = .invalid := by
      simp [accepted, documented.latin1, invalid_parameters]
    rw [returned (fun empty => absurd empty (by decide : VAR_TYPE_ASCII ≠ VAR_TYPE_EMPTY)) (becomes_ascii _), invalid, Proc.bytes, if_pos rejected,
      documented.byteArray_invalid]
  · rw [if_neg rejected] at returned
    by_cases none : proc.bytes pid address size = []
    · rw [if_pos none] at returned
      rw [returned (fun _ => rfl) becomes_none, none]
      exact congrArg _ documented.byteArray_invalid
    · rw [if_neg none] at returned
      rw [returned (fun empty => absurd empty (by decide : VAR_TYPE_BYTES ≠ VAR_TYPE_EMPTY)) (becomes_bytes _)]
      exact congrArg _ (documented.byteArray _)

theorem mem_fd_entry {fd : UInt64} {pair : Key × Packed} :
    pair ∈ fd_entry proc pid fd ↔ pair = named "Fd" (uint64 fd.toNat) ∨
      (∃ target, proc.fd_target pid fd = some target ∧ pair = named "Target" ⟨VAR_TYPE_ASCII, target⟩) ∨
      ∃ info, proc.fd_info pid fd = some info ∧ pair = named "Info" ⟨VAR_TYPE_BYTES, info⟩ := by
  rw [fd_entry, List.mem_append, List.mem_append, List.mem_singleton, or_assoc]
  cases proc.fd_target pid fd <;> cases proc.fd_info pid fd <;> simp

theorem named_inj {literal other : String} {packed variant : Packed} :
    named literal packed = named other variant ↔ text literal = text other ∧ packed = variant := by
  simp [named]

theorem fd_names : text "Fd" ≠ text "Target" ∧ text "Fd" ≠ text "Info" ∧ text "Target" ≠ text "Info" := by decide

theorem fd_replies {fd : UInt64} (short : ((fd_entry proc pid fd).flatMap write_entry).length < 2 ^ 32) :
    Replies qt (fd_entry proc pid fd) := by
  have names : plain (text "Fd") = true ∧ plain (text "Target") = true ∧ plain (text "Info") = true := by decide
  have each : ∀ pair ∈ fd_entry proc pid fd, ∃ literal packed value, pair = named literal packed ∧ plain (text literal) = true ∧
      packed.type ≠ VAR_TYPE_EMPTY ∧ Becomes qt packed value := by
    intro pair member
    rcases mem_fd_entry.mp member with rfl | ⟨target, -, rfl⟩ | ⟨info, -, rfl⟩
    · exact ⟨_, _, _, rfl, names.1, (by decide : VAR_TYPE_UINT ≠ VAR_TYPE_EMPTY), becomes_uint64 fd.toNat_lt⟩
    · exact ⟨_, _, _, rfl, names.2.1, (by decide : VAR_TYPE_ASCII ≠ VAR_TYPE_EMPTY), becomes_ascii target⟩
    · exact ⟨_, _, _, rfl, names.2.2, (by decide : VAR_TYPE_BYTES ≠ VAR_TYPE_EMPTY), becomes_bytes info⟩
  refine ⟨⟨fun pair member => ?_, short⟩, fun pair member => ?_, fun left member right among same => ?_, fun pair member => ?_⟩
  · have small := payload_lt_flatMap member
    obtain ⟨literal, packed, value, rfl, name, bare, -⟩ := each pair member
    exact named_fits (plain_iff.mp name).1 ⟨fun empty => absurd empty bare, small.trans short⟩
  · obtain ⟨literal, packed, value, rfl, name, -, -⟩ := each pair member
    exact ⟨text literal, rfl, (plain_iff.mp name).2⟩
  · obtain ⟨first, second, third⟩ := fd_names
    have other (literal wrong : String) (different : text literal ≠ text wrong) (packed variant : Packed)
        (equal : (named literal packed).1 = (named wrong variant).1) : False := different (Key.name.inj equal)
    rcases mem_fd_entry.mp member with rfl | ⟨target, stands, rfl⟩ | ⟨info, stands, rfl⟩ <;>
      rcases mem_fd_entry.mp among with rfl | ⟨target', again, rfl⟩ | ⟨info', again, rfl⟩
    · rfl
    · exact (other _ _ first _ _ same).elim
    · exact (other _ _ second _ _ same).elim
    · exact (other _ _ first.symm _ _ same).elim
    · cases stands.symm.trans again
      rfl
    · exact (other _ _ third _ _ same).elim
    · exact (other _ _ second.symm _ _ same).elim
    · exact (other _ _ third.symm _ _ same).elim
    · cases stands.symm.trans again
      rfl
  · obtain ⟨literal, packed, value, rfl, -, -, becomes⟩ := each pair member
    exact ⟨value, becomes⟩

theorem find_named (documented : Documented qt) {entries : List (Key × Packed)} (replies : Replies qt entries) {literal : String} {value : QVariant} :
    find (name literal) (shown_entries qt entries) = some value ↔ ∃ packed, named literal packed ∈ entries ∧ shown qt packed = value := by
  have listed : find (name literal) (shown_entries qt entries) = some value ↔ (name literal, value) ∈ shown_entries qt entries :=
    ⟨find_mem, find_of_mem (sorted_filled _)⟩
  rw [listed, mem_shown_entries documented replies]
  constructor
  · rintro ⟨spelled, packed, member, same, rfl⟩
    obtain rfl := word_injective same
    exact ⟨packed, member, rfl⟩
  · rintro ⟨packed, member, rfl⟩
    exact ⟨_, packed, member, rfl, rfl⟩

theorem fd_shown (documented : Documented qt) {fd : UInt64}
    (short : ((fd_entry proc pid fd).flatMap write_entry).length < 2 ^ 32) :
    find (name "Fd") (shown_entries qt (fd_entry proc pid fd)) = some (.uLongLong fd.toNat) ∧
      find (name "Target") (shown_entries qt (fd_entry proc pid fd)) =
        (proc.fd_target pid fd).map (fun target => .string (qt.fromLatin1 target)) ∧
      find (name "Info") (shown_entries qt (fd_entry proc pid fd)) = (proc.fd_info pid fd).map .byteArray := by
  obtain ⟨first, second, third⟩ := fd_names
  have replies : Replies qt (fd_entry proc pid fd) := fd_replies short
  refine ⟨?_, ?_, ?_⟩
  · refine (find_named documented replies).mpr ⟨uint64 fd.toNat, mem_fd_entry.mpr (.inl rfl), ?_⟩
    exact (becomes_uint64 fd.toNat_lt).shown_eq
  · refine Option.ext fun value => (find_named documented replies).trans ?_
    simp only [mem_fd_entry, named_inj, first.symm, third, true_and, false_and, and_false, exists_false, false_or, or_false, Option.map_eq_some_iff]
    constructor
    · rintro ⟨_, ⟨target, stands, rfl⟩, rfl⟩
      exact ⟨target, stands, (becomes_ascii target).shown_eq.symm⟩
    · rintro ⟨target, stands, rfl⟩
      exact ⟨_, ⟨target, stands, rfl⟩, (becomes_ascii target).shown_eq⟩
  · refine Option.ext fun value => (find_named documented replies).trans ?_
    simp only [mem_fd_entry, named_inj, second.symm, third.symm, true_and, false_and, and_false, exists_false, false_or, Option.map_eq_some_iff]
    constructor
    · rintro ⟨_, ⟨info, stands, rfl⟩, rfl⟩
      exact ⟨info, stands, (becomes_bytes info).shown_eq.symm⟩
    · rintro ⟨info, stands, rfl⟩
      exact ⟨_, ⟨info, stands, rfl⟩, (becomes_bytes info).shown_eq⟩

theorem fds_listed (documented : Documented qt) (shows : Shows kernel proc) {pid : UInt64} (fits : Fits qt proc (.fds pid)) :
    helper_list_fds qt kernel world pid.toNat = .ok ((proc.descriptors pid).map (fun fd => shown_entries qt (fd_entry proc pid fd))) := by
  obtain ⟨sendable, small⟩ := fds_carried documented fits
  have short (somebody : pid ≠ 0) : ((fds_entries proc pid ((proc.fds pid).getD [])).flatMap write_entry).length < 2 ^ 32 := by
    have reply : Question.reply proc (.fds pid) = written .list (fds_entries proc pid ((proc.fds pid).getD [])) := if_neg somebody
    rw [reply] at small
    exact payload_lt_of_packet small
  have replied := fds_replied shows (sendable_inner sendable) short
  have returned {value : QVariant} (bare : (Question.reply proc (.fds pid)).type = VAR_TYPE_EMPTY → (Question.reply proc (.fds pid)).payload = [])
      (becomes : Becomes qt (Question.reply proc (.fds pid)) value) :
      helper_list_fds qt kernel world pid.toNat = .ok ((qt.toList (accepted value)).map qt.toMap) := by
    have called := @call_replied _ _ _ world documented _ sendable small replied bare _ becomes
    change linux_helper_call qt kernel world "ListProcFds" [(name "ProcessId", .uLongLong pid.toNat)] = _ at called
    simp only [helper_list_fds, called, bind, Except.bind, pure, Except.pure]
  rw [Question.reply] at returned
  by_cases nobody : pid = 0
  · rw [if_pos nobody] at returned
    have invalid : accepted (.string (qt.fromLatin1 (text "Invalid Parameters"))) = .invalid := by
      simp [accepted, documented.latin1, invalid_parameters]
    rw [returned (fun empty => absurd empty (by decide : VAR_TYPE_ASCII ≠ VAR_TYPE_EMPTY)) (becomes_ascii _), invalid, documented.list_invalid,
      Proc.descriptors, if_pos nobody]
    rfl
  · rw [if_neg nobody] at returned
    have whole := short nobody
    have inner (fd : UInt64) (member : fd ∈ (proc.fds pid).getD []) :
        Becomes qt (written .map (fd_entry proc pid fd)) (.map (shown_entries qt (fd_entry proc pid fd))) :=
      written_becomes (fds_entries_short whole member) (becomes_map (fd_replies (fds_entries_short whole member)))
    have writable : Writable .list (fds_entries proc pid ((proc.fds pid).getD [])) := by
      refine ⟨fun pair member => ?_, whole⟩
      have smaller := payload_lt_flatMap member
      obtain ⟨fd, among, rfl⟩ := mem_fds_entries.mp member
      exact ⟨trivial, fun empty => absurd empty (kind_type_ne_empty .map), smaller.trans whole⟩
    have becomes : Becomes qt (written .list (fds_entries proc pid ((proc.fds pid).getD []))) _ :=
      written_becomes whole (becomes_list writable fun pair member => by
        obtain ⟨fd, among, rfl⟩ := mem_fds_entries.mp member
        exact ⟨_, inner fd among⟩)
    have kept (items : List QVariant) : accepted (.list items) = .list items := rfl
    rw [returned (fun empty => absurd empty (kind_type_ne_empty .list)) becomes, Proc.descriptors, if_neg nobody, kept, documented.list, fds_entries,
      List.map_map, List.map_map]
    refine congrArg _ (List.map_congr_left fun fd member => ?_)
    rw [Function.comp_apply, Function.comp_apply, (inner fd member).shown_eq, documented.map]

theorem fds_answered_iff (documented : Documented qt) (shows : Shows kernel proc) (fits : Fits qt proc (.fds pid)) :
    Answered qt kernel world proc (.fds pid) ↔ Spelled proc (.fds pid) := by
  have listed := @fds_listed _ _ _ world documented shows _ fits
  have short : ∀ fd ∈ proc.descriptors pid, ((fd_entry proc pid fd).flatMap write_entry).length < 2 ^ 32 := by
    intro fd member
    have small : (to_packet (Question.reply proc (.fds pid))).length < 2 ^ 32 := fits
    by_cases nobody : pid = 0
    · simp [Proc.descriptors, nobody] at member
    · rw [Proc.descriptors, if_neg nobody] at member
      rw [Question.reply, if_neg nobody] at small
      exact fds_entries_short (payload_lt_of_packet small) member
  simp only [Answered, Spelled, listed, Except.ok.injEq, exists_eq_left', List.map_map, List.map_inj_left, Function.comp_apply]
  refine forall₂_congr fun fd member => ?_
  obtain ⟨number, target, info⟩ := fd_shown documented (short fd member)
  rw [number, target, info, Prod.mk.injEq, Prod.mk.injEq]
  simp only [true_and, and_true]
  cases proc.fd_target pid fd with
  | none => simp
  | some target => simp [documented.latin1, eq_comm, ← local8Bit_word_iff documented]

end Back

/-! ## One process with one link -/

/-- UTF-8 as far as its letters of two bytes. -/
def decode_utf8 : Bytes → QString
  | [] => []
  | first :: rest =>
    if first < 0x80 then first.toUInt16 :: decode_utf8 rest
    else
      match rest with
      | [] => [0xFFFD]
      | second :: behind =>
        if 0xC2 ≤ first ∧ first < 0xE0 ∧ 0x80 ≤ second ∧ second < 0xC0 then
          ((first &&& 0x1F).toUInt16 <<< 6 ||| (second &&& 0x3F).toUInt16) :: decode_utf8 behind
        else 0xFFFD :: decode_utf8 (second :: behind)

def smallQt : Qt where
  toUtf8 string := string.map UInt16.toUInt8
  fromUtf8 := decode_utf8
  fromLatin1 := word
  fromLocal8Bit := decode_utf8
  toStdWString string := string.map UInt16.toUInt32
  fromWCharArray points := points.map UInt32.toUInt16
  toULongLong string :=
    let digits := string.map UInt16.toUInt8
    if digits = decimal (parse_uint digits) then some (parse_uint digits) else none
  toMap value := match value with
    | .map entries => entries
    | _ => []
  toList value := match value with
    | .list items => items
    | _ => []
  toByteArray value := match value with
    | .byteArray bytes => bytes
    | _ => []
  toString value := match value with
    | .string text => text
    | _ => []

theorem decode_utf8_ascii {bytes : Bytes} (ascii : Ascii bytes) : decode_utf8 bytes = word bytes := by
  fun_induction decode_utf8 bytes with
  | case1 => rfl
  | case2 first rest low ih =>
    rw [ih (fun other member => ascii other (List.mem_cons_of_mem _ member))]
    rfl
  | case3 first high => exact absurd (ascii first (by simp)) high
  | case4 first high => exact absurd (ascii first (by simp)) high
  | case5 first high => exact absurd (ascii first (by simp)) high

theorem decode_utf8_length (bytes : Bytes) : (decode_utf8 bytes).length ≤ bytes.length := by
  fun_induction decode_utf8 bytes with
  | case1 => simp
  | case2 first rest low ih => simpa using ih
  | case3 first high => simp
  | case4 first high second behind pair ih =>
    simp only [List.length_cons]
    omega
  | case5 first high second behind broken ih => simpa using ih

theorem decode_utf8_beyond (bytes : Bytes) (beyond : ¬ Ascii bytes) :
    (decode_utf8 bytes).length < bytes.length ∨ 0xFFFD ∈ decode_utf8 bytes := by
  fun_induction decode_utf8 bytes with
  | case1 => exact absurd (by simp [Ascii]) beyond
  | case2 first rest low ih =>
    have later : ¬ Ascii rest := fun ascii => beyond (List.forall_mem_cons.mpr ⟨low, ascii⟩)
    rcases ih later with shorter | replaced
    · exact .inl (by simpa using shorter)
    · exact .inr (List.mem_cons_of_mem _ replaced)
  | case3 first high => simp
  | case4 first high second behind pair ih =>
    have shorter := decode_utf8_length behind
    exact .inl (by simp only [List.length_cons]; omega)
  | case5 first high second behind broken ih => simp

theorem narrow_word (bytes : Bytes) : (word bytes).map UInt16.toUInt8 = bytes := by
  rw [word, List.map_map]
  conv_rhs => rw [← List.map_id bytes]
  exact List.map_congr_left fun byte _ => by simp

theorem documented_smallQt : Documented smallQt where
  latin1 _ := rfl
  fromUtf8_ascii _ ascii := decode_utf8_ascii ascii
  fromUtf8_beyond := decode_utf8_beyond
  toUtf8_ascii bytes _ := narrow_word bytes
  toStdWString_ascii bytes _ := by
    simp only [smallQt, word, List.map_map]
    exact List.map_congr_left fun byte _ => by simp
  local_utf8 _ := rfl
  number value fits := by simp [smallQt, narrow_word, parse_uint_decimal fits]
  map _ := rfl
  map_invalid := rfl
  list _ := rfl
  list_invalid := rfl
  byteArray _ := rfl
  byteArray_invalid := rfl
  string _ := rfl
  string_invalid := rfl

/-- Every link of every process has one target, and nothing else can be read. -/
def linked (target : Bytes) : Proc where
  content _ := none
  target _ := some target
  fds _ := none
  memory _ _ := none

def linkedKernel (target : Bytes) : Kernel where
  openFile _ _ := none
  openMemory _ _ := false
  pread _ _ _ := none
  readlink _ _ := some target
  opendir _ _ := none
  attach _ _ := ⟨false, false, false, none, none, 0⟩
  dwfl _ _ _ := ⟨[], false, false, 0, [], 0, none⟩
  getpid := 1
  getuid := 0
  geteuid := 0

theorem shows_linked {target : Bytes} (nul : (0 : UInt8) ∉ target) : Shows (linkedKernel target) (linked target) where
  content _ _ := rfl
  small _ _ _ opened := by simp [linkedKernel] at opened
  target _ _ := rfl
  nul _ _ read := by
    cases read
    exact nul
  fds _ _ := rfl
  memory _ _ _ _ := by simp [linkedKernel, linked]

/-- `/home/ü` in UTF-8. -/
def home : Bytes := text "/home/" ++ [0xC3, 0xBC]

end TaskExplorer.HelperAnswers
