import TaskExplorer.IpcSocket
import TaskExplorer.VariantCache

/-!
# The commands of the privileged helper

A request is a variant that was decoded from a packet. A handler first takes its
parameters out of it, which may raise an exception, and then asks the kernel. What
the kernel and libdwfl answer is an input, and may depend on every call so far; the
calls are recorded.
-/

namespace TaskExplorer.HelperCommand
open Codec VariantFormat VariantContainer
open IpcSocket (get_int)
open VariantCache (cut cut_short)

/-- The bytes of a literal of the source; all of them are ASCII. -/
def text (literal : String) : Bytes := literal.toList.map (fun letter => UInt8.ofNat letter.toNat)

theorem bind_ok_iff {ε α β : Type} {first : Except ε α} {second : α → Except ε β} {result : β} :
    (first >>= second) = .ok result ↔ ∃ value, first = .ok value ∧ second value = .ok result := by
  cases first with
  | error raised => simp [bind, Except.bind]
  | ok value => simp [bind, Except.bind]

/-! ## Reading a request -/

/-- A `CVariant` that was never given a value. -/
def none_variant : Packed := ⟨VAR_TYPE_EMPTY, []⟩

/-- `CVariant::Find(Name)`, with the variant it returns when there is none. -/
def find (variant : Packed) (name : String) : Except CException Packed :=
  if variant.type ≠ VAR_TYPE_MAP then .ok none_variant
  else do
    let found ← find_raw .map variant.payload (.name (text name))
    return found.getD none_variant

/-- `ReadRawList`: the callback sees each item before the next is read. -/
def read_raw_list {α : Type} (callback : Packed → Except CException α) (variant : Packed) : Except CException (List α) :=
  if variant.type ≠ VAR_TYPE_LIST then .ok []
  else do
    let items ← (raw_entries .list variant.payload).1.mapM (fun pair => callback pair.2)
    match (raw_entries .list variant.payload).2 with
    | .pending _ => return items
    | .failed raised => throw raised

/-- `std::wstring((wchar_t*)Payload, Size / sizeof(wchar_t))`. -/
def wide : Bytes → List UInt32
  | a :: b :: c :: d :: rest => UInt32.ofNat (leNat [a, b, c, d]) :: wide rest
  | _ => []

/-- The loop of `Utf8ToWStr`, with its `w` and `bytes`. -/
def utf8_to_wstr (w : UInt32) (bytes : Nat) : Bytes → List UInt32
  | [] => if bytes ≠ 0 then [0xFFFD] else []
  | c :: rest =>
    if c ≤ 0x7f then (if bytes ≠ 0 then [0xFFFD] else []) ++ c.toUInt32 :: utf8_to_wstr w 0 rest
    else if c ≤ 0xbf then
      if bytes = 0 then 0xFFFD :: utf8_to_wstr w 0 rest
      else if bytes = 1 then (w <<< 6 ||| (c &&& 0x3f).toUInt32) :: utf8_to_wstr (w <<< 6 ||| (c &&& 0x3f).toUInt32) 0 rest
      else utf8_to_wstr (w <<< 6 ||| (c &&& 0x3f).toUInt32) (bytes - 1) rest
    else if c ≤ 0xdf then utf8_to_wstr (c &&& 0x1f).toUInt32 1 rest
    else if c ≤ 0xef then utf8_to_wstr (c &&& 0x0f).toUInt32 2 rest
    else if c ≤ 0xf7 then utf8_to_wstr (c &&& 0x07).toUInt32 3 rest
    else 0xFFFD :: utf8_to_wstr w 0 rest

/-- `WStrToAscii`. A `wchar_t` is a signed 32-bit number, and a negative one is not
    above `0xff`. -/
def wstr_to_ascii (wstr : List UInt32) : Bytes := wstr.map (fun w => if w ≤ 0xff ∨ 0x80000000 ≤ w then w.toUInt8 else 63)

/-- `ToWString`, for the two types that `ToString` uses it for. -/
def to_wstring (variant : Packed) : List UInt32 :=
  if variant.type = VAR_TYPE_UNICODE then wide variant.payload else utf8_to_wstr 0 0 variant.payload

def to_string (variant : Packed) : Except CException Bytes :=
  if variant.type = VAR_TYPE_ASCII ∨ variant.type = VAR_TYPE_BYTES then .ok variant.payload
  else if variant.type = VAR_TYPE_UTF8 ∨ variant.type = VAR_TYPE_UNICODE then .ok (wstr_to_ascii (to_wstring variant))
  else if variant.type ≠ VAR_TYPE_EMPTY then .error { line := "std::string Value can not be pulled form a incomatible type" }
  else .ok []

def to_uint64 (variant : Packed) : Except CException Nat := get_int 8 variant
def to_uint32 (variant : Packed) : Except CException Nat := get_int 4 variant

/-! ## Writing a reply -/

def ascii (literal : String) : Packed := ⟨VAR_TYPE_ASCII, text literal⟩
def uint64 (value : Nat) : Packed := ⟨VAR_TYPE_UINT, leBytes 8 value⟩
def uint32 (value : Nat) : Packed := ⟨VAR_TYPE_UINT, leBytes 4 value⟩
/-- The bytes of a negative `sint32` are those of its residue. -/
def sint32 (value : Int) : Packed := ⟨VAR_TYPE_SINT, leBytes 4 (value % 2 ^ 32).toNat⟩
def bool (value : Bool) : Packed := ⟨VAR_TYPE_SINT, [if value then 1 else 0]⟩
def named (name : String) (variant : Packed) : Key × Packed := (.name (text name), variant)

/-- `BeginMap` or `BeginList`, a `WriteVariant` or `Write` for each entry, and `Finish`. -/
def finish (kind : Kind) (entries : List (Key × Packed)) : Packed := ⟨kind.type, cut (entries.flatMap write_entry)⟩

/-! ## The kernel -/

inductive OpenMode where
  | O_RDONLY
  | O_WRONLY
  | O_RDWR
deriving DecidableEq, Repr

inductive Ptrace where
  | seize
  | interrupt
  | getRegs
  | getFpRegs
  | detach
deriving DecidableEq, Repr

/-- What the helper does while it serves a request. -/
inductive Call where
  | open (path : Bytes) (mode : OpenMode)
  | opendir (path : Bytes)
  | readlink (path : Bytes) (size : Nat)
  | pread (size offset : Nat)
  | ptrace (request : Ptrace) (tid : Nat)
  | waitpid (tid : Nat)
  /-- A buffer for the contents of a file, of memory or of a link has this size now. -/
  | buffer (size : Nat)
deriving DecidableEq, Repr

/-- What one `read` gives; no bytes are the end of the file. -/
inductive Read where
  | bytes (bytes : Bytes)
  | interrupted
  | failed
deriving DecidableEq, Repr

/-- The answers one thread gets in `DumpAttach`, and `errno` behind them. -/
structure Attach where
  seize : Bool
  interrupt : Bool
  wait : Bool
  regs : Option Bytes
  fpRegs : Option Bytes
  errno : Nat

/-- What libdwfl tells about the module of an address. -/
structure Module where
  name : Option Bytes
  start : Nat
  symbol : Option (Bytes × Nat)
  line : Option (Bytes × Nat × Nat)

structure Frame where
  pc : Nat
  activation : Bool
  module : Option Module

/-- What libdwfl does in `TraceStack`. -/
structure Dwfl where
  /-- The files it opens itself. -/
  opened : List Bytes
  began : Bool
  /-- `dwfl_linux_proc_report` and `dwfl_report_end` both gave zero. -/
  reported : Bool
  attached : Int
  /-- The frames it calls back with; `none` when there is no program counter. -/
  frames : List (Option Frame)
  walked : Int
  message : Option Bytes

/-- The kernel and libdwfl, as answers to the calls so far. A `pread` or `readlink` gives
    what it would without a limit on its buffer. -/
structure Kernel where
  openFile : List Call → Bytes → Option (List Read)
  openMemory : List Call → Bytes → Bool
  /-- What is behind an offset of an opened file. -/
  pread : List Call → Bytes → Nat → Option Bytes
  readlink : List Call → Bytes → Option Bytes
  opendir : List Call → Bytes → Option (List Bytes)
  attach : List Call → Nat → Attach
  dwfl : List Call → Nat → Nat → Dwfl
  getpid : Nat
  getuid : Nat
  geteuid : Nat

/-- `g_Running`, `g_DumpAttached`, and the calls made. -/
structure World where
  running : Bool := true
  attached : List Nat := []
  calls : List Call := []

def record (world : World) (call : Call) : World := { world with calls := world.calls ++ [call] }

/-! ## Files -/

def allowed_leaves : List String :=
  ["io", "cmdline", "environ", "status", "stat", "statm", "smaps_rollup", "limits", "wchan", "oom_score", "attr/current"]

def is_readable_leaf (leaf : Bytes) : Bool := allowed_leaves.any (fun allowed => leaf = text allowed)

def is_digit (byte : UInt8) : Bool := 48 ≤ byte && byte ≤ 57

def is_readable_link (leaf : Bytes) : Bool :=
  if leaf = text "exe" ∨ leaf = text "cwd" ∨ leaf = text "root" then true
  else leaf.take 3 = text "fd/" && 3 < leaf.length && (leaf.drop 3).all is_digit

/-- `%llu`. -/
def decimal (number : Nat) : Bytes := (Nat.toDigits 10 number).map (fun digit => UInt8.ofNat digit.toNat)

def proc_path (pid : Nat) (leaf : Bytes) : Bytes := text "/proc/" ++ decimal pid ++ text "/" ++ leaf

/-- The digits a text goes on with, until they end or the value no longer fits. -/
def parse_digits (value : Nat) : Bytes → Nat
  | [] => value
  | byte :: rest =>
    if is_digit byte then
      if value > (2 ^ 64 - 1 - (byte.toNat - 48)) / 10 then 2 ^ 64 - 1
      else parse_digits (value * 10 + (byte.toNat - 48)) rest
    else value

/-- `ParseUInt` without a fallback. -/
def parse_uint (name : Bytes) : Nat := parse_digits 0 (name.dropWhile (fun byte => byte = 32 || byte = 9))

def MaxFileSize : Nat := 8 * 1024 * 1024

/-- The loop of `ReadWholeFile`. -/
def read_chunks (data : Bytes) : List Read → World → Option Bytes × World
  | [], world => (some data, world)
  | .interrupted :: rest, world => read_chunks data rest world
  | .failed :: _, world => (none, world)
  | .bytes chunk :: rest, world =>
    if chunk = [] then (some data, world)
    else if data.length + chunk.length > MaxFileSize then (some data, world)
    else read_chunks (data ++ chunk) rest (record world (.buffer (data.length + chunk.length)))

def read_whole_file (kernel : Kernel) (path : Bytes) (world : World) : Option Bytes × World :=
  match kernel.openFile world.calls (c_str path) with
  | none => (none, record world (.open (c_str path) .O_RDONLY))
  | some reads => read_chunks [] reads (record world (.open (c_str path) .O_RDONLY))

/-- The inner loop of `ReadProcFiles`: the files of one process that could be read. -/
def read_files (kernel : Kernel) (pid : Nat) : List Bytes → World → List (Key × Packed) × World
  | [], world => ([], world)
  | leaf :: rest, world =>
    if is_readable_leaf leaf then
      match read_whole_file kernel (proc_path pid leaf) world with
      | (none, world) => read_files kernel pid rest world
      | (some data, world) =>
        let (files, world) := read_files kernel pid rest world
        ((.name (c_str leaf), ⟨VAR_TYPE_BYTES, data⟩) :: files, world)
    else read_files kernel pid rest world

/-- Its outer loop; a process of which nothing could be read is left out. -/
def read_pids (kernel : Kernel) (leaves : List Bytes) : List Nat → World → List (Key × Packed) × World
  | [], world => ([], world)
  | pid :: rest, world =>
    let (files, world) := read_files kernel pid leaves world
    let (more, world) := read_pids kernel leaves rest world
    (if files = [] then more else (.name (decimal pid), finish .map files) :: more, world)

/-- What is left of a handler once it has its parameters. -/
abbrev Action := World → Packed × World

def answer (reply : Packed) : Action := fun world => (reply, world)

def read_proc_files (kernel : Kernel) (parameters : Packed) : Except CException Action := do
  let pids ← find parameters "Pids"
  let leaves ← find parameters "Leaves"
  let leafNames ← read_raw_list to_string leaves
  let pidList ← read_raw_list to_uint64 pids
  return fun world =>
    let (entries, world) := read_pids kernel leafNames pidList world
    (finish .map entries, world)

/-! ## Links -/

def MaxLinkSize : Nat := 64 * 1024

/-- The size of the buffer of `ReadProcLink` after it has been doubled. -/
def link_size (doublings : Nat) : Nat := 1024 * 2 ^ doublings

theorem doublings_lt {doublings : Nat} (small : ¬ link_size doublings > MaxLinkSize) : doublings < 7 := by
  by_contra many
  have large : 2 ^ 7 ≤ 2 ^ doublings := Nat.pow_le_pow_right (by decide) (by omega)
  simp only [link_size, MaxLinkSize] at small
  omega

/-- The loop of `ReadProcLink`, whose buffer doubles until the target fits. -/
def read_link (kernel : Kernel) (path : Bytes) (doublings : Nat) (world : World) : Packed × World :=
  let size := link_size doublings
  let target := kernel.readlink world.calls (c_str path)
  let world := record (record world (.buffer size)) (.readlink (c_str path) size)
  match target with
  | none => (none_variant, world)
  | some target =>
    if (target.take size).length < size then (⟨VAR_TYPE_ASCII, target.take size⟩, world)
    else if small : size > MaxLinkSize then (⟨VAR_TYPE_ASCII, target.take size⟩, world)
    else read_link kernel path (doublings + 1) world
termination_by 7 - doublings
decreasing_by
  have bound := doublings_lt small
  omega

def read_proc_link (kernel : Kernel) (parameters : Packed) : Except CException Action := do
  let pid ← to_uint64 (← find parameters "ProcessId")
  let leaf ← to_string (← find parameters "Leaf")
  if pid = 0 ∨ is_readable_link leaf = false then return answer (ascii "Invalid Parameters")
  else return read_link kernel (proc_path pid leaf) 0

/-! ## Descriptors -/

def starts_with_digit (name : Bytes) : Bool := (name.head?.map is_digit).getD false

/-- One entry of the `fd` directory. -/
def list_fd (kernel : Kernel) (pid : Nat) (name : Bytes) (world : World) : Packed × World :=
  let path := c_str (proc_path pid (text "fd") ++ text "/" ++ name)
  let target := (kernel.readlink world.calls path).map (fun target => target.take 4095)
  let world := record world (.readlink path 4095)
  let (info, world) := read_whole_file kernel (proc_path pid (text "fdinfo/" ++ name)) world
  (finish .map ([named "Fd" (uint64 (parse_uint name))] ++
    (match target with
      | some target => if target = [] then [] else [named "Target" ⟨VAR_TYPE_ASCII, c_str target⟩]
      | none => []) ++
    (match info with
      | some info => [named "Info" ⟨VAR_TYPE_BYTES, info⟩]
      | none => [])), world)

def list_fds (kernel : Kernel) (pid : Nat) : List Bytes → World → List (Key × Packed) × World
  | [], world => ([], world)
  | name :: rest, world =>
    if starts_with_digit name then
      let (entry, world) := list_fd kernel pid name world
      let (more, world) := list_fds kernel pid rest world
      ((.item, entry) :: more, world)
    else list_fds kernel pid rest world

def list_proc_fds (kernel : Kernel) (parameters : Packed) : Except CException Action := do
  let pid ← to_uint64 (← find parameters "ProcessId")
  if pid = 0 then return answer (ascii "Invalid Parameters")
  else return fun world =>
    let path := c_str (proc_path pid (text "fd"))
    match kernel.opendir world.calls path with
    | none => (finish .list [], record world (.opendir path))
    | some names =>
      let (entries, world) := list_fds kernel pid names (record world (.opendir path))
      (finish .list entries, world)

/-! ## Dumps -/

def dump_detach_all (world : World) : World :=
  { world.attached.foldl (fun world tid => record world (.ptrace .detach tid)) world with attached := [] }

/-- One thread of `DumpAttach`, and whether it counts as attached. -/
def attach_thread (asked : Attach) (tid : Nat) (world : World) : Bool × World :=
  let world := record world (.ptrace .seize tid)
  if asked.seize then
    let world := record world (.ptrace .interrupt tid)
    if asked.interrupt then
      let world := record world (.waitpid tid)
      if asked.wait then
        let world := { world with attached := world.attached ++ [tid] }
        (true, record (record world (.ptrace .getRegs tid)) (.ptrace .getFpRegs tid))
      else (false, record world (.ptrace .detach tid))
    else (false, record world (.ptrace .detach tid))
  else (false, world)

def ESRCH : Nat := 3
def EPERM : Nat := 1

/-- The cast of `ParseUInt` to `pid_t`, and of that to `uint64`. -/
def pid_t (value : Nat) : Nat := if value % 2 ^ 32 < 2 ^ 31 then value % 2 ^ 32 else 2 ^ 64 - 2 ^ 32 + value % 2 ^ 32

/-- The loop over the `task` directory, with the last `errno` that counts. -/
def attach_threads (kernel : Kernel) (errno : Nat) : List Bytes → World → (List (Key × Packed) × Nat) × World
  | [], world => (([], errno), world)
  | name :: rest, world =>
    if starts_with_digit name then
      let tid := pid_t (parse_uint name)
      let asked := kernel.attach world.calls tid
      let (attached, world) := attach_thread asked tid world
      let errno := if attached = false ∧ asked.errno ≠ ESRCH then asked.errno else errno
      let ((more, errno), world) := attach_threads kernel errno rest world
      let thread := finish .map ([named "Tid" (uint64 tid), named "Attached" (bool attached)] ++
        (match asked.regs with
          | some regs => if attached then [named "Regs" ⟨VAR_TYPE_BYTES, regs⟩] else []
          | none => []) ++
        (match asked.fpRegs with
          | some regs => if attached then [named "FpRegs" ⟨VAR_TYPE_BYTES, regs⟩] else []
          | none => []))
      (((.item, thread) :: more, errno), world)
    else attach_threads kernel errno rest world

/-- A file that goes into the reply of `DumpAttach` if it is not empty. -/
def dump_file (kernel : Kernel) (pid : Nat) (leaf : String) (name : String) (world : World) : List (Key × Packed) × World :=
  let (data, world) := read_whole_file kernel (proc_path pid (text leaf)) world
  (match data with
    | some data => if data = [] then [] else [named name ⟨VAR_TYPE_BYTES, data⟩]
    | none => [], world)

def dump_attach (kernel : Kernel) (parameters : Packed) : Except CException Action := do
  let pid ← to_uint64 (← find parameters "ProcessId")
  if pid = 0 then return answer (ascii "Invalid Parameters")
  else return fun world =>
    let world := dump_detach_all world
    let path := c_str (proc_path pid (text "task"))
    let names := (kernel.opendir world.calls path).getD []
    let ((threads, errno), world) := attach_threads kernel 0 names (record world (.opendir path))
    let (maps, world) := dump_file kernel pid "maps" "Maps" world
    let (auxv, world) := dump_file kernel pid "auxv" "Auxv" world
    (finish .map ([named "Threads" (finish .list threads)] ++ maps ++ auxv ++ [named "AttachErrno" (uint32 errno)]), world)

def dump_detach (_parameters : Packed) : Action := fun world => (bool true, dump_detach_all world)

/-! ## Memory -/

def MaxMemorySize : Nat := 16 * 1024 * 1024

def read_proc_memory (kernel : Kernel) (parameters : Packed) : Except CException Action := do
  let pid ← to_uint64 (← find parameters "ProcessId")
  let address ← to_uint64 (← find parameters "Address")
  let size ← to_uint64 (← find parameters "Size")
  if pid = 0 ∨ size = 0 ∨ size > MaxMemorySize then return answer (ascii "Invalid Parameters")
  else return fun world =>
    let path := c_str (proc_path pid (text "mem"))
    let opened := kernel.openMemory world.calls path
    let world := record world (.open path .O_RDONLY)
    if opened then
      let world := record world (.buffer size)
      let data := (kernel.pread world.calls path address).map (fun data => data.take size)
      let world := record world (.pread size address)
      match data with
      | some data => (if data = [] then none_variant else ⟨VAR_TYPE_BYTES, data⟩, world)
      | none => (none_variant, world)
    else (none_variant, world)

/-! ## Stacks -/

def frame_entries (frame : Frame) : List (Key × Packed) :=
  let lookup := if frame.activation then frame.pc else (frame.pc + 2 ^ 64 - 1) % 2 ^ 64
  [named "Address" (uint64 frame.pc)] ++
    match frame.module with
    | none => []
    | some module =>
      (match module.name with
        | some name => [named "Module" ⟨VAR_TYPE_ASCII, c_str name⟩]
        | none => []) ++
      [named "Offset" (uint64 ((lookup + 2 ^ 64 - module.start) % 2 ^ 64))] ++
      (match module.symbol with
        | some (name, offset) => [named "Symbol" ⟨VAR_TYPE_ASCII, c_str name⟩, named "SymbolOffset" (uint64 offset)]
        | none => []) ++
      (match module.line with
        | some (file, line, column) =>
          [named "File" ⟨VAR_TYPE_ASCII, c_str file⟩, named "Line" (uint32 line), named "Column" (uint32 column)]
        | none => [])

/-- The frames that `FrameCallback` takes before it stops the walk. -/
def collect_frames : Nat → List (Option Frame) → List (Key × Packed)
  | count + 1, some frame :: rest => (.item, finish .map (frame_entries frame)) :: collect_frames count rest
  | _, _ => []

/-- `MaxFrames` was cast to `int`. -/
def max_frames (requested : Nat) : Nat := if 0 < requested ∧ requested < 2 ^ 31 then requested else 64

def trace_stack (kernel : Kernel) (pid tid requested : Nat) : Action := fun world =>
  let dwfl := kernel.dwfl world.calls pid tid
  let world := dwfl.opened.foldl (fun world path => record world (.open path .O_RDONLY)) world
  if dwfl.began = false then (finish .map [named "Error" (ascii "libdwfl could not be initialised")], world)
  else if dwfl.reported = false then (finish .map [named "Error" (ascii "the process could not be examined")], world)
  else if dwfl.attached ≠ 0 then
    (finish .map [named "Error" (ascii "ptrace"),
      named "Errno" (uint32 (if dwfl.attached > 0 then dwfl.attached.toNat else EPERM))], world)
  else
    let frames := collect_frames (max_frames requested) dwfl.frames
    (finish .map ((if frames = [] then
        [named "Error" ⟨VAR_TYPE_ASCII, (dwfl.message.map c_str).getD (text "no frames were unwound")⟩, named "Walked" (sint32 dwfl.walked)]
      else []) ++ [named "Frames" (finish .list frames)]), world)

/-! ## Dispatch -/

/-- The command and the parameters of a request; `none` for a type it is not taken from. -/
def request_parts (request : Packed) : Except CException (Option (Bytes × Packed)) :=
  if request.type = VAR_TYPE_ASCII ∨ request.type = VAR_TYPE_UTF8 ∨ request.type = VAR_TYPE_UNICODE then do
    let command ← to_string request
    return some (command, none_variant)
  else if request.type = VAR_TYPE_MAP then do
    let commandVar ← find request "Command"
    let command ← if commandVar.type ≠ VAR_TYPE_EMPTY then to_string commandVar else pure []
    let parameters ← find request "Parameters"
    return some (command, parameters)
  else return none

inductive Command where
  | refresh
  | quit
  | getProcessId
  | readProcFiles
  | readProcLink
  | listProcFds
  | readProcMemory
  | dumpAttach
  | dumpDetach
  | traceStack
  | getHelperInfo
  | unknown
deriving DecidableEq, Repr

/-- The comparisons of `ProcessCommand`, in their order. -/
def command_of (command : Bytes) : Command :=
  if command = text "Refresh" then .refresh
  else if command = text "Quit" then .quit
  else if command = text "GetProcessId" then .getProcessId
  else if command = text "ReadProcFiles" then .readProcFiles
  else if command = text "ReadProcLink" then .readProcLink
  else if command = text "ListProcFds" then .listProcFds
  else if command = text "ReadProcMemory" then .readProcMemory
  else if command = text "DumpAttach" then .dumpAttach
  else if command = text "DumpDetach" then .dumpDetach
  else if command = text "TraceStack" then .traceStack
  else if command = text "GetHelperInfo" then .getHelperInfo
  else .unknown

def run_command (kernel : Kernel) (parameters : Packed) : Command → Except CException Action
  | .refresh => .ok (answer (bool true))
  | .quit => .ok (fun world => (bool true, { world with running := false }))
  | .getProcessId => .ok (answer (uint64 kernel.getpid))
  | .readProcFiles => read_proc_files kernel parameters
  | .readProcLink => read_proc_link kernel parameters
  | .listProcFds => list_proc_fds kernel parameters
  | .readProcMemory => read_proc_memory kernel parameters
  | .dumpAttach => dump_attach kernel parameters
  | .dumpDetach => .ok (dump_detach parameters)
  | .traceStack => do
    let pid ← to_uint64 (← find parameters "ProcessId")
    let tid ← to_uint64 (← find parameters "ThreadId")
    let maxFrames ← to_uint32 (← find parameters "MaxFrames")
    if pid = 0 ∨ tid = 0 then return answer (ascii "Invalid Parameters")
    else return trace_stack kernel pid tid maxFrames
  | .getHelperInfo =>
    .ok (answer (finish .map [named "Pid" (uint64 kernel.getpid), named "Uid" (uint64 kernel.getuid),
      named "EffectiveUid" (uint64 kernel.geteuid), named "IsRoot" (bool (kernel.geteuid = 0))]))
  | .unknown => .ok (answer (ascii "Unknown Command"))

def process_command (kernel : Kernel) (request : Packed) : Except CException Action := do
  match ← request_parts request with
  | none => return answer (ascii "Unknown Command")
  | some (command, parameters) => run_command kernel parameters (command_of command)

/-! ## What was written reads back -/

/-- The entries can be spelled, and are not too many for the size of a variant. -/
structure Writable (kind : Kind) (entries : List (Key × Packed)) : Prop where
  fits : ∀ pair ∈ entries, KeyFits kind pair.1 ∧ Encodable pair.2
  short : (entries.flatMap write_entry).length < 2 ^ 32

theorem named_fits {name : String} {variant : Packed} (short : (text name).length < 256) (encodable : Encodable variant) :
    KeyFits .map (named name variant).1 ∧ Encodable (named name variant).2 := ⟨short, encodable⟩

theorem encodable_uint64 (value : Nat) : Encodable (uint64 value) where
  bare empty := by simp [uint64, VAR_TYPE_UINT, VAR_TYPE_EMPTY] at empty
  fits := by simp [uint64, leBytes_length]

variable {entries : List (Key × Packed)}

theorem raw_entries_finish {kind : Kind} (writable : Writable kind entries) :
    raw_entries kind (finish kind entries).payload = (entries, .pending []) := by
  rw [finish, cut_short writable.short]
  exact raw_entries_written kind entries writable.fits

theorem encodable_finish {kind : Kind} (writable : Writable kind entries) :
    Encodable (finish kind entries) where
  bare empty := absurd empty (kind_type_ne_empty kind)
  fits := by
    rw [finish, cut_short writable.short]
    exact writable.short

theorem find_finish (writable : Writable .map entries) (name : String) :
    find (finish .map entries) name =
      .ok (((entries.find? (fun pair => pair.1 = .name (text name))).map Prod.snd).getD none_variant) := by
  have map : (finish .map entries).type = VAR_TYPE_MAP := rfl
  simp only [find, map, ne_eq, not_true_eq_false, if_false, find_raw, raw_entries_finish writable]
  cases entries.find? (fun pair => pair.1 = .name (text name)) with
  | none => rfl
  | some pair => rfl

end TaskExplorer.HelperCommand
