import TaskExplorer.HelperCommand
import TaskExplorer.Transition

/-!
# The server loop of the privileged helper

The loop takes one connection after the other, and from each one request. Nothing
between `main` and the decoding of a request catches an exception, so one that a
request raises ends the helper. Memory does not run out here.
-/

namespace TaskExplorer.HelperServer
open Codec VariantFormat VariantContainer HelperCommand Transition
open IpcSocket (get_int)
set_option linter.unusedSimpArgs false

/-! ## The wire -/

def MaxPacketSize : Nat := 100 * 1024 * 1024

/-- The bytes behind the length, if it is sane and all of them came. What is received is
    what the peer sends until it closes or falls silent. -/
def recv_frame (received : Bytes) : Option Bytes :=
  if received.length < 4 then none
  else if leNat (received.take 4) = 0 ∨ leNat (received.take 4) > MaxPacketSize then none
  else if (received.drop 4).length < leNat (received.take 4) then none
  else some ((received.drop 4).take (leNat (received.take 4)))

def recv_variant (received : Bytes) : Except CException (Option Packed) :=
  match recv_frame received with
  | none => .ok none
  | some body => do
    let (variant, _) ← from_packet ⟨body, 0⟩
    return some variant

/-- `SendVariant`: the length was cast to 32 bits. -/
def send_variant (variant : Packed) : Bytes :=
  leBytes 4 ((to_packet variant).length % 2 ^ 32) ++ (to_packet variant).take ((to_packet variant).length % 2 ^ 32)

def serve_connection (kernel : Kernel) (received : Bytes) (world : World) : Except CException (Option Bytes × World) := do
  match ← recv_variant received with
  | none => return (none, world)
  | some request =>
    let action ← process_command kernel request
    let (response, world) := action world
    return (some (send_variant response), world)

/-! ## The loop -/

/-- What one `poll` of the listening socket leads to. -/
inductive Polled where
  | failed
  | interrupted
  /-- Nothing came; whether the helper has been idle for too long. -/
  | quiet (expired : Bool)
  /-- `accept` failed. -/
  | refused
  | connection (kernel : Kernel) (received : Bytes)

inductive Event where
  /-- `SIGTERM`, `SIGINT` or `SIGHUP`. -/
  | signal
  /-- The loop looks whether it is to run on. -/
  | test
  | poll (polled : Polled)

inductive End where
  | wound
  | idle
  | pollFailed
  | raised (exception : CException)

structure Server where
  world : World := {}
  polling : Bool := false
  ended : Option End := none

def start : Server := {}

def take_poll (server : Server) : Polled → Server
  | .failed => { server with ended := some .pollFailed }
  | .interrupted => server
  | .quiet expired => if expired then { server with ended := some .idle } else server
  | .refused => server
  | .connection kernel received =>
    match serve_connection kernel received server.world with
    | .ok (_, world) => { server with world := world }
    | .error exception => { server with ended := some (.raised exception) }

def step (server : Server) (event : Event) : Option Server :=
  match server.ended with
  | some _ => none
  | none =>
    match event with
    | .signal => some { server with world := { server.world with running := false } }
    | .test =>
      if server.polling then none
      else if server.world.running then some { server with polling := true }
      else some { server with ended := some .wound }
    | .poll polled => if server.polling then some (take_poll { server with polling := false } polled) else none

/-! ## Requests that can be read -/

def Text (variant : Packed) : Prop :=
  variant.type ∈ [VAR_TYPE_EMPTY, VAR_TYPE_ASCII, VAR_TYPE_BYTES, VAR_TYPE_UTF8, VAR_TYPE_UNICODE]

/-- A number of at most some bytes, or nothing. -/
def Number (size : Nat) (variant : Packed) : Prop :=
  variant.type = VAR_TYPE_EMPTY ∨
    ((variant.type = VAR_TYPE_SINT ∨ variant.type = VAR_TYPE_UINT) ∧ ∀ byte ∈ variant.payload.drop size, byte = 0)

/-- Not a list, or one that decodes to items of a kind. -/
def Items (item : Packed → Prop) (variant : Packed) : Prop :=
  variant.type = VAR_TYPE_LIST → (∃ rest, (raw_entries .list variant.payload).2 = .pending rest) ∧
    ∀ pair ∈ (raw_entries .list variant.payload).1, item pair.2

/-- What stands under a name decodes, and is of a kind; nothing stands there as an EMPTY. -/
def Field (variant : Packed) (name : String) (kind : Packed → Prop) : Prop := ∃ value, find variant name = .ok value ∧ kind value

/-- The parameters a command takes. -/
def Readable (parameters : Packed) : Command → Prop
  | .readProcFiles => Field parameters "Pids" (Items (Number 8)) ∧ Field parameters "Leaves" (Items Text)
  | .readProcLink => Field parameters "ProcessId" (Number 8) ∧ Field parameters "Leaf" Text
  | .listProcFds | .dumpAttach => Field parameters "ProcessId" (Number 8)
  | .readProcMemory =>
    Field parameters "ProcessId" (Number 8) ∧ Field parameters "Address" (Number 8) ∧ Field parameters "Size" (Number 8)
  | .traceStack =>
    Field parameters "ProcessId" (Number 8) ∧ Field parameters "ThreadId" (Number 8) ∧ Field parameters "MaxFrames" (Number 4)
  | .refresh | .quit | .getProcessId | .dumpDetach | .getHelperInfo | .unknown => True

/-- A map whose command is a text, with the parameters it takes, or no map at all. -/
def Answerable (request : Packed) : Prop :=
  request.type = VAR_TYPE_MAP →
    ∃ command name parameters, find request "Command" = .ok command ∧ to_string command = .ok name ∧
      find request "Parameters" = .ok parameters ∧ Readable parameters (command_of name)

/-- A frame that came in full carries a request that can be read. -/
def Served (received : Bytes) : Prop :=
  ∀ body, recv_frame received = some body → ∃ request rest, from_packet ⟨body, 0⟩ = .ok (request, rest) ∧ Answerable request

/-! ## What raises -/

theorem to_string_ok_iff (variant : Packed) : (∃ name, to_string variant = .ok name) ↔ Text variant := by
  unfold to_string Text
  by_cases plain : variant.type = VAR_TYPE_ASCII ∨ variant.type = VAR_TYPE_BYTES
  · rcases plain with type | type <;> simp [type]
  rw [if_neg plain]
  by_cases wide : variant.type = VAR_TYPE_UTF8 ∨ variant.type = VAR_TYPE_UNICODE
  · rcases wide with type | type <;> simp [type]
  rw [if_neg wide]
  by_cases empty : variant.type = VAR_TYPE_EMPTY
  · simp [empty]
  · rw [not_or] at plain wide
    simp [empty, plain, wide]

theorem get_int_ok_iff (size : Nat) (variant : Packed) : (∃ number, get_int size variant = .ok number) ↔ Number size variant := by
  unfold get_int Number
  by_cases empty : variant.type = VAR_TYPE_EMPTY
  · simp [empty]
  rw [if_neg empty]
  by_cases other : variant.type ≠ VAR_TYPE_SINT ∧ variant.type ≠ VAR_TYPE_UINT
  · simp [other, empty]
  rw [if_neg other]
  have integer : variant.type = VAR_TYPE_SINT ∨ variant.type = VAR_TYPE_UINT := by
    rw [not_and_or, not_not, not_not] at other
    exact other
  by_cases long : (variant.payload.drop size).any (· ≠ 0) = true
  · simp only [long, if_true, reduceCtorEq, exists_false, false_iff, empty, false_or, not_and, integer, forall_const]
    intro zeros
    obtain ⟨byte, member, high⟩ := List.any_eq_true.mp long
    simp [zeros byte member] at high
  · simp only [long, Bool.false_eq_true, if_false, Except.ok.injEq, exists_eq', empty, false_or, integer, true_and, true_iff]
    intro byte member
    by_contra high
    exact long (List.any_eq_true.mpr ⟨byte, member, by simpa using high⟩)

theorem mapM_ok_iff {α β : Type} {read : α → Except CException β} {items : List α} :
    (∃ results, items.mapM read = .ok results) ↔ ∀ item ∈ items, ∃ result, read item = .ok result := by
  induction items with
  | nil => simp [pure, Except.pure]
  | cons item rest ih =>
    simp only [List.mapM_cons, bind_ok_iff, List.forall_mem_cons, ← ih]
    constructor
    · rintro ⟨results, result, first, more, others, -⟩
      exact ⟨⟨result, first⟩, more, others⟩
    · rintro ⟨⟨result, first⟩, more, others⟩
      exact ⟨result :: more, result, first, more, others, rfl⟩

theorem read_raw_list_ok_iff {α : Type} {callback : Packed → Except CException α} {item : Packed → Prop}
    (reads : ∀ variant, (∃ result, callback variant = .ok result) ↔ item variant) (variant : Packed) :
    (∃ results, read_raw_list callback variant = .ok results) ↔ Items item variant := by
  unfold read_raw_list Items
  by_cases list : variant.type = VAR_TYPE_LIST
  · simp only [list, ne_eq, not_true_eq_false, if_false, bind_ok_iff, forall_const]
    have walked := @mapM_ok_iff _ _ (fun pair : Key × Packed => callback pair.2) (raw_entries .list variant.payload).1
    cases ended : (raw_entries .list variant.payload).2 with
    | pending rest =>
      simp only [pure, Except.pure, Except.ok.injEq, Tail.pending.injEq, exists_eq', true_and]
      constructor
      · rintro ⟨results, items, read, -⟩ pair member
        exact (reads pair.2).mp (walked.mp ⟨items, read⟩ pair member)
      · intro good
        obtain ⟨items, read⟩ := walked.mpr (fun pair member => (reads pair.2).mpr (good pair member))
        exact ⟨items, items, read, rfl⟩
    | failed raised => simp [throw, throwThe, MonadExceptOf.throw]
  · simp [list]

theorem field_then_iff {α β : Type} {accessor : Packed → Except CException α} {kind : Packed → Prop} {next : α → Except CException β}
    {later : Prop} (reads : ∀ variant, (∃ result, accessor variant = .ok result) ↔ kind variant)
    (goes : ∀ value, (∃ result, next value = .ok result) ↔ later) (variant : Packed) (name : String) :
    (∃ result, (find variant name >>= fun found => accessor found >>= next) = .ok result) ↔ Field variant name kind ∧ later := by
  simp only [bind_ok_iff, Field]
  constructor
  · rintro ⟨result, found, stands, value, read, taken⟩
    exact ⟨⟨found, stands, (reads found).mp ⟨value, read⟩⟩, (goes value).mp ⟨result, taken⟩⟩
  · rintro ⟨⟨found, stands, good⟩, later⟩
    obtain ⟨value, read⟩ := (reads found).mpr good
    obtain ⟨result, taken⟩ := (goes value).mpr later
    exact ⟨result, found, stands, value, read, taken⟩

theorem either_ok (refused : Prop) [Decidable refused] (first second : Action) :
    (∃ action, (if refused then pure first else pure second : Except CException Action) = .ok action) ↔ True := by
  split_ifs <;> simp [pure, Except.pure]

theorem to_uint64_ok_iff (variant : Packed) : (∃ number, to_uint64 variant = .ok number) ↔ Number 8 variant := get_int_ok_iff 8 variant

theorem to_uint32_ok_iff (variant : Packed) : (∃ number, to_uint32 variant = .ok number) ↔ Number 4 variant := get_int_ok_iff 4 variant

theorem read_proc_files_ok_iff (kernel : Kernel) (parameters : Packed) :
    (∃ action, read_proc_files kernel parameters = .ok action) ↔ Readable parameters .readProcFiles := by
  simp only [read_proc_files, bind_ok_iff, Readable, Field]
  constructor
  · rintro ⟨action, pids, pidsFound, leaves, leavesFound, leafNames, leavesRead, pidList, pidsRead, -⟩
    exact ⟨⟨pids, pidsFound, (read_raw_list_ok_iff to_uint64_ok_iff pids).mp ⟨pidList, pidsRead⟩⟩,
      leaves, leavesFound, (read_raw_list_ok_iff to_string_ok_iff leaves).mp ⟨leafNames, leavesRead⟩⟩
  · rintro ⟨⟨pids, pidsFound, numbers⟩, leaves, leavesFound, texts⟩
    obtain ⟨pidList, pidsRead⟩ := (read_raw_list_ok_iff to_uint64_ok_iff pids).mpr numbers
    obtain ⟨leafNames, leavesRead⟩ := (read_raw_list_ok_iff to_string_ok_iff leaves).mpr texts
    exact ⟨_, pids, pidsFound, leaves, leavesFound, leafNames, leavesRead, pidList, pidsRead, rfl⟩

theorem run_command_ok_iff (kernel : Kernel) (parameters : Packed) (command : Command) :
    (∃ action, run_command kernel parameters command = .ok action) ↔ Readable parameters command := by
  cases command with
  | readProcFiles => exact read_proc_files_ok_iff kernel parameters
  | readProcLink =>
    refine (field_then_iff to_uint64_ok_iff (fun pid =>
      field_then_iff to_string_ok_iff (fun leaf => either_ok _ _ _) parameters "Leaf") parameters "ProcessId").trans ?_
    simp [Readable]
  | listProcFds =>
    refine (field_then_iff to_uint64_ok_iff (fun pid => either_ok _ _ _) parameters "ProcessId").trans ?_
    simp [Readable]
  | dumpAttach =>
    refine (field_then_iff to_uint64_ok_iff (fun pid => either_ok _ _ _) parameters "ProcessId").trans ?_
    simp [Readable]
  | readProcMemory =>
    refine (field_then_iff to_uint64_ok_iff (fun pid => field_then_iff to_uint64_ok_iff (fun address =>
      field_then_iff to_uint64_ok_iff (fun size => either_ok _ _ _) parameters "Size") parameters "Address") parameters "ProcessId").trans ?_
    simp [Readable]
  | traceStack =>
    refine (field_then_iff to_uint64_ok_iff (fun pid => field_then_iff to_uint64_ok_iff (fun tid =>
      field_then_iff to_uint32_ok_iff (fun maxFrames => either_ok _ _ _) parameters "MaxFrames") parameters "ThreadId") parameters "ProcessId").trans ?_
    simp [Readable]
  | refresh | quit | getProcessId | dumpDetach | getHelperInfo | unknown => simp [run_command, Readable]

theorem find_none (name : String) : find none_variant name = .ok none_variant := rfl

theorem readable_none (command : Command) : Readable none_variant command := by
  have number (size : Nat) : Number size none_variant := .inl rfl
  have texts : Text none_variant := by simp [Text, none_variant]
  have items (item : Packed → Prop) : Items item none_variant := by
    intro list
    exact absurd list (by decide)
  cases command <;> simp [Readable, Field, find_none, number, texts, items]

theorem to_string_empty {variant : Packed} (empty : variant.type = VAR_TYPE_EMPTY) : to_string variant = .ok [] := by
  simp [to_string, empty, VAR_TYPE_EMPTY, VAR_TYPE_ASCII, VAR_TYPE_BYTES, VAR_TYPE_UTF8, VAR_TYPE_UNICODE]

theorem request_parts_map {request : Packed} (map : request.type = VAR_TYPE_MAP) {parts : Option (Bytes × Packed)} :
    request_parts request = .ok parts ↔ ∃ command name parameters, find request "Command" = .ok command ∧ to_string command = .ok name ∧
      find request "Parameters" = .ok parameters ∧ parts = some (name, parameters) := by
  have bare : ¬ (request.type = VAR_TYPE_ASCII ∨ request.type = VAR_TYPE_UTF8 ∨ request.type = VAR_TYPE_UNICODE) := by
    rw [map]
    decide
  rw [request_parts, if_neg bare, if_pos map, bind_ok_iff]
  refine exists_congr (fun command => ?_)
  by_cases empty : command.type = VAR_TYPE_EMPTY
  · simp [empty, to_string_empty empty, bind_ok_iff, pure, Except.pure, @eq_comm _ parts]
  · simp [empty, bind_ok_iff, pure, Except.pure, @eq_comm _ parts]

theorem process_command_ok_iff (kernel : Kernel) (request : Packed) :
    (∃ action, process_command kernel request = .ok action) ↔ Answerable request := by
  unfold Answerable
  by_cases bare : request.type = VAR_TYPE_ASCII ∨ request.type = VAR_TYPE_UTF8 ∨ request.type = VAR_TYPE_UNICODE
  · have other : request.type ≠ VAR_TYPE_MAP := by
      rcases bare with type | type | type <;> rw [type] <;> decide
    have written : Text request := by
      rcases bare with type | type | type <;> simp [Text, type]
    obtain ⟨name, read⟩ := (to_string_ok_iff request).mpr written
    have parts : request_parts request = .ok (some (name, none_variant)) := by
      rw [request_parts, if_pos bare, read]
      rfl
    have taken := (run_command_ok_iff kernel none_variant (command_of name)).mpr (readable_none _)
    simp [process_command, parts, bind, Except.bind, taken, other]
  by_cases map : request.type = VAR_TYPE_MAP
  · simp only [process_command, bind_ok_iff, request_parts_map map, map, forall_const, ← run_command_ok_iff kernel]
    constructor
    · rintro ⟨action, parts, ⟨command, name, parameters, commandFound, nameRead, parametersFound, rfl⟩, taken⟩
      exact ⟨command, name, parameters, commandFound, nameRead, parametersFound, action, taken⟩
    · rintro ⟨command, name, parameters, commandFound, nameRead, parametersFound, action, taken⟩
      exact ⟨action, _, ⟨command, name, parameters, commandFound, nameRead, parametersFound, rfl⟩, taken⟩
  · have parts : request_parts request = .ok none := by
      rw [request_parts, if_neg bare, if_neg map]
      rfl
    simp [process_command, parts, map, bind, Except.bind, pure, Except.pure]

theorem serve_connection_ok_iff (kernel : Kernel) (received : Bytes) (world : World) :
    (∃ served, serve_connection kernel received world = .ok served) ↔ Served received := by
  unfold Served serve_connection recv_variant
  cases framed : recv_frame received with
  | none => simp [bind, Except.bind, pure, Except.pure]
  | some body =>
    simp only [bind_ok_iff, Option.some.injEq, forall_eq', ← process_command_ok_iff kernel]
    constructor
    · rintro ⟨served, found, ⟨⟨request, rest⟩, decoded, same⟩, taken⟩
      cases same
      obtain ⟨action, acted, -⟩ := bind_ok_iff.mp taken
      exact ⟨request, rest, decoded, action, acted⟩
    · rintro ⟨request, rest, decoded, action, acted⟩
      exact ⟨_, some request, ⟨(request, rest), decoded, rfl⟩, bind_ok_iff.mpr ⟨action, acted, rfl⟩⟩

/-! ## What a command leaves alone -/

section Running
variable (kernel : Kernel) (world : World)

@[simp] theorem record_running (call : Call) : (record world call).running = world.running := rfl

@[simp] theorem foldl_record_running {α : Type} (call : α → Call) (items : List α) :
    (items.foldl (fun world item => record world (call item)) world).running = world.running := by
  induction items generalizing world with
  | nil => rfl
  | cons item rest ih => simp [ih]

@[simp] theorem read_chunks_running (data : Bytes) (reads : List Read) : (read_chunks data reads world).2.running = world.running := by
  induction reads generalizing data world with
  | nil => rfl
  | cons read rest ih =>
    cases read with
    | interrupted => exact ih world data
    | failed => rfl
    | bytes chunk =>
      rw [read_chunks]
      split_ifs
      · rfl
      · rfl
      · simp [ih]

@[simp] theorem read_whole_file_running (path : Bytes) : (read_whole_file kernel path world).2.running = world.running := by
  unfold read_whole_file
  cases kernel.openFile world.calls (c_str path) with
  | none => rfl
  | some reads => simp

@[simp] theorem read_files_running (pid : Nat) (leaves : List Bytes) : (read_files kernel pid leaves world).2.running = world.running := by
  induction leaves generalizing world with
  | nil => rfl
  | cons leaf rest ih =>
    rw [read_files]
    have file := read_whole_file_running kernel world (proc_path pid leaf)
    rcases outcome : read_whole_file kernel (proc_path pid leaf) world with ⟨data, later⟩
    rw [outcome] at file
    split_ifs
    · cases data with
      | none => exact (ih later).trans file
      | some data => exact (ih later).trans file
    · exact ih world

@[simp] theorem read_pids_running (leaves : List Bytes) (pids : List Nat) : (read_pids kernel leaves pids world).2.running = world.running := by
  induction pids generalizing world with
  | nil => rfl
  | cons pid rest ih => simp [read_pids, ih]

@[simp] theorem read_link_running (path : Bytes) (doublings : Nat) : (read_link kernel path doublings world).2.running = world.running := by
  fun_induction read_link kernel path doublings world with
  | case1 => rfl
  | case2 => rfl
  | case3 => rfl
  | case4 doublings world size target later found missing fits small ih => exact ih

@[simp] theorem list_fd_running (pid : Nat) (name : Bytes) : (list_fd kernel pid name world).2.running = world.running := by
  simp [list_fd]

@[simp] theorem list_fds_running (pid : Nat) (names : List Bytes) : (list_fds kernel pid names world).2.running = world.running := by
  induction names generalizing world with
  | nil => rfl
  | cons name rest ih =>
    rw [list_fds]
    split_ifs
    · simp [ih]
    · exact ih world

@[simp] theorem dump_detach_all_running : (dump_detach_all world).running = world.running := by
  simp [dump_detach_all]

@[simp] theorem attach_thread_running (asked : Attach) (tid : Nat) : (attach_thread asked tid world).2.running = world.running := by
  unfold attach_thread
  dsimp only
  split_ifs <;> rfl

@[simp] theorem attach_threads_running (errno : Nat) (names : List Bytes) : (attach_threads kernel errno names world).2.running = world.running := by
  induction names generalizing errno world with
  | nil => rfl
  | cons name rest ih =>
    rw [attach_threads]
    split_ifs
    · simp [ih]
    · exact ih world errno

@[simp] theorem dump_file_running (pid : Nat) (leaf name : String) : (dump_file kernel pid leaf name world).2.running = world.running := by
  simp [dump_file]

@[simp] theorem trace_stack_running (pid tid requested : Nat) : (trace_stack kernel pid tid requested world).2.running = world.running := by
  unfold trace_stack
  dsimp only
  split_ifs <;> simp

theorem run_command_running {parameters : Packed} {command : Command} {action : Action}
    (taken : run_command kernel parameters command = .ok action) (other : command ≠ .quit) : (action world).2.running = world.running := by
  cases command with
  | quit => exact absurd rfl other
  | readProcFiles =>
    simp only [run_command, read_proc_files, bind_ok_iff] at taken
    obtain ⟨-, -, -, -, leafNames, -, pidList, -, taken⟩ := taken
    cases taken
    simp
  | readProcLink =>
    simp only [run_command, read_proc_link, bind_ok_iff] at taken
    obtain ⟨-, -, pid, -, -, -, leaf, -, taken⟩ := taken
    split_ifs at taken
    · cases taken
      rfl
    · cases taken
      simp
  | listProcFds =>
    simp only [run_command, list_proc_fds, bind_ok_iff] at taken
    obtain ⟨-, -, pid, -, taken⟩ := taken
    split_ifs at taken
    · cases taken
      rfl
    · cases taken
      dsimp only
      cases kernel.opendir world.calls (c_str (proc_path pid (text "fd"))) with
      | none => rfl
      | some names => simp
  | readProcMemory =>
    simp only [run_command, read_proc_memory, bind_ok_iff] at taken
    obtain ⟨-, -, pid, -, -, -, address, -, -, -, size, -, taken⟩ := taken
    split_ifs at taken
    · cases taken
      rfl
    · cases taken
      dsimp only
      split_ifs
      · split <;> rfl
      · rfl
  | dumpAttach =>
    simp only [run_command, dump_attach, bind_ok_iff] at taken
    obtain ⟨-, -, pid, -, taken⟩ := taken
    split_ifs at taken
    · cases taken
      rfl
    · cases taken
      simp
  | dumpDetach =>
    cases taken
    simp [dump_detach]
  | traceStack =>
    simp only [run_command, bind_ok_iff] at taken
    obtain ⟨-, -, pid, -, -, -, tid, -, -, -, maxFrames, -, taken⟩ := taken
    split_ifs at taken
    · cases taken
      rfl
    · cases taken
      simp
  | refresh | getProcessId | getHelperInfo | unknown =>
    cases taken
    rfl

end Running

/-! ## Runs -/

/-- The connection asks the helper to end. -/
def Quits (received : Bytes) : Prop :=
  ∃ request command parameters, recv_variant received = .ok (some request) ∧ request_parts request = .ok (some (command, parameters)) ∧
    command_of command = .quit

/-- What may end the loop: a signal, the socket, the idle timeout, or the command. -/
def Ends : Event → Prop
  | .signal => True
  | .test => False
  | .poll .failed => True
  | .poll .interrupted => False
  | .poll (.quiet expired) => expired = true
  | .poll .refused => False
  | .poll (.connection _ received) => Quits received

def Going (server : Server) : Prop := server.ended = none ∧ server.world.running = true

/-- No exception has ended the helper, and it goes on if nothing asked it to end. -/
def Survives (events : List Event) (last : Server) : Prop :=
  (∀ exception, last.ended ≠ some (.raised exception)) ∧ (Going last ∨ ∃ event ∈ events, Ends event)

/-- An event that ends the helper with an exception. -/
def Fatal : Event → Prop
  | .poll (.connection _ received) => ¬ Served received
  | .signal | .test | .poll .failed | .poll .interrupted | .poll (.quiet _) | .poll .refused => False

variable {server : Server}

theorem step_took {later : Server} {event : Event} (moved : step server event = some later) : server.ended = none := by
  unfold step at moved
  cases ended : server.ended with
  | none => rfl
  | some reason => simp [ended] at moved

theorem serve_connection_running {kernel : Kernel} {received : Bytes} {world : World} {served : Option Bytes × World}
    (ok : serve_connection kernel received world = .ok served) (stays : ¬ Quits received) : served.2.running = world.running := by
  obtain ⟨found, decoded, taken⟩ := bind_ok_iff.mp ok
  cases found with
  | none =>
    cases taken
    rfl
  | some request =>
    obtain ⟨action, acted, taken⟩ := bind_ok_iff.mp taken
    cases taken
    obtain ⟨parts, partsRead, acted⟩ := bind_ok_iff.mp acted
    cases parts with
    | none =>
      cases acted
      rfl
    | some pair =>
      refine run_command_running kernel world acted ?_
      intro quit
      exact stays ⟨request, pair.1, pair.2, decoded, partsRead, quit⟩

theorem step_raised_iff {later : Server} {event : Event} (moved : step server event = some later) :
    (∃ exception, later.ended = some (.raised exception)) ↔ Fatal event := by
  have alive := step_took moved
  simp only [step, alive] at moved
  cases event with
  | signal =>
    cases moved
    simp [Fatal, alive]
  | test =>
    split_ifs at moved
    · cases moved
      simp [Fatal, alive]
    · cases moved
      simp [Fatal]
  | poll polled =>
    split_ifs at moved
    cases moved
    cases polled with
    | failed | interrupted | refused => simp [take_poll, Fatal, alive]
    | quiet expired => cases expired <;> simp [take_poll, Fatal, alive]
    | connection kernel received =>
      simp only [take_poll, Fatal, ← serve_connection_ok_iff kernel received server.world]
      cases serve_connection kernel received server.world with
      | ok served => simp [alive]
      | error exception => simp

theorem step_going {later : Server} {event : Event} (moved : step server event = some later)
    (going : server.world.running = true) (stays : ¬ Ends event) : Going later ∨ Fatal event := by
  have alive := step_took moved
  simp only [step, alive] at moved
  cases event with
  | signal => exact absurd trivial stays
  | test =>
    split_ifs at moved
    cases moved
    exact .inl ⟨rfl, going⟩
  | poll polled =>
    split_ifs at moved
    cases moved
    cases polled with
    | failed => exact absurd trivial stays
    | interrupted => exact .inl ⟨rfl, going⟩
    | refused => exact .inl ⟨rfl, going⟩
    | quiet expired =>
      cases expired with
      | true => exact absurd rfl stays
      | false => exact .inl ⟨rfl, going⟩
    | connection kernel received =>
      simp only [take_poll, Fatal, ← serve_connection_ok_iff kernel received server.world]
      cases outcome : serve_connection kernel received server.world with
      | ok served => exact .inl ⟨rfl, (serve_connection_running outcome stays).trans going⟩
      | error exception => exact .inr (by simp)

theorem runs_ended {last : Server} {events : List Event} (ended : server.ended ≠ none)
    (ran : runs step server events = some last) : events = [] ∧ server = last := by
  cases events with
  | nil =>
    cases ran
    exact ⟨rfl, rfl⟩
  | cons event rest =>
    obtain ⟨later, moved, -⟩ := Option.bind_eq_some_iff.mp ran
    exact absurd (step_took moved) ended

theorem runs_raised_iff {last : Server} {events : List Event} (alive : server.ended = none)
    (ran : runs step server events = some last) :
    (∃ exception, last.ended = some (.raised exception)) ↔ ∃ event ∈ events, Fatal event := by
  induction events generalizing server with
  | nil =>
    cases ran
    simp [alive]
  | cons event rest ih =>
    obtain ⟨later, moved, ran⟩ := Option.bind_eq_some_iff.mp ran
    rw [List.exists_mem_cons_iff, ← step_raised_iff moved]
    by_cases ended : later.ended = none
    · simp [ih ended ran, ended]
    · obtain ⟨rfl, rfl⟩ := runs_ended ended ran
      simp

theorem runs_going {last : Server} {events : List Event} (going : Going server)
    (ran : runs step server events = some last) (survived : ∀ exception, last.ended ≠ some (.raised exception))
    (stays : ∀ event ∈ events, ¬ Ends event) : Going last := by
  induction events generalizing server with
  | nil =>
    cases ran
    exact going
  | cons event rest ih =>
    have whole := runs_raised_iff going.1 ran
    obtain ⟨later, moved, ran⟩ := Option.bind_eq_some_iff.mp ran
    rcases step_going moved going.2 (stays event (by simp)) with further | fatal
    · exact ih further ran (fun other member => stays other (List.mem_cons_of_mem _ member))
    · obtain ⟨exception, raised⟩ := whole.mpr ⟨event, by simp, fatal⟩
      exact absurd raised (survived exception)

/-- A kernel that is asked for nothing. -/
def idle_kernel : Kernel := ⟨fun _ _ => none, fun _ _ => false, fun _ _ _ => none, fun _ _ => none, fun _ _ => none,
  fun _ _ => ⟨false, false, false, none, none, ESRCH⟩, fun _ _ _ => ⟨[], false, false, 0, [], 0, none⟩, 7, 0, 0⟩

/-- The text `Refresh` in a frame. -/
def refresh_frame : Bytes := [9, 0, 0, 0, 0x28, 7, 82, 101, 102, 114, 101, 115, 104]

def refresh_events : List Event := [.test, .poll (.connection idle_kernel refresh_frame), .test]

/-- The header of a text of one byte, and no text. -/
def cut_frame : Bytes := [1, 0, 0, 0, 8]

end TaskExplorer.HelperServer
