import TaskExplorer.HelperCommand

/-!
# What the helper touches

The helper often runs as root, so what a request can make it read is bounded by lists
of names in the source. Every call that serving a request makes is looked at here,
whatever the request says and whatever the kernel answers.
-/

namespace TaskExplorer.HelperPaths
open Codec VariantFormat VariantContainer HelperCommand

/-! ## What is allowed -/

/-- A number in decimal digits. -/
def Decimal (digits : Bytes) : Prop := digits ≠ [] ∧ ∀ byte ∈ digits, is_digit byte = true

/-- The path is `/proc/<decimal>/` and the leaf. -/
def InProc (path leaf : Bytes) : Prop := ∃ digits, Decimal digits ∧ path = text "/proc/" ++ digits ++ text "/" ++ leaf

/-- A name, and the number behind it. -/
def Numbered (name : String) (leaf : Bytes) : Prop := ∃ digits, Decimal digits ∧ leaf = text name ++ digits

def OpenedLeaf (leaf : Bytes) : Prop :=
  (∃ allowed ∈ allowed_leaves, leaf = text allowed) ∨ leaf = text "maps" ∨ leaf = text "auxv" ∨ leaf = text "mem" ∨
    Numbered "fdinfo/" leaf

def ListedLeaf (leaf : Bytes) : Prop := leaf = text "fd" ∨ leaf = text "task"

def LinkLeaf (leaf : Bytes) : Prop :=
  leaf = text "exe" ∨ leaf = text "cwd" ∨ leaf = text "root" ∨ Numbered "fd/" leaf

/-- The path is opened for reading or followed only where the lists say so, and a buffer is
    at most what one request for memory may ask for. -/
def Allowed : Call → Prop
  | .open path mode => mode = .O_RDONLY ∧ ∃ leaf, OpenedLeaf leaf ∧ InProc path leaf
  | .opendir path => ∃ leaf, ListedLeaf leaf ∧ InProc path leaf
  | .readlink path size => (∃ leaf, LinkLeaf leaf ∧ InProc path leaf) ∧ size ≤ MaxMemorySize
  | .pread size _ => size ≤ MaxMemorySize
  | .buffer size => size ≤ MaxMemorySize
  | .ptrace _ _ => True
  | .waitpid _ => True

/-- The names the kernel lists in `fd` and `task` are numbers, next to the two every
    directory has. -/
def ListsNumbers (kernel : Kernel) : Prop :=
  ∀ calls path leaf names, ListedLeaf leaf → InProc path leaf → kernel.opendir calls path = some names →
    ∀ name ∈ names, name = text "." ∨ name = text ".." ∨ Decimal name

/-- What is left of a request that raised an exception is nothing: it comes before the
    first call. -/
def after (kernel : Kernel) (request : Packed) (world : World) : World :=
  match process_command kernel request with
  | .ok action => (action world).2
  | .error _ => world

/-- The calls that were added all are of one kind. -/
def Adds (holds : Call → Prop) (world later : World) : Prop :=
  ∃ made, later.calls = world.calls ++ made ∧ ∀ call ∈ made, holds call

/-! ## Calls that are added -/

section
variable {holds : Call → Prop} {first world later : World}

theorem Adds.refl (world : World) : Adds holds world world := ⟨[], by simp, by simp⟩

theorem Adds.of_calls (same : later.calls = world.calls) : Adds holds world later := ⟨[], by simp [same], by simp⟩

theorem Adds.trans (before : Adds holds first world) (behind : Adds holds world later) : Adds holds first later := by
  obtain ⟨made, split, good⟩ := before
  obtain ⟨more, splitMore, goodMore⟩ := behind
  refine ⟨made ++ more, by rw [splitMore, split, List.append_assoc], ?_⟩
  intro call member
  rcases List.mem_append.mp member with old | new
  · exact good call old
  · exact goodMore call new

theorem Adds.record {call : Call} (good : holds call) : Adds holds world (record world call) :=
  ⟨[call], rfl, by simpa using good⟩

theorem Adds.then (before : Adds holds first world) (call : Call) (good : holds call) : Adds holds first (HelperCommand.record world call) :=
  before.trans (Adds.record good)

theorem Adds.mono {other : Call → Prop} (fewer : ∀ call, holds call → other call) (adds : Adds holds world later) : Adds other world later := by
  obtain ⟨made, split, good⟩ := adds
  exact ⟨made, split, fun call member => fewer call (good call member)⟩

theorem Adds.foldl {α : Type} {call : α → Call} (items : List α) (good : ∀ item ∈ items, holds (call item)) (world : World) :
    Adds holds world (items.foldl (fun world item => HelperCommand.record world (call item)) world) := by
  induction items generalizing world with
  | nil => exact Adds.refl world
  | cons item rest ih =>
    have head : Adds holds world (HelperCommand.record world (call item)) := Adds.record (good item (by simp))
    exact head.trans (ih (fun other member => good other (List.mem_cons_of_mem _ member)) _)

end

/-! ## Paths -/

theorem decimal_digits (number : Nat) : Decimal (decimal number) := by
  refine ⟨by simp [decimal], ?_⟩
  intro byte member
  obtain ⟨digit, found, rfl⟩ := List.mem_map.mp member
  have digits := Nat.isDigit_of_mem_toDigits (by decide) (by decide) found
  simp only [Char.isDigit, Bool.and_eq_true, decide_eq_true_eq] at digits
  obtain ⟨low, high⟩ := digits
  have lower : 48 ≤ digit.toNat := low
  have upper : digit.toNat ≤ 57 := high
  simp only [is_digit, Bool.and_eq_true, decide_eq_true_eq, UInt8.le_iff_toNat_le, UInt8.toNat_ofNat']
  rw [Nat.mod_eq_of_lt (by omega)]
  exact ⟨lower, upper⟩

theorem digit_ne_zero {byte : UInt8} (digit : is_digit byte = true) : byte ≠ 0 := by
  rintro rfl
  revert digit
  decide

theorem Decimal.plain {digits : Bytes} (decimal : Decimal digits) : (0 : UInt8) ∉ digits :=
  fun member => digit_ne_zero (decimal.2 0 member) rfl

theorem inProc_proc_path (pid : Nat) (leaf : Bytes) : InProc (proc_path pid leaf) leaf := ⟨decimal pid, decimal_digits pid, rfl⟩

variable {leaf : Bytes}

theorem c_str_proc_path (pid : Nat) (plain : (0 : UInt8) ∉ leaf) : c_str (proc_path pid leaf) = proc_path pid leaf := by
  apply c_str_of_plain
  have digits := (decimal_digits pid).plain
  have slashes : (0 : UInt8) ∉ text "/proc/" ∧ (0 : UInt8) ∉ text "/" := by decide
  simp [proc_path, plain, digits, slashes]

theorem numbered_plain {name : String} (plain : (0 : UInt8) ∉ text name) (numbered : Numbered name leaf) :
    (0 : UInt8) ∉ leaf := by
  obtain ⟨digits, decimal, rfl⟩ := numbered
  simp [plain, decimal.plain]

theorem openedLeaf_plain (opened : OpenedLeaf leaf) : (0 : UInt8) ∉ leaf := by
  rcases opened with ⟨allowed, member, rfl⟩ | rfl | rfl | rfl | numbered
  · revert allowed
    decide
  · decide
  · decide
  · decide
  · exact numbered_plain (by decide) numbered

theorem linkLeaf_plain (link : LinkLeaf leaf) : (0 : UInt8) ∉ leaf := by
  rcases link with rfl | rfl | rfl | numbered
  · decide
  · decide
  · decide
  · exact numbered_plain (by decide) numbered

theorem openedLeaf_of_readable (readable : is_readable_leaf leaf = true) : OpenedLeaf leaf := by
  simpa [is_readable_leaf, OpenedLeaf] using Or.inl readable

theorem linkLeaf_of_readable (readable : is_readable_link leaf = true) : LinkLeaf leaf := by
  unfold is_readable_link at readable
  by_cases fixed : leaf = text "exe" ∨ leaf = text "cwd" ∨ leaf = text "root"
  · rcases fixed with exe | cwd | root
    · exact .inl exe
    · exact .inr (.inl cwd)
    · exact .inr (.inr (.inl root))
  · rw [if_neg fixed] at readable
    simp only [Bool.and_eq_true, decide_eq_true_eq, List.all_eq_true] at readable
    obtain ⟨⟨start, long⟩, digits⟩ := readable
    refine .inr (.inr (.inr ⟨leaf.drop 3, ⟨?_, digits⟩, ?_⟩))
    · intro empty
      have short := List.drop_eq_nil_iff.mp empty
      omega
    · rw [← start, List.take_append_drop]

/-! ## Handlers -/

theorem allowed_open {pid : Nat} (opened : OpenedLeaf leaf) :
    Allowed (.open (c_str (proc_path pid leaf)) .O_RDONLY) := by
  rw [c_str_proc_path pid (openedLeaf_plain opened)]
  exact ⟨rfl, leaf, opened, inProc_proc_path pid leaf⟩

theorem allowed_opendir {pid : Nat} {leaf : Bytes} (listed : ListedLeaf leaf) :
    Allowed (.opendir (c_str (proc_path pid leaf))) ∧ InProc (c_str (proc_path pid leaf)) leaf := by
  have plain : (0 : UInt8) ∉ leaf := by
    rcases listed with rfl | rfl
    · decide
    · decide
  rw [c_str_proc_path pid plain]
  exact ⟨⟨leaf, listed, inProc_proc_path pid leaf⟩, inProc_proc_path pid leaf⟩

theorem allowed_readlink (pid : Nat) {size : Nat} (link : LinkLeaf leaf) (small : size ≤ MaxMemorySize) :
    Allowed (.readlink (c_str (proc_path pid leaf)) size) := by
  rw [c_str_proc_path pid (linkLeaf_plain link)]
  exact ⟨⟨leaf, link, inProc_proc_path pid leaf⟩, small⟩

theorem read_chunks_adds (data : Bytes) (reads : List Read) (world : World) : Adds Allowed world (read_chunks data reads world).2 := by
  induction reads generalizing data world with
  | nil => exact Adds.refl world
  | cons read rest ih =>
    cases read with
    | interrupted => exact ih data world
    | failed => exact Adds.refl world
    | bytes chunk =>
      rw [read_chunks]
      by_cases done : chunk = []
      · rw [if_pos done]
        exact Adds.refl world
      rw [if_neg done]
      by_cases large : data.length + chunk.length > MaxFileSize
      · rw [if_pos large]
        exact Adds.refl world
      rw [if_neg large]
      have small : Allowed (.buffer (data.length + chunk.length)) := by
        simp only [Allowed, MaxMemorySize]
        simp only [MaxFileSize] at large
        omega
      exact (Adds.record small).trans (ih _ _)

theorem read_whole_file_adds (kernel : Kernel) (pid : Nat) (opened : OpenedLeaf leaf) (world : World) :
    Adds Allowed world (read_whole_file kernel (proc_path pid leaf) world).2 := by
  have first : Adds Allowed world (record world (.open (c_str (proc_path pid leaf)) .O_RDONLY)) := Adds.record (allowed_open opened)
  unfold read_whole_file
  cases kernel.openFile world.calls (c_str (proc_path pid leaf)) with
  | none => exact first
  | some reads => exact first.trans (read_chunks_adds [] reads _)

theorem read_files_adds (kernel : Kernel) (pid : Nat) (leaves : List Bytes) (world : World) :
    Adds Allowed world (read_files kernel pid leaves world).2 := by
  induction leaves generalizing world with
  | nil => exact Adds.refl world
  | cons leaf rest ih =>
    rw [read_files]
    by_cases readable : is_readable_leaf leaf = true
    · have first := read_whole_file_adds kernel pid (openedLeaf_of_readable readable) world
      rw [if_pos readable]
      rcases outcome : read_whole_file kernel (proc_path pid leaf) world with ⟨data, later⟩
      rw [outcome] at first
      cases data with
      | none => exact first.trans (ih later)
      | some data => exact first.trans (ih later)
    · rw [if_neg readable]
      exact ih world

theorem read_pids_adds (kernel : Kernel) (leaves : List Bytes) (pids : List Nat) (world : World) :
    Adds Allowed world (read_pids kernel leaves pids world).2 := by
  induction pids generalizing world with
  | nil => exact Adds.refl world
  | cons pid rest ih => exact (read_files_adds kernel pid leaves world).trans (ih _)

theorem link_size_le {doublings : Nat} (few : doublings ≤ 7) : link_size doublings ≤ MaxMemorySize := by
  have power : 2 ^ doublings ≤ 2 ^ 7 := Nat.pow_le_pow_right (by decide) few
  simp only [link_size, MaxMemorySize]
  omega

theorem read_link_adds (kernel : Kernel) {pid : Nat} (link : LinkLeaf leaf) (doublings : Nat) (few : doublings ≤ 7)
    (world : World) : Adds Allowed world (read_link kernel (proc_path pid leaf) doublings world).2 := by
  -- The buffer has been doubled seven times at most when the loop ends.
  induction rounds : 7 - doublings generalizing doublings world with
  | zero =>
    rw [read_link]
    have first : Adds Allowed world (record world (.buffer (link_size doublings))) := Adds.record (link_size_le few)
    have second := first.then _ (allowed_readlink pid link (link_size_le few))
    cases kernel.readlink world.calls (c_str (proc_path pid leaf)) with
    | none => exact second
    | some target =>
      dsimp only
      have last : link_size doublings > MaxLinkSize := by
        by_contra small
        have bound := doublings_lt small
        omega
      rw [dif_pos last, ite_self]
      exact second
  | succ rounds ih =>
    rw [read_link]
    have first : Adds Allowed world (record world (.buffer (link_size doublings))) := Adds.record (link_size_le few)
    have second := first.then _ (allowed_readlink pid link (link_size_le few))
    cases kernel.readlink world.calls (c_str (proc_path pid leaf)) with
    | none => exact second
    | some target =>
      dsimp only
      by_cases fits : (target.take (link_size doublings)).length < link_size doublings
      · rw [if_pos fits]
        exact second
      rw [if_neg fits]
      by_cases large : link_size doublings > MaxLinkSize
      · rw [dif_pos large]
        exact second
      · rw [dif_neg large]
        exact second.trans (ih (doublings + 1) (by omega) _ (by omega))

theorem decimal_of_listed {name : Bytes} (listed : name = text "." ∨ name = text ".." ∨ Decimal name) (digit : starts_with_digit name = true) :
    Decimal name := by
  rcases listed with rfl | rfl | decimal
  · exact absurd digit (by decide)
  · exact absurd digit (by decide)
  · exact decimal

theorem list_fd_adds (kernel : Kernel) (pid : Nat) {name : Bytes} (decimal : Decimal name) (world : World) :
    Adds Allowed world (list_fd kernel pid name world).2 := by
  have path : proc_path pid (text "fd") ++ text "/" ++ name = proc_path pid (text "fd/" ++ name) := by
    simp [proc_path, text]
  have link : LinkLeaf (text "fd/" ++ name) := .inr (.inr (.inr ⟨name, decimal, rfl⟩))
  have info : OpenedLeaf (text "fdinfo/" ++ name) := .inr (.inr (.inr (.inr ⟨name, decimal, rfl⟩)))
  have small : 4095 ≤ MaxMemorySize := by decide
  unfold list_fd
  simp only [path]
  have first : Adds Allowed world (record world (.readlink (c_str (proc_path pid (text "fd/" ++ name))) 4095)) :=
    Adds.record (allowed_readlink pid link small)
  exact first.trans (read_whole_file_adds kernel pid info _)

theorem list_fds_adds (kernel : Kernel) (pid : Nat) (names : List Bytes)
    (listed : ∀ name ∈ names, name = text "." ∨ name = text ".." ∨ Decimal name) (world : World) :
    Adds Allowed world (list_fds kernel pid names world).2 := by
  induction names generalizing world with
  | nil => exact Adds.refl world
  | cons name rest ih =>
    have later := ih (fun other member => listed other (List.mem_cons_of_mem _ member))
    rw [list_fds]
    by_cases digit : starts_with_digit name = true
    · rw [if_pos digit]
      exact (list_fd_adds kernel pid (decimal_of_listed (listed name (by simp)) digit) world).trans (later _)
    · rw [if_neg digit]
      exact later world

theorem dump_detach_all_adds (world : World) : Adds Allowed world (dump_detach_all world) := by
  have detached : Adds Allowed world (world.attached.foldl (fun world tid => record world (.ptrace .detach tid)) world) :=
    Adds.foldl world.attached (fun _ _ => trivial) world
  exact detached.trans (Adds.of_calls rfl)

theorem attach_thread_adds (asked : Attach) (tid : Nat) (world : World) : Adds Allowed world (attach_thread asked tid world).2 := by
  have seized : Adds Allowed world (record world (.ptrace .seize tid)) := Adds.record trivial
  have interrupted := seized.then (.ptrace .interrupt tid) trivial
  have waited := interrupted.then (.waitpid tid) trivial
  unfold attach_thread
  by_cases seize : asked.seize = true
  · by_cases interrupt : asked.interrupt = true
    · by_cases wait : asked.wait = true
      · simp only [seize, interrupt, wait, if_true]
        have kept := waited.trans (@Adds.of_calls Allowed _ { record (record (record world (.ptrace .seize tid)) (.ptrace .interrupt tid)) (.waitpid tid) with
          attached := world.attached ++ [tid] } rfl)
        exact (kept.then (.ptrace .getRegs tid) trivial).then (.ptrace .getFpRegs tid) trivial
      · simp only [seize, interrupt, wait, if_true, Bool.false_eq_true, if_false]
        exact waited.then (.ptrace .detach tid) trivial
    · simp only [seize, interrupt, if_true, Bool.false_eq_true, if_false]
      exact interrupted.then (.ptrace .detach tid) trivial
  · simp only [seize, Bool.false_eq_true, if_false]
    exact seized

theorem attach_threads_adds (kernel : Kernel) (errno : Nat) (names : List Bytes) (world : World) :
    Adds Allowed world (attach_threads kernel errno names world).2 := by
  induction names generalizing errno world with
  | nil => exact Adds.refl world
  | cons name rest ih =>
    rw [attach_threads]
    by_cases digit : starts_with_digit name = true
    · rw [if_pos digit]
      exact (attach_thread_adds _ _ world).trans (ih _ _)
    · rw [if_neg digit]
      exact ih errno world

theorem dump_file_adds (kernel : Kernel) (pid : Nat) {leaf : String} (opened : OpenedLeaf (text leaf)) (name : String) (world : World) :
    Adds Allowed world (dump_file kernel pid leaf name world).2 := read_whole_file_adds kernel pid opened world

section
variable {kernel : Kernel} {parameters : Packed} {action : Action}

theorem read_proc_files_adds (taken : read_proc_files kernel parameters = .ok action) (world : World) :
    Adds Allowed world (action world).2 := by
  simp only [read_proc_files, bind_ok_iff, pure, Except.pure, Except.ok.injEq] at taken
  obtain ⟨pids, -, leaves, -, leafNames, -, pidList, -, rfl⟩ := taken
  exact read_pids_adds kernel leafNames pidList world

theorem read_proc_link_adds (taken : read_proc_link kernel parameters = .ok action) (world : World) :
    Adds Allowed world (action world).2 := by
  simp only [read_proc_link, bind_ok_iff] at taken
  obtain ⟨-, -, pid, -, -, -, leaf, -, taken⟩ := taken
  by_cases refused : pid = 0 ∨ is_readable_link leaf = false
  · rw [if_pos refused] at taken
    cases taken
    exact Adds.refl world
  · rw [if_neg refused] at taken
    cases taken
    rw [not_or, Bool.not_eq_false] at refused
    exact read_link_adds kernel (linkLeaf_of_readable refused.2) 0 (by decide) world

theorem list_proc_fds_adds (listed : ListsNumbers kernel) (taken : list_proc_fds kernel parameters = .ok action) (world : World) :
    Adds Allowed world (action world).2 := by
  simp only [list_proc_fds, bind_ok_iff] at taken
  obtain ⟨-, -, pid, -, taken⟩ := taken
  by_cases refused : pid = 0
  · rw [if_pos refused] at taken
    cases taken
    exact Adds.refl world
  · rw [if_neg refused] at taken
    cases taken
    have directory : ListedLeaf (text "fd") := .inl rfl
    obtain ⟨allowed, path⟩ := @allowed_opendir pid _ directory
    have first : Adds Allowed world (record world (.opendir (c_str (proc_path pid (text "fd"))))) := Adds.record allowed
    dsimp only
    cases opened : kernel.opendir world.calls (c_str (proc_path pid (text "fd"))) with
    | none => exact first
    | some names => exact first.trans (list_fds_adds kernel pid names (listed _ _ _ names directory path opened) _)

theorem read_proc_memory_adds (taken : read_proc_memory kernel parameters = .ok action) (world : World) :
    Adds Allowed world (action world).2 := by
  simp only [read_proc_memory, bind_ok_iff] at taken
  obtain ⟨-, -, pid, -, -, -, address, -, -, -, size, -, taken⟩ := taken
  by_cases refused : pid = 0 ∨ size = 0 ∨ size > MaxMemorySize
  · rw [if_pos refused] at taken
    cases taken
    exact Adds.refl world
  · rw [if_neg refused] at taken
    cases taken
    have small : size ≤ MaxMemorySize := by
      rw [not_or, not_or] at refused
      exact Nat.le_of_not_gt refused.2.2
    have memory : OpenedLeaf (text "mem") := .inr (.inr (.inr (.inl rfl)))
    have first : Adds Allowed world (record world (.open (c_str (proc_path pid (text "mem"))) .O_RDONLY)) := Adds.record (allowed_open memory)
    have last := (first.then (.buffer size) small).then (.pread size address) small
    dsimp only
    by_cases opened : kernel.openMemory world.calls (c_str (proc_path pid (text "mem"))) = true
    · rw [if_pos opened]
      cases Option.map (fun data => List.take size data) (kernel.pread
        (record (record world (.open (c_str (proc_path pid (text "mem"))) .O_RDONLY)) (.buffer size)).calls (c_str (proc_path pid (text "mem"))) address) with
      | none => exact last
      | some data => exact last
    · rw [if_neg opened]
      exact first

theorem dump_attach_adds (taken : dump_attach kernel parameters = .ok action) (world : World) : Adds Allowed world (action world).2 := by
  simp only [dump_attach, bind_ok_iff] at taken
  obtain ⟨-, -, pid, -, taken⟩ := taken
  by_cases refused : pid = 0
  · rw [if_pos refused] at taken
    cases taken
    exact Adds.refl world
  · rw [if_neg refused] at taken
    cases taken
    have maps : OpenedLeaf (text "maps") := .inr (.inl rfl)
    have auxv : OpenedLeaf (text "auxv") := .inr (.inr (.inl rfl))
    have listed := (dump_detach_all_adds world).then _ (@allowed_opendir pid _ (.inr rfl)).1
    have threads := listed.trans (attach_threads_adds kernel 0
      ((kernel.opendir (dump_detach_all world).calls (c_str (proc_path pid (text "task")))).getD []) _)
    exact (threads.trans (dump_file_adds kernel pid maps "Maps" _)).trans (dump_file_adds kernel pid auxv "Auxv" _)

end

/-- The files libdwfl opens by itself while the helper traces a stack. -/
def Library (kernel : Kernel) (request : Packed) (world : World) (call : Call) : Prop :=
  ∃ command parameters pid tid, request_parts request = .ok (some (command, parameters)) ∧ command_of command = .traceStack ∧
    (find parameters "ProcessId" >>= to_uint64) = .ok pid ∧ (find parameters "ThreadId" >>= to_uint64) = .ok tid ∧
    pid ≠ 0 ∧ tid ≠ 0 ∧ ∃ path ∈ (kernel.dwfl world.calls pid tid).opened, call = .open path .O_RDONLY

theorem trace_stack_calls (kernel : Kernel) (pid tid requested : Nat) (world : World) :
    (trace_stack kernel pid tid requested world).2 =
      (kernel.dwfl world.calls pid tid).opened.foldl (fun world path => record world (.open path .O_RDONLY)) world := by
  unfold trace_stack
  dsimp only
  split_ifs <;> rfl

theorem run_command_adds {kernel : Kernel} (listed : ListsNumbers kernel) {request parameters : Packed} {command : Bytes} {action : Action}
    (parts : request_parts request = .ok (some (command, parameters)))
    (taken : run_command kernel parameters (command_of command) = .ok action) (world : World) :
    Adds (fun call => Allowed call ∨ Library kernel request world call) world (action world).2 := by
  have own (adds : Adds Allowed world (action world).2) :
      Adds (fun call => Allowed call ∨ Library kernel request world call) world (action world).2 := adds.mono (fun _ => .inl)
  cases asked : command_of command <;> rw [asked] at taken
  case readProcFiles => exact own (read_proc_files_adds taken world)
  case readProcLink => exact own (read_proc_link_adds taken world)
  case listProcFds => exact own (list_proc_fds_adds listed taken world)
  case readProcMemory => exact own (read_proc_memory_adds taken world)
  case dumpAttach => exact own (dump_attach_adds taken world)
  case dumpDetach =>
    cases taken
    exact own (dump_detach_all_adds world)
  case traceStack =>
    simp only [run_command, bind_ok_iff] at taken
    obtain ⟨pidVariant, pidFound, pid, pidRead, tidVariant, tidFound, tid, tidRead, -, -, maxFrames, -, taken⟩ := taken
    by_cases refused : pid = 0 ∨ tid = 0
    · rw [if_pos refused] at taken
      cases taken
      exact Adds.refl world
    · rw [if_neg refused] at taken
      cases taken
      rw [not_or] at refused
      rw [trace_stack_calls]
      refine Adds.foldl _ ?_ world
      intro path member
      exact .inr ⟨command, parameters, pid, tid, parts, asked, bind_ok_iff.mpr ⟨_, pidFound, pidRead⟩, bind_ok_iff.mpr ⟨_, tidFound, tidRead⟩,
        refused.1, refused.2, path, member, rfl⟩
  -- The others ask nothing of the kernel.
  all_goals
    cases taken
    exact Adds.of_calls rfl

/-- Whatever the request, the helper itself opens, lists and follows what the lists allow,
    for reading only, into buffers of a fixed size; the rest is what libdwfl opens. -/
theorem helper_touches (kernel : Kernel) (listed : ListsNumbers kernel) (request : Packed) (world : World) :
    ∃ made, (after kernel request world).calls = world.calls ++ made ∧
      ∀ call ∈ made, Allowed call ∨ Library kernel request world call := by
  unfold after
  cases taken : process_command kernel request with
  | error raised => exact Adds.refl world
  | ok action =>
    simp only [process_command, bind_ok_iff] at taken
    obtain ⟨parts, partsRead, taken⟩ := taken
    cases parts with
    | none =>
      cases taken
      exact Adds.refl world
    | some pair => exact run_command_adds listed partsRead taken world

/-! ## A process that runs a program -/

/-- Process 42 runs `/usr/bin/cat`, and has one descriptor. libdwfl takes the names of the
    modules from its map, and opens each as a file. -/
def cat_kernel : Kernel where
  openFile _ _ := none
  openMemory _ _ := false
  pread _ _ _ := none
  readlink _ _ := none
  opendir _ path :=
    if path = proc_path 42 (text "fd") then some [text ".", text "..", text "3"]
    else if path = proc_path 42 (text "task") then some [text ".", text "..", text "42"]
    else none
  attach _ _ := ⟨false, false, false, none, none, EPERM⟩
  dwfl _ _ _ := ⟨[text "/proc/42/maps", text "/usr/bin/cat"], true, true, 1, [], 0, none⟩
  getpid := 7
  getuid := 0
  geteuid := 0

theorem cat_lists_numbers : ListsNumbers cat_kernel := by
  intro calls path leaf names _ _ listed name member
  simp only [cat_kernel] at listed
  have digits : Decimal (text "3") ∧ Decimal (text "42") := by
    simp [Decimal, text, is_digit]
  split_ifs at listed with descriptors threads
  · cases listed
    simp only [List.mem_cons, List.not_mem_nil, or_false] at member
    rcases member with rfl | rfl | rfl
    · exact .inl rfl
    · exact .inr (.inl rfl)
    · exact .inr (.inr digits.1)
  · cases listed
    simp only [List.mem_cons, List.not_mem_nil, or_false] at member
    rcases member with rfl | rfl | rfl
    · exact .inl rfl
    · exact .inr (.inl rfl)
    · exact .inr (.inr digits.2)

def trace_parameters : List (Key × Packed) := [named "ProcessId" (uint64 42), named "ThreadId" (uint64 42)]

def trace_entries : List (Key × Packed) :=
  [named "Command" (ascii "TraceStack"), named "Parameters" (finish .map trace_parameters)]

theorem trace_parameters_writable : Writable .map trace_parameters where
  fits := by
    intro pair member
    simp only [trace_parameters, List.mem_cons, List.not_mem_nil, or_false] at member
    rcases member with rfl | rfl
    · exact named_fits (by decide) (encodable_uint64 42)
    · exact named_fits (by decide) (encodable_uint64 42)
  short := by decide

theorem trace_entries_writable : Writable .map trace_entries where
  fits := by
    intro pair member
    simp only [trace_entries, List.mem_cons, List.not_mem_nil, or_false] at member
    rcases member with rfl | rfl
    · exact named_fits (by decide) ⟨by decide, by decide⟩
    · exact named_fits (by decide) (encodable_finish trace_parameters_writable)
  short := by decide

theorem trace_taken : process_command cat_kernel (finish .map trace_entries) = .ok (trace_stack cat_kernel 42 42 0) := by
  have command : find (finish .map trace_entries) "Command" = .ok (ascii "TraceStack") := by
    rw [find_finish trace_entries_writable]
    rfl
  have parameters : find (finish .map trace_entries) "Parameters" = .ok (finish .map trace_parameters) := by
    rw [find_finish trace_entries_writable]
    rfl
  have pid : find (finish .map trace_parameters) "ProcessId" = .ok (uint64 42) := by
    rw [find_finish trace_parameters_writable]
    rfl
  have tid : find (finish .map trace_parameters) "ThreadId" = .ok (uint64 42) := by
    rw [find_finish trace_parameters_writable]
    rfl
  have maxFrames : find (finish .map trace_parameters) "MaxFrames" = .ok none_variant := by
    rw [find_finish trace_parameters_writable]
    rfl
  have parts : request_parts (finish .map trace_entries) = .ok (some (text "TraceStack", finish .map trace_parameters)) := by
    unfold request_parts
    rw [command, parameters]
    rfl
  have asked : command_of (text "TraceStack") = .traceStack := by decide
  simp only [process_command, parts, bind, Except.bind, run_command, asked, pid, tid, maxFrames]
  rfl

/-- Process 42, whose stack is asked for. -/
theorem helper_touches_cat :
    ListsNumbers cat_kernel ∧ ∃ made, (after cat_kernel (finish .map trace_entries) {}).calls = [] ++ made ∧
      ∀ call ∈ made, Allowed call ∨ Library cat_kernel (finish .map trace_entries) {} call :=
  ⟨cat_lists_numbers, helper_touches cat_kernel cat_lists_numbers (finish .map trace_entries) {}⟩

/-- A trace of the stack makes libdwfl open the program the process runs. -/
theorem program_opened :
    ListsNumbers cat_kernel ∧
      (after cat_kernel (finish .map trace_entries) {}).calls =
        [.open (text "/proc/42/maps") .O_RDONLY, .open (text "/usr/bin/cat") .O_RDONLY] ∧
      ¬ ∀ call ∈ (after cat_kernel (finish .map trace_entries) {}).calls, Allowed call := by
  have calls : (after cat_kernel (finish .map trace_entries) {}).calls =
      [.open (text "/proc/42/maps") .O_RDONLY, .open (text "/usr/bin/cat") .O_RDONLY] := by
    simp only [after, trace_taken]
    rfl
  refine ⟨cat_lists_numbers, calls, ?_⟩
  intro all
  obtain ⟨-, leaf, -, digits, -, path⟩ := all (.open (text "/usr/bin/cat") .O_RDONLY) (by rw [calls]; simp)
  have second : (text "/usr/bin/cat").take 2 = (text "/proc/" ++ digits ++ text "/" ++ leaf).take 2 := by rw [path]
  simp [text] at second

end TaskExplorer.HelperPaths
