import TaskExplorer.Lingering
import TaskExplorer.Transition

/-!
# The process list

The processes are kept under their UIDs, which pair the pid with the start time, and
are also found by their pids. A refresh reads the directories of `/proc`: a process it
knows is kept, another one gets an object, and what is left over is marked and later
taken off the list. Kernel threads are not listed as processes but handed to the one
that hosts them. Statistics, windows and parent links are left out.
-/

namespace TaskExplorer.LinuxProcesses
open OrderedMap
open Lingering

/-- `SProcessUID`. -/
def process_uid (pid msTime : Nat) : Nat := ((pid <<< 42) &&& 0xFFFFFC0000000000) ^^^ (msTime &&& 0x3FFFFFFFFFF)

structure CLinuxProcess where
  processId : Nat := 2 ^ 64 - 1
  parentId : Nat := 2 ^ 64 - 1
  processUId : Nat := 0
  createTimeStamp : Nat := 0
  /-- The kernel threads it hosts. -/
  kernelTaskPids : List Nat := []
  removeTimeStamp : Nat := 0
deriving DecidableEq, Repr

structure CLinuxAPI where
  objects : Nat → CLinuxProcess
  next : Nat
  processMap : OrdMap Nat Nat
  processByPID : OrdMap Nat Nat

/-- Nothing is listed. -/
def started : CLinuxAPI := ⟨fun _ => {}, 0, .empty, .empty⟩

structure SStat where
  ppid : Nat
  /-- In milliseconds since the epoch. -/
  startTime : Nat
  isKernelThread : Bool
deriving DecidableEq, Repr

/-- A directory of `/proc`: `stat` is not valid when the process is gone, and so is
    `InitStaticData` when it goes a little later. -/
structure Directory where
  pid : Nat
  stat : Option SStat
  init : Bool
deriving DecidableEq, Repr

structure Sample where
  directories : List Directory
  distinct : (directories.map Directory.pid).Nodup
  small : ∀ directory ∈ directories, directory.pid < 2 ^ 22 ∧ ∀ stat ∈ directory.stat, stat.startTime < 2 ^ 42

structure Options where
  groupKernelThreads : Bool
  parentRetention : Bool
  persistence : Nat
deriving DecidableEq, Repr

/-! ## Kernel threads -/

structure Grouping where
  host : Nat
  tasks : List Nat
deriving DecidableEq, Repr

def SStat.hosts (stat : SStat) : Bool := stat.isKernelThread && stat.ppid == 0

def SStat.hosted (stat : SStat) : Bool := stat.isKernelThread && stat.ppid != 0

/-- The last host there is, or 0. -/
def host_pid : List Directory → Nat → Nat
  | [], host => host
  | directory :: rest, host => host_pid rest (if directory.stat.any SStat.hosts then directory.pid else host)

/-- Who hosts kernel threads, and which; without a host they stay processes. -/
def group_kernel_threads (options : Options) (directories : List Directory) : Grouping :=
  if options.groupKernelThreads then
    let host := host_pid directories 0
    ⟨host, if host = 0 then [] else (directories.filter (fun directory => directory.stat.any SStat.hosted)).map Directory.pid⟩
  else ⟨0, []⟩

/-- Shown as a thread of the host instead. -/
def Grouping.takes (grouping : Grouping) (stat : SStat) : Bool := !grouping.tasks.isEmpty && stat.hosted

/-! ## The loop over the directories -/

/-- What was read of a process. -/
structure Probe where
  stat : SStat
  init : Bool
deriving DecidableEq, Repr

/-- `Stats`, in the order of the pids. -/
def read_stats (directories : List Directory) : OrdMap Nat Probe :=
  directories.foldl (fun stats directory =>
    match directory.stat with
    | some stat => stats.insert directory.pid ⟨stat, directory.init⟩
    | none => stats) .empty

structure Loop where
  api : CLinuxAPI
  /-- `OldProcesses`. -/
  old : OrdMap Nat Nat

def find_or_add (api : CLinuxAPI) (pid uid : Nat) : Nat × CLinuxAPI :=
  match api.processMap.get uid with
  | some object => (object, api)
  | none =>
    (api.next, { objects := Function.update api.objects api.next {}, next := api.next + 1,
                 processMap := api.processMap.insert uid api.next, processByPID := api.processByPID.insert pid api.next })

def init_static_data (process : CLinuxProcess) (pid : Nat) (stat : SStat) : CLinuxProcess :=
  { process with
    processId := pid
    parentId := stat.ppid
    processUId := process_uid pid stat.startTime
    createTimeStamp := stat.startTime }

/-- `SetKernelThreadTasks`, for the host. -/
def hand_tasks (grouping : Grouping) (pid object : Nat) (api : CLinuxAPI) : CLinuxAPI :=
  if pid = grouping.host ∧ grouping.tasks ≠ [] then
    { api with objects := Function.update api.objects object { api.objects object with kernelTaskPids := grouping.tasks } }
  else api

def refresh_one (grouping : Grouping) (loop : Loop) (pid : Nat) (probe : Probe) : Loop :=
  if grouping.takes probe.stat then loop
  else
    let uid := process_uid pid probe.stat.startTime
    match loop.old.get uid with
    | some object => ⟨hand_tasks grouping pid object loop.api, loop.old.erase uid⟩
    | none =>
      let found := find_or_add loop.api pid uid
      if probe.init then
        let init := { found.2 with objects := Function.update found.2.objects found.1 (init_static_data (found.2.objects found.1) pid probe.stat) }
        ⟨hand_tasks grouping pid found.1 init, loop.old⟩
      else ⟨{ found.2 with processMap := found.2.processMap.erase uid, processByPID := found.2.processByPID.erase pid }, loop.old⟩

def refresh_all (grouping : Grouping) (api : CLinuxAPI) (stats : List (Nat × Probe)) : Loop :=
  stats.foldl (fun loop read => refresh_one grouping loop read.1 read.2) ⟨api, api.processMap⟩

/-! ## Purging -/

def validate_parent (child parent : CLinuxProcess) : Bool :=
  decide (parent.processId ≠ child.processId) && decide (parent.createTimeStamp ≤ child.createTimeStamp)

/-- The keys of `ChildCount`. -/
def child_count (options : Options) (api : CLinuxAPI) : List Nat :=
  if options.parentRetention then
    api.processByPID.entries.filterMap (fun entry =>
      let process := api.objects entry.2
      match api.processByPID.get process.parentId with
      | some parent => if validate_parent process (api.objects parent) then some process.parentId else none
      | none => none)
  else []

structure Purge where
  api : CLinuxAPI
  removed : List Nat

/-- The process is taken off the list. -/
def removable (options : Options) (now : Nat) (retained : List Nat) (process : CLinuxProcess) : Bool :=
  can_be_removed options.persistence now process.removeTimeStamp && !retained.contains process.processId

def purge_one (options : Options) (now : Nat) (retained : List Nat) (purge : Purge) (uid : Nat) : Purge :=
  match purge.api.processMap.get uid with
  | none => purge
  | some object =>
    let process := purge.api.objects object
    if removable options now retained process then
      { api := { purge.api with
          processByPID :=
            if purge.api.processByPID.get process.processId = some object then purge.api.processByPID.erase process.processId
            else purge.api.processByPID
          processMap := purge.api.processMap.erase uid }
        removed := purge.removed ++ [process.processId] }
    else if process.removeTimeStamp = 0 then
      { purge with
        api := { purge.api with objects := Function.update purge.api.objects object { process with removeTimeStamp := now } } }
    else purge

def update_process_list (options : Options) (now : Nat) (sample : Sample) (api : CLinuxAPI) : Purge :=
  if sample.directories = [] then ⟨api, []⟩
  else
    let grouping := group_kernel_threads options sample.directories
    let loop := refresh_all grouping api (read_stats sample.directories).entries
    let retained := child_count options loop.api
    (loop.old.entries.map Prod.fst).foldl (purge_one options now retained) ⟨loop.api, []⟩

/-! ## UIDs -/

theorem process_uid_eq {pid msTime : Nat} (small : pid < 2 ^ 22) (early : msTime < 2 ^ 42) :
    process_uid pid msTime = (pid <<< 42) ^^^ msTime := by
  have time : msTime &&& 0x3FFFFFFFFFF = msTime := by
    have mask : (0x3FFFFFFFFFF : Nat) = 2 ^ 42 - 1 := by decide
    rw [mask, Nat.and_two_pow_sub_one_eq_mod, Nat.mod_eq_of_lt early]
  have number : (pid <<< 42) &&& 0xFFFFFC0000000000 = pid <<< 42 := by
    have mask : (0xFFFFFC0000000000 : Nat) = (2 ^ 22 - 1) <<< 42 := by decide
    rw [mask, ← Nat.shiftLeft_and_distrib, Nat.and_two_pow_sub_one_eq_mod, Nat.mod_eq_of_lt small]
  rw [process_uid, time, number]

theorem process_uid_pid {pid msTime : Nat} (small : pid < 2 ^ 22) (early : msTime < 2 ^ 42) : process_uid pid msTime >>> 42 = pid := by
  rw [process_uid_eq small early, Nat.shiftRight_xor_distrib, Nat.shiftLeft_shiftRight, Nat.shiftRight_eq_div_pow,
    Nat.div_eq_of_lt early, Nat.xor_zero]

theorem process_uid_time {pid msTime : Nat} (small : pid < 2 ^ 22) (early : msTime < 2 ^ 42) : process_uid pid msTime % 2 ^ 42 = msTime := by
  rw [process_uid_eq small early, Nat.xor_mod_two_pow, Nat.shiftLeft_eq, Nat.mul_mod_left, Nat.zero_xor, Nat.mod_eq_of_lt early]

/-! ## What was read -/

theorem read_stats_get {directories : List Directory} (distinct : (directories.map Directory.pid).Nodup) (pid : Nat) (probe : Probe) :
    (read_stats directories).get pid = some probe ↔
      ∃ directory ∈ directories, directory.pid = pid ∧ directory.stat = some probe.stat ∧ directory.init = probe.init := by
  induction directories using List.reverseRecOn with
  | nil => simp [read_stats]
  | append_singleton earlier last ih =>
    rw [List.map_append, List.nodup_append] at distinct
    obtain ⟨distinct, -, apart⟩ := distinct
    have before := ih distinct
    have unfolded : read_stats (earlier ++ [last]) = match last.stat with
        | some stat => (read_stats earlier).insert last.pid ⟨stat, last.init⟩
        | none => read_stats earlier := by
      rw [read_stats, List.foldl_append]
      rfl
    have alone : ∀ directory ∈ earlier, directory.pid ≠ last.pid := fun directory member =>
      apart directory.pid (List.mem_map.mpr ⟨directory, member, rfl⟩) last.pid (by simp)
    rw [unfolded]
    cases valid : last.stat with
    | none =>
      rw [before]
      constructor
      · rintro ⟨directory, member, same⟩
        exact ⟨directory, List.mem_append_left _ member, same⟩
      · rintro ⟨directory, member, same⟩
        rcases List.mem_append.mp member with early | late
        · exact ⟨directory, early, same⟩
        · rw [List.mem_singleton.mp late, valid] at same
          cases same.2.1
    | some stat =>
      dsimp only
      rw [OrdMap.get_insert]
      by_cases here : last.pid = pid
      · rw [if_pos here, Option.some.injEq]
        constructor
        · rintro rfl
          exact ⟨last, by simp, here, valid, rfl⟩
        · rintro ⟨directory, member, same, also, init⟩
          rcases List.mem_append.mp member with early | late
          · exact absurd (same.trans here.symm) (alone directory early)
          · rw [List.mem_singleton.mp late] at also init
            cases valid.symm.trans also
            rw [init]
      · rw [if_neg here, before]
        constructor
        · rintro ⟨directory, member, same⟩
          exact ⟨directory, List.mem_append_left _ member, same⟩
        · rintro ⟨directory, member, same⟩
          rcases List.mem_append.mp member with early | late
          · exact ⟨directory, early, same⟩
          · rw [List.mem_singleton.mp late] at same
            exact absurd same.1 here

/-! ## The two maps -/

/-- Each process is under its own UID, and the index leads to listed ones. -/
structure Valid (api : CLinuxAPI) : Prop where
  made : ∀ uid object, api.processMap.get uid = some object → object < api.next
  own : ∀ uid object, api.processMap.get uid = some object → (api.objects object).processUId = uid
  paired : ∀ uid object, api.processMap.get uid = some object →
    uid = process_uid (api.objects object).processId (api.objects object).createTimeStamp ∧
      (api.objects object).processId < 2 ^ 22 ∧ (api.objects object).createTimeStamp < 2 ^ 42
  index : ∀ pid object, api.processByPID.get pid = some object →
    (api.objects object).processId = pid ∧ api.processMap.get (api.objects object).processUId = some object

theorem valid_started : Valid started where
  made uid object found := by cases found
  own uid object found := by cases found
  paired uid object found := by cases found
  index pid object found := by cases found

/-- The processes differ at most in the kernel threads they host. -/
structure SameBut (process other : CLinuxProcess) : Prop where
  pid : process.processId = other.processId
  parent : process.parentId = other.parentId
  uid : process.processUId = other.processUId
  time : process.createTimeStamp = other.createTimeStamp
  stamp : process.removeTimeStamp = other.removeTimeStamp

theorem SameBut.refl (process : CLinuxProcess) : SameBut process process := ⟨rfl, rfl, rfl, rfl, rfl⟩

theorem SameBut.trans {process other third : CLinuxProcess} (same : SameBut process other) (also : SameBut other third) :
    SameBut process third :=
  ⟨same.pid.trans also.pid, same.parent.trans also.parent, same.uid.trans also.uid, same.time.trans also.time,
    same.stamp.trans also.stamp⟩

section
variable (grouping : Grouping) (pid object : Nat) (api : CLinuxAPI)

@[simp] theorem hand_tasks_map : (hand_tasks grouping pid object api).processMap = api.processMap := by
  rw [hand_tasks]
  split <;> rfl

@[simp] theorem hand_tasks_index : (hand_tasks grouping pid object api).processByPID = api.processByPID := by
  rw [hand_tasks]
  split <;> rfl

@[simp] theorem hand_tasks_next : (hand_tasks grouping pid object api).next = api.next := by
  rw [hand_tasks]
  split <;> rfl

theorem hand_tasks_same (other : Nat) : SameBut ((hand_tasks grouping pid object api).objects other) (api.objects other) := by
  rw [hand_tasks]
  split
  · by_cases here : other = object
    · subst here
      dsimp only
      rw [Function.update_self]
      exact ⟨rfl, rfl, rfl, rfl, rfl⟩
    · dsimp only
      rw [Function.update_of_ne here]
      exact SameBut.refl _
  · exact SameBut.refl _

theorem hand_tasks_other {other : Nat} (differs : other ≠ object) : (hand_tasks grouping pid object api).objects other = api.objects other := by
  rw [hand_tasks]
  split
  · exact Function.update_of_ne differs _ _
  · rfl

theorem hand_tasks_host (isHost : pid = grouping.host) (some : grouping.tasks ≠ []) :
    ((hand_tasks grouping pid object api).objects object).kernelTaskPids = grouping.tasks := by
  rw [hand_tasks, if_pos ⟨isHost, some⟩]
  simp

theorem hand_tasks_not (not : ¬ (pid = grouping.host ∧ grouping.tasks ≠ [])) : hand_tasks grouping pid object api = api := by
  rw [hand_tasks, if_neg not]

end

theorem Valid.of_same {api later : CLinuxAPI} (valid : Valid api) (map : later.processMap = api.processMap)
    (index : later.processByPID = api.processByPID) (next : later.next = api.next)
    (same : ∀ object, SameBut (later.objects object) (api.objects object)) : Valid later where
  made uid object found := by
    rw [map] at found
    rw [next]
    exact valid.made uid object found
  own uid object found := by
    rw [map] at found
    rw [(same object).uid]
    exact valid.own uid object found
  paired uid object found := by
    rw [map] at found
    rw [(same object).pid, (same object).time]
    exact valid.paired uid object found
  index pid object found := by
    rw [index] at found
    rw [(same object).pid, (same object).uid, map]
    exact valid.index pid object found

/-- A new process. -/
def added (api : CLinuxAPI) (pid : Nat) (stat : SStat) : CLinuxAPI :=
  { objects := Function.update api.objects api.next (init_static_data {} pid stat)
    next := api.next + 1
    processMap := api.processMap.insert (process_uid pid stat.startTime) api.next
    processByPID := api.processByPID.insert pid api.next }

/-- One that vanished again. -/
def vanished (api : CLinuxAPI) (pid uid : Nat) : CLinuxAPI :=
  { objects := Function.update api.objects api.next {}
    next := api.next + 1
    processMap := (api.processMap.insert uid api.next).erase uid
    processByPID := (api.processByPID.insert pid api.next).erase pid }

section
variable {api : CLinuxAPI} (valid : Valid api) {pid : Nat} {stat : SStat}
include valid

theorem Valid.index_made {object : Nat} (found : api.processByPID.get pid = some object) : object < api.next :=
  valid.made _ _ (valid.index pid object found).2

theorem Valid.added (small : pid < 2 ^ 22) (early : stat.startTime < 2 ^ 42) : Valid (added api pid stat) where
  made uid object found := by
    simp only [LinuxProcesses.added, OrdMap.get_insert] at found ⊢
    split at found
    · cases found
      exact Nat.lt_succ_self _
    · exact Nat.lt_succ_of_lt (valid.made uid object found)
  own uid object found := by
    simp only [LinuxProcesses.added, OrdMap.get_insert] at found ⊢
    split_ifs at found with here
    · cases found
      rw [Function.update_self]
      exact here
    · rw [Function.update_of_ne (Nat.ne_of_lt (valid.made uid object found))]
      exact valid.own uid object found
  paired uid object found := by
    simp only [LinuxProcesses.added, OrdMap.get_insert] at found ⊢
    split_ifs at found with here
    · cases found
      rw [Function.update_self]
      exact ⟨here.symm, small, early⟩
    · rw [Function.update_of_ne (Nat.ne_of_lt (valid.made uid object found))]
      exact valid.paired uid object found
  index number object found := by
    simp only [LinuxProcesses.added, OrdMap.get_insert] at found ⊢
    split_ifs at found with here
    · cases found
      rw [Function.update_self]
      exact ⟨here, if_pos rfl⟩
    · obtain ⟨same, listed⟩ := valid.index number object found
      rw [Function.update_of_ne (Nat.ne_of_lt (valid.index_made found))]
      refine ⟨same, ?_⟩
      rw [if_neg]
      · exact listed
      · intro clash
        obtain ⟨isUid, smallToo, earlyToo⟩ := valid.paired _ _ listed
        have both := congrArg (fun uid => uid >>> 42) (clash.trans isUid)
        simp only [process_uid_pid small early, process_uid_pid smallToo earlyToo] at both
        exact here (both.trans same)

theorem Valid.vanished {uid : Nat} (absent : api.processMap.get uid = none) : Valid (vanished api pid uid) where
  made other object found := by
    simp only [LinuxProcesses.vanished, OrdMap.get_insert, OrdMap.get_erase] at found ⊢
    split at found
    · cases found
    · exact Nat.lt_succ_of_lt (valid.made other object found)
  own other object found := by
    simp only [LinuxProcesses.vanished, OrdMap.get_insert, OrdMap.get_erase] at found ⊢
    split at found
    · cases found
    · rw [Function.update_of_ne (Nat.ne_of_lt (valid.made other object found))]
      exact valid.own other object found
  paired other object found := by
    simp only [LinuxProcesses.vanished, OrdMap.get_insert, OrdMap.get_erase] at found ⊢
    split at found
    · cases found
    · rw [Function.update_of_ne (Nat.ne_of_lt (valid.made other object found))]
      exact valid.paired other object found
  index number object found := by
    simp only [LinuxProcesses.vanished, OrdMap.get_insert, OrdMap.get_erase] at found ⊢
    split at found
    · cases found
    · obtain ⟨same, listed⟩ := valid.index number object found
      rw [Function.update_of_ne (Nat.ne_of_lt (valid.index_made found))]
      refine ⟨same, ?_⟩
      split
      · rename_i here
        rw [here, listed] at absent
        cases absent
      · exact listed

end

/-! ## What the loop does -/

def uid_of (read : Nat × Probe) : Nat := process_uid read.1 read.2.stat.startTime

section
variable {grouping : Grouping} {loop : Loop} {read : Nat × Probe}

theorem refresh_one_takes (takes : grouping.takes read.2.stat = true) : refresh_one grouping loop read.1 read.2 = loop := by
  rw [refresh_one, if_pos takes]

theorem refresh_one_known (shown : grouping.takes read.2.stat = false) {object : Nat} (found : loop.old.get (uid_of read) = some object) :
    refresh_one grouping loop read.1 read.2 = ⟨hand_tasks grouping read.1 object loop.api, loop.old.erase (uid_of read)⟩ := by
  have found : loop.old.get (process_uid read.1 read.2.stat.startTime) = some object := found
  rw [refresh_one, if_neg (by rw [shown]; exact Bool.false_ne_true)]
  simp only [found]
  rfl

theorem refresh_one_added (shown : grouping.takes read.2.stat = false) (absent : loop.old.get (uid_of read) = none)
    (unlisted : loop.api.processMap.get (uid_of read) = none) (init : read.2.init = true) :
    refresh_one grouping loop read.1 read.2 =
      ⟨hand_tasks grouping read.1 loop.api.next (added loop.api read.1 read.2.stat), loop.old⟩ := by
  have absent : loop.old.get (process_uid read.1 read.2.stat.startTime) = none := absent
  have unlisted : loop.api.processMap.get (process_uid read.1 read.2.stat.startTime) = none := unlisted
  rw [refresh_one, if_neg (by rw [shown]; exact Bool.false_ne_true)]
  simp only [absent, find_or_add, unlisted, init, if_true, Function.update_self, Function.update_idem]
  rfl

theorem refresh_one_vanished (shown : grouping.takes read.2.stat = false) (absent : loop.old.get (uid_of read) = none)
    (unlisted : loop.api.processMap.get (uid_of read) = none) (init : read.2.init = false) :
    refresh_one grouping loop read.1 read.2 = ⟨vanished loop.api read.1 (uid_of read), loop.old⟩ := by
  have absent : loop.old.get (process_uid read.1 read.2.stat.startTime) = none := absent
  have unlisted : loop.api.processMap.get (process_uid read.1 read.2.stat.startTime) = none := unlisted
  rw [refresh_one, if_neg (by rw [shown]; exact Bool.false_ne_true)]
  simp only [absent, find_or_add, unlisted, init]
  rfl

end

/-- The UIDs of the processes that were read and are not shown as threads. -/
def Shown (grouping : Grouping) (reads : List (Nat × Probe)) (uid : Nat) : Prop :=
  ∃ read ∈ reads, grouping.takes read.2.stat = false ∧ uid_of read = uid

/-- The processes that the loop has come past are kept or new, the others are as they were. -/
structure Progress (grouping : Grouping) (first : CLinuxAPI) (reads : List (Nat × Probe)) (loop : Loop) : Prop where
  valid : Valid loop.api
  next : first.next ≤ loop.api.next
  taken : ∀ uid, Shown grouping reads uid → loop.old.get uid = none
  waiting : ∀ uid, ¬ Shown grouping reads uid → loop.old.get uid = first.processMap.get uid
  same : ∀ uid, ¬ Shown grouping reads uid → loop.api.processMap.get uid = first.processMap.get uid
  known : ∀ uid object, first.processMap.get uid = some object → loop.api.processMap.get uid = some object
  fresh : ∀ uid object, first.processMap.get uid = none → loop.api.processMap.get uid = some object →
    first.next ≤ object ∧ (loop.api.objects object).removeTimeStamp = 0
  objects : ∀ object, object < first.next → SameBut (loop.api.objects object) (first.objects object)
  index : ∀ pid, (∀ read ∈ reads, read.1 = pid → first.processMap.get (uid_of read) ≠ none ∨ grouping.takes read.2.stat = true) →
    loop.api.processByPID.get pid = first.processByPID.get pid
  added : ∀ read ∈ reads, grouping.takes read.2.stat = false → first.processMap.get (uid_of read) = none → read.2.init = true →
    ∃ object, loop.api.processMap.get (uid_of read) = some object ∧ loop.api.processByPID.get read.1 = some object
  vanished : ∀ read ∈ reads, grouping.takes read.2.stat = false → first.processMap.get (uid_of read) = none → read.2.init = false →
    loop.api.processMap.get (uid_of read) = none ∧ loop.api.processByPID.get read.1 = none
  hosts : ∀ read ∈ reads, grouping.takes read.2.stat = false → read.1 = grouping.host → grouping.tasks ≠ [] →
    ∀ object, loop.api.processMap.get (uid_of read) = some object → (loop.api.objects object).kernelTaskPids = grouping.tasks
  others : ∀ uid object, loop.api.processMap.get uid = some object →
    (∀ read ∈ reads, uid_of read = uid → grouping.takes read.2.stat = true ∨ read.1 ≠ grouping.host ∨ grouping.tasks = []) →
    (loop.api.objects object).kernelTaskPids = if first.processMap.get uid = none then [] else (first.objects object).kernelTaskPids

/-- The reads are of different processes, and their UIDs are exact. -/
structure Readable (reads : List (Nat × Probe)) : Prop where
  distinct : (reads.map Prod.fst).Nodup
  small : ∀ read ∈ reads, read.1 < 2 ^ 22 ∧ read.2.stat.startTime < 2 ^ 42

theorem Readable.uid_pid {reads : List (Nat × Probe)} (readable : Readable reads) {read other : Nat × Probe} (member : read ∈ reads)
    (also : other ∈ reads) (same : uid_of read = uid_of other) : read.1 = other.1 := by
  obtain ⟨small, early⟩ := readable.small read member
  obtain ⟨smallToo, earlyToo⟩ := readable.small other also
  have both := congrArg (fun uid => uid >>> 42) same
  simp only [uid_of, process_uid_pid small early, process_uid_pid smallToo earlyToo] at both
  exact both

theorem progress_start (grouping : Grouping) {first : CLinuxAPI} (valid : Valid first) :
    Progress grouping first [] ⟨first, first.processMap⟩ where
  valid := valid
  next := Nat.le_refl _
  taken uid shown := by
    obtain ⟨read, member, -⟩ := shown
    cases member
  waiting uid _ := rfl
  same uid _ := rfl
  known uid object found := found
  fresh uid object absent found := by cases absent.symm.trans found
  objects object _ := SameBut.refl _
  index pid _ := rfl
  added read member := by cases member
  vanished read member := by cases member
  hosts read member := by cases member
  others uid object found _ := by
    change first.processMap.get uid = some object at found
    rw [found, if_neg (by simp)]

section
variable {grouping : Grouping} {first : CLinuxAPI} {reads : List (Nat × Probe)} {read : Nat × Probe} {loop : Loop}

theorem shown_append {uid : Nat} :
    Shown grouping (reads ++ [read]) uid ↔ Shown grouping reads uid ∨ (grouping.takes read.2.stat = false ∧ uid_of read = uid) := by
  constructor
  · rintro ⟨other, member, shown, same⟩
    rcases List.mem_append.mp member with early | late
    · exact .inl ⟨other, early, shown, same⟩
    · rw [List.mem_singleton.mp late] at shown same
      exact .inr ⟨shown, same⟩
  · rintro (⟨other, member, shown, same⟩ | ⟨shown, same⟩)
    · exact ⟨other, List.mem_append_left _ member, shown, same⟩
    · exact ⟨read, by simp, shown, same⟩

theorem Progress.takes (progress : Progress grouping first reads loop) (takes : grouping.takes read.2.stat = true) :
    Progress grouping first (reads ++ [read]) loop := by
  have shown {uid : Nat} : Shown grouping (reads ++ [read]) uid ↔ Shown grouping reads uid := by
    rw [shown_append, takes]
    simp
  have early {other : Nat × Probe} (member : other ∈ reads ++ [read]) (listed : grouping.takes other.2.stat = false) : other ∈ reads := by
    rcases List.mem_append.mp member with early | late
    · exact early
    · rw [List.mem_singleton.mp late, takes] at listed
      cases listed
  refine ⟨progress.valid, progress.next, ?_, ?_, ?_, progress.known, progress.fresh, progress.objects, ?_, ?_, ?_, ?_, ?_⟩
  · exact fun uid isShown => progress.taken uid (shown.mp isShown)
  · exact fun uid notShown => progress.waiting uid (fun isShown => notShown (shown.mpr isShown))
  · exact fun uid notShown => progress.same uid (fun isShown => notShown (shown.mpr isShown))
  · exact fun pid each => progress.index pid (fun other member => each other (List.mem_append_left _ member))
  · exact fun other member listed => progress.added other (early member listed) listed
  · exact fun other member listed => progress.vanished other (early member listed) listed
  · exact fun other member listed => progress.hosts other (early member listed) listed
  · exact fun uid object found each => progress.others uid object found (fun other member => each other (List.mem_append_left _ member))

theorem Progress.keep (progress : Progress grouping first reads loop) (shown : grouping.takes read.2.stat = false) {object : Nat}
    (listed : first.processMap.get (uid_of read) = some object) :
    Progress grouping first (reads ++ [read]) ⟨hand_tasks grouping read.1 object loop.api, loop.old.erase (uid_of read)⟩ := by
  have isRead {other : Nat × Probe} (member : other ∈ reads ++ [read]) : other ∈ reads ∨ other = read := by
    simpa using member
  have there := progress.known _ _ listed
  refine ⟨?_, ?_, ?_, ?_, ?_, ?_, ?_, ?_, ?_, ?_, ?_, ?_, ?_⟩
  · exact progress.valid.of_same (by simp) (by simp) (by simp) (hand_tasks_same grouping read.1 object loop.api)
  · rw [hand_tasks_next]
    exact progress.next
  · intro uid isShown
    rw [OrdMap.get_erase]
    split_ifs with here
    · rfl
    · exact progress.taken uid ((shown_append.mp isShown).resolve_right (fun both => here both.2))
  · intro uid notShown
    rw [shown_append, not_or] at notShown
    rw [OrdMap.get_erase, if_neg (fun here => notShown.2 ⟨shown, here⟩)]
    exact progress.waiting uid notShown.1
  · intro uid notShown
    rw [shown_append, not_or] at notShown
    rw [hand_tasks_map]
    exact progress.same uid notShown.1
  · rw [hand_tasks_map]
    exact progress.known
  · intro uid other absent found
    rw [hand_tasks_map] at found
    rw [(hand_tasks_same grouping read.1 object loop.api other).stamp]
    exact progress.fresh uid other absent found
  · exact fun other made => (hand_tasks_same grouping read.1 object loop.api other).trans (progress.objects other made)
  · intro pid each
    rw [hand_tasks_index]
    exact progress.index pid (fun other member => each other (List.mem_append_left _ member))
  · intro other member isShown absent init
    rw [hand_tasks_map, hand_tasks_index]
    rcases isRead member with early | rfl
    · exact progress.added other early isShown absent init
    · cases absent.symm.trans listed
  · intro other member isShown absent init
    rw [hand_tasks_map, hand_tasks_index]
    rcases isRead member with early | rfl
    · exact progress.vanished other early isShown absent init
    · cases absent.symm.trans listed
  · intro other member isShown isHost some hosting found
    rw [hand_tasks_map] at found
    by_cases here : read.1 = grouping.host ∧ grouping.tasks ≠ []
    · by_cases same : hosting = object
      · rw [same]
        exact hand_tasks_host grouping read.1 object loop.api here.1 here.2
      · rw [hand_tasks_other grouping read.1 object loop.api same]
        rcases isRead member with early | rfl
        · exact progress.hosts other early isShown isHost some hosting found
        · cases there.symm.trans found
          exact absurd rfl same
    · rw [hand_tasks_not grouping read.1 object loop.api here]
      rcases isRead member with early | rfl
      · exact progress.hosts other early isShown isHost some hosting found
      · exact absurd ⟨isHost, some⟩ here
  · intro uid other found each
    rw [hand_tasks_map] at found
    have before := progress.others uid other found (fun read member => each read (List.mem_append_left _ member))
    by_cases same : other = object
    · have isUid : uid_of read = uid := by
        rw [← progress.valid.own _ _ there, ← progress.valid.own _ _ found, same]
      rw [hand_tasks_not]
      · exact before
      · rintro ⟨isHost, some⟩
        rcases each read (by simp) isUid with taken | other | none
        · rw [shown] at taken
          cases taken
        · exact other isHost
        · exact some none
    · rw [hand_tasks_other grouping read.1 object loop.api same]
      exact before

theorem Progress.add (progress : Progress grouping first reads loop) (readable : Readable (reads ++ [read]))
    (shown : grouping.takes read.2.stat = false) (absent : first.processMap.get (uid_of read) = none)
    (unlisted : loop.api.processMap.get (uid_of read) = none) (init : read.2.init = true)
    (waits : loop.old.get (uid_of read) = none) :
    Progress grouping first (reads ++ [read]) ⟨hand_tasks grouping read.1 loop.api.next (LinuxProcesses.added loop.api read.1 read.2.stat), loop.old⟩ := by
  have isRead {other : Nat × Probe} (member : other ∈ reads ++ [read]) : other ∈ reads ∨ other = read := by
    simpa using member
  obtain ⟨small, early⟩ := readable.small read (by simp)
  have alone : ∀ other ∈ reads, other.1 ≠ read.1 := by
    have distinct := readable.distinct
    rw [List.map_append, List.nodup_append] at distinct
    exact fun other member => distinct.2.2 other.1 (List.mem_map.mpr ⟨other, member, rfl⟩) read.1 (by simp)
  have apart : ∀ other ∈ reads, uid_of read ≠ uid_of other := fun other member same =>
    alone other member (readable.uid_pid (List.mem_append_left _ member) (by simp) same.symm)
  have map (uid : Nat) : (LinuxProcesses.added loop.api read.1 read.2.stat).processMap.get uid =
      if uid_of read = uid then some loop.api.next else loop.api.processMap.get uid := OrdMap.get_insert _ _ _ _
  have index (pid : Nat) : (LinuxProcesses.added loop.api read.1 read.2.stat).processByPID.get pid =
      if read.1 = pid then some loop.api.next else loop.api.processByPID.get pid := OrdMap.get_insert _ _ _ _
  have older {object : Nat} (made : object < loop.api.next) :
      (hand_tasks grouping read.1 loop.api.next (LinuxProcesses.added loop.api read.1 read.2.stat)).objects object = loop.api.objects object := by
    rw [hand_tasks_other grouping read.1 _ _ (Nat.ne_of_lt made)]
    exact Function.update_of_ne (Nat.ne_of_lt made) _ _
  have newest : (LinuxProcesses.added loop.api read.1 read.2.stat).objects loop.api.next = init_static_data {} read.1 read.2.stat :=
    Function.update_self _ _ _
  refine ⟨?_, ?_, ?_, ?_, ?_, ?_, ?_, ?_, ?_, ?_, ?_, ?_, ?_⟩
  · exact (progress.valid.added small early).of_same (by simp) (by simp) (by simp)
      (hand_tasks_same grouping read.1 loop.api.next (LinuxProcesses.added loop.api read.1 read.2.stat))
  · rw [hand_tasks_next]
    exact Nat.le_succ_of_le progress.next
  · intro uid isShown
    rcases shown_append.mp isShown with before | ⟨-, rfl⟩
    · exact progress.taken uid before
    · exact waits
  · intro uid notShown
    rw [shown_append, not_or] at notShown
    exact progress.waiting uid notShown.1
  · intro uid notShown
    rw [shown_append, not_or] at notShown
    rw [hand_tasks_map, map, if_neg (fun here => notShown.2 ⟨shown, here⟩)]
    exact progress.same uid notShown.1
  · intro uid object found
    rw [hand_tasks_map, map, if_neg]
    · exact progress.known uid object found
    · rintro rfl
      cases absent.symm.trans found
  · intro uid object missing found
    rw [hand_tasks_map, map] at found
    split_ifs at found with here
    · cases found
      rw [(hand_tasks_same grouping read.1 loop.api.next _ loop.api.next).stamp, newest]
      exact ⟨progress.next, rfl⟩
    · rw [older (progress.valid.made uid object found)]
      exact progress.fresh uid object missing found
  · intro object made
    rw [older (Nat.lt_of_lt_of_le made progress.next)]
    exact progress.objects object made
  · intro pid each
    rw [hand_tasks_index, index, if_neg]
    · exact progress.index pid (fun other member => each other (List.mem_append_left _ member))
    · intro here
      rcases each read (by simp) here with listed | taken
      · exact listed absent
      · rw [shown] at taken
        cases taken
  · intro other member isShown missing isInit
    rw [hand_tasks_map, hand_tasks_index, map, index]
    rcases isRead member with before | rfl
    · rw [if_neg (apart other before), if_neg (alone other before).symm]
      exact progress.added other before isShown missing isInit
    · exact ⟨loop.api.next, if_pos rfl, if_pos rfl⟩
  · intro other member isShown missing fails
    rw [hand_tasks_map, hand_tasks_index, map, index]
    rcases isRead member with before | rfl
    · rw [if_neg (apart other before), if_neg (alone other before).symm]
      exact progress.vanished other before isShown missing fails
    · rw [init] at fails
      cases fails
  · intro other member isShown isHost some object found
    rw [hand_tasks_map, map] at found
    rcases isRead member with before | rfl
    · rw [if_neg (apart other before)] at found
      rw [older (progress.valid.made _ _ found)]
      exact progress.hosts other before isShown isHost some object found
    · rw [if_pos rfl] at found
      cases found
      exact hand_tasks_host grouping _ _ _ isHost some
  · intro uid object found each
    rw [hand_tasks_map, map] at found
    split_ifs at found with here
    · cases found
      rw [hand_tasks_not, newest, ← here, absent, if_pos rfl]
      · rfl
      · rintro ⟨isHost, some⟩
        rcases each read (by simp) here with taken | other | none
        · rw [shown] at taken
          cases taken
        · exact other isHost
        · exact some none
    · rw [older (progress.valid.made uid object found)]
      exact progress.others uid object found (fun other member => each other (List.mem_append_left _ member))

theorem Progress.vanish (progress : Progress grouping first reads loop) (readable : Readable (reads ++ [read]))
    (shown : grouping.takes read.2.stat = false) (absent : first.processMap.get (uid_of read) = none)
    (unlisted : loop.api.processMap.get (uid_of read) = none) (fails : read.2.init = false)
    (waits : loop.old.get (uid_of read) = none) :
    Progress grouping first (reads ++ [read]) ⟨LinuxProcesses.vanished loop.api read.1 (uid_of read), loop.old⟩ := by
  have isRead {other : Nat × Probe} (member : other ∈ reads ++ [read]) : other ∈ reads ∨ other = read := by
    simpa using member
  have alone : ∀ other ∈ reads, other.1 ≠ read.1 := by
    have distinct := readable.distinct
    rw [List.map_append, List.nodup_append] at distinct
    exact fun other member => distinct.2.2 other.1 (List.mem_map.mpr ⟨other, member, rfl⟩) read.1 (by simp)
  have map (uid : Nat) : (LinuxProcesses.vanished loop.api read.1 (uid_of read)).processMap.get uid = loop.api.processMap.get uid := by
    simp only [LinuxProcesses.vanished, OrdMap.get_erase, OrdMap.get_insert]
    split_ifs with here
    · rw [← here, unlisted]
    · rfl
  have index (pid : Nat) : (LinuxProcesses.vanished loop.api read.1 (uid_of read)).processByPID.get pid =
      if read.1 = pid then none else loop.api.processByPID.get pid := by
    simp only [LinuxProcesses.vanished, OrdMap.get_erase, OrdMap.get_insert]
    split_ifs <;> rfl
  have older {object : Nat} (made : object < loop.api.next) :
      (LinuxProcesses.vanished loop.api read.1 (uid_of read)).objects object = loop.api.objects object :=
    Function.update_of_ne (Nat.ne_of_lt made) _ _
  refine ⟨?_, ?_, ?_, ?_, ?_, ?_, ?_, ?_, ?_, ?_, ?_, ?_, ?_⟩
  · exact progress.valid.vanished unlisted
  · exact Nat.le_succ_of_le progress.next
  · intro uid isShown
    rcases shown_append.mp isShown with before | ⟨-, rfl⟩
    · exact progress.taken uid before
    · exact waits
  · intro uid notShown
    rw [shown_append, not_or] at notShown
    exact progress.waiting uid notShown.1
  · intro uid notShown
    rw [shown_append, not_or] at notShown
    rw [map]
    exact progress.same uid notShown.1
  · intro uid object found
    rw [map]
    exact progress.known uid object found
  · intro uid object missing found
    rw [map] at found
    rw [older (progress.valid.made uid object found)]
    exact progress.fresh uid object missing found
  · intro object made
    rw [older (Nat.lt_of_lt_of_le made progress.next)]
    exact progress.objects object made
  · intro pid each
    rw [index, if_neg]
    · exact progress.index pid (fun other member => each other (List.mem_append_left _ member))
    · intro here
      rcases each read (by simp) here with listed | taken
      · exact listed absent
      · rw [shown] at taken
        cases taken
  · intro other member isShown missing isInit
    rcases isRead member with before | rfl
    · rw [map, index, if_neg (alone other before).symm]
      exact progress.added other before isShown missing isInit
    · rw [fails] at isInit
      cases isInit
  · intro other member isShown missing isGone
    rcases isRead member with before | rfl
    · rw [map, index, if_neg (alone other before).symm]
      exact progress.vanished other before isShown missing isGone
    · rw [map, index, if_pos rfl]
      exact ⟨unlisted, rfl⟩
  · intro other member isShown isHost some object found
    rw [map] at found
    rw [older (progress.valid.made _ _ found)]
    rcases isRead member with before | rfl
    · exact progress.hosts other before isShown isHost some object found
    · cases unlisted.symm.trans found
  · intro uid object found each
    rw [map] at found
    rw [older (progress.valid.made uid object found)]
    exact progress.others uid object found (fun other member => each other (List.mem_append_left _ member))

theorem Progress.step (progress : Progress grouping first reads loop) (readable : Readable (reads ++ [read])) :
    Progress grouping first (reads ++ [read]) (refresh_one grouping loop read.1 read.2) := by
  cases takes : grouping.takes read.2.stat with
  | true =>
    rw [refresh_one_takes takes]
    exact progress.takes takes
  | false =>
    have notYet : ¬ Shown grouping reads (uid_of read) := by
      rintro ⟨other, member, -, same⟩
      have samePid := readable.uid_pid (List.mem_append_left _ member) (by simp) same
      have distinct := readable.distinct
      rw [List.map_append, List.nodup_append] at distinct
      exact distinct.2.2 other.1 (List.mem_map.mpr ⟨other, member, rfl⟩) read.1 (by simp) samePid
    have waits := progress.waiting _ notYet
    have same := progress.same _ notYet
    cases listed : first.processMap.get (uid_of read) with
    | some object =>
      rw [listed] at waits
      rw [refresh_one_known takes waits]
      exact progress.keep takes listed
    | none =>
      rw [listed] at waits same
      cases init : read.2.init with
      | true =>
        rw [refresh_one_added takes waits same init]
        exact progress.add readable takes listed same init waits
      | false =>
        rw [refresh_one_vanished takes waits same init]
        exact progress.vanish readable takes listed same init waits

theorem refresh_all_progress (grouping : Grouping) {first : CLinuxAPI} (valid : Valid first) {reads : List (Nat × Probe)}
    (readable : Readable reads) : Progress grouping first reads (refresh_all grouping first reads) := by
  induction reads using List.reverseRecOn with
  | nil => exact progress_start grouping valid
  | append_singleton earlier last ih =>
    have before : Readable earlier := by
      have distinct := readable.distinct
      rw [List.map_append, List.nodup_append] at distinct
      exact ⟨distinct.1, fun read member => readable.small read (List.mem_append_left _ member)⟩
    rw [refresh_all, List.foldl_append]
    exact (ih before).step readable

end

/-! ## What the purge does -/

/-- The processes differ at most in their marks. -/
structure SameUnmarked (process other : CLinuxProcess) : Prop where
  pid : process.processId = other.processId
  uid : process.processUId = other.processUId
  time : process.createTimeStamp = other.createTimeStamp
  tasks : process.kernelTaskPids = other.kernelTaskPids

/-- Of the processes that were looked at, the old ones are gone and the others marked. -/
structure Purged (options : Options) (now : Nat) (retained : List Nat) (first : CLinuxAPI) (keys : List Nat) (purge : Purge) : Prop where
  valid : Valid purge.api
  next : purge.api.next = first.next
  objects : ∀ object, SameUnmarked (purge.api.objects object) (first.objects object)
  absent : ∀ uid, first.processMap.get uid = none → purge.api.processMap.get uid = none
  gone : ∀ uid object, first.processMap.get uid = some object → uid ∈ keys →
    removable options now retained (first.objects object) = true → purge.api.processMap.get uid = none
  marked : ∀ uid object, first.processMap.get uid = some object → uid ∈ keys →
    removable options now retained (first.objects object) = false →
    purge.api.processMap.get uid = some object ∧ (purge.api.objects object).removeTimeStamp =
      if (first.objects object).removeTimeStamp = 0 then now else (first.objects object).removeTimeStamp
  kept : ∀ uid object, first.processMap.get uid = some object → uid ∉ keys →
    purge.api.processMap.get uid = some object ∧ (purge.api.objects object).removeTimeStamp = (first.objects object).removeTimeStamp
  index : ∀ pid object, purge.api.processByPID.get pid = some object ↔
    first.processByPID.get pid = some object ∧ purge.api.processMap.get (first.objects object).processUId = some object
  removed : ∀ pid, pid ∈ purge.removed ↔ ∃ uid ∈ keys, ∃ object, first.processMap.get uid = some object ∧
    removable options now retained (first.objects object) = true ∧ (first.objects object).processId = pid

theorem purged_start (options : Options) (now : Nat) (retained : List Nat) {first : CLinuxAPI} (valid : Valid first) :
    Purged options now retained first [] ⟨first, []⟩ where
  valid := valid
  next := rfl
  objects object := ⟨rfl, rfl, rfl, rfl⟩
  absent uid none := none
  gone uid object found member := by cases member
  marked uid object found member := by cases member
  kept uid object found _ := ⟨found, rfl⟩
  index pid object := by
    constructor
    · exact fun found => ⟨found, (valid.index pid object found).2⟩
    · exact fun both => both.1
  removed pid := by simp

section
variable {options : Options} {now : Nat} {retained : List Nat} {first : CLinuxAPI} {keys : List Nat} {uid : Nat} {purge : Purge}

theorem purge_one_absent (none : purge.api.processMap.get uid = none) : purge_one options now retained purge uid = purge := by
  rw [purge_one, none]

/-- Taking a process off both maps. -/
def dropped (api : CLinuxAPI) (uid object : Nat) : CLinuxAPI :=
  { api with
    processByPID :=
      if api.processByPID.get (api.objects object).processId = some object then api.processByPID.erase (api.objects object).processId
      else api.processByPID
    processMap := api.processMap.erase uid }

theorem purge_one_removable {object : Nat} (found : purge.api.processMap.get uid = some object)
    (old : removable options now retained (purge.api.objects object) = true) :
    purge_one options now retained purge uid =
      ⟨dropped purge.api uid object, purge.removed ++ [(purge.api.objects object).processId]⟩ := by
  rw [purge_one, found]
  dsimp only
  rw [if_pos old]
  rfl

/-- A process that is marked. -/
def marking (api : CLinuxAPI) (object now : Nat) : CLinuxAPI :=
  { api with objects := Function.update api.objects object { api.objects object with removeTimeStamp := now } }

theorem purge_one_unmarked {object : Nat} (found : purge.api.processMap.get uid = some object)
    (young : removable options now retained (purge.api.objects object) = false) (unmarked : (purge.api.objects object).removeTimeStamp = 0) :
    purge_one options now retained purge uid = { purge with api := marking purge.api object now } := by
  rw [purge_one, found]
  dsimp only
  rw [if_neg (by rw [young]; exact Bool.false_ne_true), if_pos unmarked]
  rfl

theorem purge_one_marked {object : Nat} (found : purge.api.processMap.get uid = some object)
    (young : removable options now retained (purge.api.objects object) = false) (marked : (purge.api.objects object).removeTimeStamp ≠ 0) :
    purge_one options now retained purge uid = purge := by
  rw [purge_one, found]
  dsimp only
  rw [if_neg (by rw [young]; exact Bool.false_ne_true), if_neg marked]

theorem dropped_index {api : CLinuxAPI} (valid : Valid api) {object : Nat} (found : api.processMap.get uid = some object) (pid other : Nat) :
    (dropped api uid object).processByPID.get pid = some other ↔ api.processByPID.get pid = some other ∧ other ≠ object := by
  rw [dropped]
  dsimp only
  by_cases indexed : api.processByPID.get (api.objects object).processId = some object
  · rw [if_pos indexed, OrdMap.get_erase]
    by_cases here : (api.objects object).processId = pid
    · rw [if_pos here, ← here, indexed, Option.some.injEq]
      constructor
      · intro impossible
        cases impossible
      · rintro ⟨same, differs⟩
        exact absurd same.symm differs
    · rw [if_neg here]
      constructor
      · intro there
        refine ⟨there, ?_⟩
        rintro rfl
        exact here (valid.index pid other there).1
      · exact fun both => both.1
  · rw [if_neg indexed]
    constructor
    · intro there
      refine ⟨there, ?_⟩
      rintro rfl
      rw [(valid.index pid other there).1] at indexed
      exact indexed there
    · exact fun both => both.1

theorem Valid.dropped {api : CLinuxAPI} (valid : Valid api) {object : Nat} (found : api.processMap.get uid = some object) :
    Valid (dropped api uid object) where
  made other listed there := by
    simp only [LinuxProcesses.dropped, OrdMap.get_erase] at there
    split_ifs at there
    exact valid.made other listed there
  own other listed there := by
    simp only [LinuxProcesses.dropped, OrdMap.get_erase] at there
    split_ifs at there
    exact valid.own other listed there
  paired other listed there := by
    simp only [LinuxProcesses.dropped, OrdMap.get_erase] at there
    split_ifs at there
    exact valid.paired other listed there
  index pid listed there := by
    obtain ⟨indexed, differs⟩ := (dropped_index valid found pid listed).mp there
    obtain ⟨same, stays⟩ := valid.index pid listed indexed
    refine ⟨same, ?_⟩
    change (api.processMap.erase uid).get (api.objects listed).processUId = some listed
    rw [OrdMap.get_erase, if_neg]
    · exact stays
    · intro here
      rw [← here, found, Option.some.injEq] at stays
      exact differs stays.symm

theorem marking_same (api : CLinuxAPI) (object now other : Nat) : SameUnmarked ((marking api object now).objects other) (api.objects other) := by
  rw [marking]
  dsimp only
  by_cases here : other = object
  · rw [here, Function.update_self]
    exact ⟨rfl, rfl, rfl, rfl⟩
  · rw [Function.update_of_ne here]
    exact ⟨rfl, rfl, rfl, rfl⟩

theorem Valid.marking {api : CLinuxAPI} (valid : Valid api) (object now : Nat) : Valid (marking api object now) where
  made uid other found := valid.made uid other found
  own uid other found := by
    rw [(marking_same api object now other).uid]
    exact valid.own uid other found
  paired uid other found := by
    rw [(marking_same api object now other).pid, (marking_same api object now other).time]
    exact valid.paired uid other found
  index pid other found := by
    rw [(marking_same api object now other).pid, (marking_same api object now other).uid]
    exact valid.index pid other found

theorem SameUnmarked.trans {process other third : CLinuxProcess} (same : SameUnmarked process other) (also : SameUnmarked other third) :
    SameUnmarked process third :=
  ⟨same.pid.trans also.pid, same.uid.trans also.uid, same.time.trans also.time, same.tasks.trans also.tasks⟩

theorem Purged.removable (purged : Purged options now retained first keys purge) (notYet : uid ∉ keys) {object : Nat}
    (found : first.processMap.get uid = some object) :
    removable options now retained (purge.api.objects object) = removable options now retained (first.objects object) := by
  rw [LinuxProcesses.removable, LinuxProcesses.removable, (purged.kept uid object found notYet).2, (purged.objects object).pid]

end

section
variable {options : Options} {now : Nat} {retained : List Nat} {first : CLinuxAPI} {keys : List Nat} {uid : Nat} {purge : Purge}

theorem Purged.pass (purged : Purged options now retained first keys purge)
    (gone : ∀ object, first.processMap.get uid = some object → LinuxProcesses.removable options now retained (first.objects object) = true → uid ∈ keys)
    (marked : ∀ object, first.processMap.get uid = some object → uid ∉ keys → (first.objects object).removeTimeStamp ≠ 0) :
    Purged options now retained first (keys ++ [uid]) purge := by
  refine ⟨purged.valid, purged.next, purged.objects, purged.absent, ?_, ?_, ?_, purged.index, ?_⟩
  · intro other object found member old
    rcases List.mem_append.mp member with early | late
    · exact purged.gone other object found early old
    · rw [List.mem_singleton.mp late] at found ⊢
      exact purged.gone uid object found (gone object found old) old
  · intro other object found member young
    by_cases early : other ∈ keys
    · exact purged.marked other object found early young
    · have here : other = uid := by simpa [early] using member
      subst here
      obtain ⟨stays, stamp⟩ := purged.kept other object found early
      exact ⟨stays, by rw [stamp, if_neg (marked object found early)]⟩
  · intro other object found member
    exact purged.kept other object found (fun early => member (List.mem_append_left _ early))
  · intro pid
    rw [purged.removed]
    constructor
    · rintro ⟨other, member, which⟩
      exact ⟨other, List.mem_append_left _ member, which⟩
    · rintro ⟨other, member, object, found, old, same⟩
      rcases List.mem_append.mp member with early | late
      · exact ⟨other, early, object, found, old, same⟩
      · rw [List.mem_singleton.mp late] at found
        exact ⟨uid, gone object found old, object, found, old, same⟩

theorem Purged.drop (purged : Purged options now retained first keys purge) (notYet : uid ∉ keys) {object : Nat}
    (found : first.processMap.get uid = some object) (old : LinuxProcesses.removable options now retained (first.objects object) = true) :
    Purged options now retained first (keys ++ [uid])
      ⟨dropped purge.api uid object, purge.removed ++ [(purge.api.objects object).processId]⟩ := by
  have there := (purged.kept uid object found notYet).1
  have map (other : Nat) : (dropped purge.api uid object).processMap.get other =
      if uid = other then none else purge.api.processMap.get other := OrdMap.get_erase _ _ _
  refine ⟨purged.valid.dropped there, purged.next, purged.objects, ?_, ?_, ?_, ?_, ?_, ?_⟩
  · intro other none
    rw [map]
    split_ifs
    · rfl
    · exact purged.absent other none
  · intro other another listed member isOld
    rw [map]
    split_ifs with here
    · rfl
    · rcases List.mem_append.mp member with early | late
      · exact purged.gone other another listed early isOld
      · exact absurd (List.mem_singleton.mp late).symm here
  · intro other another listed member young
    rw [map]
    rcases List.mem_append.mp member with early | late
    · rw [if_neg]
      · exact purged.marked other another listed early young
      · rintro rfl
        exact notYet early
    · rw [List.mem_singleton.mp late, found] at listed
      cases listed
      rw [old] at young
      cases young
  · intro other another listed member
    rw [List.mem_append, not_or] at member
    rw [map, if_neg (fun here => member.2 (by simp [here]))]
    exact purged.kept other another listed member.1
  · intro pid another
    have isDropped : (dropped purge.api uid object).processByPID.get pid = some another ↔ _ := dropped_index purged.valid there pid another
    rw [isDropped, purged.index, map]
    constructor
    · rintro ⟨⟨indexed, stays⟩, differs⟩
      refine ⟨indexed, ?_⟩
      rw [if_neg]
      · exact stays
      · intro here
        rw [← here, there, Option.some.injEq] at stays
        exact differs stays.symm
    · rintro ⟨indexed, stays⟩
      split_ifs at stays with here
      refine ⟨⟨indexed, stays⟩, ?_⟩
      rintro rfl
      have isUid := purged.valid.own _ _ there
      rw [(purged.objects another).uid] at isUid
      exact here isUid.symm
  · intro pid
    rw [List.mem_append, purged.removed, List.mem_singleton, (purged.objects object).pid]
    constructor
    · rintro (⟨other, member, which⟩ | rfl)
      · exact ⟨other, List.mem_append_left _ member, which⟩
      · exact ⟨uid, by simp, object, found, old, rfl⟩
    · rintro ⟨other, member, another, listed, isOld, same⟩
      rcases List.mem_append.mp member with early | late
      · exact .inl ⟨other, early, another, listed, isOld, same⟩
      · rw [List.mem_singleton.mp late, found] at listed
        cases listed
        exact .inr same.symm

theorem Purged.mark (purged : Purged options now retained first keys purge) (notYet : uid ∉ keys) {object : Nat}
    (found : first.processMap.get uid = some object) (young : LinuxProcesses.removable options now retained (first.objects object) = false)
    (unmarked : (first.objects object).removeTimeStamp = 0) :
    Purged options now retained first (keys ++ [uid]) { purge with api := marking purge.api object now } := by
  have there := (purged.kept uid object found notYet).1
  have other {another : Nat} (differs : another ≠ object) : (marking purge.api object now).objects another = purge.api.objects another :=
    Function.update_of_ne differs _ _
  have apart {elsewhere another : Nat} (listed : purge.api.processMap.get elsewhere = some another) (differs : elsewhere ≠ uid) :
      another ≠ object := by
    rintro rfl
    exact differs ((purged.valid.own _ _ listed).symm.trans (purged.valid.own _ _ there))
  refine ⟨purged.valid.marking object now, purged.next, ?_, purged.absent, ?_, ?_, ?_, purged.index, ?_⟩
  · exact fun another => (marking_same purge.api object now another).trans (purged.objects another)
  · intro elsewhere another listed member old
    rcases List.mem_append.mp member with early | late
    · exact purged.gone elsewhere another listed early old
    · rw [List.mem_singleton.mp late, found] at listed
      cases listed
      rw [young] at old
      cases old
  · intro elsewhere another listed member isYoung
    rcases List.mem_append.mp member with early | late
    · obtain ⟨stays, stamp⟩ := purged.marked elsewhere another listed early isYoung
      refine ⟨stays, ?_⟩
      rw [other (apart stays (fun here => notYet (here ▸ early)))]
      exact stamp
    · rw [List.mem_singleton.mp late] at listed ⊢
      cases found.symm.trans listed
      refine ⟨there, ?_⟩
      rw [if_pos unmarked]
      simp [marking]
  · intro elsewhere another listed member
    rw [List.mem_append, not_or] at member
    obtain ⟨stays, stamp⟩ := purged.kept elsewhere another listed member.1
    refine ⟨stays, ?_⟩
    rw [other (apart stays (fun here => member.2 (by simp [here])))]
    exact stamp
  · intro pid
    rw [purged.removed]
    constructor
    · rintro ⟨elsewhere, member, which⟩
      exact ⟨elsewhere, List.mem_append_left _ member, which⟩
    · rintro ⟨elsewhere, member, another, listed, old, same⟩
      rcases List.mem_append.mp member with early | late
      · exact ⟨elsewhere, early, another, listed, old, same⟩
      · rw [List.mem_singleton.mp late, found] at listed
        cases listed
        rw [young] at old
        cases old

theorem Purged.step (purged : Purged options now retained first keys purge) (notYet : uid ∉ keys) :
    Purged options now retained first (keys ++ [uid]) (purge_one options now retained purge uid) := by
  cases found : first.processMap.get uid with
  | none =>
    rw [purge_one_absent (purged.absent uid found)]
    exact purged.pass (fun object there => by cases found.symm.trans there) (fun object there => by cases found.symm.trans there)
  | some object =>
    obtain ⟨there, stamp⟩ := purged.kept uid object found notYet
    have same := purged.removable notYet found
    cases old : LinuxProcesses.removable options now retained (first.objects object) with
    | true =>
      rw [purge_one_removable there (same.trans old)]
      exact purged.drop notYet found old
    | false =>
      by_cases unmarked : (first.objects object).removeTimeStamp = 0
      · rw [purge_one_unmarked there (same.trans old) (stamp.trans unmarked)]
        exact purged.mark notYet found old unmarked
      · rw [purge_one_marked there (same.trans old) (by rw [stamp]; exact unmarked)]
        apply purged.pass
        · intro another also isOld
          cases found.symm.trans also
          rw [old] at isOld
          cases isOld
        · intro another also _
          cases found.symm.trans also
          exact unmarked

theorem purge_all_purged (options : Options) (now : Nat) (retained : List Nat) {first : CLinuxAPI} (valid : Valid first) {keys : List Nat}
    (distinct : keys.Nodup) : Purged options now retained first keys (keys.foldl (purge_one options now retained) ⟨first, []⟩) := by
  induction keys using List.reverseRecOn with
  | nil => exact purged_start options now retained valid
  | append_singleton earlier last ih =>
    rw [List.nodup_append] at distinct
    rw [List.foldl_append]
    exact (ih distinct.1).step (fun member => distinct.2.2 last member last (by simp) rfl)

end

/-! ## The refresh -/

/-- The processes whose `stat` could be read. -/
def Sample.reads (sample : Sample) : List (Nat × Probe) := (read_stats sample.directories).entries

theorem Sample.mem_reads (sample : Sample) (read : Nat × Probe) : read ∈ sample.reads ↔
    ∃ directory ∈ sample.directories, directory.pid = read.1 ∧ directory.stat = some read.2.stat ∧ directory.init = read.2.init := by
  rw [← read_stats_get sample.distinct read.1 read.2]
  exact OrdMap.mem_entries

theorem Sample.readable (sample : Sample) : Readable sample.reads where
  distinct := OrdMap.keys_nodup _
  small read member := by
    obtain ⟨directory, among, isPid, isStat, -⟩ := (sample.mem_reads read).mp member
    obtain ⟨small, early⟩ := sample.small directory among
    exact ⟨isPid ▸ small, early read.2.stat isStat⟩

section
variable (options : Options) (now : Nat) (sample : Sample)

/-- How the kernel threads of the sample are shown. -/
def grouping_of : Grouping := group_kernel_threads options sample.directories

/-- The process is in the sample and not shown as a thread. -/
def Appears (uid : Nat) : Prop := Shown (grouping_of options sample) sample.reads uid

theorem update_process_list_split {api : CLinuxAPI} (valid : Valid api) (some : sample.directories ≠ []) :
    ∃ loop keys retained, Progress (grouping_of options sample) api sample.reads loop ∧
      Purged options now retained loop.api keys (update_process_list options now sample api) ∧
      ∀ uid, uid ∈ keys ↔ ¬ Appears options sample uid ∧ api.processMap.get uid ≠ none := by
  have progress := refresh_all_progress (grouping_of options sample) valid sample.readable
  set loop := refresh_all (grouping_of options sample) api sample.reads with isLoop
  refine ⟨loop, loop.old.entries.map Prod.fst, child_count options loop.api, progress, ?_, ?_⟩
  · rw [update_process_list, if_neg some]
    exact purge_all_purged options now _ progress.valid (OrdMap.keys_nodup _)
  · intro uid
    have member : uid ∈ loop.old.entries.map Prod.fst ↔ loop.old.get uid ≠ none := by
      constructor
      · intro among
        obtain ⟨⟨key, object⟩, there, rfl⟩ := List.mem_map.mp among
        rw [OrdMap.mem_entries.mp there]
        exact Option.some_ne_none object
      · intro there
        obtain ⟨object, found⟩ := Option.ne_none_iff_exists'.mp there
        exact List.mem_map.mpr ⟨(uid, object), OrdMap.mem_entries.mpr found, rfl⟩
    rw [member]
    constructor
    · intro there
      have hidden : ¬ Appears options sample uid := fun shown => there (progress.taken uid shown)
      rw [progress.waiting uid hidden] at there
      exact ⟨hidden, there⟩
    · rintro ⟨hidden, there⟩
      rw [progress.waiting uid hidden]
      exact there

variable {options now sample} {api : CLinuxAPI} (valid : Valid api)
include valid

theorem Valid.update_process_list : Valid (update_process_list options now sample api).api := by
  by_cases none : sample.directories = []
  · rw [LinuxProcesses.update_process_list, if_pos none]
    exact valid
  · obtain ⟨loop, keys, retained, progress, purged, -⟩ := update_process_list_split options now sample valid none
    exact purged.valid

theorem Valid.update_known (some : sample.directories ≠ []) {uid object : Nat} (appears : Appears options sample uid)
    (found : api.processMap.get uid = .some object) :
    (LinuxProcesses.update_process_list options now sample api).api.processMap.get uid = .some object ∧
      ((LinuxProcesses.update_process_list options now sample api).api.objects object).removeTimeStamp = (api.objects object).removeTimeStamp := by
  obtain ⟨loop, keys, retained, progress, purged, isKey⟩ := update_process_list_split options now sample valid some
  have notKey : uid ∉ keys := fun member => ((isKey uid).mp member).1 appears
  obtain ⟨stays, stamp⟩ := purged.kept uid object (progress.known uid object found) notKey
  exact ⟨stays, stamp.trans (progress.objects object (valid.made uid object found)).stamp⟩

theorem Valid.update_fresh {uid object : Nat} (absent : api.processMap.get uid = none)
    (found : (LinuxProcesses.update_process_list options now sample api).api.processMap.get uid = some object) :
    Appears options sample uid ∧ api.next ≤ object ∧
      ((LinuxProcesses.update_process_list options now sample api).api.objects object).removeTimeStamp = 0 := by
  by_cases none : sample.directories = []
  · rw [LinuxProcesses.update_process_list, if_pos none, absent] at found
    cases found
  · obtain ⟨loop, keys, retained, progress, purged, isKey⟩ := update_process_list_split options now sample valid none
    have notKey : uid ∉ keys := fun member => ((isKey uid).mp member).2 absent
    cases there : loop.api.processMap.get uid with
    | none => cases (purged.absent uid there).symm.trans found
    | some other =>
      obtain ⟨stays, stamp⟩ := purged.kept uid other there notKey
      cases stays.symm.trans found
      obtain ⟨isNew, unmarked⟩ := progress.fresh uid object absent there
      refine ⟨?_, isNew, stamp.trans unmarked⟩
      by_contra hidden
      rw [progress.same uid hidden, absent] at there
      cases there

theorem Valid.update_missing (some : sample.directories ≠ []) {uid object : Nat} (hidden : ¬ Appears options sample uid)
    (found : api.processMap.get uid = .some object) :
    (can_be_removed options.persistence now (api.objects object).removeTimeStamp = true ∧
        (LinuxProcesses.update_process_list options now sample api).api.processMap.get uid = none) ∨
      ((LinuxProcesses.update_process_list options now sample api).api.processMap.get uid = .some object ∧
        ((LinuxProcesses.update_process_list options now sample api).api.objects object).removeTimeStamp =
          if (api.objects object).removeTimeStamp = 0 then now else (api.objects object).removeTimeStamp) := by
  obtain ⟨loop, keys, retained, progress, purged, isKey⟩ := update_process_list_split options now sample valid some
  have key : uid ∈ keys := (isKey uid).mpr ⟨hidden, by rw [found]; exact Option.some_ne_none object⟩
  have there := progress.known uid object found
  have stamp := (progress.objects object (valid.made uid object found)).stamp
  cases old : removable options now retained (loop.api.objects object) with
  | true =>
    refine .inl ⟨?_, purged.gone uid object there key old⟩
    rw [removable, stamp, Bool.and_eq_true] at old
    exact old.1
  | false =>
    obtain ⟨stays, marked⟩ := purged.marked uid object there key old
    rw [stamp] at marked
    exact .inr ⟨stays, marked⟩

theorem Valid.update_stable {uid object later : Nat} (found : api.processMap.get uid = some object)
    (after : (LinuxProcesses.update_process_list options now sample api).api.processMap.get uid = some later) : object = later := by
  by_cases none : sample.directories = []
  · rw [LinuxProcesses.update_process_list, if_pos none, found] at after
    exact Option.some.inj after
  · by_cases appears : Appears options sample uid
    · rw [(valid.update_known none appears found).1] at after
      exact Option.some.inj after
    · rcases valid.update_missing none appears found with ⟨-, gone⟩ | ⟨stays, -⟩
      · cases gone.symm.trans after
      · exact Option.some.inj (stays.symm.trans after)

theorem Valid.update_next : api.next ≤ (LinuxProcesses.update_process_list options now sample api).api.next := by
  by_cases none : sample.directories = []
  · rw [LinuxProcesses.update_process_list, if_pos none]
  · obtain ⟨loop, keys, retained, progress, purged, -⟩ := update_process_list_split options now sample valid none
    rw [purged.next]
    exact progress.next

theorem Valid.update_index {pid object : Nat} (found : api.processByPID.get pid = some object)
    (known : ∀ read ∈ sample.reads, read.1 = pid → api.processMap.get (uid_of read) ≠ none ∨ (grouping_of options sample).takes read.2.stat = true)
    (stays : (LinuxProcesses.update_process_list options now sample api).api.processMap.get (api.objects object).processUId = some object) :
    (LinuxProcesses.update_process_list options now sample api).api.processByPID.get pid = some object := by
  by_cases none : sample.directories = []
  · rw [LinuxProcesses.update_process_list, if_pos none]
    exact found
  · obtain ⟨loop, keys, retained, progress, purged, -⟩ := update_process_list_split options now sample valid none
    rw [purged.index, progress.index pid known, (progress.objects object (valid.index_made found)).uid]
    exact ⟨found, stays⟩

end

/-! ## The marks -/

instance (options : Options) (sample : Sample) : DecidablePred (Appears options sample) := fun uid =>
  inferInstanceAs (Decidable (∃ read ∈ sample.reads, (grouping_of options sample).takes read.2.stat = false ∧ uid_of read = uid))

def marks (api : CLinuxAPI) (uid : Nat) : Option Nat := (api.processMap.get uid).map (fun object => (api.objects object).removeTimeStamp)

section
variable {options : Options} {now : Nat} {sample : Sample} {api : CLinuxAPI}

/-- The process is in the sample, and there is an object for it or one could be made. -/
def Present (options : Options) (sample : Sample) (api : CLinuxAPI) (uid : Nat) : Prop :=
  ∃ read ∈ sample.reads, (grouping_of options sample).takes read.2.stat = false ∧ uid_of read = uid ∧
    (api.processMap.get uid ≠ none ∨ read.2.init = true)

theorem not_appears (none : sample.directories = []) (uid : Nat) : ¬ Appears options sample uid := by
  rintro ⟨read, member, -⟩
  obtain ⟨directory, among, -⟩ := (sample.mem_reads read).mp member
  rw [none] at among
  cases among

variable (valid : Valid api)
include valid

theorem Valid.refreshed (unread : sample.directories = [] → ∀ uid, marks api uid ≠ some 0) :
    Refreshed options.persistence now (Appears options sample) (marks api) (marks (LinuxProcesses.update_process_list options now sample api).api) := by
  by_cases none : sample.directories = []
  · rw [LinuxProcesses.update_process_list, if_pos none]
    exact ⟨fun uid stamp appears => absurd appears (not_appears none uid), fun uid stamp absent found => (by cases absent.symm.trans found),
      fun uid _ found => absurd found (unread none uid), fun uid stamp _ found _ => .inl found⟩
  · refine ⟨?_, ?_, ?_, ?_⟩
    · intro uid stamp appears found
      obtain ⟨object, listed, rfl⟩ := Option.map_eq_some_iff.mp found
      obtain ⟨stays, same⟩ := valid.update_known none appears listed
      exact ⟨_, by rw [marks, stays]; exact congrArg some same, .inl rfl⟩
    · intro uid stamp absent found
      rw [marks, Option.map_eq_none_iff] at absent
      obtain ⟨object, listed, rfl⟩ := Option.map_eq_some_iff.mp found
      obtain ⟨appears, -, zero⟩ := valid.update_fresh absent listed
      exact ⟨appears, zero⟩
    · intro uid hidden found
      obtain ⟨object, listed, zero⟩ := Option.map_eq_some_iff.mp found
      rcases @Valid.update_missing options now sample api valid none uid object hidden listed with ⟨old, -⟩ | ⟨stays, stamp⟩
      · rw [zero, can_be_removed] at old
        cases old
      · rw [zero, if_pos rfl] at stamp
        rw [marks, stays]
        exact congrArg some stamp
    · intro uid stamp hidden found nonzero
      obtain ⟨object, listed, rfl⟩ := Option.map_eq_some_iff.mp found
      rcases @Valid.update_missing options now sample api valid none uid object hidden listed with ⟨old, gone⟩ | ⟨stays, stamp⟩
      · exact .inr ⟨by rw [marks, gone]; rfl, old⟩
      · rw [if_neg nonzero] at stamp
        exact .inl (by rw [marks, stays]; exact congrArg some stamp)

theorem Valid.update_present {uid : Nat} (present : Present options sample api uid) :
    Appears options sample uid ∧ marks (LinuxProcesses.update_process_list options now sample api).api uid ≠ none := by
  obtain ⟨read, member, shown, rfl, which⟩ := present
  have appears : Appears options sample (uid_of read) := ⟨read, member, shown, rfl⟩
  have some : sample.directories ≠ [] := fun none => not_appears none _ appears
  refine ⟨appears, ?_⟩
  rw [marks, ne_eq, Option.map_eq_none_iff]
  cases listed : api.processMap.get (uid_of read) with
  | some object =>
    rw [(valid.update_known some appears listed).1]
    exact Option.some_ne_none object
  | none =>
    obtain ⟨loop, keys, retained, progress, purged, isKey⟩ := update_process_list_split options now sample valid some
    obtain ⟨object, added, -⟩ := progress.added read member shown listed (which.resolve_left (fun there => there listed))
    have notKey : uid_of read ∉ keys := fun among => ((isKey _).mp among).1 appears
    rw [(purged.kept _ object added notKey).1]
    exact Option.some_ne_none object

/-- No process that is about to go shares its pid with one that stays. -/
def Unshared (options : Options) (now : Nat) (sample : Sample) (api : CLinuxAPI) : Prop :=
  ∀ uid object, api.processMap.get uid = some object → ¬ Appears options sample uid →
    can_be_removed options.persistence now (api.objects object).removeTimeStamp = true →
    (∀ uid, Present options sample api uid → uid >>> 42 ≠ (api.objects object).processId) ∧
    ∀ other another, api.processMap.get other = some another → (api.objects another).processId = (api.objects object).processId →
      can_be_removed options.persistence now (api.objects another).removeTimeStamp = true

omit valid in
theorem Valid.pid {later : CLinuxAPI} (valid : Valid later) {uid object : Nat} (found : later.processMap.get uid = some object) :
    (later.objects object).processId = uid >>> 42 := by
  obtain ⟨same, small, early⟩ := valid.paired uid object found
  rw [same, process_uid_pid small early]

theorem Valid.reported (unshared : Unshared options now sample api) {pid : Nat}
    (reported : pid ∈ (LinuxProcesses.update_process_list options now sample api).removed) :
    ∀ uid, (LinuxProcesses.update_process_list options now sample api).api.processMap.get uid ≠ none → uid >>> 42 ≠ pid := by
  have some : sample.directories ≠ [] := by
    intro none
    rw [LinuxProcesses.update_process_list, if_pos none] at reported
    cases reported
  obtain ⟨loop, keys, retained, progress, purged, isKey⟩ := update_process_list_split options now sample valid some
  obtain ⟨uid, key, object, found, old, rfl⟩ := (purged.removed pid).mp reported
  obtain ⟨hidden, -⟩ := (isKey uid).mp key
  have listed := (progress.same uid hidden).symm.trans found
  have same := progress.objects object (valid.made uid object listed)
  rw [removable, Bool.and_eq_true, same.stamp, same.pid] at old
  obtain ⟨present, others⟩ := unshared uid object listed hidden old.1
  rw [same.pid]
  intro other stays isPid
  cases before : api.processMap.get other with
  | none =>
    obtain ⟨later, isLater⟩ := Option.ne_none_iff_exists'.mp stays
    obtain ⟨read, member, shown, isUid⟩ := (valid.update_fresh before isLater).1
    refine present other ⟨read, member, shown, isUid, .inr ?_⟩ isPid
    by_contra fails
    have gone := (progress.vanished read member shown (by rw [isUid]; exact before) (Bool.eq_false_iff.mpr fails)).1
    rw [isUid] at gone
    exact stays (purged.absent other gone)
  | some another =>
    by_cases appears : Appears options sample other
    · obtain ⟨read, member, shown, isUid⟩ := appears
      exact present other ⟨read, member, shown, isUid, .inl (by rw [before]; exact Option.some_ne_none another)⟩ isPid
    · have samePid : (api.objects another).processId = (api.objects object).processId := (valid.pid before).trans isPid
      have isKeyToo : other ∈ keys := (isKey other).mpr ⟨appears, by rw [before]; exact Option.some_ne_none another⟩
      have also := progress.objects another (valid.made other another before)
      refine stays (purged.gone other another (progress.known other another before) isKeyToo ?_)
      rw [removable, Bool.and_eq_true, also.stamp, also.pid, samePid]
      exact ⟨others other another before samePid, old.2⟩

end

end TaskExplorer.LinuxProcesses
