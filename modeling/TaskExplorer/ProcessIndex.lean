import TaskExplorer.LinuxProcesses

/-!
# Pids and UIDs

After a refresh every process of the sample is found by its pid, and every pid of the
sample is a process or one of the threads of the kernel's host. This fails in four ways:
the index keeps the process that was made last for a pid, one that cannot be read is
neither, the host keeps its threads when there are none to hand to it, and a kernel
thread that was listed as a process stays so for a while.
-/

namespace TaskExplorer.ProcessIndex
open OrderedMap LinuxProcesses Transition

/-- The pid has a process of its own. -/
def IsProcess (api : CLinuxAPI) (read : Nat × Probe) : Prop := api.processMap.get (uid_of read) ≠ none

/-- The pid is a thread of a listed host. -/
def IsThread (api : CLinuxAPI) (pid : Nat) : Prop := ∃ uid object, api.processMap.get uid = some object ∧ pid ∈ (api.objects object).kernelTaskPids

/-- What the maps promise after a refresh. -/
structure Consistent (sample : Sample) (before after : CLinuxAPI) : Prop where
  indexed : ∀ read ∈ sample.reads, ∀ object, after.processMap.get (uid_of read) = some object → after.processByPID.get read.1 = some object
  listed : ∀ pid object, after.processByPID.get pid = some object → ∃ uid, after.processMap.get uid = some object
  own : ∀ uid object, after.processMap.get uid = some object →
    uid = process_uid (after.objects object).processId (after.objects object).createTimeStamp
  stable : ∀ uid object later, before.processMap.get uid = some object → after.processMap.get uid = some later → object = later
  placed : ∀ read ∈ sample.reads, (IsProcess after read ∧ ¬ IsThread after read.1) ∨ (IsThread after read.1 ∧ ¬ IsProcess after read)

structure Refresh where
  options : Options
  now : Nat
  sample : Sample

def step (api : CLinuxAPI) (event : Refresh) : Option CLinuxAPI :=
  some (update_process_list event.options event.now event.sample api).api

/-- The sample fits to what is listed. -/
structure Settled (api : CLinuxAPI) (event : Refresh) : Prop where
  /-- A process that is listed is the one that its pid leads to. -/
  current : ∀ read ∈ event.sample.reads, (grouping_of event.options event.sample).takes read.2.stat = false →
    ∀ object, api.processMap.get (uid_of read) = some object → api.processByPID.get read.1 = some object
  /-- A process that is not listed can be read. -/
  readable : ∀ read ∈ event.sample.reads, (grouping_of event.options event.sample).takes read.2.stat = false →
    api.processMap.get (uid_of read) = none → read.2.init = true
  /-- A kernel thread that is shown as a thread is not listed. -/
  unlisted : ∀ read ∈ event.sample.reads, (grouping_of event.options event.sample).takes read.2.stat = true →
    api.processMap.get (uid_of read) = none
  /-- No process of the sample is a thread of a listed one, unless that one hosts the kernel threads now. -/
  unhosted : ∀ read ∈ event.sample.reads, (grouping_of event.options event.sample).takes read.2.stat = false →
    ∀ uid object, api.processMap.get uid = some object → read.1 ∈ (api.objects object).kernelTaskPids →
    ∃ host ∈ event.sample.reads, uid_of host = uid ∧ (grouping_of event.options event.sample).takes host.2.stat = false ∧
      host.1 = (grouping_of event.options event.sample).host ∧ (grouping_of event.options event.sample).tasks ≠ []

/-! ## Hosts -/

theorem host_pid_found {directories : List Directory} {host : Nat} (found : host_pid directories host ≠ host) :
    ∃ directory ∈ directories, directory.stat.any SStat.hosts = true ∧ directory.pid = host_pid directories host := by
  induction directories generalizing host with
  | nil => exact absurd rfl found
  | cons directory rest ih =>
    rw [host_pid] at found ⊢
    by_cases hosts : directory.stat.any SStat.hosts = true
    · rw [if_pos hosts] at found ⊢
      by_cases last : host_pid rest directory.pid = directory.pid
      · exact ⟨directory, by simp, hosts, last.symm⟩
      · obtain ⟨other, member, which⟩ := ih last
        exact ⟨other, List.mem_cons_of_mem _ member, which⟩
    · rw [if_neg hosts] at found ⊢
      obtain ⟨other, member, which⟩ := ih found
      exact ⟨other, List.mem_cons_of_mem _ member, which⟩

section
variable {options : Options} {sample : Sample}

theorem grouping_host (some : (grouping_of options sample).tasks ≠ []) :
    ∃ host ∈ sample.reads, host.1 = (grouping_of options sample).host ∧ (grouping_of options sample).takes host.2.stat = false := by
  rw [grouping_of, group_kernel_threads] at some ⊢
  by_cases on : options.groupKernelThreads = true
  · rw [if_pos on] at some ⊢
    dsimp only at some ⊢
    by_cases none : host_pid sample.directories 0 = 0
    · rw [if_pos none] at some
      exact absurd rfl some
    · obtain ⟨directory, member, hosts, isHost⟩ := host_pid_found none
      obtain ⟨stat, isStat, hosting⟩ : ∃ stat, directory.stat = .some stat ∧ stat.hosts = true := by
        cases isStat : directory.stat with
        | none =>
          rw [isStat] at hosts
          cases hosts
        | some stat =>
          rw [isStat] at hosts
          exact ⟨stat, rfl, hosts⟩
      refine ⟨(directory.pid, ⟨stat, directory.init⟩), (sample.mem_reads _).mpr ⟨directory, member, rfl, isStat, rfl⟩, isHost, ?_⟩
      rw [SStat.hosts, Bool.and_eq_true, beq_iff_eq] at hosting
      simp [Grouping.takes, SStat.hosted, hosting.2]
  · rw [if_neg on] at some
    exact absurd rfl some

theorem grouping_tasks {read : Nat × Probe} (member : read ∈ sample.reads) :
    read.1 ∈ (grouping_of options sample).tasks ↔ (grouping_of options sample).takes read.2.stat = true := by
  obtain ⟨directory, among, isPid, isStat, -⟩ := (sample.mem_reads read).mp member
  have only : ∀ other ∈ sample.directories, other.pid = read.1 → other = directory := by
    intro other also same
    exact List.inj_on_of_nodup_map sample.distinct also among (same.trans isPid.symm)
  rw [grouping_of, group_kernel_threads]
  by_cases on : options.groupKernelThreads = true
  · rw [if_pos on]
    by_cases none : host_pid sample.directories 0 = 0
    · simp [Grouping.takes, none]
    · simp only [if_neg none, Grouping.takes]
      have listed : read.1 ∈ (sample.directories.filter (fun directory => directory.stat.any SStat.hosted)).map Directory.pid ↔
          read.2.stat.hosted = true := by
        constructor
        · intro inside
          obtain ⟨other, kept, same⟩ := List.mem_map.mp inside
          obtain ⟨also, hosted⟩ := List.mem_filter.mp kept
          rw [only other also same, isStat] at hosted
          exact hosted
        · intro hosted
          exact List.mem_map.mpr ⟨directory, List.mem_filter.mpr ⟨among, by rw [isStat]; exact hosted⟩, isPid⟩
      rw [listed, Bool.and_eq_true]
      constructor
      · intro hosted
        refine ⟨?_, hosted⟩
        rw [Bool.not_eq_true', List.isEmpty_eq_false_iff]
        exact List.ne_nil_of_mem (listed.mpr hosted)
      · exact fun both => both.2
  · simp [if_neg on, Grouping.takes]

end

/-! ## The refresh -/

section
variable {api : CLinuxAPI} (valid : Valid api) {event : Refresh}
include valid

variable {read : Nat × Probe}

theorem refresh_indexed (settled : Settled api event) (member : read ∈ event.sample.reads) {object : Nat}
    (found : (update_process_list event.options event.now event.sample api).api.processMap.get (uid_of read) = some object)
    : (update_process_list event.options event.now event.sample api).api.processByPID.get read.1 = some object := by
  have some : event.sample.directories ≠ [] := by
    obtain ⟨directory, among, -⟩ := (event.sample.mem_reads read).mp member
    exact List.ne_nil_of_mem among
  obtain ⟨loop, keys, retained, progress, purged, isKey⟩ := update_process_list_split event.options event.now event.sample valid some
  set grouping := grouping_of event.options event.sample with isGrouping
  have isUid (other : Nat) (there : loop.api.processMap.get (uid_of read) = .some other) :
      (loop.api.objects other).processUId = uid_of read := progress.valid.own _ _ there
  cases takes : grouping.takes read.2.stat with
  | true =>
    have absent := settled.unlisted read member takes
    obtain ⟨⟨other, also, shown, same⟩, -⟩ := valid.update_fresh absent found
    have samePid := event.sample.readable.uid_pid also member same
    have isSame : other = read := List.inj_on_of_nodup_map event.sample.readable.distinct also member samePid
    rw [isSame] at shown
    rw [← isGrouping, takes] at shown
    cases shown
  | false =>
    have appears : Appears event.options event.sample (uid_of read) := ⟨read, member, takes, rfl⟩
    have notKey : uid_of read ∉ keys := fun key => ((isKey _).mp key).1 appears
    rw [purged.index]
    cases before : api.processMap.get (uid_of read) with
    | some known =>
      have there := progress.known _ _ before
      obtain ⟨stays, -⟩ := purged.kept _ _ there notKey
      cases stays.symm.trans found
      rw [isUid object there]
      refine ⟨?_, stays⟩
      rw [progress.index read.1]
      · exact settled.current read member takes object before
      · intro other also same
        have isSame : other = read := List.inj_on_of_nodup_map event.sample.readable.distinct also member same
        rw [isSame, before]
        exact .inl (Option.some_ne_none object)
    | none =>
      have init := settled.readable read member takes before
      obtain ⟨fresh, there, index⟩ := progress.added read member takes before init
      obtain ⟨stays, -⟩ := purged.kept _ _ there notKey
      cases stays.symm.trans found
      rw [isUid object there]
      exact ⟨index, stays⟩

theorem refresh_process (settled : Settled api event) (member : read ∈ event.sample.reads)
    (shown : (grouping_of event.options event.sample).takes read.2.stat = false) :
    IsProcess (update_process_list event.options event.now event.sample api).api read := by
  have some : event.sample.directories ≠ [] := by
    obtain ⟨directory, among, -⟩ := (event.sample.mem_reads read).mp member
    exact List.ne_nil_of_mem among
  obtain ⟨loop, keys, retained, progress, purged, isKey⟩ := update_process_list_split event.options event.now event.sample valid some
  have appears : Appears event.options event.sample (uid_of read) := ⟨read, member, shown, rfl⟩
  have notKey : uid_of read ∉ keys := fun key => ((isKey _).mp key).1 appears
  obtain ⟨object, there⟩ : ∃ object, loop.api.processMap.get (uid_of read) = .some object := by
    cases before : api.processMap.get (uid_of read) with
    | some known => exact ⟨known, progress.known _ _ before⟩
    | none =>
      obtain ⟨fresh, there, -⟩ := progress.added read member shown before (settled.readable read member shown before)
      exact ⟨fresh, there⟩
  rw [IsProcess, (purged.kept _ _ there notKey).1]
  exact Option.some_ne_none object

theorem refresh_thread (settled : Settled api event) (member : read ∈ event.sample.reads)
    (takes : (grouping_of event.options event.sample).takes read.2.stat = true) :
    IsThread (update_process_list event.options event.now event.sample api).api read.1 ∧
      ¬ IsProcess (update_process_list event.options event.now event.sample api).api read := by
  have task := (grouping_tasks member).mpr takes
  have someTasks : (grouping_of event.options event.sample).tasks ≠ [] := List.ne_nil_of_mem task
  obtain ⟨host, among, isHost, shown⟩ := grouping_host someTasks
  have some : event.sample.directories ≠ [] := by
    obtain ⟨directory, among, -⟩ := (event.sample.mem_reads read).mp member
    exact List.ne_nil_of_mem among
  obtain ⟨loop, keys, retained, progress, purged, isKey⟩ := update_process_list_split event.options event.now event.sample valid some
  have appears : Appears event.options event.sample (uid_of host) := ⟨host, among, shown, rfl⟩
  have notKey : uid_of host ∉ keys := fun key => ((isKey _).mp key).1 appears
  obtain ⟨object, there⟩ : ∃ object, loop.api.processMap.get (uid_of host) = .some object := by
    cases before : api.processMap.get (uid_of host) with
    | some known => exact ⟨known, progress.known _ _ before⟩
    | none =>
      obtain ⟨fresh, there, -⟩ := progress.added host among shown before (settled.readable host among shown before)
      exact ⟨fresh, there⟩
  refine ⟨⟨uid_of host, object, (purged.kept _ _ there notKey).1, ?_⟩, ?_⟩
  · rw [(purged.objects object).tasks, progress.hosts host among shown isHost someTasks object there]
    exact task
  · intro listed
    obtain ⟨other, found⟩ := Option.ne_none_iff_exists'.mp listed
    obtain ⟨⟨another, also, isShown, same⟩, -⟩ := valid.update_fresh (settled.unlisted read member takes) found
    have samePid := event.sample.readable.uid_pid also member same
    have isSame : another = read := List.inj_on_of_nodup_map event.sample.readable.distinct also member samePid
    rw [isSame, takes] at isShown
    cases isShown

theorem refresh_not_thread (settled : Settled api event) (member : read ∈ event.sample.reads)
    (shown : (grouping_of event.options event.sample).takes read.2.stat = false) :
    ¬ IsThread (update_process_list event.options event.now event.sample api).api read.1 := by
  rintro ⟨uid, object, found, hosted⟩
  have some : event.sample.directories ≠ [] := by
    obtain ⟨directory, among, -⟩ := (event.sample.mem_reads read).mp member
    exact List.ne_nil_of_mem among
  obtain ⟨loop, keys, retained, progress, purged, isKey⟩ := update_process_list_split event.options event.now event.sample valid some
  set grouping := grouping_of event.options event.sample with isGrouping
  have there : loop.api.processMap.get uid = .some object := by
    cases before : loop.api.processMap.get uid with
    | none => cases (purged.absent uid before).symm.trans found
    | some other =>
      by_cases key : uid ∈ keys
      · cases old : removable event.options event.now retained (loop.api.objects other) with
        | true => cases (purged.gone uid other before key old).symm.trans found
        | false => cases (purged.marked uid other before key old).1.symm.trans found; rfl
      · cases (purged.kept uid other before key).1.symm.trans found
        rfl
  rw [(purged.objects object).tasks] at hosted
  by_cases hosting : ∃ host ∈ event.sample.reads, uid_of host = uid ∧ grouping.takes host.2.stat = false ∧
      host.1 = grouping.host ∧ grouping.tasks ≠ []
  · obtain ⟨host, among, rfl, isShown, isHost, someTasks⟩ := hosting
    rw [progress.hosts host among isShown isHost someTasks object there, isGrouping, grouping_tasks member, ← isGrouping, shown] at hosted
    cases hosted
  · have others := progress.others uid object there (by
      intro host among same
      by_contra which
      push Not at which
      obtain ⟨taken, isHost, someTasks⟩ := which
      exact hosting ⟨host, among, same, Bool.eq_false_iff.mpr taken, isHost, someTasks⟩)
    rw [others] at hosted
    split_ifs at hosted with new
    · cases hosted
    · obtain ⟨known, before⟩ := Option.ne_none_iff_exists'.mp new
      cases (progress.known uid known before).symm.trans there
      exact hosting (settled.unhosted read member shown uid object before hosted)

theorem refresh_consistent (settled : Settled api event) :
    Consistent event.sample api (update_process_list event.options event.now event.sample api).api where
  indexed read member object found := refresh_indexed valid settled member found
  listed pid object found := ⟨_, (valid.update_process_list.index pid object found).2⟩
  own uid object found := (valid.update_process_list.paired uid object found).1
  stable uid object later found after := valid.update_stable found after
  placed read member := by
    cases takes : (grouping_of event.options event.sample).takes read.2.stat with
    | true => exact .inr (refresh_thread valid settled member takes)
    | false => exact .inl ⟨refresh_process valid settled member takes, refresh_not_thread valid settled member takes⟩

end

/-- In a run of refreshes whose samples fit to what is listed, every refresh leaves the
    maps consistent. -/
theorem processes_consistent {api : CLinuxAPI} (run : Run step Settled started api) {event : Refresh} (settled : Settled api event) :
    Consistent event.sample api (update_process_list event.options event.now event.sample api).api := by
  have valid : Valid api := by
    apply run.invariant Valid valid_started
    intro state event later valid _ moved
    cases moved
    exact valid.update_process_list
  exact refresh_consistent valid settled

/-! ## A machine with kernel threads -/

def defaults : Options := ⟨true, true, 5000⟩

/-- `init`, the host of the kernel threads, and one of them. -/
def booted : Refresh where
  options := defaults
  now := 100
  sample :=
    { directories := [⟨1, some ⟨0, 10, false⟩, true⟩, ⟨2, some ⟨0, 10, true⟩, true⟩, ⟨3, some ⟨2, 11, true⟩, true⟩]
      distinct := by decide
      small := by decide }

/-- A program was started. -/
def logged : Refresh where
  options := defaults
  now := 200
  sample :=
    { directories := [⟨1, some ⟨0, 10, false⟩, true⟩, ⟨2, some ⟨0, 10, true⟩, true⟩, ⟨3, some ⟨2, 11, true⟩, true⟩,
        ⟨4, some ⟨1, 150, false⟩, true⟩]
      distinct := by decide
      small := by decide }

/-- The kernel thread has ended, and its pid was given to a program. -/
def recycled : Refresh where
  options := defaults
  now := 200
  sample :=
    { directories := [⟨1, some ⟨0, 10, false⟩, true⟩, ⟨2, some ⟨0, 10, true⟩, true⟩, ⟨3, some ⟨1, 150, false⟩, true⟩]
      distinct := by decide
      small := by decide }

theorem settled_booted : Settled started booted where
  current read _ _ object found := by cases found
  readable := by decide
  unlisted read _ _ := rfl
  unhosted read _ _ uid object found := by cases found

theorem settled_logged : Settled (update_process_list booted.options booted.now booted.sample started).api logged where
  current := by decide
  readable := by decide
  unlisted := by decide
  unhosted read member shown := by
    apply OrdMap.forall_get
    revert read
    decide

theorem processes_consistent_logged :
    let api := (update_process_list booted.options booted.now booted.sample started).api
    let later := (update_process_list logged.options logged.now logged.sample api).api
    later.processByPID.entries = [(1, 0), (2, 1), (4, 2)] ∧ (later.objects 1).kernelTaskPids = [3] ∧ Consistent logged.sample api later := by
  intro api later
  refine ⟨by decide, by decide, ?_⟩
  exact processes_consistent (.next .start settled_booted rfl) settled_logged

/-- The host keeps its thread when it has none any more. -/
theorem recycled_both :
    let api := (update_process_list booted.options booted.now booted.sample started).api
    let later := (update_process_list recycled.options recycled.now recycled.sample api).api
    runs step started [booted] = some api ∧ ¬ Consistent recycled.sample api later := by
  intro api later
  refine ⟨rfl, fun consistent => ?_⟩
  have member : (3, ⟨⟨1, 150, false⟩, true⟩) ∈ recycled.sample.reads := by decide
  have isProcess : IsProcess later (3, ⟨⟨1, 150, false⟩, true⟩) := by
    unfold IsProcess
    decide
  have isThread : IsThread later 3 := ⟨process_uid 2 10, 1, by decide, by decide⟩
  rcases consistent.placed _ member with ⟨-, notThread⟩ | ⟨-, notProcess⟩
  · exact notThread isThread
  · exact notProcess isProcess

end TaskExplorer.ProcessIndex
