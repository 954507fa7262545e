import TaskExplorer.ThreadIndex
import TaskExplorer.HandleTargets
import TaskExplorer.SocketList

/-!
# The marks of the lists

The lists of processes, of the threads and handles of each process, of sockets and of
services are refreshed one at a time while the clock goes on. Beside them it is noted
since when each item has been missing from the samples of its list.
-/

namespace TaskExplorer.RefreshMarks
open OrderedMap
open Lingering
open LinuxProcesses (Options Sample Appears Valid)
open ThreadIndex (System Tasks CLinuxThread process_readings update_threads)
open HandleTargets (HandleSample HandleList CHandleInfo)
open SocketList (Sockets Connection Wellformed Socket identities hash_id)
open Transition

/-! ## Services -/

structure SSystemdUnit where
  name : List Char
  description : List Char
  loadState : List Char
  activeState : List Char
  subState : List Char
  path : List Char
deriving DecidableEq, Repr

structure CLinuxService where
  name : List Char
  objectPath : List Char
  loadState : List Char := []
  activeState : List Char := []
  subState : List Char := []
  displayName : List Char := []
deriving DecidableEq, Repr

def interestingTypes : List (List Char) :=
  [".service".toList, ".socket".toList, ".timer".toList, ".mount".toList, ".automount".toList,
    ".path".toList, ".swap".toList, ".scope".toList, ".slice".toList]

def SSystemdUnit.interesting (unit : SSystemdUnit) : Bool := interestingTypes.any (fun type => type.isSuffixOf unit.name)

def unit_reading (unit : SSystemdUnit) : Reading (List Char) CLinuxService where
  key := unit.name
  made := some { name := unit.name, objectPath := unit.path }
  changed service :=
    { service with loadState := unit.loadState, activeState := unit.activeState, subState := unit.subState, displayName := unit.description }

def service_readings (units : List SSystemdUnit) : List (Reading (List Char) CLinuxService) :=
  (units.filter SSystemdUnit.interesting).map unit_reading

abbrev ServiceList := OrdMap (List Char) (Listed CLinuxService)

/-- `CLinuxAPI::UpdateServiceList`; without a reply nothing is done. -/
def update_service_list (persistence now : Nat) (reply : Option (List SSystemdUnit)) (list : ServiceList) : Purging (List Char) CLinuxService :=
  match reply with
  | none => ⟨list, []⟩
  | some units => refresh persistence now (service_readings units) list

/-! ## All lists -/

structure Viewer where
  system : System
  /-- `m_HandleList` of each process object. -/
  handleLists : Nat → HandleList
  sockets : Sockets
  services : ServiceList

inductive Event where
  | processes (options : Options) (now : Nat) (sample : Sample)
  | threads (persistence now process : Nat) (tasks : Tasks)
  | handles (persistence now process : Nat) (sample : HandleSample)
  | sockets (persistence now : Nat) (sample : List Connection)
  | services (persistence now : Nat) (reply : Option (List SSystemdUnit))

def Event.now : Event → Nat
  | .processes _ now _ => now
  | .threads _ now _ _ => now
  | .handles _ now _ _ => now
  | .sockets _ now _ => now
  | .services _ now _ => now

def update (viewer : Viewer) : Event → Viewer
  | .processes options now sample =>
    { viewer with system := { viewer.system with api := (LinuxProcesses.update_process_list options now sample viewer.system.api).api } }
  | .threads persistence now process tasks => { viewer with system := update_threads persistence now process tasks viewer.system }
  | .handles persistence now process sample =>
    { viewer with
      handleLists := Function.update viewer.handleLists process (HandleTargets.update_handles persistence now sample (viewer.handleLists process)) }
  | .sockets persistence now sample => { viewer with sockets := (SocketList.update_socket_list persistence now sample viewer.sockets).sockets }
  | .services persistence now reply => { viewer with services := (update_service_list persistence now reply viewer.services).list }

/-- What is read of the threads of a process; nothing when it has none. -/
def thread_sample (system : System) (process : Nat) (tasks : Tasks) : List (Reading Nat CLinuxThread) :=
  if tasks.tids = [] then [] else process_readings system process tasks

/-! ## The history -/

/-- Since when each item is missing. -/
structure Since where
  processes : Nat → Option Nat := fun _ => none
  threads : Nat → Nat → Option Nat := fun _ _ => none
  handles : Nat → Nat → Option Nat := fun _ _ => none
  sockets : Nat → Option Nat := fun _ => none
  services : List Char → Option Nat := fun _ => none

def Since.note (since : Since) (viewer : Viewer) : Event → Since
  | .processes options now sample => { since with processes := missing now (Appears options sample) since.processes }
  | .threads _ now process tasks =>
    { since with
      threads := Function.update since.threads process
        (missing now (Sampled (thread_sample viewer.system process tasks)) (since.threads process)) }
  | .handles _ now process sample =>
    { since with handles := Function.update since.handles process (missing now (Sampled sample.readings) (since.handles process)) }
  | .sockets _ now sample => { since with sockets := missing now (SocketList.Sampled sample viewer.sockets) since.sockets }
  | .services _ _ none => since
  | .services _ now (some units) => { since with services := missing now (Sampled (service_readings units)) since.services }

structure Watch where
  viewer : Viewer
  since : Since
  clock : Nat

/-- Nothing is listed. -/
def beginning : Watch := ⟨⟨ThreadIndex.idle, fun _ => .empty, ⟨[], 0⟩, .empty⟩, {}, 0⟩

/-- The clock does not go back. -/
def step (watch : Watch) (event : Event) : Option Watch :=
  if watch.clock ≤ event.now ∧ event.now < 2 ^ 64 then some ⟨update watch.viewer event, watch.since.note watch.viewer event, event.now⟩
  else none

/-! ## What is promised -/

/-- After a refresh its list has marked what is missing from the sample, and only that; what left it was missing for long,
    and nothing that was reported is listed. -/
def Marked (watch : Watch) (event : Event) (later : Viewer) : Prop :=
  match event with
  | .processes options now sample =>
    let api := watch.viewer.system.api
    Exact options.persistence now (Appears options sample) (LinuxProcesses.Present options sample api) watch.since.processes
      (LinuxProcesses.marks api) (LinuxProcesses.marks later.system.api) ∧
    ∀ pid ∈ (LinuxProcesses.update_process_list options now sample api).removed, ∀ uid object,
      later.system.api.processMap.get uid = some object → (later.system.api.objects object).processId ≠ pid
  | .threads persistence now process tasks =>
    let list := watch.viewer.system.threadLists process
    let readings := thread_sample watch.viewer.system process tasks
    Exact persistence now (Sampled readings) (Present readings list) (watch.since.threads process) (marks list)
      (marks (later.system.threadLists process)) ∧
    (tasks.tids ≠ [] → ∀ tid ∈ (refresh persistence now readings list).removed, (later.system.threadLists process).get tid = none)
  | .handles persistence now process sample =>
    let list := watch.viewer.handleLists process
    Exact persistence now (Sampled sample.readings) (Present sample.readings list) (watch.since.handles process) (marks list)
      (marks (later.handleLists process)) ∧
    ∀ number ∈ (refresh persistence now sample.readings list).removed, (later.handleLists process).get number = none
  | .sockets persistence now sample =>
    let sockets := watch.viewer.sockets
    Exact persistence now (SocketList.Sampled sample sockets)
      (fun object => SocketList.Sampled sample sockets object ∧ SocketList.marks later.sockets object ≠ none) watch.since.sockets
      (SocketList.marks sockets) (SocketList.marks later.sockets) ∧
    (∀ identity, later.sockets.list.countP (fun socket => Socket.is identity socket && decide (socket.stamp = 0)) =
      (identities sample).count identity) ∧
    ∀ hash ∈ (SocketList.update_socket_list persistence now sample sockets).removed, ∀ socket ∈ later.sockets.list, hash_id socket.connection ≠ hash
  | .services persistence now reply => ∀ units ∈ reply,
    let list := watch.viewer.services
    Exact persistence now (Sampled (service_readings units)) (Present (service_readings units) list) watch.since.services (marks list)
      (marks later.services) ∧
    ∀ name ∈ (update_service_list persistence now reply list).removed, later.services.get name = none

/-- Nothing comes back while it is marked, no mark is made at tick 0, a process with nothing to read has nothing left to mark,
    and what goes shares its pid or hash with nothing that stays. -/
def Regular (watch : Watch) : Event → Prop
  | .processes options now sample =>
    Steady now (Appears options sample) (LinuxProcesses.marks watch.viewer.system.api) ∧
    (sample.directories = [] → ∀ uid, LinuxProcesses.marks watch.viewer.system.api uid ≠ some 0) ∧
    LinuxProcesses.Unshared options now sample watch.viewer.system.api
  | .threads _ now process tasks =>
    Steady now (Sampled (thread_sample watch.viewer.system process tasks)) (marks (watch.viewer.system.threadLists process)) ∧
    (tasks.tids = [] → ∀ tid, marks (watch.viewer.system.threadLists process) tid ≠ some 0)
  | .handles _ now process sample => Steady now (Sampled sample.readings) (marks (watch.viewer.handleLists process))
  | .sockets persistence now sample =>
    Steady now (SocketList.Sampled sample watch.viewer.sockets) (SocketList.marks watch.viewer.sockets) ∧
    SocketList.Unshared persistence now sample watch.viewer.sockets
  | .services _ now reply => ∀ units ∈ reply, Steady now (Sampled (service_readings units)) (marks watch.viewer.services)

/-! ## One refresh -/

/-- Every mark is as old as the absence it stands for. -/
structure Sound (watch : Watch) : Prop where
  valid : Valid watch.viewer.system.api
  formed : Wellformed watch.viewer.sockets
  processes : Tracked watch.clock watch.since.processes (LinuxProcesses.marks watch.viewer.system.api)
  threads : ∀ process, Tracked watch.clock (watch.since.threads process) (marks (watch.viewer.system.threadLists process))
  handles : ∀ process, Tracked watch.clock (watch.since.handles process) (marks (watch.viewer.handleLists process))
  sockets : Tracked watch.clock watch.since.sockets (SocketList.marks watch.viewer.sockets)
  services : Tracked watch.clock watch.since.services (marks watch.viewer.services)

theorem sound_beginning : Sound beginning where
  valid := LinuxProcesses.valid_started
  formed := ⟨List.nodup_nil, fun _ member => by cases member⟩
  processes := tracked_none 0 _
  threads _ := tracked_none 0 _
  handles _ := tracked_none 0 _
  sockets := tracked_none 0 _
  services := tracked_none 0 _

theorem Sound.later {watch : Watch} (sound : Sound watch) {now : Nat} (after : watch.clock ≤ now) : Sound { watch with clock := now } where
  valid := sound.valid
  formed := sound.formed
  processes := sound.processes.later after
  threads process := (sound.threads process).later after
  handles process := (sound.handles process).later after
  sockets := sound.sockets.later after
  services := sound.services.later after

theorem threads_refreshed (system : System) (persistence now process : Nat) (tasks : Tasks)
    (unread : tasks.tids = [] → ∀ tid, marks (system.threadLists process) tid ≠ some 0) :
    Refreshed persistence now (Sampled (thread_sample system process tasks)) (marks (system.threadLists process))
      (marks ((update_threads persistence now process tasks system).threadLists process)) := by
  by_cases nothing : tasks.tids = []
  · rw [thread_sample, if_pos nothing, update_threads, if_pos nothing]
    refine ⟨?_, ?_, ?_, ?_⟩
    · rintro tid stamp (⟨⟩)
    · intro tid stamp absent found
      cases absent.symm.trans found
    · exact fun tid _ found => absurd found (unread nothing tid)
    · exact fun tid stamp _ found _ => .inl found
  · rw [thread_sample, if_neg nothing, update_threads, if_neg nothing]
    simp only [Function.update_self]
    exact refresh_refreshed persistence now _ _

section
variable {watch : Watch} (sound : Sound watch) {event : Event} (regular : Regular watch event) (after : watch.clock ≤ event.now)
include sound regular after

theorem Sound.update : Sound ⟨update watch.viewer event, watch.since.note watch.viewer event, event.now⟩ := by
  have older := sound.later after
  cases event with
  | processes options now sample =>
    obtain ⟨steady, unread, -⟩ := regular
    exact { older with
      valid := sound.valid.update_process_list
      processes := (sound.valid.refreshed unread).tracked steady sound.processes after }
  | threads persistence now process tasks =>
    obtain ⟨steady, unread⟩ := regular
    have refreshed := threads_refreshed watch.viewer.system persistence now process tasks unread
    have same : (update_threads persistence now process tasks watch.viewer.system).api = watch.viewer.system.api := by
      rw [update_threads]
      split_ifs <;> rfl
    have others {other : Nat} (differs : other ≠ process) :
        (update_threads persistence now process tasks watch.viewer.system).threadLists other = watch.viewer.system.threadLists other := by
      rw [update_threads]
      split_ifs
      · rfl
      · simp [differs]
    refine { older with valid := ?_, processes := ?_, threads := ?_ }
    · dsimp only [RefreshMarks.update]
      rw [same]
      exact sound.valid
    · dsimp only [RefreshMarks.update]
      rw [same]
      exact older.processes
    · intro other
      dsimp only [RefreshMarks.update, Since.note]
      by_cases here : other = process
      · subst here
        rw [Function.update_self]
        exact refreshed.tracked steady (sound.threads other) after
      · rw [Function.update_of_ne here, others here]
        exact older.threads other
  | handles persistence now process sample =>
    refine { older with handles := ?_ }
    intro other
    dsimp only [RefreshMarks.update, Since.note]
    by_cases here : other = process
    · subst here
      rw [Function.update_self, Function.update_self]
      exact (refresh_refreshed persistence now sample.readings _).tracked regular (sound.handles other) after
    · rw [Function.update_of_ne here, Function.update_of_ne here]
      exact older.handles other
  | sockets persistence now sample =>
    obtain ⟨steady, -⟩ := regular
    exact { older with
      formed := sound.formed.update_socket_list persistence now sample
      sockets := (sound.formed.refreshed persistence now sample).tracked steady sound.sockets after }
  | services persistence now reply =>
    cases reply with
    | none => exact older
    | some units =>
      exact { older with
        services := (refresh_refreshed persistence now (service_readings units) watch.viewer.services).tracked (regular units rfl) sound.services after }

theorem Sound.marked (bounded : event.now < 2 ^ 64) : Marked watch event (RefreshMarks.update watch.viewer event) := by
  cases event with
  | processes options now sample =>
    obtain ⟨steady, unread, unshared⟩ := regular
    refine ⟨(sound.valid.refreshed unread).exact steady sound.processes after bounded (fun uid present => sound.valid.update_present present), ?_⟩
    intro pid reported uid object found isPid
    refine sound.valid.reported unshared reported uid ?_ ?_
    · exact Option.ne_none_iff_exists'.mpr ⟨object, found⟩
    · exact (sound.valid.update_process_list.pid found).symm.trans isPid
  | threads persistence now process tasks =>
    obtain ⟨steady, unread⟩ := regular
    have refreshed := threads_refreshed watch.viewer.system persistence now process tasks unread
    have list (some : tasks.tids ≠ []) : (RefreshMarks.update watch.viewer (.threads persistence now process tasks)).system.threadLists process =
        (refresh persistence now (thread_sample watch.viewer.system process tasks) (watch.viewer.system.threadLists process)).list := by
      simp [RefreshMarks.update, update_threads, thread_sample, some]
    refine ⟨refreshed.exact steady (sound.threads process) after bounded ?_, ?_⟩
    · intro tid present
      by_cases nothing : tasks.tids = []
      · rw [thread_sample, if_pos nothing] at present
        cases present.1
      · have there := refresh_present persistence now _ _ present
        rw [← list nothing] at there
        exact there
    · intro some tid reported
      rw [list some]
      exact Option.map_eq_none_iff.mp (refresh_reported persistence now _ _ reported)
  | handles persistence now process sample =>
    have list : (RefreshMarks.update watch.viewer (.handles persistence now process sample)).handleLists process =
        (refresh persistence now sample.readings (watch.viewer.handleLists process)).list := Function.update_self _ _ _
    rw [Marked, list]
    exact ⟨(refresh_refreshed persistence now _ _).exact regular (sound.handles process) after bounded
        (fun number present => refresh_present persistence now _ _ present),
      fun number reported => Option.map_eq_none_iff.mp (refresh_reported persistence now _ _ reported)⟩
  | sockets persistence now sample =>
    obtain ⟨steady, unshared⟩ := regular
    exact ⟨(sound.formed.refreshed persistence now sample).exact steady sound.sockets after bounded (fun object present => present),
      sound.formed.unmarked persistence now sample steady,
      fun hash reported => sound.formed.reported persistence now sample unshared reported⟩
  | services persistence now reply =>
    intro units isReply
    cases isReply
    exact ⟨(refresh_refreshed persistence now _ _).exact (regular units rfl) sound.services after bounded
        (fun name present => refresh_present persistence now _ _ present),
      fun name reported => Option.map_eq_none_iff.mp (refresh_reported persistence now _ _ reported)⟩

end

/-! ## Every refresh -/

/-- In a run of regular refreshes each one marks exactly what is missing. -/
theorem lists_marked {watch later : Watch} (run : Run step Regular beginning watch) {event : Event} (regular : Regular watch event)
    (moved : step watch event = some later) : Marked watch event later.viewer := by
  have sound : Sound watch := by
    apply run.invariant Sound sound_beginning
    intro state event next sound meets taken
    rw [step] at taken
    split_ifs at taken with time
    cases taken
    exact sound.update meets time.1
  rw [step] at moved
  split_ifs at moved with time
  cases moved
  exact sound.marked regular time.1 time.2

def openFile : HandleSample := HandleTargets.opened "/a".toList

def noFile : HandleSample := ⟨[], [], by simp, by simp⟩

/-- A file is closed, and its handle goes when it has been missing for five seconds. -/
theorem lists_marked_closed : ∃ watch later, runs step beginning [.handles 5000 10 0 openFile, .handles 5000 20 0 noFile] = some watch ∧
    step watch (.handles 5000 5100 0 noFile) = some later ∧ (watch.viewer.handleLists 0).entries.map Prod.fst = [3] ∧
    (later.viewer.handleLists 0).entries = [] ∧ Marked watch (.handles 5000 5100 0 noFile) later.viewer := by
  have unsampled : ∀ number, ¬ Sampled noFile.readings number := by
    rintro number (⟨⟩)
  have first : Regular beginning (.handles 5000 10 0 openFile) :=
    ⟨fun number stamp _ found => (by cases found), fun number _ found => (by cases found)⟩
  have missing (watch : Watch) {now : Nat} (positive : now ≠ 0) : Regular watch (.handles 5000 now 0 noFile) :=
    ⟨fun number stamp sampled _ => absurd sampled (unsampled number), fun _ _ _ => positive⟩
  have meets : Meets step Regular beginning [.handles 5000 10 0 openFile, .handles 5000 20 0 noFile] :=
    ⟨first, missing _ (by decide), trivial⟩
  exact ⟨_, _, rfl, rfl, by decide, by decide, lists_marked (Run.of_runs .start meets rfl) (missing _ (by decide)) rfl⟩

/-- A descriptor that is used again within five seconds has a handle that is still marked. -/
theorem reopened_marked : ∃ watch later, runs step beginning [.handles 5000 10 0 openFile, .handles 5000 20 0 noFile] = some watch ∧
    step watch (.handles 5000 30 0 openFile) = some later ∧ ¬ Marked watch (.handles 5000 30 0 openFile) later.viewer := by
  refine ⟨_, _, rfl, rfl, fun marked => ?_⟩
  have unmarked := marked.1.listed 3 ⟨by decide, .inl (by decide)⟩
  revert unmarked
  decide

end TaskExplorer.RefreshMarks
