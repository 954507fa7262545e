import TaskExplorer.Lingering
import TaskExplorer.Transition

/-!
# Which process an object stands for

On Windows the processes are kept under UIDs made of the pid and the raw creation time,
and are also found by their pids. A refresh makes the objects of what it samples; events
and the search for hidden processes make an object for a pid that nothing is found by, with
the creation time that they can read, or none. Statistics and parents are left out.
-/

namespace TaskExplorer.ProcessIdentity
open OrderedMap
open Lingering
open Transition

/-- `SProcessUID`; the lower two bits of a pid are taken to be 0. -/
def process_uid (pid createTime : Nat) : Nat := ((pid <<< 40) &&& 0xFFFFFC0000000000) ^^^ (createTime &&& 0x3FFFFFFFFFF)

structure CWinProcess where
  processId : Nat := 2 ^ 64 - 1
  /-- In units of 100 ns; 0 when it is not known. -/
  createTime : Nat := 0
  isFullyInitialized : Bool := false
  isHiddenProcess : Bool := false
  removeTimeStamp : Nat := 0
deriving DecidableEq, Repr

structure SystemProcess where
  pid : Nat
  createTime : Nat
deriving DecidableEq, Repr

structure Sample where
  processes : List SystemProcess
  distinct : (processes.map SystemProcess.pid).Nodup

/-- A refresh between two of its sections. -/
structure Refresh where
  sample : List SystemProcess
  /-- The processes that it has not come to yet. -/
  left : List SystemProcess
  /-- `OldProcesses`. -/
  old : OrdMap Nat Nat
  /-- The objects that it has updated. -/
  updated : List (Nat × Nat)

structure CWindowsAPI where
  objects : Nat → CWinProcess
  next : Nat
  processMap : OrdMap Nat Nat
  processByPID : OrdMap Nat Nat
  refresh : Option Refresh
  /-- The running process that an object was made for; the program does not know it. -/
  standsFor : Nat → Option SystemProcess
  /-- The latest creation time that was filed under a pid; the program does not keep it. -/
  latest : Nat → Nat

def started : CWindowsAPI := ⟨fun _ => {}, 0, .empty, .empty, none, fun _ => none, fun _ => 0⟩

/-! ## Sections -/

/-- A new object in both maps. -/
def file (api : CWindowsAPI) (process : SystemProcess) (object : CWinProcess) (standsFor : Option SystemProcess) : CWindowsAPI :=
  { api with
    objects := Function.update api.objects api.next object
    next := api.next + 1
    processMap := api.processMap.insert (process_uid process.pid process.createTime) api.next
    processByPID := api.processByPID.insert process.pid api.next
    standsFor := Function.update api.standsFor api.next standsFor
    latest := Function.update api.latest process.pid (max (api.latest process.pid) process.createTime) }

/-- `InitStaticData` with a sampled process. A creation time of 0 is read again if a handle can be
    opened; `times` is what is read then. -/
def InitStaticData (process : SystemProcess) (times : Option Nat) (object : CWinProcess) : CWinProcess :=
  if object.isFullyInitialized then object
  else
    { object with
      isFullyInitialized := true
      processId := process.pid
      createTime := if process.createTime = 0 then times.getD 0 else process.createTime }

/-- `m_ProcessMap[UID]`. -/
def find_or_add (api : CWindowsAPI) (process : SystemProcess) : Nat × CWindowsAPI :=
  match api.processMap.get (process_uid process.pid process.createTime) with
  | some object => (object, api)
  | none => (api.next, file api process {} (some process))

/-- A process of the sample. -/
def refresh_one (api : CWindowsAPI) (refresh : Refresh) (process : SystemProcess) (left : List SystemProcess) (times : Option Nat) : CWindowsAPI :=
  let uid := process_uid process.pid process.createTime
  let found :=
    match refresh.old.get uid with
    | some object => (object, api)
    | none => find_or_add api process
  { found.2 with
    objects := Function.update found.2.objects found.1 (InitStaticData process times (found.2.objects found.1))
    refresh := some { refresh with
      left := left
      old := refresh.old.erase uid
      updated := (process.pid, found.1) :: refresh.updated } }

/-- The creation time that an event can read of the process that runs now. -/
def read_time (actual : Option Nat) (readable : Bool) : Nat := if readable then actual.getD 0 else 0

/-- `GetProcessByID(pid, true)`. -/
def TryAddProcessByID (api : CWindowsAPI) (pid : Nat) (actual : Option Nat) (readable : Bool) : Nat × CWindowsAPI :=
  match api.processByPID.get pid with
  | some object => (object, api)
  | none =>
    let createTime := read_time actual readable
    (api.next, file api ⟨pid, createTime⟩ { processId := pid, createTime := createTime } (actual.map (fun time => ⟨pid, time⟩)))

/-- What `FindHiddenProcesses` does with a process; `times` is what its own handle tells. -/
def mark_hidden (deleting : Bool) (times : Option Nat) (object : CWinProcess) : CWinProcess :=
  { object with
    isHiddenProcess := object.isHiddenProcess || !deleting
    createTime := if object.isFullyInitialized then object.createTime else times.getD object.createTime }

def find_hidden (api : CWindowsAPI) (pid : Nat) (actual : Option Nat) (readable deleting : Bool) (times : Option Nat) : CWindowsAPI :=
  let found := TryAddProcessByID api pid actual readable
  { found.2 with objects := Function.update found.2.objects found.1 (mark_hidden deleting times (found.2.objects found.1)) }

/-- What a purge is told: the pids that have children, and which objects run still. -/
structure Told where
  persistence : Nat
  now : Nat
  childCount : List Nat
  isRunning : Nat → Bool

def purge_one (told : Told) (api : CWindowsAPI) (uid : Nat) : CWindowsAPI :=
  match api.processMap.get uid with
  | none => api
  | some object =>
    let process := api.objects object
    if can_be_removed told.persistence told.now process.removeTimeStamp && !told.childCount.contains process.processId then
      { api with
        processByPID :=
          if api.processByPID.get process.processId = some object then api.processByPID.erase process.processId else api.processByPID
        processMap := api.processMap.erase uid }
    else if process.removeTimeStamp = 0 then
      if process.isHiddenProcess && told.isRunning object then api
      else { api with objects := Function.update api.objects object { process with removeTimeStamp := told.now } }
    else api

def purge (api : CWindowsAPI) (refresh : Refresh) (told : Told) : CWindowsAPI :=
  (refresh.old.entries.map Prod.fst).foldl (purge_one told) { api with refresh := none }

inductive Section where
  | copy (sample : Sample)
  | update (times : Option Nat)
  | purge (told : Told)
  /-- `actual` is the creation time of the process that runs with the pid, if there is one. -/
  | event (pid : Nat) (actual : Option Nat) (readable : Bool)
  | hidden (pid : Nat) (actual : Option Nat) (readable deleting : Bool) (times : Option Nat)

/-- One refresh is under way at a time. -/
def step (api : CWindowsAPI) : Section → Option CWindowsAPI
  | .copy sample =>
    match api.refresh with
    | none => some { api with refresh := some ⟨sample.processes, sample.processes, api.processMap, []⟩ }
    | some _ => none
  | .update times =>
    match api.refresh with
    | some refresh =>
      match refresh.left with
      | process :: left => some (refresh_one api refresh process left times)
      | [] => none
    | none => none
  | .purge told =>
    match api.refresh with
    | some refresh => if refresh.left = [] then some (purge api refresh told) else none
    | none => none
  | .event pid actual readable => some (TryAddProcessByID api pid actual readable).2
  | .hidden pid actual readable deleting times => some (find_hidden api pid actual readable deleting times)

/-- What each section can do. -/
inductive Moves (api : CWindowsAPI) : Section → CWindowsAPI → Prop where
  | copy {sample : Sample} (idle : api.refresh = none) :
    Moves api (.copy sample) { api with refresh := some ⟨sample.processes, sample.processes, api.processMap, []⟩ }
  | update {times : Option Nat} {refresh : Refresh} {process : SystemProcess} {left : List SystemProcess} (under : api.refresh = some refresh)
    (next : refresh.left = process :: left) : Moves api (.update times) (refresh_one api refresh process left times)
  | purge {told : Told} {refresh : Refresh} (under : api.refresh = some refresh) (all : refresh.left = []) :
    Moves api (.purge told) (purge api refresh told)
  | event {pid : Nat} {actual : Option Nat} {readable : Bool} : Moves api (.event pid actual readable) (TryAddProcessByID api pid actual readable).2
  | hidden {pid : Nat} {actual times : Option Nat} {readable deleting : Bool} :
    Moves api (.hidden pid actual readable deleting times) (find_hidden api pid actual readable deleting times)

theorem step_moves {api later : CWindowsAPI} {part : Section} (moved : step api part = some later) : Moves api part later := by
  cases part with
  | copy sample =>
    rw [step] at moved
    cases idle : api.refresh with
    | some refresh =>
      rw [idle] at moved
      cases moved
    | none =>
      rw [idle] at moved
      cases moved
      exact .copy idle
  | update times =>
    rw [step] at moved
    cases under : api.refresh with
    | none =>
      rw [under] at moved
      cases moved
    | some refresh =>
      rw [under] at moved
      dsimp only at moved
      cases next : refresh.left with
      | nil =>
        rw [next] at moved
        cases moved
      | cons process left =>
        rw [next] at moved
        cases moved
        exact .update under next
  | purge told =>
    rw [step] at moved
    cases under : api.refresh with
    | none =>
      rw [under] at moved
      cases moved
    | some refresh =>
      rw [under] at moved
      dsimp only at moved
      split_ifs at moved with all
      cases moved
      exact .purge under all
  | event pid actual readable =>
    cases moved
    exact .event
  | hidden pid actual readable deleting times =>
    cases moved
    exact .hidden

/-! ## The property -/

/-- After a refresh each object is under its own UID, the index leads to listed objects, a running
    process has one object, and each sampled pid leads to what was updated. -/
structure Identified (refresh : Refresh) (api : CWindowsAPI) : Prop where
  filed : ∀ uid object, api.processMap.get uid = some object →
    uid = process_uid (api.objects object).processId (api.objects object).createTime
  index : ∀ pid object, api.processByPID.get pid = some object → ∃ uid, api.processMap.get uid = some object
  single : ∀ uid object other another process, api.processMap.get uid = some object → api.processMap.get other = some another →
    api.standsFor object = some process → api.standsFor another = some process → object = another
  updated : ∀ process ∈ refresh.sample, ∃ object, (process.pid, object) ∈ refresh.updated ∧ api.processByPID.get process.pid = some object

/-- A listed object that has the UID has the pid and the time, too. -/
def Unaliased (api : CWindowsAPI) (process : SystemProcess) : Prop :=
  ∀ object, api.processMap.get (process_uid process.pid process.createTime) = some object →
    (api.objects object).processId = process.pid ∧ (api.objects object).createTime = process.createTime

/-- A pid that nothing is found by gets an object with the time of the process that runs. -/
def Readable (api : CWindowsAPI) (pid : Nat) (actual : Option Nat) (readable : Bool) : Prop :=
  api.processByPID.get pid = none →
    Unaliased api ⟨pid, read_time actual readable⟩ ∧ ∀ time, actual = some time → read_time actual readable = time

/-- Events can read the creation times, samples do not go back in time, and no UID is shared. -/
def Exact (api : CWindowsAPI) : Section → Prop
  | .update times => ∀ refresh process left, api.refresh = some refresh → refresh.left = process :: left →
    Unaliased api process ∧ api.latest process.pid ≤ process.createTime ∧ (process.createTime = 0 → times.getD 0 = 0)
  | .event pid actual readable => Readable api pid actual readable
  | .hidden pid actual readable _ times => Readable api pid actual readable ∧
    let found := TryAddProcessByID api pid actual readable
    ∀ time, times = some time → (found.2.objects found.1).isFullyInitialized = false → time = (found.2.objects found.1).createTime
  | .copy _ => True
  | .purge _ => True

/-! ## The maps -/

/-- Each object is under its own UID, and the latest one of a pid is found by it. -/
structure Filed (api : CWindowsAPI) : Prop where
  made : ∀ uid object, api.processMap.get uid = some object → object < api.next
  own : ∀ uid object, api.processMap.get uid = some object →
    uid = process_uid (api.objects object).processId (api.objects object).createTime
  index : ∀ pid object, api.processByPID.get pid = some object → (api.objects object).processId = pid ∧
    api.processMap.get (process_uid (api.objects object).processId (api.objects object).createTime) = some object
  newest : ∀ uid object, api.processMap.get uid = some object →
    (api.objects object).createTime ≤ api.latest (api.objects object).processId ∧
      ((api.objects object).createTime = api.latest (api.objects object).processId →
        api.processByPID.get (api.objects object).processId = some object)
  standing : ∀ uid object, api.processMap.get uid = some object → ∀ process, api.standsFor object = some process →
    process = ⟨(api.objects object).processId, (api.objects object).createTime⟩

theorem filed_started : Filed started where
  made uid object found := by cases found
  own uid object found := by cases found
  index pid object found := by cases found
  newest uid object found := by cases found
  standing uid object found := by cases found

/-- What a refresh has copied and updated so far. -/
structure Under (api : CWindowsAPI) (refresh : Refresh) : Prop where
  old : ∀ uid object, refresh.old.get uid = some object → object < api.next ∧
    uid = process_uid (api.objects object).processId (api.objects object).createTime ∧
    ∃ still, api.processMap.get uid = some still ∧ (api.objects still).processId = (api.objects object).processId ∧
      (api.objects still).createTime = (api.objects object).createTime ∧
      (still = object ∨ (api.objects object).createTime < api.latest (api.objects object).processId)
  updated : ∀ pid object, (pid, object) ∈ refresh.updated → api.processByPID.get pid = some object ∧
    refresh.old.get (process_uid (api.objects object).processId (api.objects object).createTime) = none ∧
    pid ∉ refresh.left.map SystemProcess.pid
  progress : ∀ process ∈ refresh.sample, process ∈ refresh.left ∨ ∃ object, (process.pid, object) ∈ refresh.updated
  distinct : (refresh.left.map SystemProcess.pid).Nodup

structure Sound (api : CWindowsAPI) : Prop where
  filed : Filed api
  under : ∀ refresh, api.refresh = some refresh → Under api refresh

theorem sound_started : Sound started := ⟨filed_started, fun refresh impossible => by cases impossible⟩

/-- The objects keep their pids and times. -/
def SameProcesses (api later : CWindowsAPI) : Prop :=
  ∀ object, (later.objects object).processId = (api.objects object).processId ∧ (later.objects object).createTime = (api.objects object).createTime

section
variable {api : CWindowsAPI}

theorem Filed.change (filed : Filed api) {later : CWindowsAPI} (same : SameProcesses api later) (next : later.next = api.next)
    (map : later.processMap = api.processMap) (index : later.processByPID = api.processByPID) (standsFor : later.standsFor = api.standsFor)
    (latest : later.latest = api.latest) : Filed later where
  made := by
    rw [map, next]
    exact filed.made
  own uid object found := by
    rw [map] at found
    rw [(same object).1, (same object).2]
    exact filed.own uid object found
  index pid object found := by
    rw [index] at found
    rw [(same object).1, (same object).2, map]
    exact filed.index pid object found
  newest uid object found := by
    rw [map] at found
    rw [(same object).1, (same object).2, latest, index]
    exact filed.newest uid object found
  standing uid object found := by
    rw [map] at found
    rw [(same object).1, (same object).2, standsFor]
    exact filed.standing uid object found

theorem Under.change {refresh : Refresh} (under : Under api refresh) {later : CWindowsAPI} (same : SameProcesses api later)
    (next : later.next = api.next) (map : later.processMap = api.processMap) (index : later.processByPID = api.processByPID)
    (latest : later.latest = api.latest) : Under later refresh where
  old uid object found := by
    obtain ⟨made, isUid, still, listed, isPid, isTime, which⟩ := under.old uid object found
    rw [next, map, latest, (same object).1, (same object).2]
    refine ⟨made, isUid, still, listed, ?_, ?_, which⟩
    · rw [(same still).1]
      exact isPid
    · rw [(same still).2]
      exact isTime
  updated pid object member := by
    rw [index, (same object).1, (same object).2]
    exact under.updated pid object member
  progress := under.progress
  distinct := under.distinct

/-! ## A new object -/

section
variable (filed : Filed api) {process : SystemProcess} {object : CWinProcess} {standsFor : Option SystemProcess}
  (isPid : object.processId = process.pid) (isTime : object.createTime = process.createTime) (unaliased : Unaliased api process)
include filed

theorem file_older {listed uid : Nat} (found : api.processMap.get uid = some listed) :
    (file api process object standsFor).objects listed = api.objects listed ∧
      (file api process object standsFor).standsFor listed = api.standsFor listed :=
  ⟨Function.update_of_ne (Nat.ne_of_lt (filed.made uid listed found)) _ _,
    Function.update_of_ne (Nat.ne_of_lt (filed.made uid listed found)) _ _⟩

include isPid isTime unaliased

theorem Filed.file (latest : api.latest process.pid ≤ process.createTime ∧
      api.processMap.get (process_uid process.pid process.createTime) = none ∨ api.processByPID.get process.pid = none)
    (standing : ∀ other, standsFor = some other → other = process) : Filed (file api process object standsFor) := by
  have map (uid : Nat) : (ProcessIdentity.file api process object standsFor).processMap.get uid =
      if process_uid process.pid process.createTime = uid then some api.next else api.processMap.get uid := OrdMap.get_insert _ _ _ _
  have byPID (pid : Nat) : (ProcessIdentity.file api process object standsFor).processByPID.get pid =
      if process.pid = pid then some api.next else api.processByPID.get pid := OrdMap.get_insert _ _ _ _
  have newest : (ProcessIdentity.file api process object standsFor).objects api.next = object := Function.update_self _ _ _
  have moment (pid : Nat) : (ProcessIdentity.file api process object standsFor).latest pid =
      if process.pid = pid then max (api.latest process.pid) process.createTime else api.latest pid := by
    by_cases here : process.pid = pid
    · subst here
      rw [if_pos rfl]
      exact Function.update_self _ _ _
    · rw [if_neg here]
      exact Function.update_of_ne (Ne.symm here) _ _
  refine ⟨?_, ?_, ?_, ?_, ?_⟩
  · intro uid listed found
    rw [map] at found
    split_ifs at found
    · cases found
      exact Nat.lt_succ_self _
    · exact Nat.lt_succ_of_lt (filed.made uid listed found)
  · intro uid listed found
    rw [map] at found
    split_ifs at found with here
    · cases found
      rw [newest, isPid, isTime]
      exact here.symm
    · rw [(file_older filed found).1]
      exact filed.own uid listed found
  · intro pid listed found
    rw [byPID] at found
    split_ifs at found with here
    · cases found
      rw [newest, isPid, isTime, map, if_pos rfl]
      exact ⟨here, rfl⟩
    · obtain ⟨same, there⟩ := filed.index pid listed found
      rw [(file_older filed there).1, map, if_neg]
      · exact ⟨same, there⟩
      · intro clash
        rw [← clash] at there
        exact here ((unaliased listed there).1.symm.trans same)
  · intro uid listed found
    rw [map] at found
    split_ifs at found with here
    · cases found
      rw [newest, isPid, isTime, moment, if_pos rfl, byPID, if_pos rfl]
      exact ⟨Nat.le_max_right _ _, fun _ => rfl⟩
    · rw [(file_older filed found).1, moment, byPID]
      obtain ⟨before, indexed⟩ := filed.newest uid listed found
      by_cases same : process.pid = (api.objects listed).processId
      · rw [if_pos same, if_pos same]
        rw [← same] at before indexed
        refine ⟨Nat.le_trans before (Nat.le_max_left _ _), fun last => ?_⟩
        have isLast : (api.objects listed).createTime = api.latest process.pid :=
          Nat.le_antisymm before (last ▸ Nat.le_max_left _ _)
        rcases latest with ⟨after, -⟩ | free
        · rw [Nat.max_eq_right after] at last
          have isUid := filed.own uid listed found
          rw [← same, last] at isUid
          exact absurd isUid.symm here
        · cases (indexed isLast).symm.trans free
      · rw [if_neg same, if_neg same]
        exact ⟨before, indexed⟩
  · intro uid listed found other stands
    rw [map] at found
    split_ifs at found with here
    · cases found
      rw [newest, isPid, isTime]
      have new : (ProcessIdentity.file api process object standsFor).standsFor api.next = standsFor := Function.update_self _ _ _
      exact standing other (new.symm.trans stands)
    · rw [(file_older filed found).1]
      rw [(file_older filed found).2] at stands
      exact filed.standing uid listed found other stands

theorem Under.file {refresh : Refresh} (under : Under api refresh)
    (latest : api.latest process.pid ≤ process.createTime ∧
      api.processMap.get (process_uid process.pid process.createTime) = none ∨ api.processByPID.get process.pid = none)
    (apart : ∀ pid updated, (pid, updated) ∈ refresh.updated → pid ≠ process.pid) : Under (ProcessIdentity.file api process object standsFor) refresh := by
  have later (pid : Nat) : api.latest pid ≤ (ProcessIdentity.file api process object standsFor).latest pid := by
    by_cases here : pid = process.pid
    · subst here
      have raised : (ProcessIdentity.file api process object standsFor).latest process.pid =
          max (api.latest process.pid) process.createTime := Function.update_self _ _ _
      rw [raised]
      exact Nat.le_max_left _ _
    · have same : (ProcessIdentity.file api process object standsFor).latest pid = api.latest pid := Function.update_of_ne here _ _
      rw [same]
  have older {number : Nat} (made : number < api.next) : (ProcessIdentity.file api process object standsFor).objects number = api.objects number :=
    Function.update_of_ne (Nat.ne_of_lt made) _ _
  refine ⟨?_, ?_, under.progress, under.distinct⟩
  · intro uid known found
    obtain ⟨made, isUid, still, listed, samePid, sameTime, which⟩ := under.old uid known found
    rw [older made]
    refine ⟨Nat.lt_succ_of_lt made, isUid, ?_⟩
    by_cases here : process_uid process.pid process.createTime = uid
    · refine ⟨api.next, (OrdMap.get_insert _ _ _ _).trans (if_pos here), ?_⟩
      obtain ⟨hasPid, hasTime⟩ := unaliased still (by rw [here]; exact listed)
      have newest : (ProcessIdentity.file api process object standsFor).objects api.next = object := Function.update_self _ _ _
      rw [newest, isPid, isTime]
      refine ⟨hasPid.symm.trans samePid, hasTime.symm.trans sameTime, .inr ?_⟩
      rcases latest with ⟨-, absent⟩ | free
      · rw [here, listed] at absent
        cases absent
      · obtain ⟨before, indexed⟩ := filed.newest uid still listed
        rw [← samePid, ← sameTime]
        refine Nat.lt_of_lt_of_le (Nat.lt_of_le_of_ne before ?_) (later _)
        intro last
        have there := indexed last
        rw [hasPid, free] at there
        cases there
    · refine ⟨still, (OrdMap.get_insert _ _ _ _).trans ((if_neg here).trans listed), ?_⟩
      rw [older (filed.made uid still listed)]
      exact ⟨samePid, sameTime, which.imp_right (fun before => Nat.lt_of_lt_of_le before (later _))⟩
  · intro pid updated member
    obtain ⟨indexed, gone, notLeft⟩ := under.updated pid updated member
    have listed := (filed.index pid updated indexed).2
    rw [older (filed.made _ updated listed)]
    refine ⟨(OrdMap.get_insert _ _ _ _).trans ((if_neg ?_).trans indexed), gone, notLeft⟩
    exact (apart pid updated member).symm

end

end

/-! ## The sections of a refresh -/

theorem same_update (api : CWindowsAPI) {object : Nat} {process : CWinProcess} (isPid : process.processId = (api.objects object).processId)
    (isTime : process.createTime = (api.objects object).createTime) :
    SameProcesses api { api with objects := Function.update api.objects object process } := by
  intro other
  dsimp only
  by_cases here : other = object
  · subst here
    rw [Function.update_self]
    exact ⟨isPid, isTime⟩
  · rw [Function.update_of_ne here]
    exact ⟨rfl, rfl⟩

theorem init_same {process : SystemProcess} {times : Option Nat} (known : process.createTime = 0 → times.getD 0 = 0) {object : CWinProcess}
    (same : object.isFullyInitialized = true → object.processId = process.pid ∧ object.createTime = process.createTime) :
    (InitStaticData process times object).processId = process.pid ∧ (InitStaticData process times object).createTime = process.createTime := by
  rw [InitStaticData]
  split_ifs with full zero
  · exact same full
  · exact ⟨rfl, (known zero).trans zero.symm⟩
  · exact ⟨rfl, rfl⟩

/-- The object that is updated now, and the maps around it. -/
structure Taken (process : SystemProcess) (refresh : Refresh) (object : Nat) (api : CWindowsAPI) : Prop where
  filed : Filed api
  under : Under api refresh
  pid : (api.objects object).processId = process.pid
  time : (api.objects object).createTime = process.createTime
  indexed : api.processByPID.get process.pid = some object

section
variable {api : CWindowsAPI} {refresh : Refresh} {process : SystemProcess} {left : List SystemProcess} {times : Option Nat}

theorem Filed.taken (filed : Filed api) (under : Under api refresh) (unaliased : Unaliased api process)
    (latest : api.latest process.pid ≤ process.createTime) (known : process.createTime = 0 → times.getD 0 = 0) {object : Nat}
    (found : api.processMap.get (process_uid process.pid process.createTime) = some object) :
    Taken process refresh object
      { api with objects := Function.update api.objects object (InitStaticData process times (api.objects object)) } := by
  obtain ⟨isPid, isTime⟩ := unaliased object found
  obtain ⟨initPid, initTime⟩ := @init_same process times known (api.objects object) (fun _ => ⟨isPid, isTime⟩)
  have same := same_update api (initPid.trans isPid.symm) (initTime.trans isTime.symm)
  obtain ⟨before, indexed⟩ := filed.newest _ object found
  rw [isPid, isTime] at before indexed
  refine ⟨filed.change same rfl rfl rfl rfl rfl, under.change same rfl rfl rfl rfl, (same object).1.trans isPid, (same object).2.trans isTime, ?_⟩
  exact indexed (Nat.le_antisymm before latest)

theorem Filed.take_new (filed : Filed api) (under : Under api refresh) (unaliased : Unaliased api process)
    (latest : api.latest process.pid ≤ process.createTime) (known : process.createTime = 0 → times.getD 0 = 0)
    (absent : api.processMap.get (process_uid process.pid process.createTime) = none)
    (apart : ∀ pid updated, (pid, updated) ∈ refresh.updated → pid ≠ process.pid) :
    Taken process refresh api.next (ProcessIdentity.file api process (InitStaticData process times {}) (some process)) := by
  obtain ⟨initPid, initTime⟩ := @init_same process times known {} (fun impossible => by cases impossible)
  have newest : (ProcessIdentity.file api process (InitStaticData process times {}) (some process)).objects api.next = InitStaticData process times {} :=
    Function.update_self _ _ _
  refine ⟨filed.file initPid initTime unaliased (.inl ⟨latest, absent⟩) ?_, under.file filed initPid initTime unaliased (.inl ⟨latest, absent⟩) apart,
    by rw [newest, initPid], by rw [newest, initTime], (OrdMap.get_insert _ _ _ _).trans (if_pos rfl)⟩
  intro other isProcess
  exact (Option.some.inj isProcess).symm

theorem Taken.sound {object : Nat} (taken : Taken process refresh object api) (next : refresh.left = process :: left) :
    Sound { api with refresh := some { refresh with
      left := left
      old := refresh.old.erase (process_uid process.pid process.createTime)
      updated := (process.pid, object) :: refresh.updated } } where
  filed := taken.filed.change (fun object => ⟨rfl, rfl⟩) rfl rfl rfl rfl rfl
  under later isLater := by
    cases isLater
    have under := taken.under
    have distinct := under.distinct
    rw [next, List.map_cons, List.nodup_cons] at distinct
    refine ⟨?_, ?_, ?_, distinct.2⟩
    · intro uid known found
      rw [OrdMap.get_erase] at found
      split_ifs at found
      exact under.old uid known found
    · intro pid updated member
      rw [OrdMap.get_erase]
      rcases List.mem_cons.mp member with here | before
      · cases here
        refine ⟨taken.indexed, ?_, distinct.1⟩
        rw [if_pos]
        dsimp only
        rw [taken.pid, taken.time]
      · obtain ⟨indexed, gone, notLeft⟩ := under.updated pid updated before
        rw [next, List.map_cons, List.mem_cons, not_or] at notLeft
        refine ⟨indexed, ?_, notLeft.2⟩
        split_ifs
        · rfl
        · exact gone
    · intro other member
      rcases under.progress other member with waits | ⟨updated, done⟩
      · rw [next] at waits
        rcases List.mem_cons.mp waits with rfl | behind
        · exact .inr ⟨object, List.mem_cons_self⟩
        · exact .inl behind
      · exact .inr ⟨updated, List.mem_cons_of_mem _ done⟩

theorem Sound.refresh_one (sound : Sound api) (isRefresh : api.refresh = some refresh) (next : refresh.left = process :: left)
    (exact : Exact api (.update times)) : Sound (refresh_one api refresh process left times) := by
  obtain ⟨unaliased, latest, known⟩ := exact refresh process left isRefresh next
  have under := sound.under refresh isRefresh
  rw [ProcessIdentity.refresh_one]
  cases copied : refresh.old.get (process_uid process.pid process.createTime) with
  | some object =>
    -- an event may have put another object under the UID, but only for an earlier process
    obtain ⟨-, isUid, still, listed, samePid, sameTime, which⟩ := under.old _ object copied
    obtain ⟨isPid, isTime⟩ := unaliased still listed
    have found : api.processMap.get (process_uid process.pid process.createTime) = some object := by
      rcases which with rfl | before
      · exact listed
      · rw [← sameTime, ← samePid, isPid, isTime] at before
        exact absurd latest (Nat.not_le.mpr before)
    exact (sound.filed.taken under unaliased latest known found).sound next
  | none =>
    dsimp only [find_or_add]
    cases found : api.processMap.get (process_uid process.pid process.createTime) with
    | some object => exact (sound.filed.taken under unaliased latest known found).sound next
    | none =>
      have apart (pid updated : Nat) (member : (pid, updated) ∈ refresh.updated) : pid ≠ process.pid := by
        rintro rfl
        refine (under.updated _ updated member).2.2 ?_
        rw [next]
        exact List.mem_cons_self
      have taken := (sound.filed.take_new under unaliased latest known found apart).sound next
      dsimp only [file] at taken ⊢
      rw [Function.update_self, Function.update_idem]
      exact taken

end

/-! ## Events -/

section
variable {api : CWindowsAPI}

theorem Sound.try_add (sound : Sound api) {pid : Nat} {actual : Option Nat} {readable : Bool} (isReadable : Readable api pid actual readable) :
    Sound (TryAddProcessByID api pid actual readable).2 := by
  rw [TryAddProcessByID]
  cases found : api.processByPID.get pid with
  | some object => exact sound
  | none =>
    obtain ⟨unaliased, actually⟩ := isReadable found
    refine ⟨sound.filed.file rfl rfl unaliased (.inr found) ?_, ?_⟩
    · intro other stands
      obtain ⟨time, isActual, rfl⟩ := Option.map_eq_some_iff.mp stands
      rw [actually time isActual]
    · intro refresh isRefresh
      refine Under.file sound.filed rfl rfl unaliased (sound.under refresh isRefresh) (.inr found) ?_
      rintro _ updated member rfl
      cases ((sound.under refresh isRefresh).updated _ updated member).1.symm.trans found

theorem Sound.change (sound : Sound api) {later : CWindowsAPI} (same : SameProcesses api later) (next : later.next = api.next)
    (map : later.processMap = api.processMap) (index : later.processByPID = api.processByPID) (standsFor : later.standsFor = api.standsFor)
    (latest : later.latest = api.latest) (refresh : later.refresh = api.refresh) : Sound later where
  filed := sound.filed.change same next map index standsFor latest
  under now isNow := by
    rw [refresh] at isNow
    exact (sound.under now isNow).change same next map index latest

theorem Sound.find_hidden (sound : Sound api) {pid : Nat} {actual times : Option Nat} {readable deleting : Bool}
    (exact : Exact api (.hidden pid actual readable deleting times)) : Sound (find_hidden api pid actual readable deleting times) := by
  obtain ⟨isReadable, sameTime⟩ := exact
  have added := sound.try_add isReadable
  rw [ProcessIdentity.find_hidden]
  refine added.change (same_update _ rfl ?_) rfl rfl rfl rfl rfl rfl
  rw [mark_hidden]
  dsimp only
  split_ifs with full
  · rfl
  · cases read : times with
    | none => rfl
    | some time => exact sameTime time read (Bool.eq_false_iff.mpr full)

/-! ## Purging -/

/-- What a purge keeps of objects that it does not look at. -/
structure Purged (api : CWindowsAPI) (keys : List Nat) (later : CWindowsAPI) : Prop where
  filed : Filed later
  refresh : later.refresh = none
  kept : ∀ pid object, api.processByPID.get pid = some object →
    process_uid (api.objects object).processId (api.objects object).createTime ∉ keys →
    later.processByPID.get pid = some object ∧ (later.objects object).processId = (api.objects object).processId ∧
      (later.objects object).createTime = (api.objects object).createTime

theorem Filed.drop (filed : Filed api) {uid object : Nat} (found : api.processMap.get uid = some object) :
    Filed { api with
      processByPID :=
        if api.processByPID.get (api.objects object).processId = some object then api.processByPID.erase (api.objects object).processId
        else api.processByPID
      processMap := api.processMap.erase uid } ∧
    ∀ pid other, (if api.processByPID.get (api.objects object).processId = some object then api.processByPID.erase (api.objects object).processId
        else api.processByPID).get pid = some other ↔ api.processByPID.get pid = some other ∧ other ≠ object := by
  have index (pid other : Nat) : (if api.processByPID.get (api.objects object).processId = some object
      then api.processByPID.erase (api.objects object).processId else api.processByPID).get pid = some other ↔
        api.processByPID.get pid = some other ∧ other ≠ object := by
    split_ifs with indexed
    · rw [OrdMap.get_erase]
      by_cases here : (api.objects object).processId = pid
      · rw [if_pos here, ← here, indexed]
        constructor
        · intro impossible
          cases impossible
        · rintro ⟨same, differs⟩
          exact absurd (Option.some.inj same).symm differs
      · rw [if_neg here]
        refine ⟨fun there => ⟨there, ?_⟩, fun both => both.1⟩
        rintro rfl
        exact here (filed.index pid other there).1
    · refine ⟨fun there => ⟨there, ?_⟩, fun both => both.1⟩
      rintro rfl
      rw [(filed.index pid other there).1] at indexed
      exact indexed there
  -- an object is under one UID only
  have apart {other another : Nat} (there : (api.processMap.erase uid).get other = some another) :
      api.processMap.get other = some another ∧ another ≠ object := by
    rw [OrdMap.get_erase] at there
    split_ifs at there with here
    refine ⟨there, ?_⟩
    rintro rfl
    exact here ((filed.own uid another found).trans (filed.own other another there).symm)
  refine ⟨⟨?_, ?_, ?_, ?_, ?_⟩, index⟩
  · exact fun other another there => filed.made other another (apart there).1
  · exact fun other another there => filed.own other another (apart there).1
  · intro pid other there
    obtain ⟨indexed, differs⟩ := (index pid other).mp there
    obtain ⟨isPid, listed⟩ := filed.index pid other indexed
    refine ⟨isPid, (OrdMap.get_erase _ _ _).trans ((if_neg ?_).trans listed)⟩
    intro here
    rw [← here, found] at listed
    exact differs (Option.some.inj listed).symm
  · intro other another there
    obtain ⟨listed, differs⟩ := apart there
    obtain ⟨before, last⟩ := filed.newest other another listed
    exact ⟨before, fun isLast => (index _ another).mpr ⟨last isLast, differs⟩⟩
  · exact fun other another there => filed.standing other another (apart there).1

theorem purge_one_purged (told : Told) (filed : Filed api) (none : api.refresh = none) (uid : Nat) :
    Purged api [uid] (purge_one told api uid) := by
  rw [purge_one]
  cases found : api.processMap.get uid with
  | none => exact ⟨filed, none, fun pid object indexed _ => ⟨indexed, rfl, rfl⟩⟩
  | some object =>
    dsimp only
    by_cases old : (can_be_removed told.persistence told.now (api.objects object).removeTimeStamp &&
        !told.childCount.contains (api.objects object).processId) = true
    · rw [if_pos old]
      obtain ⟨dropped, index⟩ := filed.drop found
      refine ⟨dropped, none, fun pid other indexed apart => ⟨(index pid other).mpr ⟨indexed, ?_⟩, rfl, rfl⟩⟩
      rintro rfl
      rw [filed.own uid other found] at apart
      exact apart (List.mem_singleton_self _)
    · rw [if_neg old]
      by_cases unmarked : (api.objects object).removeTimeStamp = 0
      · rw [if_pos unmarked]
        by_cases running : ((api.objects object).isHiddenProcess && told.isRunning object) = true
        · rw [if_pos running]
          exact ⟨filed, none, fun pid other indexed _ => ⟨indexed, rfl, rfl⟩⟩
        · rw [if_neg running]
          have same : SameProcesses api { api with objects := Function.update api.objects object { api.objects object with removeTimeStamp := told.now } } :=
            same_update api rfl rfl
          exact ⟨filed.change same rfl rfl rfl rfl rfl, none, fun pid other indexed _ => ⟨indexed, same other⟩⟩
      · rw [if_neg unmarked]
        exact ⟨filed, none, fun pid other indexed _ => ⟨indexed, rfl, rfl⟩⟩

theorem purge_all_purged (told : Told) (filed : Filed api) (none : api.refresh = none) (keys : List Nat) :
    Purged api keys (keys.foldl (purge_one told) api) := by
  induction keys generalizing api with
  | nil => exact ⟨filed, none, fun pid object indexed _ => ⟨indexed, rfl, rfl⟩⟩
  | cons uid rest ih =>
    have first := purge_one_purged told filed none uid
    have rested := ih first.filed first.refresh
    refine ⟨rested.filed, rested.refresh, ?_⟩
    intro pid object indexed apart
    rw [List.mem_cons, not_or] at apart
    obtain ⟨still, isPid, isTime⟩ := first.kept pid object indexed (fun member => apart.1 (List.mem_singleton.mp member))
    obtain ⟨last, samePid, sameTime⟩ := rested.kept pid object still (by rw [isPid, isTime]; exact apart.2)
    exact ⟨last, samePid.trans isPid, sameTime.trans isTime⟩

theorem Sound.purged (sound : Sound api) (refresh : Refresh) (told : Told) :
    Purged api (refresh.old.entries.map Prod.fst) (purge api refresh told) := by
  have filed : Filed { api with refresh := none } := sound.filed.change (fun object => ⟨rfl, rfl⟩) rfl rfl rfl rfl rfl
  have purged := purge_all_purged told filed rfl (refresh.old.entries.map Prod.fst)
  exact ⟨purged.filed, purged.refresh, purged.kept⟩

/-! ## Runs -/

theorem Sound.step (sound : Sound api) {later : CWindowsAPI} {part : Section} (exact : Exact api part) (moves : Moves api part later) :
    Sound later := by
  cases moves with
  | @copy sample idle =>
    refine ⟨sound.filed.change (fun object => ⟨rfl, rfl⟩) rfl rfl rfl rfl rfl, ?_⟩
    intro refresh isRefresh
    cases isRefresh
    refine ⟨?_, ?_, fun process member => .inl member, sample.distinct⟩
    · intro uid object found
      exact ⟨sound.filed.made uid object found, sound.filed.own uid object found, object, found, rfl, rfl, .inl rfl⟩
    · intro pid object member
      cases member
  | update under next => exact sound.refresh_one under next exact
  | @purge told refresh under all =>
    have purged := sound.purged refresh told
    exact ⟨purged.filed, fun later isLater => by cases purged.refresh.symm.trans isLater⟩
  | event => exact sound.try_add exact
  | hidden => exact sound.find_hidden exact

theorem Filed.single (filed : Filed api) {uid object other another : Nat} {process : SystemProcess} (found : api.processMap.get uid = some object)
    (also : api.processMap.get other = some another) (stands : api.standsFor object = some process)
    (standsToo : api.standsFor another = some process) : object = another := by
  have same : uid = other := by
    rw [filed.own uid object found, filed.own other another also]
    have both := (filed.standing uid object found process stands).symm.trans (filed.standing other another also process standsToo)
    rw [SystemProcess.mk.injEq] at both
    rw [both.1, both.2]
  rw [same, also] at found
  exact (Option.some.inj found).symm

theorem Sound.identified (sound : Sound api) {refresh : Refresh} (isRefresh : api.refresh = some refresh) (all : refresh.left = []) (told : Told) :
    Identified refresh (purge api refresh told) := by
  have under := sound.under refresh isRefresh
  have purged := sound.purged refresh told
  refine ⟨purged.filed.own, ?_, ?_, ?_⟩
  · exact fun pid object indexed => ⟨_, (purged.filed.index pid object indexed).2⟩
  · exact fun uid object other another process found also stands standsToo => purged.filed.single found also stands standsToo
  · intro process member
    rcases under.progress process member with waits | ⟨object, done⟩
    · rw [all] at waits
      cases waits
    · obtain ⟨indexed, gone, -⟩ := under.updated process.pid object done
      refine ⟨object, done, (purged.kept process.pid object indexed ?_).1⟩
      intro key
      obtain ⟨⟨uid, other⟩, entry, isUid⟩ := List.mem_map.mp key
      dsimp only at isUid
      rw [← isUid, OrdMap.mem_entries.mp entry] at gone
      cases gone

end

namespace Demo

def sample : Sample := ⟨[⟨100, 5000⟩], by decide⟩

def told : Told := ⟨1000, 7000, [], fun _ => false⟩

def copying (api : CWindowsAPI) : CWindowsAPI :=
  { api with refresh := some ⟨sample.processes, sample.processes, api.processMap, []⟩ }

def updating (api : CWindowsAPI) : CWindowsAPI :=
  refresh_one (copying api) ⟨sample.processes, sample.processes, api.processMap, []⟩ ⟨100, 5000⟩ [] none

def refreshed (api : CWindowsAPI) : Refresh :=
  ⟨sample.processes, [], api.processMap.erase (process_uid 100 5000), [(100, api.next)]⟩

end Demo

namespace Demo

/-- The process 100 runs, but its creation time cannot be read. -/
def early : CWindowsAPI := (TryAddProcessByID started 100 (some 5000) false).2

end Demo

end TaskExplorer.ProcessIdentity
