import TaskExplorer.CounterDeltas
import TaskExplorer.LinuxProcesses

/-!
# Totals of the input and output

Each process has counters of what it has read and written, which are cumulative; a delta
keeps by how much they have grown with the last refresh of the process. The totals of the
system add up the deltas of all listed processes, refresh for refresh. What the totals are
to be is stated with what has been read of each process first and last.
-/

namespace TaskExplorer.IoTotals
open OrderedMap LinuxProcesses CounterDeltas Transition

/-! ## Counters of a process -/

/-- Of reads and of writes the bytes and the calls. -/
inductive Counter where
  | readRaw
  | read
  | writeRaw
  | write
deriving DecidableEq, Repr

structure SProcIo where
  RChar : UInt64
  WChar : UInt64
  SysCr : UInt64
  SysCw : UInt64
deriving DecidableEq, Repr

def SProcIo.count (io : SProcIo) : Counter → UInt64
  | .readRaw => io.RChar
  | .read => io.SysCr
  | .writeRaw => io.WChar
  | .write => io.SysCw

structure SIOStats where
  count : Counter → UInt64 := fun _ => 0
  delta : Counter → SDelta UInt64 := fun _ => {}

/-- `SetRead` and `SetWrite`. -/
def SIOStats.Set (stats : SIOStats) (io : SProcIo) : SIOStats := { stats with count := io.count }

def SIOStats.UpdateStats (stats : SIOStats) : SIOStats := { stats with delta := fun counter => (stats.delta counter).Update (stats.count counter) }

/-- What `UpdateDynamicData` finds of a process: its `stat` may be gone, or its `io` be refused. -/
inductive Dynamic where
  | gone
  | refused
  | io (io : SProcIo)
deriving DecidableEq, Repr

def UpdateDynamicData (dynamic : Dynamic) (stats : SIOStats) : SIOStats :=
  match dynamic with
  | .gone => stats
  | .refused => stats.UpdateStats
  | .io io => (stats.Set io).UpdateStats

/-! ## The refresh -/

section
variable {β : Type}

/-- The process of a directory, if it is shown and stays. -/
def refreshed (grouping : Grouping) (loop : Loop) (pid : Nat) (probe : Probe) : Option Nat :=
  if grouping.takes probe.stat then none
  else
    match loop.old.get (process_uid pid probe.stat.startTime) with
    | some object => some object
    | none => if probe.init then some (find_or_add loop.api pid (process_uid pid probe.stat.startTime)).1 else none

/-- The list, and what is kept of each process beside it. -/
structure Reading (β : Type) where
  loop : Loop
  kept : Nat → β

def read_one (grouping : Grouping) (update : Nat → β → β) (reading : Reading β) (read : Nat × Probe) : Reading β :=
  ⟨refresh_one grouping reading.loop read.1 read.2,
    match refreshed grouping reading.loop read.1 read.2 with
    | some object => Function.update reading.kept object (update read.1 (reading.kept object))
    | none => reading.kept⟩

def read_all (grouping : Grouping) (update : Nat → β → β) (api : CLinuxAPI) (kept : Nat → β) (stats : List (Nat × Probe)) : Reading β :=
  stats.foldl (read_one grouping update) ⟨⟨api, api.processMap⟩, kept⟩

end

/-- What a refresh finds; the helper answers with the counters of some processes that could not be read. -/
structure Refresh where
  options : Options
  now : Nat
  sample : Sample
  dynamic : Nat → Dynamic
  helper : OrdMap Nat SProcIo

/-- `SetHelperProcIo` for each answer, with the process that is found by the pid. -/
def helped {β : Type} (api : CLinuxAPI) (set : SProcIo → β → β) (kept : Nat → β) (answers : List (Nat × SProcIo)) : Nat → β :=
  answers.foldl (fun kept answer =>
    match api.processByPID.get answer.1 with
    | some object => Function.update kept object (set answer.2 (kept object))
    | none => kept) kept

structure Totals where
  api : CLinuxAPI
  /-- `m_Stats.Io` of each process. -/
  io : Nat → SIOStats
  /-- `m_TotalIoRead` and so on. -/
  total : Counter → UInt64

def started : Totals := ⟨LinuxProcesses.started, fun _ => {}, fun _ => 0⟩

section
variable {β : Type} (refresh : Refresh)

/-- The list after the refresh. -/
def Refresh.listed (api : CLinuxAPI) : CLinuxAPI := (update_process_list refresh.options refresh.now refresh.sample api).api

/-- What is kept of each process when the directories have been gone through. -/
def Refresh.gone_through (update : Dynamic → β → β) (api : CLinuxAPI) (kept : Nat → β) : Nat → β :=
  (read_all (grouping_of refresh.options refresh.sample) (fun pid => update (refresh.dynamic pid)) api kept refresh.sample.reads).kept

/-- And at the end; without any directory the refresh is given up. -/
def Refresh.keep (update : Dynamic → β → β) (set : SProcIo → β → β) (api : CLinuxAPI) (kept : Nat → β) : Nat → β :=
  if refresh.sample.directories = [] then kept
  else helped (refresh.listed api) set (refresh.gone_through update api kept) refresh.helper.entries

end

def UpdateProcessList (refresh : Refresh) (state : Totals) : Totals :=
  { state with
    api := refresh.listed state.api
    io := refresh.keep UpdateDynamicData (fun io stats => stats.Set io) state.api state.io }

/-- The sum of the deltas over the processes that are found by their pids. -/
def deltas (api : CLinuxAPI) (io : Nat → SIOStats) (counter : Counter) : UInt64 :=
  (api.processByPID.entries.map fun entry => ((io entry.2).delta counter).Delta).sum

def UpdateSysStats (state : Totals) : Totals :=
  { state with total := fun counter => state.total counter + deltas state.api state.io counter }

/-! ## What has been read -/

/-- What was read of a process first and last. -/
abbrev Read := Option (SProcIo × SProcIo)

def note (io : SProcIo) : Read → Read
  | some (first, _) => some (first, io)
  | none => some (io, io)

def note_dynamic : Dynamic → Read → Read
  | .io io, read => note io read
  | _, read => read

/-- What the counter has grown by as far as it was read. -/
def grown (read : Read) (counter : Counter) : UInt64 :=
  match read with
  | some (first, last) => last.count counter - first.count counter
  | none => 0

/-- The totals, and beside them what was read of each process that was ever listed. -/
structure Observed extends Totals where
  read : Nat → Read

def observed : Observed := ⟨started, fun _ => none⟩

def Refresh.after (refresh : Refresh) (state : Observed) : Observed :=
  ⟨UpdateSysStats (UpdateProcessList refresh state.toTotals), refresh.keep note_dynamic note state.api state.read⟩

def step (state : Observed) (refresh : Refresh) : Option Observed := some (refresh.after state)

/-- Every total is the sum of what the processes have grown by. -/
def Observed.Exact (state : Observed) : Prop :=
  ∀ counter, state.total counter = ∑ object ∈ Finset.range state.api.next, grown (state.read object) counter

/-- A directory of the refresh is that of a process. -/
structure Refresh.Updates (refresh : Refresh) (api : CLinuxAPI) (read : Nat × Probe) (object : Nat) : Prop where
  among : read ∈ refresh.sample.reads
  shown : (grouping_of refresh.options refresh.sample).takes read.2.stat = false
  listed : (refresh.listed api).processMap.get (uid_of read) = some object

/-- No process stays listed with a delta that is not updated; where counters are read for the first time there has been no update before, or they
are 0; an update starts from what has been read last; no process comes back when its pid is another one's; and what the helper reads has been
read before, or nothing has. -/
structure Steady (state : Observed) (refresh : Refresh) : Prop where
  growing : ∀ read object io, refresh.Updates state.api read object → refresh.dynamic read.1 = .io io →
    ∀ first last, state.read object = some (first, last) → ∀ counter, last.count counter ≤ io.count counter
  lingering : ∀ pid object, (refresh.listed state.api).processByPID.get pid = some object →
    (∀ read, refresh.Updates state.api read object → refresh.dynamic read.1 = .gone) → ∀ counter, ((state.io object).delta counter).Delta = 0
  started : ∀ read object io, refresh.Updates state.api read object → refresh.dynamic read.1 = .io io → state.read object = none →
    ∀ counter, ((state.io object).delta counter).Initialized = false ∨ io.count counter = 0
  baseline : ∀ read object, refresh.Updates state.api read object → refresh.dynamic read.1 ≠ .gone →
    ∀ first last, state.read object = some (first, last) →
      ∀ counter, ((state.io object).delta counter).Initialized = true ∧ ((state.io object).delta counter).Value = last.count counter
  found : ∀ read ∈ refresh.sample.reads, (grouping_of refresh.options refresh.sample).takes read.2.stat = false →
    ∀ object, state.api.processMap.get (uid_of read) = some object → state.api.processByPID.get read.1 = some object
  helped : ∀ pid io object, refresh.helper.get pid = some io → (refresh.listed state.api).processByPID.get pid = some object →
    ∀ first last, refresh.gone_through note_dynamic state.api state.read object = some (first, last) → ∀ counter, io.count counter = last.count counter

/-! ## The directories -/

section
variable {β : Type} {grouping : Grouping} {update : Nat → β → β} {api : CLinuxAPI} {kept : Nat → β}

theorem read_all_loop (reads : List (Nat × Probe)) : (read_all grouping update api kept reads).loop = refresh_all grouping api reads := by
  induction reads using List.reverseRecOn with
  | nil => rfl
  | append_singleton earlier last ih =>
    rw [read_all, List.foldl_append, refresh_all, List.foldl_append]
    exact congrArg (fun loop => refresh_one grouping loop last.1 last.2) ih

theorem refreshed_effect {first : CLinuxAPI} {reads : List (Nat × Probe)} {loop : Loop} {read : Nat × Probe} (progress : Progress grouping first reads loop)
    (readable : Readable (reads ++ [read])) (shown : grouping.takes read.2.stat = false) :
    (refresh_one grouping loop read.1 read.2).api.processMap.get (uid_of read) = refreshed grouping loop read.1 read.2 ∧
      ∀ uid, uid ≠ uid_of read → (refresh_one grouping loop read.1 read.2).api.processMap.get uid = loop.api.processMap.get uid := by
  have notYet : ¬ Shown grouping reads (uid_of read) := by
    rintro ⟨other, member, -, same⟩
    have samePid := readable.uid_pid (List.mem_append_left _ member) (by simp) same
    have distinct := readable.distinct
    rw [List.map_append, List.nodup_append] at distinct
    exact distinct.2.2 other.1 (List.mem_map.mpr ⟨other, member, rfl⟩) read.1 (by simp) samePid
  have waits := progress.waiting _ notYet
  have same := progress.same _ notYet
  cases listed : first.processMap.get (uid_of read) with
  | some object =>
    rw [listed] at waits
    have isOld : loop.old.get (process_uid read.1 read.2.stat.startTime) = some object := waits
    rw [refresh_one_known shown waits, refreshed, if_neg (by rw [shown]; exact Bool.false_ne_true), isOld]
    refine ⟨?_, fun uid _ => ?_⟩
    · rw [hand_tasks_map]
      exact same.trans listed
    · rw [hand_tasks_map]
  | none =>
    rw [listed] at waits same
    have isNew : loop.old.get (process_uid read.1 read.2.stat.startTime) = none := waits
    have unlisted : loop.api.processMap.get (process_uid read.1 read.2.stat.startTime) = none := same
    rw [refreshed, if_neg (by rw [shown]; exact Bool.false_ne_true), isNew]
    cases init : read.2.init with
    | true =>
      have isNext : (find_or_add loop.api read.1 (process_uid read.1 read.2.stat.startTime)).1 = loop.api.next := by rw [find_or_add, unlisted]
      rw [refresh_one_added shown waits same init, hand_tasks_map, added, isNext]
      exact ⟨(OrdMap.get_insert _ _ _ _).trans (if_pos rfl), fun uid other => (OrdMap.get_insert _ _ _ _).trans (if_neg (fun same => other same.symm))⟩
    | false =>
      rw [refresh_one_vanished shown waits same init]
      refine ⟨(OrdMap.get_erase _ _ _).trans (if_pos rfl), fun uid other => ?_⟩
      rw [vanished, OrdMap.get_erase, OrdMap.get_insert, if_neg (fun same => other same.symm), if_neg (fun same => other same.symm)]

theorem read_all_kept (valid : Valid api) {reads : List (Nat × Probe)} (readable : Readable reads) :
    (∀ read ∈ reads, grouping.takes read.2.stat = false → ∀ object, (refresh_all grouping api reads).api.processMap.get (uid_of read) = some object →
      (read_all grouping update api kept reads).kept object = update read.1 (kept object)) ∧
    ∀ object, (∀ read ∈ reads, grouping.takes read.2.stat = false → (refresh_all grouping api reads).api.processMap.get (uid_of read) ≠ some object) →
      (read_all grouping update api kept reads).kept object = kept object := by
  induction reads using List.reverseRecOn with
  | nil => exact ⟨fun read member => (by cases member), fun object _ => rfl⟩
  | append_singleton earlier last ih =>
    have before : Readable earlier :=
      ⟨readable.distinct.sublist ((List.sublist_append_left _ _).map _), fun read member => readable.small read (List.mem_append_left _ member)⟩
    obtain ⟨updated, others⟩ := ih before
    have progress := refresh_all_progress grouping valid before
    have later := refresh_all_progress grouping valid readable
    have isLast : refresh_all grouping api (earlier ++ [last]) = refresh_one grouping (refresh_all grouping api earlier) last.1 last.2 := by
      rw [refresh_all, List.foldl_append]
      rfl
    have kept_last : (read_all grouping update api kept (earlier ++ [last])).kept =
        match refreshed grouping (refresh_all grouping api earlier) last.1 last.2 with
        | some object => Function.update (read_all grouping update api kept earlier).kept object
            (update last.1 ((read_all grouping update api kept earlier).kept object))
        | none => (read_all grouping update api kept earlier).kept := by
      have same : (read_all grouping update api kept earlier).loop = refresh_all grouping api earlier := read_all_loop earlier
      rw [← same, read_all, List.foldl_append]
      rfl
    cases shown : grouping.takes last.2.stat with
    | true =>
      have same : refresh_all grouping api (earlier ++ [last]) = refresh_all grouping api earlier := by rw [isLast, refresh_one_takes shown]
      have notRefreshed : refreshed grouping (refresh_all grouping api earlier) last.1 last.2 = none := by rw [refreshed, if_pos shown]
      rw [kept_last, notRefreshed, same]
      have early {read : Nat × Probe} (member : read ∈ earlier ++ [last]) (isShown : grouping.takes read.2.stat = false) : read ∈ earlier := by
        rcases List.mem_append.mp member with early | late
        · exact early
        · rw [List.mem_singleton.mp late, shown] at isShown
          cases isShown
      exact ⟨fun read member isShown => updated read (early member isShown) isShown,
        fun object apart => others object fun read member => apart read (List.mem_append_left _ member)⟩
    | false =>
      obtain ⟨here, elsewhere⟩ := refreshed_effect progress readable shown
      rw [← isLast] at here elsewhere
      have apart : ∀ read ∈ earlier, uid_of read ≠ uid_of last := by
        intro read member same
        have distinct := readable.distinct
        rw [List.map_append, List.nodup_append] at distinct
        exact distinct.2.2 read.1 (List.mem_map_of_mem member) last.1 (by simp) (readable.uid_pid (List.mem_append_left _ member) (by simp) same)
      have single {uid other object : Nat} (one : (refresh_all grouping api (earlier ++ [last])).api.processMap.get uid = some object)
          (two : (refresh_all grouping api (earlier ++ [last])).api.processMap.get other = some object) : uid = other := by
        rw [← later.valid.own _ _ one, later.valid.own _ _ two]
      rw [kept_last]
      cases isRefreshed : refreshed grouping (refresh_all grouping api earlier) last.1 last.2 with
      | none =>
        rw [isRefreshed] at here
        dsimp only
        refine ⟨fun read member isShown object found => ?_, fun object away => ?_⟩
        · rcases List.mem_append.mp member with early | late
          · exact updated read early isShown object (by rw [← elsewhere _ (apart read early), found])
          · rw [List.mem_singleton.mp late, here] at found
            cases found
        · exact others object fun read member isShown => by
            rw [← elsewhere _ (apart read member)]
            exact away read (List.mem_append_left _ member) isShown
      | some current =>
        rw [isRefreshed] at here
        have waiting {read : Nat × Probe} (member : read ∈ earlier) : (refresh_all grouping api earlier).api.processMap.get (uid_of read) ≠ some current := by
          rw [← elsewhere _ (apart read member)]
          exact fun found => apart read member (single found here)
        dsimp only
        refine ⟨fun read member isShown object found => ?_, fun object away => ?_⟩
        · rcases List.mem_append.mp member with early | late
          · rw [elsewhere _ (apart read early)] at found
            have differs : object ≠ current := fun same => waiting early (same ▸ found)
            rw [Function.update_of_ne differs]
            exact updated read early isShown object found
          · rw [List.mem_singleton.mp late, here] at found
            obtain rfl := Option.some.inj found
            rw [Function.update_self, others current (fun read member _ => waiting member), List.mem_singleton.mp late]
        · have differs : object ≠ current := fun same => away last (by simp) shown (by rw [here, same])
          rw [Function.update_of_ne differs]
          exact others object fun read member isShown => by
            rw [← elsewhere _ (apart read member)]
            exact away read (List.mem_append_left _ member) isShown

end

section
variable {refresh : Refresh} {api : CLinuxAPI} (valid : Valid api)
include valid

theorem Valid.listed : Valid (refresh.listed api) := LinuxProcesses.Valid.update_process_list valid

theorem listed_shown (some : refresh.sample.directories ≠ []) {read : Nat × Probe} (among : read ∈ refresh.sample.reads)
    (shown : (grouping_of refresh.options refresh.sample).takes read.2.stat = false) :
    (refresh.listed api).processMap.get (uid_of read) =
      (refresh_all (grouping_of refresh.options refresh.sample) api refresh.sample.reads).api.processMap.get (uid_of read) := by
  have progress := refresh_all_progress (grouping_of refresh.options refresh.sample) valid refresh.sample.readable
  have purged := purge_all_purged refresh.options refresh.now
    (child_count refresh.options (refresh_all (grouping_of refresh.options refresh.sample) api refresh.sample.reads).api) progress.valid
    (OrdMap.keys_nodup (refresh_all (grouping_of refresh.options refresh.sample) api refresh.sample.reads).old)
  have taken := progress.taken (uid_of read) ⟨read, among, shown, rfl⟩
  have notKey : uid_of read ∉ (refresh_all (grouping_of refresh.options refresh.sample) api refresh.sample.reads).old.entries.map Prod.fst := by
    intro member
    obtain ⟨⟨key, object⟩, there, same⟩ := List.mem_map.mp member
    rw [← same, OrdMap.mem_entries.mp there] at taken
    cases taken
  rw [Refresh.listed, update_process_list, if_neg some]
  cases found : (refresh_all (grouping_of refresh.options refresh.sample) api refresh.sample.reads).api.processMap.get (uid_of read) with
  | none => exact purged.absent _ found
  | some object => exact (purged.kept _ object found notKey).1

section
variable {β : Type} {update : Dynamic → β → β} {kept : Nat → β}

theorem gone_through_updated (some : refresh.sample.directories ≠ []) {read : Nat × Probe} {object : Nat} (updates : refresh.Updates api read object) :
    refresh.gone_through update api kept object = update (refresh.dynamic read.1) (kept object) := by
  have listed := updates.listed
  rw [listed_shown valid some updates.among updates.shown] at listed
  exact (read_all_kept valid refresh.sample.readable).1 read updates.among updates.shown object listed

theorem gone_through_others (some : refresh.sample.directories ≠ []) {object : Nat} (none : ∀ read, ¬ refresh.Updates api read object) :
    refresh.gone_through update api kept object = kept object := by
  refine (read_all_kept valid refresh.sample.readable).2 object fun read among shown found => none read ⟨among, shown, ?_⟩
  rw [listed_shown valid some among shown, found]

end

theorem updates_found {read : Nat × Probe} {object : Nat} (updates : refresh.Updates api read object) (some : refresh.sample.directories ≠ [])
    (found : ∀ object, api.processMap.get (uid_of read) = .some object → api.processByPID.get read.1 = .some object) :
    (refresh.listed api).processByPID.get read.1 = .some object := by
  have listed : Valid (refresh.listed api) := Valid.listed valid
  cases known : api.processMap.get (uid_of read) with
  | some other =>
    obtain rfl := valid.update_stable known updates.listed
    have byPid := found other known
    refine valid.update_index byPid (fun another among same => .inl ?_) ?_
    · have isRead : another = read := List.inj_on_of_nodup_map refresh.sample.readable.distinct among updates.among same
      rw [isRead, known]
      exact Option.some_ne_none other
    · rw [valid.own _ _ known]
      exact updates.listed
  | none =>
    obtain ⟨loop, keys, retained, progress, purged, isKey⟩ := update_process_list_split refresh.options refresh.now refresh.sample valid some
    have inLoop : ∃ other, loop.api.processMap.get (uid_of read) = .some other := by
      cases there : loop.api.processMap.get (uid_of read) with
      | none =>
        have gone := purged.absent _ there
        exact absurd (updates.listed.symm.trans gone) (Option.some_ne_none object)
      | some other => exact ⟨other, rfl⟩
    obtain ⟨other, there⟩ := inLoop
    cases init : read.2.init with
    | false =>
      have gone := (progress.vanished read updates.among updates.shown known init).1
      cases gone.symm.trans there
    | true =>
      obtain ⟨new, inMap, byPid⟩ := progress.added read updates.among updates.shown known init
      have notKey : uid_of read ∉ keys := fun member => ((isKey _).mp member).2 known
      have stays := (purged.kept _ new inMap notKey).1
      have same : new = object := Option.some.inj (stays.symm.trans updates.listed)
      rw [← same]
      refine (purged.index read.1 new).mpr ⟨byPid, ?_⟩
      rw [progress.valid.own _ _ inMap]
      exact stays

end

/-! ## The helper -/

section
variable {β : Type} {api : CLinuxAPI} {set : SProcIo → β → β} {kept : Nat → β}

theorem index_injective (valid : Valid api) {pid other object : Nat} (one : api.processByPID.get pid = some object)
    (two : api.processByPID.get other = some object) : pid = other := by
  rw [← (valid.index pid object one).1, (valid.index other object two).1]

theorem helped_eq (valid : Valid api) {answers : List (Nat × SProcIo)} (distinct : (answers.map Prod.fst).Nodup) :
    (∀ answer ∈ answers, ∀ object, api.processByPID.get answer.1 = some object →
      helped api set kept answers object = set answer.2 (kept object)) ∧
    ∀ object, (∀ answer ∈ answers, api.processByPID.get answer.1 ≠ some object) → helped api set kept answers object = kept object := by
  induction answers using List.reverseRecOn with
  | nil => exact ⟨fun answer member => (by cases member), fun object _ => rfl⟩
  | append_singleton earlier last ih =>
    rw [List.map_append, List.nodup_append] at distinct
    obtain ⟨answered, others⟩ := ih distinct.1
    have apart : ∀ answer ∈ earlier, answer.1 ≠ last.1 := fun answer member =>
      distinct.2.2 answer.1 (List.mem_map_of_mem member) last.1 (by simp)
    have helped_last : helped api set kept (earlier ++ [last]) =
        match api.processByPID.get last.1 with
        | some object => Function.update (helped api set kept earlier) object (set last.2 (helped api set kept earlier object))
        | none => helped api set kept earlier := by
      rw [helped, List.foldl_append]
      rfl
    rw [helped_last]
    cases found : api.processByPID.get last.1 with
    | none =>
      refine ⟨fun answer member object there => ?_, fun object away => others object fun answer member => away answer (List.mem_append_left _ member)⟩
      rcases List.mem_append.mp member with early | late
      · exact answered answer early object there
      · rw [List.mem_singleton.mp late, found] at there
        cases there
    | some current =>
      dsimp only
      refine ⟨fun answer member object there => ?_, fun object away => ?_⟩
      · rcases List.mem_append.mp member with early | late
        · have differs : object ≠ current := fun same => apart answer early (index_injective valid there (same ▸ found))
          rw [Function.update_of_ne differs]
          exact answered answer early object there
        · rw [List.mem_singleton.mp late, found] at there
          obtain rfl := Option.some.inj there
          rw [Function.update_self, others current fun other early isCurrent => apart other early (index_injective valid isCurrent found),
            List.mem_singleton.mp late]
      · have differs : object ≠ current := fun same => away last (by simp) (by rw [found, same])
        rw [Function.update_of_ne differs]
        exact others object fun answer member => away answer (List.mem_append_left _ member)

theorem helped_found (valid : Valid api) (answers : OrdMap Nat SProcIo) {pid object : Nat} (found : api.processByPID.get pid = some object) :
    helped api set kept answers.entries object =
      match answers.get pid with
      | some io => set io (kept object)
      | none => kept object := by
  obtain ⟨answered, others⟩ := @helped_eq β api set kept valid answers.entries (OrdMap.keys_nodup answers)
  cases answer : answers.get pid with
  | some io => exact answered (pid, io) (OrdMap.mem_entries.mpr answer) object found
  | none =>
    refine others object fun other member there => ?_
    have same := index_injective valid there found
    rw [← same, OrdMap.mem_entries.mp member] at answer
    cases answer

end

/-! ## Refreshes -/

/-- The last value that was read. -/
def last_count (read : Read) (counter : Counter) : UInt64 :=
  match read with
  | some (_, last) => last.count counter
  | none => 0

theorem grown_note (io : SProcIo) (read : Read) (counter : Counter) :
    grown (note io read) counter = match read with
      | some (first, _) => io.count counter - first.count counter
      | none => 0 := by
  cases read with
  | none => exact sub_self _
  | some pair => rfl

theorem last_note (io : SProcIo) (read : Read) : last_count (note io read) = io.count := by
  cases read <;> rfl

theorem note_ne_none (io : SProcIo) (read : Read) : note io read ≠ none := by
  cases read <;> exact Option.some_ne_none _

/-- The counters of a process are what was read last; until then its deltas start from 0, and until an update they are 0. -/
structure Kept (stats : SIOStats) (read : Read) : Prop where
  counts : ∀ counter, stats.count counter = last_count read counter
  values : read = none → ∀ counter, (stats.delta counter).Value = 0
  idle : ∀ counter, (stats.delta counter).Initialized = false → (stats.delta counter).Delta = 0

theorem Kept.dynamic {stats : SIOStats} {read : Read} (kept : Kept stats read) (dynamic : Dynamic) :
    Kept (UpdateDynamicData dynamic stats) (note_dynamic dynamic read) := by
  cases dynamic with
  | gone => exact kept
  | refused =>
    refine ⟨kept.counts, fun unread counter => ?_, fun counter impossible => by cases impossible⟩
    change stats.count counter = 0
    have unread : read = none := unread
    rw [kept.counts counter, unread]
    rfl
  | io io =>
    refine ⟨fun counter => ?_, fun unread => absurd unread (note_ne_none io read), fun counter impossible => by cases impossible⟩
    change io.count counter = last_count (note io read) counter
    rw [last_note]

theorem Kept.set {stats : SIOStats} {read : Read} (kept : Kept stats read) (io : SProcIo) : Kept (stats.Set io) (note io read) where
  counts counter := by rw [last_note]; rfl
  values unread := absurd unread (note_ne_none io read)
  idle := kept.idle

/-- What holds between refreshes. -/
structure Sound (state : Observed) : Prop where
  valid : Valid state.api
  fresh : ∀ object, state.api.next ≤ object → state.io object = {} ∧ state.read object = none
  kept : ∀ object, Kept (state.io object) (state.read object)
  exact : state.Exact

theorem sound_observed : Sound observed where
  valid := valid_started
  fresh _ _ := ⟨rfl, rfl⟩
  kept _ := ⟨fun _ => rfl, fun _ _ => rfl, fun _ _ => rfl⟩
  exact _ := rfl

section
variable {state : Observed} {refresh : Refresh}

/-- How a process stands when the directories have been gone through. -/
def Refresh.io (refresh : Refresh) (state : Observed) : Nat → SIOStats := refresh.gone_through UpdateDynamicData state.api state.io

def Refresh.noted (refresh : Refresh) (state : Observed) : Nat → Read := refresh.gone_through note_dynamic state.api state.read

theorem after_empty (none : refresh.sample.directories = []) : (refresh.after state).io = state.io ∧ (refresh.after state).read = state.read ∧
    (refresh.after state).api = state.api ∧ refresh.listed state.api = state.api := by
  have listed : refresh.listed state.api = state.api := by rw [Refresh.listed, update_process_list, if_pos none]
  exact ⟨if_pos none, if_pos none, listed, listed⟩

theorem updates_empty (none : refresh.sample.directories = []) (read : Nat × Probe) (object : Nat) : ¬ refresh.Updates state.api read object := by
  intro updates
  have among := updates.among
  rw [Sample.mem_reads, none] at among
  obtain ⟨directory, member, -⟩ := among
  cases member

variable {object : Nat}

theorem after_helped (sound : Sound state) (steady : Steady state refresh) (some : refresh.sample.directories ≠ [])
    {pid : Nat} (found : (refresh.listed state.api).processByPID.get pid = .some object) (counter : Counter) :
    ((refresh.after state).io object).delta counter = (refresh.io state object).delta counter ∧
      grown ((refresh.after state).read object) counter = grown (refresh.noted state object) counter := by
  have listed : Valid (refresh.listed state.api) := Valid.listed sound.valid
  have io : (refresh.after state).io = helped (refresh.listed state.api) (fun io stats => stats.Set io) (refresh.io state) refresh.helper.entries :=
    if_neg some
  have read : (refresh.after state).read = helped (refresh.listed state.api) note (refresh.noted state) refresh.helper.entries := if_neg some
  rw [io, read, helped_found listed _ found, helped_found listed _ found]
  cases answer : refresh.helper.get pid with
  | none => exact ⟨rfl, rfl⟩
  | some values =>
    refine ⟨rfl, ?_⟩
    dsimp only
    rw [grown_note]
    cases before : refresh.noted state object with
    | none => rfl
    | some pair => rw [steady.helped pid values object answer found pair.1 pair.2 before counter]; rfl

theorem after_unfound (sound : Sound state) (some : refresh.sample.directories ≠ [])
    (unfound : ∀ pid, (refresh.listed state.api).processByPID.get pid ≠ .some object) :
    (refresh.after state).io object = refresh.io state object ∧ (refresh.after state).read object = refresh.noted state object := by
  have listed : Valid (refresh.listed state.api) := Valid.listed sound.valid
  have io : (refresh.after state).io = helped (refresh.listed state.api) (fun io stats => stats.Set io) (refresh.io state) refresh.helper.entries :=
    if_neg some
  have read : (refresh.after state).read = helped (refresh.listed state.api) note (refresh.noted state) refresh.helper.entries := if_neg some
  rw [io, read]
  exact ⟨(helped_eq listed (OrdMap.keys_nodup _)).2 object fun answer _ => unfound answer.1,
    (helped_eq listed (OrdMap.keys_nodup _)).2 object fun answer _ => unfound answer.1⟩

theorem update_delta {delta : SDelta UInt64} {value new : UInt64} (initialized : delta.Initialized = true) (same : delta.Value = value)
    (grows : value ≤ new) : (delta.Update new).Delta = new - value := by
  rw [SDelta.Update_Delta initialized, same, if_neg (UInt64.not_lt.mpr grows)]

theorem update_zero (sound : Sound state) (unread : state.read object = none) (counter : Counter) :
    (((state.io object).delta counter).Update 0).Delta = 0 := by
  cases initialized : ((state.io object).delta counter).Initialized with
  | false => rw [SDelta.Update, initialized, if_pos rfl, (sound.kept object).idle counter initialized]
  | true => rw [update_delta initialized ((sound.kept object).values unread counter) UInt64.le_rfl, sub_self]

theorem updated_delta (sound : Sound state) (steady : Steady state refresh) (some : refresh.sample.directories ≠ [])
    {read : Nat × Probe} (updates : refresh.Updates state.api read object) (here : refresh.dynamic read.1 ≠ .gone)
    (counter : Counter) :
    ((refresh.io state object).delta counter).Delta = grown (refresh.noted state object) counter - grown (state.read object) counter := by
  have io : refresh.io state object = _ := gone_through_updated sound.valid some updates
  have noted : refresh.noted state object = _ := gone_through_updated sound.valid some updates
  have counts := (sound.kept object).counts counter
  rw [io, noted]
  cases dynamic : refresh.dynamic read.1 with
  | gone => exact absurd dynamic here
  | refused =>
    change (((state.io object).delta counter).Update ((state.io object).count counter)).Delta = grown (state.read object) counter - _
    rw [sub_self, counts]
    cases before : state.read object with
    | none => exact update_zero sound before counter
    | some pair =>
      obtain ⟨initialized, value⟩ := steady.baseline read object updates here pair.1 pair.2 before counter
      rw [last_count, update_delta initialized value UInt64.le_rfl, sub_self]
  | io values =>
    change (((state.io object).delta counter).Update (values.count counter)).Delta = grown (note values (state.read object)) counter - _
    rw [grown_note]
    cases before : state.read object with
    | none =>
      rw [grown, sub_self]
      rcases steady.started read object values updates dynamic before counter with initialized | zero
      · rw [SDelta.Update, initialized, if_pos rfl, (sound.kept object).idle counter initialized]
      · rw [zero]
        exact update_zero sound before counter
    | some pair =>
      obtain ⟨initialized, value⟩ := steady.baseline read object updates here pair.1 pair.2 before counter
      rw [update_delta initialized value (steady.growing read object values updates dynamic pair.1 pair.2 before counter), grown]
      exact (sub_sub_sub_cancel_right _ _ _).symm

theorem still (sound : Sound state) (some : refresh.sample.directories ≠ [])
    (gone : ∀ read, refresh.Updates state.api read object → refresh.dynamic read.1 = .gone) :
    refresh.io state object = state.io object ∧ refresh.noted state object = state.read object := by
  by_cases updated : ∃ read, refresh.Updates state.api read object
  · obtain ⟨read, updates⟩ := updated
    have io : refresh.io state object = _ := gone_through_updated sound.valid some updates
    have noted : refresh.noted state object = _ := gone_through_updated sound.valid some updates
    rw [io, noted, gone read updates]
    exact ⟨rfl, rfl⟩
  · have none : ∀ read, ¬ refresh.Updates state.api read object := fun read updates => updated ⟨read, updates⟩
    exact ⟨gone_through_others sound.valid some none, gone_through_others sound.valid some none⟩

theorem found_delta (sound : Sound state) (steady : Steady state refresh) {pid : Nat}
    (found : (refresh.listed state.api).processByPID.get pid = some object) (counter : Counter) :
    (((refresh.after state).io object).delta counter).Delta =
      grown ((refresh.after state).read object) counter - grown (state.read object) counter := by
  by_cases none : refresh.sample.directories = []
  · obtain ⟨io, read, -, -⟩ := @after_empty state refresh none
    rw [io, read, sub_self]
    exact steady.lingering pid object found (fun read updates => absurd updates (updates_empty none read object)) counter
  · obtain ⟨delta, counted⟩ := after_helped sound steady none found counter
    rw [delta, counted]
    by_cases gone : ∀ read, refresh.Updates state.api read object → refresh.dynamic read.1 = .gone
    · obtain ⟨io, noted⟩ := still sound none gone
      rw [io, noted, sub_self]
      exact steady.lingering pid object found gone counter
    · obtain ⟨read, updates, here⟩ : ∃ read, refresh.Updates state.api read object ∧ refresh.dynamic read.1 ≠ .gone := by
        simpa using gone
      exact updated_delta sound steady none updates here counter

theorem unfound_read (sound : Sound state) (steady : Steady state refresh)
    (unfound : ∀ pid, (refresh.listed state.api).processByPID.get pid ≠ some object) :
    (refresh.after state).read object = state.read object := by
  by_cases none : refresh.sample.directories = []
  · rw [(after_empty none).2.1]
  · have gone : ∀ read, refresh.Updates state.api read object → refresh.dynamic read.1 = .gone := by
      intro read updates
      exact absurd (updates_found sound.valid updates none (steady.found read updates.among updates.shown)) (unfound read.1)
    rw [(after_unfound sound none unfound).2, (still sound none gone).2]

theorem fresh_read (sound : Sound state) {next : Nat} (older : state.api.next ≤ next) (counter : Counter) :
    ∑ object ∈ Finset.range state.api.next, grown (state.read object) counter = ∑ object ∈ Finset.range next, grown (state.read object) counter := by
  refine Finset.sum_subset (Finset.range_subset_range.mpr older) fun object _ outside => ?_
  rw [(sound.fresh object (Nat.le_of_not_lt (fun inside => outside (Finset.mem_range.mpr inside)))).2]
  rfl

theorem deltas_eq (sound : Sound state) (steady : Steady state refresh) (counter : Counter) :
    deltas (refresh.listed state.api) (refresh.after state).io counter =
      ∑ object ∈ Finset.range (refresh.listed state.api).next,
        (grown ((refresh.after state).read object) counter - grown (state.read object) counter) := by
  have listed : Valid (refresh.listed state.api) := Valid.listed sound.valid
  have distinct : ((refresh.listed state.api).processByPID.entries.map Prod.snd).Nodup := by
    refine List.Nodup.map_on (fun one first two second same => ?_) (OrdMap.keys_nodup (refresh.listed state.api).processByPID).of_map
    have isOne := OrdMap.mem_entries.mp first
    have isTwo := OrdMap.mem_entries.mp second
    rw [same] at isOne
    exact Prod.ext (index_injective listed isOne isTwo) same
  have each : deltas (refresh.listed state.api) (refresh.after state).io counter =
      (((refresh.listed state.api).processByPID.entries.map Prod.snd).map fun object =>
        grown ((refresh.after state).read object) counter - grown (state.read object) counter).sum := by
    rw [deltas, List.map_map]
    exact congrArg List.sum (List.map_congr_left fun entry member => found_delta sound steady (OrdMap.mem_entries.mp member) counter)
  rw [each, ← List.sum_toFinset _ distinct]
  refine Finset.sum_subset (fun object member => ?_) fun object _ outside => ?_
  · obtain ⟨entry, among, rfl⟩ := List.mem_map.mp (List.mem_toFinset.mp member)
    exact Finset.mem_range.mpr (listed.index_made (OrdMap.mem_entries.mp among))
  · have unfound : ∀ pid, (refresh.listed state.api).processByPID.get pid ≠ some object := fun pid found =>
      outside (List.mem_toFinset.mpr (List.mem_map.mpr ⟨(pid, object), OrdMap.mem_entries.mpr found, rfl⟩))
    rw [unfound_read sound steady unfound, sub_self]

theorem after_exact (sound : Sound state) (steady : Steady state refresh) : (refresh.after state).Exact := by
  intro counter
  have older : state.api.next ≤ (refresh.listed state.api).next := sound.valid.update_next
  have total : (refresh.after state).total counter = state.total counter + deltas (refresh.listed state.api) (refresh.after state).io counter := rfl
  have next : (refresh.after state).api = refresh.listed state.api := rfl
  rw [total, next, deltas_eq sound steady, sound.exact counter, fresh_read sound older, Finset.sum_sub_distrib, add_sub_cancel]

theorem gone_through_kept (sound : Sound state) (some : refresh.sample.directories ≠ []) (object : Nat) :
    Kept (refresh.io state object) (refresh.noted state object) := by
  by_cases updated : ∃ read, refresh.Updates state.api read object
  · obtain ⟨read, updates⟩ := updated
    have io : refresh.io state object = _ := gone_through_updated sound.valid some updates
    have noted : refresh.noted state object = _ := gone_through_updated sound.valid some updates
    rw [io, noted]
    exact (sound.kept object).dynamic _
  · obtain ⟨io, noted⟩ := still sound some fun read updates => absurd ⟨read, updates⟩ updated
    rw [io, noted]
    exact sound.kept object

theorem after_kept (sound : Sound state) (object : Nat) : Kept ((refresh.after state).io object) ((refresh.after state).read object) := by
  by_cases none : refresh.sample.directories = []
  · obtain ⟨io, read, -, -⟩ := @after_empty state refresh none
    rw [io, read]
    exact sound.kept object
  · have listed : Valid (refresh.listed state.api) := Valid.listed sound.valid
    have kept := gone_through_kept sound none object
    by_cases found : ∃ pid, (refresh.listed state.api).processByPID.get pid = some object
    · obtain ⟨pid, found⟩ := found
      have io : (refresh.after state).io = helped (refresh.listed state.api) (fun io stats => stats.Set io) (refresh.io state) refresh.helper.entries :=
        if_neg none
      have read : (refresh.after state).read = helped (refresh.listed state.api) note (refresh.noted state) refresh.helper.entries := if_neg none
      rw [io, read, helped_found listed _ found, helped_found listed _ found]
      cases refresh.helper.get pid with
      | none => exact kept
      | some values => exact kept.set values
    · obtain ⟨io, read⟩ := after_unfound sound none fun pid there => found ⟨pid, there⟩
      rw [io, read]
      exact kept

theorem after_fresh (sound : Sound state) (new : (refresh.listed state.api).next ≤ object) :
    (refresh.after state).io object = {} ∧ (refresh.after state).read object = none := by
  have listed : Valid (refresh.listed state.api) := Valid.listed sound.valid
  have fresh := sound.fresh object (Nat.le_trans sound.valid.update_next new)
  by_cases none : refresh.sample.directories = []
  · obtain ⟨io, read, -, -⟩ := @after_empty state refresh none
    rw [io, read]
    exact fresh
  · have unfound : ∀ pid, (refresh.listed state.api).processByPID.get pid ≠ some object := fun pid found =>
      absurd (listed.index_made found) (Nat.not_lt.mpr new)
    have gone : ∀ read, refresh.Updates state.api read object → refresh.dynamic read.1 = .gone := fun read updates =>
      absurd (listed.made _ _ updates.listed) (Nat.not_lt.mpr new)
    rw [(after_unfound sound none unfound).1, (after_unfound sound none unfound).2, (still sound none gone).1, (still sound none gone).2]
    exact fresh

theorem Sound.after (sound : Sound state) (steady : Steady state refresh) : Sound (refresh.after state) where
  valid := Valid.listed sound.valid
  fresh _ new := after_fresh sound new
  kept object := after_kept sound object
  exact := after_exact sound steady

end

/-! ## Two processes -/

def options : Options := ⟨true, true, 1000⟩

/-- The process 10, beside one that stays. -/
def both : Sample := ⟨[⟨1, some ⟨0, 5, false⟩, true⟩, ⟨10, some ⟨1, 100, false⟩, true⟩], by decide, by decide⟩

def alone : Sample := ⟨[⟨1, some ⟨0, 5, false⟩, true⟩], by decide, by decide⟩

def chars (count : UInt64) : SProcIo := ⟨count, 0, 0, 0⟩

/-- What is read of the process 10; the counters of the other one are refused. -/
def reading (now : Nat) (sample : Sample) (dynamic : Dynamic) : Refresh :=
  ⟨options, now, sample, fun pid => if pid = 10 then dynamic else .refused, .empty⟩

def growing : Refresh := reading 2000 both (.io (chars 150))

def first : Observed := (reading 1000 both (.io (chars 100))).after observed

def second : Observed := growing.after first

theorem steady_first (now : Nat) (sample : Sample) (dynamic : Dynamic) : Steady observed (reading now sample dynamic) where
  growing read object io _ _ first last impossible := by cases impossible
  lingering _ _ _ _ _ := rfl
  started _ _ _ _ _ _ _ := .inl rfl
  baseline read object _ _ first last impossible := by cases impossible
  found read _ _ object impossible := by cases impossible
  helped pid io object impossible := by cases impossible

theorem steady_second : Steady first growing := by
  have reads : ∀ read ∈ growing.sample.reads, (read.1 = 1 ∧ (growing.listed first.api).processMap.get (uid_of read) = some 0) ∨
      (read.1 = 10 ∧ (growing.listed first.api).processMap.get (uid_of read) = some 1) := by decide +kernel
  have known : ∀ read ∈ growing.sample.reads, first.api.processMap.get (uid_of read) = first.api.processByPID.get read.1 := by decide +kernel
  have refused : first.read 0 = none := by decide +kernel
  have before : first.read 1 = some (chars 100, chars 100) := by decide +kernel
  have listed : ∀ entry ∈ (growing.listed first.api).processByPID.entries, entry.2 = 0 ∨ entry.2 = 1 := by decide +kernel
  have deltas (counter : Counter) : (first.io 0).delta counter = ⟨true, 0, 0⟩ ∧ (first.io 1).delta counter = ⟨true, (chars 100).count counter, 0⟩ := by
    cases counter <;> decide +kernel
  have updated {read : Nat × Probe} {object : Nat} (updates : growing.Updates first.api read object) :
      (object = 0 ∧ growing.dynamic read.1 = .refused) ∨ (object = 1 ∧ growing.dynamic read.1 = .io (chars 150)) := by
    rcases reads read updates.among with ⟨isPid, found⟩ | ⟨isPid, found⟩
    · rw [isPid]
      exact .inl ⟨Option.some.inj (updates.listed.symm.trans found), rfl⟩
    · rw [isPid]
      exact .inr ⟨Option.some.inj (updates.listed.symm.trans found), rfl⟩
  refine ⟨?_, ?_, ?_, ?_, ?_, ?_⟩
  · intro read object io updates isIo one last isRead counter
    rcases updated updates with ⟨rfl, dynamic⟩ | ⟨rfl, dynamic⟩
    · cases isIo.symm.trans dynamic
    · cases isIo.symm.trans dynamic
      cases isRead.symm.trans before
      cases counter <;> decide
  · intro pid object found _ counter
    rcases listed (pid, object) (OrdMap.mem_entries.mpr found) with same | same
    · rw [show object = 0 from same, (deltas counter).1]
    · rw [show object = 1 from same, (deltas counter).2]
  · intro read object io updates isIo unread
    rcases updated updates with ⟨rfl, dynamic⟩ | ⟨rfl, dynamic⟩
    · cases isIo.symm.trans dynamic
    · cases unread.symm.trans before
  · intro read object updates _ one last isRead counter
    rcases updated updates with ⟨rfl, -⟩ | ⟨rfl, -⟩
    · cases isRead.symm.trans refused
    · cases isRead.symm.trans before
      rw [(deltas counter).2]
      exact ⟨rfl, rfl⟩
  · intro read among _ object found
    rw [← known read among, found]
  · intro pid io object impossible
    cases impossible

/-- In every run of steady refreshes each total is the sum, over all processes that were ever listed, of what was read last less what was read first. -/
theorem totals_exact {state : Observed} (run : Run step Steady observed state) : state.Exact := by
  refine (run.invariant Sound sound_observed fun {state refresh later} sound steady moved => ?_).exact
  obtain rfl := Option.some.inj moved
  exact sound.after steady

theorem totals_exact_grown : second.Exact ∧ second.total .readRaw = 50 :=
  ⟨totals_exact (.next (.next .start (steady_first 1000 both (.io (chars 100))) rfl) steady_second rfl), by decide +kernel⟩

/-- The process exits, and its last delta is added once more; or its counters become readable only in the second refresh. -/
theorem exited_counts_again : ¬ ((reading 3000 alone .gone).after second).Exact ∧
    ¬ ((reading 2000 both (.io (chars 1000))).after ((reading 1000 both .refused).after observed)).Exact := by
  constructor
  · intro exact
    have same := exact .readRaw
    revert same
    decide +kernel
  · intro exact
    have same := exact .readRaw
    revert same
    decide +kernel

end TaskExplorer.IoTotals
