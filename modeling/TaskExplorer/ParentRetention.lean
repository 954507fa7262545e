import TaskExplorer.LinuxProcesses

/-!
# Parents that are retained

A process gets the UID of its parent when it is new, from the process that is found by
the pid of its parent then. An exited process stays listed while some process names its
pid as the parent's; the children are counted by their pids before anything is purged.
-/

namespace TaskExplorer.ParentRetention
open OrderedMap Lingering LinuxProcesses Transition

/-- The processes, and the `m_ParentUId` of each object. -/
structure Linked where
  api : CLinuxAPI
  parentUId : Nat → Nat

def started : Linked := ⟨LinuxProcesses.started, fun _ => 0⟩

/-- The process of a directory, if it is shown and stays. -/
def refreshed (grouping : Grouping) (loop : Loop) (pid : Nat) (probe : Probe) : Option Nat :=
  if grouping.takes probe.stat then none
  else
    match loop.old.get (process_uid pid probe.stat.startTime) with
    | some object => some object
    | none => if probe.init then some (find_or_add loop.api pid (process_uid pid probe.stat.startTime)).1 else none

structure Reading where
  loop : Loop
  newProcessList : List Nat

def read_one (grouping : Grouping) (parentUId : Nat → Nat) (reading : Reading) (read : Nat × Probe) : Reading :=
  ⟨refresh_one grouping reading.loop read.1 read.2,
    match refreshed grouping reading.loop read.1 read.2 with
    | some object => if parentUId object = 0 then reading.newProcessList ++ [object] else reading.newProcessList
    | none => reading.newProcessList⟩

def read_all (grouping : Grouping) (linked : Linked) (stats : List (Nat × Probe)) : Reading :=
  stats.foldl (read_one grouping linked.parentUId) ⟨⟨linked.api, linked.api.processMap⟩, []⟩

/-- The UID of the parent, or one that pairs the parent's pid with the time of the child. -/
def parent_uid (api : CLinuxAPI) (object : Nat) : Nat :=
  let process := api.objects object
  let synthetic := process_uid process.parentId process.createTimeStamp
  match api.processByPID.get process.parentId with
  | some parent => if validate_parent process (api.objects parent) then (api.objects parent).processUId else synthetic
  | none => synthetic

/-- The second pass. -/
def link_all (api : CLinuxAPI) (newProcessList : List Nat) (parentUId : Nat → Nat) : Nat → Nat :=
  newProcessList.foldl (fun uids object => Function.update uids object (parent_uid api object)) parentUId

def update_process_list (options : Options) (now : Nat) (sample : Sample) (linked : Linked) : Linked :=
  if sample.directories = [] then linked
  else
    let grouping := group_kernel_threads options sample.directories
    let reading := read_all grouping linked (read_stats sample.directories).entries
    let parentUId := link_all reading.loop.api reading.newProcessList linked.parentUId
    let retained := child_count options reading.loop.api
    ⟨((reading.loop.old.entries.map Prod.fst).foldl (purge_one options now retained) ⟨reading.loop.api, []⟩).api, parentUId⟩

theorem read_all_loop (grouping : Grouping) (linked : Linked) (stats : List (Nat × Probe)) :
    (read_all grouping linked stats).loop = refresh_all grouping linked.api stats := by
  induction stats using List.reverseRecOn with
  | nil => rfl
  | append_singleton earlier last ih =>
    rw [read_all, List.foldl_append, refresh_all, List.foldl_append]
    exact congrArg (fun loop => refresh_one grouping loop last.1 last.2) ih

/-! ## Refreshes -/

/-- A refresh with parent retention; the kernel hands out pids from 1 to `2 ^ 22 - 1`. -/
structure Refresh where
  options : Options
  now : Nat
  sample : Sample
  retention : options.parentRetention = true
  pids : ∀ directory ∈ sample.directories, 0 < directory.pid ∧ ∀ stat ∈ directory.stat, stat.ppid < 2 ^ 22

def Refresh.after (refresh : Refresh) (linked : Linked) : Linked :=
  update_process_list refresh.options refresh.now refresh.sample linked

def step (linked : Linked) (refresh : Refresh) : Option Linked := some (refresh.after linked)

section
variable (refresh : Refresh) (linked : Linked)

/-- The process has exited, and its persistence time is over. -/
structure Over (uid object : Nat) : Prop where
  listed : linked.api.processMap.get uid = some object
  exited : ¬ Appears refresh.options refresh.sample uid
  late : can_be_removed refresh.options.persistence refresh.now (linked.api.objects object).removeTimeStamp = true

/-- What is kept is exactly what has a child that is listed after the refresh. -/
def Retained : Prop :=
  ∀ uid object, Over refresh linked uid object →
    ((refresh.after linked).api.processMap.get uid ≠ none ↔
      ∃ other child, (refresh.after linked).api.processMap.get other = some child ∧ (refresh.after linked).parentUId child = uid)

/-! ## Parents and children -/

/-- A process that is read and was not listed. -/
structure Unlisted (read : Nat × Probe) : Prop where
  member : read ∈ refresh.sample.reads
  shown : (grouping_of refresh.options refresh.sample).takes read.2.stat = false
  absent : linked.api.processMap.get (uid_of read) = none

/-- The process is found by its pid once the directories are read. -/
structure Holds (object : Nat) : Prop where
  index : linked.api.processByPID.get (linked.api.objects object).processId = some object
  unread : ∀ read, Unlisted refresh linked read → read.1 ≠ (linked.api.objects object).processId

/-- A new process names the pid as that of its parent. -/
structure Comes (pid : Nat) (read : Nat × Probe) : Prop where
  unlisted : Unlisted refresh linked read
  init : read.2.init = true
  names : read.2.stat.ppid = pid
  differs : read.1 ≠ pid

/-- Some other process names the pid of the object as that of its parent. -/
def Named (object : Nat) : Prop :=
  (∃ child, Holds refresh linked child ∧ (linked.api.objects child).parentId = (linked.api.objects object).processId ∧
      (linked.api.objects child).processId ≠ (linked.api.objects object).processId) ∨
    ∃ read, Comes refresh linked (linked.api.objects object).processId read

/-- A new child. -/
def Bears (object : Nat) : Prop :=
  ∃ read, Comes refresh linked (linked.api.objects object).processId read ∧ (linked.api.objects object).createTimeStamp ≤ read.2.stat.startTime

/-- A child that is found by its pid. -/
def Held (uid object : Nat) : Prop :=
  Bears refresh linked object ∨ ∃ child, Holds refresh linked child ∧
    (linked.api.objects child).processId ≠ (linked.api.objects object).processId ∧ linked.parentUId child = uid

/-- A child that stays. -/
def Lasting (uid object : Nat) : Prop :=
  Bears refresh linked object ∨ ∃ other child, linked.api.processMap.get other = some child ∧ child ≠ object ∧
    linked.parentUId child = uid ∧ (Over refresh linked other child → Held refresh linked other child)

/-- No pid that some process names as its parent's was handed out again, and a process
    with children that are about to go has one that stays. -/
structure Orderly : Prop where
  enumerated : refresh.sample.directories ≠ []
  unrecycled : ∀ uid object, Over refresh linked uid object → Named refresh linked object → Holds refresh linked object
  own : ∀ uid object child, Over refresh linked uid object → Holds refresh linked child →
    (linked.api.objects child).parentId = (linked.api.objects object).processId →
    validate_parent (linked.api.objects child) (linked.api.objects object) = true → Held refresh linked uid object
  lasting : ∀ uid object, Over refresh linked uid object → (Held refresh linked uid object ↔ Lasting refresh linked uid object)

end

/-! ## What the loop reads -/

theorem process_uid_eq_iff {pid other time also : Nat} (small : pid < 2 ^ 22) (early : time < 2 ^ 42) (smallToo : other < 2 ^ 22)
    (earlyToo : also < 2 ^ 42) : process_uid pid time = process_uid other also ↔ pid = other ∧ time = also := by
  constructor
  · intro same
    have number := congrArg (fun uid => uid >>> 42) same
    have moment := congrArg (fun uid => uid % 2 ^ 42) same
    simp only [process_uid_pid small early, process_uid_pid smallToo earlyToo] at number
    simp only [process_uid_time small early, process_uid_time smallToo earlyToo] at moment
    exact ⟨number, moment⟩
  · rintro ⟨rfl, rfl⟩
    rfl

section
variable {grouping : Grouping} {parentUId : Nat → Nat} {reading : Reading} {read : Nat × Probe}

/-- The list with the object, if it has no link. -/
def with_new (parentUId : Nat → Nat) (newProcessList : List Nat) (object : Nat) : List Nat :=
  if parentUId object = 0 then newProcessList ++ [object] else newProcessList

theorem mem_with_new {newProcessList : List Nat} {object other : Nat} :
    other ∈ with_new parentUId newProcessList object ↔ other ∈ newProcessList ∨ (other = object ∧ parentUId object = 0) := by
  rw [with_new]
  split_ifs with zero
  · simp [zero]
  · simp [zero]

theorem read_one_takes (takes : grouping.takes read.2.stat = true) : read_one grouping parentUId reading read = reading := by
  rw [read_one, refresh_one_takes takes, refreshed, if_pos takes]

theorem read_one_known (shown : grouping.takes read.2.stat = false) {object : Nat} (found : reading.loop.old.get (uid_of read) = some object) :
    read_one grouping parentUId reading read =
      ⟨⟨hand_tasks grouping read.1 object reading.loop.api, reading.loop.old.erase (uid_of read)⟩,
        with_new parentUId reading.newProcessList object⟩ := by
  have is : refreshed grouping reading.loop read.1 read.2 = some object := by
    have found : reading.loop.old.get (process_uid read.1 read.2.stat.startTime) = some object := found
    rw [refreshed, if_neg (by rw [shown]; exact Bool.false_ne_true), found]
  rw [read_one, refresh_one_known shown found, is]
  rfl

section
variable (shown : grouping.takes read.2.stat = false) (absent : reading.loop.old.get (uid_of read) = none)
  (unlisted : reading.loop.api.processMap.get (uid_of read) = none)
include shown absent unlisted

theorem read_one_added (init : read.2.init = true) :
    read_one grouping parentUId reading read =
      ⟨⟨hand_tasks grouping read.1 reading.loop.api.next (added reading.loop.api read.1 read.2.stat), reading.loop.old⟩,
        with_new parentUId reading.newProcessList reading.loop.api.next⟩ := by
  have is : refreshed grouping reading.loop read.1 read.2 = some reading.loop.api.next := by
    have absent : reading.loop.old.get (process_uid read.1 read.2.stat.startTime) = none := absent
    have unlisted : reading.loop.api.processMap.get (process_uid read.1 read.2.stat.startTime) = none := unlisted
    rw [refreshed, if_neg (by rw [shown]; exact Bool.false_ne_true), absent]
    dsimp only
    rw [if_pos init, find_or_add, unlisted]
  rw [read_one, refresh_one_added shown absent unlisted init, is]
  rfl

theorem read_one_vanished (init : read.2.init = false) :
    read_one grouping parentUId reading read =
      ⟨⟨vanished reading.loop.api read.1 (uid_of read), reading.loop.old⟩, reading.newProcessList⟩ := by
  have is : refreshed grouping reading.loop read.1 read.2 = none := by
    have absent : reading.loop.old.get (process_uid read.1 read.2.stat.startTime) = none := absent
    rw [refreshed, if_neg (by rw [shown]; exact Bool.false_ne_true), absent]
    dsimp only
    rw [if_neg (by rw [init]; exact Bool.false_ne_true)]
  rw [read_one, refresh_one_vanished shown absent unlisted init, is]

end

end

/-- What was read of the new processes, and that each is linked. -/
structure Linking (grouping : Grouping) (linked : Linked) (reads : List (Nat × Probe)) (reading : Reading) : Prop where
  fresh : ∀ read ∈ reads, grouping.takes read.2.stat = false → linked.api.processMap.get (uid_of read) = none →
    ∀ object, reading.loop.api.processMap.get (uid_of read) = some object →
      (reading.loop.api.objects object).parentId = read.2.stat.ppid ∧ (linked.parentUId object = 0 → object ∈ reading.newProcessList)
  unlinked : ∀ object ∈ reading.newProcessList, linked.parentUId object = 0
  made : ∀ object ∈ reading.newProcessList, object < reading.loop.api.next

section
variable {grouping : Grouping} {linked : Linked} {reads : List (Nat × Probe)} {read : Nat × Probe} {reading : Reading}

theorem Linking.step (linking : Linking grouping linked reads reading) (progress : Progress grouping linked.api reads reading.loop)
    (readable : Readable (reads ++ [read])) : Linking grouping linked (reads ++ [read]) (read_one grouping linked.parentUId reading read) := by
  have isRead {other : Nat × Probe} (member : other ∈ reads ++ [read]) : other ∈ reads ∨ other = read := by
    simpa using member
  have apart : ∀ other ∈ reads, uid_of read ≠ uid_of other := by
    intro other member same
    have samePid := readable.uid_pid (List.mem_append_left _ member) (by simp) same.symm
    have distinct := readable.distinct
    rw [List.map_append, List.nodup_append] at distinct
    exact distinct.2.2 other.1 (List.mem_map.mpr ⟨other, member, rfl⟩) read.1 (by simp) samePid
  cases takes : grouping.takes read.2.stat with
  | true =>
    rw [read_one_takes takes]
    refine ⟨?_, linking.unlinked, linking.made⟩
    intro other member shown
    rcases isRead member with early | rfl
    · exact linking.fresh other early shown
    · cases takes.symm.trans shown
  | false =>
    have notYet : ¬ Shown grouping reads (uid_of read) := by
      rintro ⟨other, member, -, same⟩
      exact apart other member same.symm
    have waits := progress.waiting _ notYet
    have same := progress.same _ notYet
    cases listed : linked.api.processMap.get (uid_of read) with
    | some object =>
      rw [listed] at waits
      rw [read_one_known takes waits]
      refine ⟨?_, ?_, ?_⟩
      · intro other member shown absent found there
        rw [hand_tasks_map] at there
        rcases isRead member with early | rfl
        · obtain ⟨parent, new⟩ := linking.fresh other early shown absent found there
          refine ⟨(hand_tasks_same grouping read.1 object reading.loop.api found).parent.trans parent, ?_⟩
          exact fun zero => mem_with_new.mpr (.inl (new zero))
        · cases listed.symm.trans absent
      · intro found member
        rcases mem_with_new.mp member with early | ⟨rfl, zero⟩
        · exact linking.unlinked found early
        · exact zero
      · intro found member
        rw [hand_tasks_next]
        rcases mem_with_new.mp member with early | ⟨rfl, -⟩
        · exact linking.made found early
        · exact progress.valid.made _ _ (progress.known _ _ listed)
    | none =>
      rw [listed] at waits same
      cases init : read.2.init with
      | true =>
        rw [read_one_added takes waits same init]
        have map (uid : Nat) : (added reading.loop.api read.1 read.2.stat).processMap.get uid =
            if uid_of read = uid then some reading.loop.api.next else reading.loop.api.processMap.get uid := OrdMap.get_insert _ _ _ _
        refine ⟨?_, ?_, ?_⟩
        · intro other member shown absent found there
          rw [hand_tasks_map, map] at there
          rw [(hand_tasks_same grouping read.1 reading.loop.api.next _ found).parent]
          rcases isRead member with early | rfl
          · rw [if_neg (apart other early)] at there
            obtain ⟨parent, new⟩ := linking.fresh other early shown absent found there
            refine ⟨?_, fun zero => mem_with_new.mpr (.inl (new zero))⟩
            rw [added]
            dsimp only
            rw [Function.update_of_ne (Nat.ne_of_lt (progress.valid.made _ _ there))]
            exact parent
          · rw [if_pos rfl, Option.some.injEq] at there
            subst there
            refine ⟨?_, fun zero => mem_with_new.mpr (.inr ⟨rfl, zero⟩)⟩
            rw [added]
            dsimp only
            rw [Function.update_self]
            rfl
        · intro found member
          rcases mem_with_new.mp member with early | ⟨rfl, zero⟩
          · exact linking.unlinked found early
          · exact zero
        · intro found member
          rw [hand_tasks_next]
          rcases mem_with_new.mp member with early | ⟨rfl, -⟩
          · exact Nat.lt_succ_of_lt (linking.made found early)
          · exact Nat.lt_succ_self _
      | false =>
        rw [read_one_vanished takes waits same init]
        have map (uid : Nat) : (vanished reading.loop.api read.1 (uid_of read)).processMap.get uid =
            if uid_of read = uid then none else reading.loop.api.processMap.get uid := by
          simp only [vanished, OrdMap.get_erase, OrdMap.get_insert]
          split_ifs <;> rfl
        refine ⟨?_, linking.unlinked, fun found member => Nat.lt_succ_of_lt (linking.made found member)⟩
        intro other member shown absent found there
        rw [map] at there
        rcases isRead member with early | rfl
        · rw [if_neg (apart other early)] at there
          obtain ⟨parent, new⟩ := linking.fresh other early shown absent found there
          refine ⟨?_, new⟩
          rw [vanished]
          dsimp only
          rw [Function.update_of_ne (Nat.ne_of_lt (progress.valid.made _ _ there))]
          exact parent
        · rw [if_pos rfl] at there
          cases there

theorem read_all_linking (grouping : Grouping) {linked : Linked} (valid : Valid linked.api) {reads : List (Nat × Probe)}
    (readable : Readable reads) : Linking grouping linked reads (read_all grouping linked reads) := by
  induction reads using List.reverseRecOn with
  | nil =>
    refine ⟨?_, ?_, ?_⟩
    · intro read member
      cases member
    · intro object member
      cases member
    · intro object member
      cases member
  | append_singleton earlier last ih =>
    have before : Readable earlier := by
      have distinct := readable.distinct
      rw [List.map_append, List.nodup_append] at distinct
      exact ⟨distinct.1, fun read member => readable.small read (List.mem_append_left _ member)⟩
    have progress := refresh_all_progress grouping valid before
    rw [← read_all_loop] at progress
    rw [read_all, List.foldl_append]
    exact (ih before).step progress readable

end

theorem link_all_get (api : CLinuxAPI) (newProcessList : List Nat) (parentUId : Nat → Nat) (object : Nat) :
    link_all api newProcessList parentUId object = if object ∈ newProcessList then parent_uid api object else parentUId object := by
  induction newProcessList using List.reverseRecOn with
  | nil => simp [link_all]
  | append_singleton earlier last ih =>
    rw [link_all, List.foldl_append]
    change Function.update (link_all api earlier parentUId) last (parent_uid api last) object = _
    by_cases here : object = last
    · subst here
      simp
    · rw [Function.update_of_ne here, ih]
      simp [here]

theorem parent_uid_pid {api : CLinuxAPI} (valid : Valid api) (object : Nat) : ∃ time ≤ (api.objects object).createTimeStamp,
    parent_uid api object = process_uid (api.objects object).parentId time := by
  rw [parent_uid]
  cases found : api.processByPID.get (api.objects object).parentId with
  | none => exact ⟨_, Nat.le_refl _, rfl⟩
  | some parent =>
    dsimp only
    split_ifs with validated
    · obtain ⟨isPid, listed⟩ := valid.index _ parent found
      rw [validate_parent, Bool.and_eq_true, decide_eq_true_eq, decide_eq_true_eq] at validated
      refine ⟨(api.objects parent).createTimeStamp, validated.2, ?_⟩
      rw [← isPid]
      exact (valid.paired _ parent listed).1
    · exact ⟨_, Nat.le_refl _, rfl⟩

theorem mem_child_count {options : Options} (retention : options.parentRetention = true) {api : CLinuxAPI} (valid : Valid api) {pid : Nat} :
    pid ∈ child_count options api ↔ ∃ child parent, api.processByPID.get (api.objects child).processId = some child ∧
      (api.objects child).parentId = pid ∧ api.processByPID.get pid = some parent ∧
      validate_parent (api.objects child) (api.objects parent) = true := by
  rw [child_count, if_pos retention, List.mem_filterMap]
  constructor
  · rintro ⟨⟨number, child⟩, member, counted⟩
    have found := OrdMap.mem_entries.mp member
    dsimp only at counted
    cases indexed : api.processByPID.get (api.objects child).parentId with
    | none =>
      rw [indexed] at counted
      cases counted
    | some parent =>
      rw [indexed] at counted
      dsimp only at counted
      split_ifs at counted with validated
      cases counted
      refine ⟨child, parent, ?_, rfl, indexed, validated⟩
      rw [(valid.index number child found).1]
      exact found
  · rintro ⟨child, parent, found, rfl, indexed, validated⟩
    refine ⟨((api.objects child).processId, child), OrdMap.mem_entries.mpr found, ?_⟩
    simp only [indexed, validated, if_true]

/-! ## The refresh -/

/-- Each process is linked to a parent that is no younger, under a pid that the kernel hands out. -/
structure Good (linked : Linked) : Prop where
  valid : Valid linked.api
  positive : ∀ uid object, linked.api.processMap.get uid = some object → 0 < (linked.api.objects object).processId
  parent : ∀ uid object, linked.api.processMap.get uid = some object → (linked.api.objects object).parentId < 2 ^ 22
  paired : ∀ uid object, linked.api.processMap.get uid = some object → ∃ time ≤ (linked.api.objects object).createTimeStamp,
    linked.parentUId object = process_uid (linked.api.objects object).parentId time
  unmade : ∀ object, linked.api.next ≤ object → linked.parentUId object = 0

theorem good_started : Good started where
  valid := valid_started
  positive uid object found := by cases found
  parent uid object found := by cases found
  paired uid object found := by cases found
  unmade object _ := rfl

theorem purge_all_parent (options : Options) (now : Nat) (retained keys : List Nat) (first : CLinuxAPI) (object : Nat) :
    (((keys.foldl (purge_one options now retained) ⟨first, []⟩).api).objects object).parentId = (first.objects object).parentId := by
  induction keys using List.reverseRecOn with
  | nil => rfl
  | append_singleton earlier last ih =>
    rw [List.foldl_append]
    refine Eq.trans ?_ ih
    generalize earlier.foldl (purge_one options now retained) ⟨first, []⟩ = purge
    rw [List.foldl_cons, List.foldl_nil]
    cases found : purge.api.processMap.get last with
    | none => rw [purge_one_absent found]
    | some other =>
      cases old : removable options now retained (purge.api.objects other) with
      | true =>
        rw [purge_one_removable found old]
        rfl
      | false =>
        by_cases unmarked : (purge.api.objects other).removeTimeStamp = 0
        · rw [purge_one_unmarked found old unmarked, marking]
          by_cases here : object = other
          · rw [here]
            simp
          · dsimp only
            rw [Function.update_of_ne here]
        · rw [purge_one_marked found old unmarked]

section
variable (refresh : Refresh) (linked : Linked)

/-- The loop, the links and the purge of a refresh. -/
structure Refreshing (loop : Loop) (newProcessList keys : List Nat) (purge : Purge) : Prop where
  progress : Progress (grouping_of refresh.options refresh.sample) linked.api refresh.sample.reads loop
  linking : Linking (grouping_of refresh.options refresh.sample) linked refresh.sample.reads ⟨loop, newProcessList⟩
  purged : Purged refresh.options refresh.now (child_count refresh.options loop.api) loop.api keys purge
  keys : ∀ uid, uid ∈ keys ↔ ¬ Appears refresh.options refresh.sample uid ∧ linked.api.processMap.get uid ≠ none
  parent : ∀ object, (purge.api.objects object).parentId = (loop.api.objects object).parentId
  after : refresh.after linked = ⟨purge.api, link_all loop.api newProcessList linked.parentUId⟩

variable {refresh linked}

theorem refreshing (good : Good linked) (enumerated : refresh.sample.directories ≠ []) :
    ∃ loop newProcessList keys purge, Refreshing refresh linked loop newProcessList keys purge := by
  have progress := refresh_all_progress (grouping_of refresh.options refresh.sample) good.valid refresh.sample.readable
  have linking := read_all_linking (grouping_of refresh.options refresh.sample) good.valid refresh.sample.readable
  rw [← read_all_loop] at progress
  generalize isReading : read_all (grouping_of refresh.options refresh.sample) linked refresh.sample.reads = reading at progress linking
  refine ⟨reading.loop, reading.newProcessList, reading.loop.old.entries.map Prod.fst, _, progress, linking,
    purge_all_purged refresh.options refresh.now _ progress.valid (OrdMap.keys_nodup _), ?_, purge_all_parent _ _ _ _ _, ?_⟩
  · intro uid
    have member : uid ∈ reading.loop.old.entries.map Prod.fst ↔ reading.loop.old.get uid ≠ none := by
      constructor
      · intro among
        obtain ⟨⟨key, object⟩, there, rfl⟩ := List.mem_map.mp among
        rw [OrdMap.mem_entries.mp there]
        exact Option.some_ne_none object
      · intro there
        obtain ⟨object, found⟩ := Option.ne_none_iff_exists'.mp there
        exact List.mem_map.mpr ⟨(uid, object), OrdMap.mem_entries.mpr found, rfl⟩
    rw [member]
    by_cases appears : Appears refresh.options refresh.sample uid
    · rw [progress.taken uid appears]
      simp [appears]
    · rw [progress.waiting uid appears]
      simp [appears]
  · rw [Refresh.after, update_process_list, if_neg enumerated, ← isReading]
    rfl

section
variable {loop : Loop} {newProcessList keys : List Nat} {purge : Purge} (good : Good linked)
  (refreshing : Refreshing refresh linked loop newProcessList keys purge)
include good refreshing

omit good in
theorem Refreshing.origin {uid object : Nat} (found : loop.api.processMap.get uid = some object) :
    linked.api.processMap.get uid = some object ∨
      ∃ read, Unlisted refresh linked read ∧ read.2.init = true ∧ uid_of read = uid := by
  cases before : linked.api.processMap.get uid with
  | some other =>
    rw [refreshing.progress.known uid other before, Option.some.injEq] at found
    exact .inl (congrArg some found)
  | none =>
    have shown : Shown (grouping_of refresh.options refresh.sample) refresh.sample.reads uid := by
      by_contra hidden
      rw [refreshing.progress.same uid hidden, before] at found
      cases found
    obtain ⟨read, member, isShown, rfl⟩ := shown
    refine .inr ⟨read, ⟨member, isShown, before⟩, ?_, rfl⟩
    by_contra fails
    rw [(refreshing.progress.vanished read member isShown before (Bool.eq_false_iff.mpr fails)).1] at found
    cases found

theorem Refreshing.same {uid object : Nat} (listed : linked.api.processMap.get uid = some object) :
    SameBut (loop.api.objects object) (linked.api.objects object) :=
  refreshing.progress.objects object (good.valid.made uid object listed)

theorem Refreshing.fresh {read : Nat × Probe} (unlisted : Unlisted refresh linked read) {object : Nat}
    (found : loop.api.processMap.get (uid_of read) = some object) :
    (loop.api.objects object).processId = read.1 ∧ (loop.api.objects object).createTimeStamp = read.2.stat.startTime ∧
      (loop.api.objects object).parentId = read.2.stat.ppid ∧ object ∈ newProcessList := by
  obtain ⟨small, early⟩ := refresh.sample.readable.small read unlisted.member
  obtain ⟨isUid, smallToo, earlyToo⟩ := refreshing.progress.valid.paired _ object found
  obtain ⟨isPid, isTime⟩ := (process_uid_eq_iff small early smallToo earlyToo).mp isUid
  obtain ⟨isParent, new⟩ := refreshing.linking.fresh read unlisted.member unlisted.shown unlisted.absent object found
  have isNew := (refreshing.progress.fresh _ object unlisted.absent found).1
  exact ⟨isPid.symm, isTime.symm, isParent, new (good.unmade object isNew)⟩

omit good in
theorem Refreshing.index_held {object : Nat} (holds : Holds refresh linked object) :
    loop.api.processByPID.get (linked.api.objects object).processId = some object := by
  rw [refreshing.progress.index, holds.index]
  intro read member isPid
  by_contra neither
  rw [not_or, not_not, Bool.not_eq_true] at neither
  exact holds.unread read ⟨member, neither.2, neither.1⟩ isPid

theorem Refreshing.index_origin {pid object : Nat} (found : loop.api.processByPID.get pid = some object) :
    (Holds refresh linked object ∧ (linked.api.objects object).processId = pid) ∨
      ∃ read, Unlisted refresh linked read ∧ read.2.init = true ∧ read.1 = pid ∧ loop.api.processMap.get (uid_of read) = some object := by
  by_cases anew : ∃ read, Unlisted refresh linked read ∧ read.1 = pid
  · obtain ⟨read, unlisted, rfl⟩ := anew
    cases init : read.2.init with
    | true =>
      obtain ⟨other, listed, indexed⟩ := refreshing.progress.added read unlisted.member unlisted.shown unlisted.absent init
      rw [indexed, Option.some.injEq] at found
      exact .inr ⟨read, unlisted, init, rfl, found ▸ listed⟩
    | false =>
      rw [(refreshing.progress.vanished read unlisted.member unlisted.shown unlisted.absent init).2] at found
      cases found
  · rw [refreshing.progress.index] at found
    · obtain ⟨isPid, listed⟩ := good.valid.index pid object found
      refine .inl ⟨⟨by rw [isPid]; exact found, ?_⟩, isPid⟩
      rintro read unlisted here
      exact anew ⟨read, unlisted, here.trans isPid⟩
    · intro read member isPid
      by_contra neither
      rw [not_or, not_not, Bool.not_eq_true] at neither
      exact anew ⟨read, ⟨member, neither.2, neither.1⟩, isPid⟩

end

theorem Holds.listed (good : Good linked) {object : Nat} (holds : Holds refresh linked object) :
    linked.api.processMap.get (linked.api.objects object).processUId = some object :=
  (good.valid.index _ object holds.index).2

theorem validate_parent_iff {child parent : CLinuxProcess} :
    validate_parent child parent = true ↔ parent.processId ≠ child.processId ∧ parent.createTimeStamp ≤ child.createTimeStamp := by
  rw [validate_parent, Bool.and_eq_true, decide_eq_true_eq, decide_eq_true_eq]

theorem validate_parent_same {child parent other another : CLinuxProcess} (same : SameBut child other) (also : SameBut parent another) :
    validate_parent child parent = validate_parent other another := by
  rw [validate_parent, validate_parent, same.pid, same.time, also.pid, also.time]

theorem Good.child (good : Good linked) {uid object other child : Nat} (listed : linked.api.processMap.get uid = some object)
    (also : linked.api.processMap.get other = some child) (link : linked.parentUId child = uid) :
    (linked.api.objects child).parentId = (linked.api.objects object).processId ∧
      (linked.api.objects object).createTimeStamp ≤ (linked.api.objects child).createTimeStamp := by
  obtain ⟨isUid, small, early⟩ := good.valid.paired uid object listed
  obtain ⟨time, before, isLink⟩ := good.paired other child also
  obtain ⟨-, -, earlyToo⟩ := good.valid.paired other child also
  have same : process_uid (linked.api.objects child).parentId time =
      process_uid (linked.api.objects object).processId (linked.api.objects object).createTimeStamp := by
    rw [← isLink, link, isUid]
  obtain ⟨isPid, isTime⟩ := (process_uid_eq_iff (good.parent other child also) (Nat.lt_of_le_of_lt before earlyToo) small early).mp same
  exact ⟨isPid, isTime ▸ before⟩

section
variable {loop : Loop} {newProcessList keys : List Nat} {purge : Purge} (good : Good linked)
  (refreshing : Refreshing refresh linked loop newProcessList keys purge) {uid object : Nat}
include good refreshing

theorem Refreshing.stays_iff (ended : Over refresh linked uid object) :
    (refresh.after linked).api.processMap.get uid ≠ none ↔
      (linked.api.objects object).processId ∈ child_count refresh.options loop.api := by
  have same := refreshing.same good ended.listed
  have there := refreshing.progress.known uid object ended.listed
  have key : uid ∈ keys := (refreshing.keys uid).mpr ⟨ended.exited, by rw [ended.listed]; exact Option.some_ne_none object⟩
  have isOld : removable refresh.options refresh.now (child_count refresh.options loop.api) (loop.api.objects object) =
      !(child_count refresh.options loop.api).contains (linked.api.objects object).processId := by
    rw [removable, same.stamp, same.pid, ended.late, Bool.true_and]
  rw [refreshing.after]
  dsimp only
  by_cases counted : (linked.api.objects object).processId ∈ child_count refresh.options loop.api
  · rw [(refreshing.purged.marked uid object there key (by rw [isOld]; simp [counted])).1]
    simp [counted]
  · rw [refreshing.purged.gone uid object there key (by rw [isOld]; simp [counted])]
    simp [counted]

theorem Refreshing.stays (listed : linked.api.processMap.get uid = some object) (young : ¬ Over refresh linked uid object) :
    (refresh.after linked).api.processMap.get uid = some object := by
  have there := refreshing.progress.known uid object listed
  rw [refreshing.after]
  dsimp only
  by_cases key : uid ∈ keys
  · have exited := ((refreshing.keys uid).mp key).1
    refine (refreshing.purged.marked uid object there key ?_).1
    rw [removable, (refreshing.same good listed).stamp, Bool.and_eq_false_iff]
    refine .inl (Bool.eq_false_iff.mpr ?_)
    exact fun late => young ⟨listed, exited, late⟩
  · exact (refreshing.purged.kept uid object there key).1

omit good in
theorem Refreshing.before_purge (found : (refresh.after linked).api.processMap.get uid = some object) :
    loop.api.processMap.get uid = some object := by
  rw [refreshing.after] at found
  dsimp only at found
  cases there : loop.api.processMap.get uid with
  | none => cases (refreshing.purged.absent uid there).symm.trans found
  | some other =>
    by_cases key : uid ∈ keys
    · cases old : removable refresh.options refresh.now (child_count refresh.options loop.api) (loop.api.objects other) with
      | true => cases (refreshing.purged.gone uid other there key old).symm.trans found
      | false => exact (refreshing.purged.marked uid other there key old).1.symm.trans found
    · exact (refreshing.purged.kept uid other there key).1.symm.trans found

end

theorem Held.named (good : Good linked) {uid object : Nat} (listed : linked.api.processMap.get uid = some object)
    (held : Held refresh linked uid object) : Named refresh linked object := by
  rcases held with ⟨read, comes, -⟩ | ⟨child, holds, differs, link⟩
  · exact .inr ⟨read, comes⟩
  · exact .inl ⟨child, holds, (good.child listed (holds.listed good) link).1, differs⟩

section
variable {loop : Loop} {newProcessList keys : List Nat} {purge : Purge} (good : Good linked)
  (refreshing : Refreshing refresh linked loop newProcessList keys purge) (orderly : Orderly refresh linked) {uid object : Nat}
include good refreshing orderly

theorem Refreshing.counted_iff (ended : Over refresh linked uid object) :
    (linked.api.objects object).processId ∈ child_count refresh.options loop.api ↔ Held refresh linked uid object := by
  have same := refreshing.same good ended.listed
  rw [mem_child_count refresh.retention refreshing.progress.valid]
  constructor
  · rintro ⟨child, parent, found, names, indexed, validated⟩
    have parentPid := (refreshing.progress.valid.index _ parent indexed).1
    obtain ⟨differs, before⟩ := validate_parent_iff.mp validated
    rw [parentPid] at differs
    -- whoever is counted names the pid, so the exited process still holds it
    have holds : Holds refresh linked object := by
      apply orderly.unrecycled uid object ended
      rcases refreshing.index_origin good found with ⟨holds, isPid⟩ | ⟨read, unlisted, init, isPid, listed⟩
      · have sameChild := refreshing.same good (holds.listed good)
        exact .inl ⟨child, holds, sameChild.parent.symm.trans names, by rw [isPid]; exact differs.symm⟩
      · obtain ⟨-, -, isParent, -⟩ := refreshing.fresh good unlisted listed
        exact .inr ⟨read, unlisted, init, isParent.symm.trans names, by rw [isPid]; exact differs.symm⟩
    rw [refreshing.index_held holds, Option.some.injEq] at indexed
    subst indexed
    rcases refreshing.index_origin good found with ⟨holdsToo, -⟩ | ⟨read, unlisted, init, isPid, listed⟩
    · have sameChild := refreshing.same good (holdsToo.listed good)
      refine orderly.own uid object child ended holdsToo (sameChild.parent.symm.trans names) ?_
      rw [← validate_parent_same sameChild same]
      exact validated
    · obtain ⟨-, isTime, isParent, -⟩ := refreshing.fresh good unlisted listed
      rw [same.time, isTime] at before
      exact .inl ⟨read, ⟨unlisted, init, isParent.symm.trans names, by rw [isPid]; exact differs.symm⟩, before⟩
  · intro held
    have holds := orderly.unrecycled uid object ended (held.named good ended.listed)
    rcases held with ⟨read, comes, before⟩ | ⟨child, holdsToo, differs, link⟩
    · obtain ⟨child, listed, indexed⟩ := refreshing.progress.added read comes.unlisted.member comes.unlisted.shown
        comes.unlisted.absent comes.init
      obtain ⟨isPid, isTime, isParent, -⟩ := refreshing.fresh good comes.unlisted listed
      refine ⟨child, object, by rw [isPid]; exact indexed, isParent.trans comes.names, refreshing.index_held holds, ?_⟩
      rw [validate_parent_iff, isPid, isTime, same.pid, same.time]
      exact ⟨comes.differs.symm, before⟩
    · have listedToo := holdsToo.listed good
      have sameChild := refreshing.same good listedToo
      obtain ⟨names, before⟩ := good.child ended.listed listedToo link
      refine ⟨child, object, ?_, sameChild.parent.trans names, refreshing.index_held holds, ?_⟩
      · rw [sameChild.pid]
        exact refreshing.index_held holdsToo
      · rw [validate_parent_iff, sameChild.pid, sameChild.time, same.pid, same.time]
        exact ⟨differs.symm, before⟩

theorem Refreshing.kept_iff (ended : Over refresh linked uid object) :
    (refresh.after linked).api.processMap.get uid ≠ none ↔ Held refresh linked uid object :=
  (refreshing.stays_iff good ended).trans (refreshing.counted_iff good orderly ended)

omit orderly in
theorem Refreshing.link_kept (listed : linked.api.processMap.get uid = some object) {other child : Nat}
    (also : linked.api.processMap.get other = some child) :
    (refresh.after linked).parentUId child = uid ↔ linked.parentUId child = uid := by
  rw [refreshing.after]
  dsimp only
  rw [link_all_get]
  split_ifs with new
  · -- only a parent with the pid 0 would be linked twice, and there is none
    obtain ⟨isUid, small, early⟩ := good.valid.paired uid object listed
    have positive := good.positive uid object listed
    obtain ⟨time, before, isLink⟩ := good.paired other child also
    obtain ⟨-, -, earlyToo⟩ := good.valid.paired other child also
    have same := refreshing.same good also
    have zero := refreshing.linking.unlinked child new
    have root : (linked.api.objects child).parentId = 0 := by
      have both : process_uid (linked.api.objects child).parentId time = process_uid 0 0 := by
        rw [← isLink, zero]
        decide
      exact ((process_uid_eq_iff (good.parent other child also) (Nat.lt_of_le_of_lt before earlyToo) (by decide) (by decide)).mp both).1
    have never (moment : Nat) (soon : moment < 2 ^ 42) : process_uid 0 moment ≠ uid := by
      intro clash
      rw [isUid, process_uid_eq_iff (by decide) soon small early] at clash
      exact Nat.ne_of_lt positive clash.1
    obtain ⟨moment, soon, isParent⟩ := parent_uid_pid refreshing.progress.valid child
    rw [same.parent, root] at isParent
    rw [same.time] at soon
    rw [isParent, zero]
    refine iff_of_false (never moment (Nat.lt_of_le_of_lt soon earlyToo)) (fun clash => ?_)
    exact never 0 (by decide) (Eq.trans (by decide) clash)
  · rfl

omit orderly in
theorem Refreshing.link_new (ended : Over refresh linked uid object) {read : Nat × Probe} (unlisted : Unlisted refresh linked read)
    (init : read.2.init = true) {child : Nat} (found : loop.api.processMap.get (uid_of read) = some child)
    (link : (refresh.after linked).parentUId child = uid) : Bears refresh linked object := by
  obtain ⟨isPid, isTime, isParent, new⟩ := refreshing.fresh good unlisted found
  obtain ⟨isUid, small, early⟩ := good.valid.paired uid object ended.listed
  obtain ⟨smallToo, earlyToo⟩ := refresh.sample.readable.small read unlisted.member
  have same := refreshing.same good ended.listed
  rw [refreshing.after] at link
  dsimp only at link
  rw [link_all_get, if_pos new] at link
  obtain ⟨time, before, isLink⟩ := parent_uid_pid refreshing.progress.valid child
  have ppid : read.2.stat.ppid < 2 ^ 22 := by
    obtain ⟨directory, among, -, isStat, -⟩ := (refresh.sample.mem_reads read).mp unlisted.member
    exact (refresh.pids directory among).2 read.2.stat isStat
  rw [isTime] at before
  rw [isLink, isParent, isUid, process_uid_eq_iff ppid (Nat.lt_of_le_of_lt before earlyToo) small early] at link
  refine ⟨read, ⟨unlisted, init, link.1, ?_⟩, link.2 ▸ before⟩
  -- a process that names its own pid gets its own UID, which was not listed
  intro itself
  rw [parent_uid, isParent, link.1] at isLink
  cases indexed : loop.api.processByPID.get (linked.api.objects object).processId with
  | none =>
    rw [indexed] at isLink
    dsimp only at isLink
    rw [isTime, process_uid_eq_iff small earlyToo small (Nat.lt_of_le_of_lt before earlyToo)] at isLink
    have clash : linked.api.processMap.get (uid_of read) = some object := by
      rw [uid_of, itself, isLink.2, link.2, ← isUid]
      exact ended.listed
    cases unlisted.absent.symm.trans clash
  | some parent =>
    rw [indexed] at isLink
    dsimp only at isLink
    rw [if_neg, isTime, process_uid_eq_iff small earlyToo small (Nat.lt_of_le_of_lt before earlyToo)] at isLink
    · have clash : linked.api.processMap.get (uid_of read) = some object := by
        rw [uid_of, itself, isLink.2, link.2, ← isUid]
        exact ended.listed
      cases unlisted.absent.symm.trans clash
    · rw [validate_parent_iff, (refreshing.progress.valid.index _ parent indexed).1, isPid, itself]
      exact fun both => both.1 rfl

theorem Refreshing.children_iff (ended : Over refresh linked uid object) :
    (∃ other child, (refresh.after linked).api.processMap.get other = some child ∧ (refresh.after linked).parentUId child = uid) ↔
      Lasting refresh linked uid object := by
  constructor
  · rintro ⟨other, child, found, link⟩
    rcases refreshing.origin (refreshing.before_purge found) with before | ⟨read, unlisted, init, rfl⟩
    · by_cases itself : child = object
      · subst itself
        have isUid : other = uid := (good.valid.own _ _ before).symm.trans (good.valid.own _ _ ended.listed)
        subst isUid
        refine (orderly.lasting other child ended).mp ((refreshing.kept_iff good orderly ended).mp ?_)
        rw [found]
        exact Option.some_ne_none child
      · refine .inr ⟨other, child, before, itself, (refreshing.link_kept good ended.listed before).mp link, ?_⟩
        intro endedToo
        refine (refreshing.kept_iff good orderly endedToo).mp ?_
        rw [found]
        exact Option.some_ne_none child
    · exact .inl (refreshing.link_new good ended unlisted init (refreshing.before_purge found) link)
  · intro lasting
    rcases id lasting with ⟨read, comes, before⟩ | ⟨other, child, listed, -, link, stays⟩
    · have holds := orderly.unrecycled uid object ended (.inr ⟨read, comes⟩)
      obtain ⟨child, found, -⟩ := refreshing.progress.added read comes.unlisted.member comes.unlisted.shown
        comes.unlisted.absent comes.init
      obtain ⟨isPid, isTime, isParent, new⟩ := refreshing.fresh good comes.unlisted found
      have same := refreshing.same good ended.listed
      have notKey : uid_of read ∉ keys := fun key => ((refreshing.keys _).mp key).2 comes.unlisted.absent
      rw [refreshing.after]
      refine ⟨uid_of read, child, (refreshing.purged.kept _ child found notKey).1, ?_⟩
      dsimp only
      rw [link_all_get, if_pos new, parent_uid, isParent, comes.names, refreshing.index_held holds]
      dsimp only
      rw [if_pos, same.uid]
      · exact good.valid.own uid object ended.listed
      · rw [validate_parent_iff, isPid, isTime, same.pid, same.time]
        exact ⟨comes.differs.symm, before⟩
    · by_cases endedToo : Over refresh linked other child
      · have kept := (refreshing.kept_iff good orderly endedToo).mpr (stays endedToo)
        obtain ⟨later, found⟩ := Option.ne_none_iff_exists'.mp kept
        rcases refreshing.origin (refreshing.before_purge found) with before | ⟨read, unlisted, -, rfl⟩
        · rw [listed, Option.some.injEq] at before
          subst before
          exact ⟨other, child, found, (refreshing.link_kept good ended.listed listed).mpr link⟩
        · cases unlisted.absent.symm.trans listed
      · exact ⟨other, child, refreshing.stays good listed endedToo, (refreshing.link_kept good ended.listed listed).mpr link⟩

end

theorem Orderly.retained (orderly : Orderly refresh linked) (good : Good linked) : Retained refresh linked := by
  intro uid object ended
  obtain ⟨loop, newProcessList, keys, purge, refreshing⟩ := refreshing good orderly.enumerated
  calc (refresh.after linked).api.processMap.get uid ≠ none
    _ ↔ Held refresh linked uid object := refreshing.kept_iff good orderly ended
    _ ↔ Lasting refresh linked uid object := orderly.lasting uid object ended
    _ ↔ _ := (refreshing.children_iff good orderly ended).symm

theorem Good.after (good : Good linked) : Good (refresh.after linked) := by
  by_cases none : refresh.sample.directories = []
  · rw [Refresh.after, update_process_list, if_pos none]
    exact good
  · obtain ⟨loop, newProcessList, keys, purge, refreshing⟩ := refreshing good none
    have purged := refreshing.purged
    -- the processes that stay, with what the loop has made of them
    have fields {uid object : Nat} (found : purge.api.processMap.get uid = some object) :
        loop.api.processMap.get uid = some object ∧ 0 < (loop.api.objects object).processId ∧ (loop.api.objects object).parentId < 2 ^ 22 ∧
          ∃ time ≤ (loop.api.objects object).createTimeStamp,
            link_all loop.api newProcessList linked.parentUId object = process_uid (loop.api.objects object).parentId time := by
      have there : loop.api.processMap.get uid = some object := refreshing.before_purge (by rw [refreshing.after]; exact found)
      refine ⟨there, ?_⟩
      rw [link_all_get]
      rcases refreshing.origin there with before | ⟨read, unlisted, init, rfl⟩
      · have same := refreshing.same good before
        refine ⟨same.pid ▸ good.positive uid object before, same.parent ▸ good.parent uid object before, ?_⟩
        split_ifs with new
        · exact parent_uid_pid refreshing.progress.valid object
        · rw [same.parent, same.time]
          exact good.paired uid object before
      · obtain ⟨isPid, isTime, isParent, new⟩ := refreshing.fresh good unlisted there
        obtain ⟨directory, among, samePid, isStat, -⟩ := (refresh.sample.mem_reads read).mp unlisted.member
        obtain ⟨positive, small⟩ := refresh.pids directory among
        rw [if_pos new]
        refine ⟨by rw [isPid, ← samePid]; exact positive, by rw [isParent]; exact small read.2.stat isStat, ?_⟩
        exact parent_uid_pid refreshing.progress.valid object
    rw [refreshing.after]
    refine ⟨purged.valid, ?_, ?_, ?_, ?_⟩
    · intro uid object found
      rw [(purged.objects object).pid]
      exact (fields found).2.1
    · intro uid object found
      rw [refreshing.parent]
      exact (fields found).2.2.1
    · intro uid object found
      rw [refreshing.parent, (purged.objects object).time]
      exact (fields found).2.2.2
    · intro object unmade
      dsimp only at unmade ⊢
      rw [purged.next] at unmade
      rw [link_all_get, if_neg]
      · exact good.unmade object (Nat.le_trans refreshing.progress.next unmade)
      · intro new
        exact Nat.not_lt.mpr unmade (refreshing.linking.made object new)

/-- In a run of orderly refreshes an exited process whose time is over stays exactly for
    its own children. -/
theorem run_retained (run : Run step (fun linked refresh => Orderly refresh linked) started linked) (orderly : Orderly refresh linked) :
    Retained refresh linked := by
  have good : Good linked := by
    refine run.invariant Good good_started ?_
    intro state event later good _ moved
    cases moved
    exact good.after
  exact orderly.retained good

end

/-! ## Two runs -/

namespace Demo

def options : Options := ⟨true, true, 1000⟩

/-- Process 10 with its child 11. -/
def family : Sample := ⟨[⟨1, some ⟨0, 5, false⟩, true⟩, ⟨10, some ⟨1, 100, false⟩, true⟩, ⟨11, some ⟨10, 150, false⟩, true⟩],
  by decide, by decide⟩

/-- The child alone. -/
def orphan : Sample := ⟨[⟨1, some ⟨0, 5, false⟩, true⟩, ⟨11, some ⟨1, 150, false⟩, true⟩], by decide, by decide⟩

theorem childless_distinct :
    ([⟨1, some ⟨0, 5, false⟩, true⟩, ⟨10, some ⟨1, 100, false⟩, true⟩].map Directory.pid).Nodup := by decide

theorem childless_small : ∀ directory ∈ ([⟨1, some ⟨0, 5, false⟩, true⟩, ⟨10, some ⟨1, 100, false⟩, true⟩] : List Directory),
    directory.pid < 2 ^ 22 ∧ ∀ stat ∈ directory.stat, stat.startTime < 2 ^ 42 := by decide

/-- Process 10 without a child. -/
def childless : Sample := ⟨[⟨1, some ⟨0, 5, false⟩, true⟩, ⟨10, some ⟨1, 100, false⟩, true⟩], childless_distinct, childless_small⟩

/-- A later process with the pid 10, and a child of that one. -/
def recycled : Sample := ⟨[⟨1, some ⟨0, 5, false⟩, true⟩, ⟨10, some ⟨1, 200, false⟩, true⟩, ⟨11, some ⟨10, 300, false⟩, true⟩],
  by decide, by decide⟩

def first : Refresh := ⟨options, 1000, family, rfl, by decide⟩
def marking : Refresh := ⟨options, 2000, orphan, rfl, by decide⟩
def late : Refresh := ⟨options, 5000, orphan, rfl, by decide⟩

/-- The states before and after the second refresh. -/
def listed : Linked := first.after started
def marked : Linked := marking.after listed

end Demo

theorem unlisted_none {refresh : Refresh} {linked : Linked}
    (known : ∀ read ∈ refresh.sample.reads, linked.api.processMap.get (uid_of read) ≠ none) (read : Nat × Probe) : ¬ Unlisted refresh linked read :=
  fun unlisted => known read unlisted.member unlisted.absent

theorem orderly_of_young {refresh : Refresh} {linked : Linked} (enumerated : refresh.sample.directories ≠ [])
    (young : ∀ pair ∈ linked.api.processMap.entries,
      can_be_removed refresh.options.persistence refresh.now (linked.api.objects pair.2).removeTimeStamp = false) :
    Orderly refresh linked := by
  have never (uid object : Nat) : ¬ Over refresh linked uid object := by
    intro ended
    have := young (uid, object) (OrdMap.mem_entries.mpr ended.listed)
    rw [ended.late] at this
    cases this
  exact ⟨enumerated, fun uid object ended => absurd ended (never uid object),
    fun uid object child ended => absurd ended (never uid object), fun uid object ended => absurd ended (never uid object)⟩

theorem orderly_first : Orderly Demo.first started := orderly_of_young (by decide) (by decide)

theorem orderly_marking : Orderly Demo.marking Demo.listed := orderly_of_young (by decide) (by decide +kernel)

theorem orderly_late : Orderly Demo.late Demo.marked := by
  have known : ∀ read ∈ Demo.late.sample.reads, Demo.marked.api.processMap.get (uid_of read) ≠ none := by decide +kernel
  have only : ∀ uid object, Over Demo.late Demo.marked uid object → uid = 43980465111140 ∧ object = 1 := by
    intro uid object ended
    have each : ∀ pair ∈ Demo.marked.api.processMap.entries,
        can_be_removed Demo.late.options.persistence Demo.late.now (Demo.marked.api.objects pair.2).removeTimeStamp = true →
          pair.1 = 43980465111140 ∧ pair.2 = 1 := by decide +kernel
    exact each (uid, object) (OrdMap.mem_entries.mpr ended.listed) ended.late
  have parent : Holds Demo.late Demo.marked 1 := ⟨by decide +kernel, fun read unlisted => absurd unlisted (unlisted_none known read)⟩
  have child : Holds Demo.late Demo.marked 2 := ⟨by decide +kernel, fun read unlisted => absurd unlisted (unlisted_none known read)⟩
  have held : Held Demo.late Demo.marked 43980465111140 1 := .inr ⟨2, child, by decide +kernel, by decide +kernel⟩
  have lasting : Lasting Demo.late Demo.marked 43980465111140 1 := by
    refine .inr ⟨48378511622294, 2, by decide +kernel, by decide, by decide +kernel, fun ended => ?_⟩
    exact absurd (only _ _ ended).2 (by decide)
  refine ⟨by decide, ?_, ?_, ?_⟩
  · intro uid object ended _
    obtain ⟨rfl, rfl⟩ := only uid object ended
    exact parent
  · intro uid object other ended _ _ _
    obtain ⟨rfl, rfl⟩ := only uid object ended
    exact held
  · intro uid object ended
    obtain ⟨rfl, rfl⟩ := only uid object ended
    exact iff_of_true held lasting

theorem run_retained_late : Retained Demo.late Demo.marked :=
  run_retained (.next (.next .start orderly_first rfl) orderly_marking rfl) orderly_late

namespace Demo

def alone : Refresh := ⟨options, 1000, childless, rfl, by decide⟩
def recycling : Refresh := ⟨options, 2000, recycled, rfl, by decide⟩
def again : Refresh := ⟨options, 5000, recycled, rfl, by decide⟩

def retired : Linked := recycling.after (alone.after started)

end Demo

/-- The first process 10 stays because of the child of the second. -/
theorem recycled_parent_kept : ¬ ∀ linked refresh, Run step Always started linked → Retained refresh linked := by
  intro all
  have run : Run step Always started Demo.retired := .next (.next .start trivial rfl) trivial rfl
  have ended : Over Demo.again Demo.retired 43980465111140 1 := ⟨by decide +kernel, by decide +kernel, by decide +kernel⟩
  have kept : (Demo.again.after Demo.retired).api.processMap.get 43980465111140 ≠ none := by decide +kernel
  obtain ⟨other, child, found, link⟩ := (all Demo.retired Demo.again run 43980465111140 1 ended).mp kept
  have nobody : ∀ pair ∈ (Demo.again.after Demo.retired).api.processMap.entries,
      (Demo.again.after Demo.retired).parentUId pair.2 ≠ 43980465111140 := by decide +kernel
  exact nobody (other, child) (OrdMap.mem_entries.mpr found) link

end TaskExplorer.ParentRetention
