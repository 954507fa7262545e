import TaskExplorer.LinuxProcesses

/-!
# Threads and their index

Each process keeps the list of its threads, and the system keeps all of them once more
under their ids. A thread is put into the index when its process lists it, and taken out
when its process drops it; a process that is dropped itself does not do so.
-/

namespace TaskExplorer.ThreadIndex
open OrderedMap Lingering LinuxProcesses Transition

structure CLinuxThread where
  /-- Which object it is. -/
  object : Nat
  processId : Nat
  threadId : Nat
deriving DecidableEq, Repr

structure System where
  api : CLinuxAPI
  /-- `m_ThreadList` of each process object. -/
  threadLists : Nat → OrdMap Nat (Listed CLinuxThread)
  threadMap : OrdMap Nat CLinuxThread
  nextThread : Nat

def idle : System := ⟨started, fun _ => .empty, .empty, 0⟩

/-- What is read of the threads of a process: the entries of `task`, and for these and for
    kernel threads whether their `stat` is valid. -/
structure Tasks where
  tids : List (Nat × Bool)
  kernel : Nat → Bool

/-- A kernel thread is its own process; the others belong to the one that is read. -/
def thread_readings (pid : Nat) (foreign : List Nat) : Nat → List (Nat × Bool) → List (Reading Nat CLinuxThread)
  | _, [] => []
  | object, (tid, valid) :: rest =>
    ⟨tid, if valid then some ⟨object, if tid ∈ foreign then tid else pid, tid⟩ else none, id⟩ ::
      thread_readings pid foreign (object + 1) rest

/-- `AddThread`, for a thread that was not listed. -/
def add_thread (taking : Taking Nat CLinuxThread) (reading : Reading Nat CLinuxThread) (index : OrdMap Nat CLinuxThread) :
    OrdMap Nat CLinuxThread :=
  match taking.old.get reading.key with
  | some _ => index
  | none =>
    match reading.made with
    | some thread => index.insert thread.threadId thread
    | none => index

def add_threads : List (Reading Nat CLinuxThread) → Taking Nat CLinuxThread → OrdMap Nat CLinuxThread → OrdMap Nat CLinuxThread
  | [], _, index => index
  | reading :: rest, taking, index => add_threads rest (take_one taking reading) (add_thread taking reading index)

/-- `ClearThread`, for each thread that was dropped. -/
def clear_threads (tids : List Nat) (index : OrdMap Nat CLinuxThread) : OrdMap Nat CLinuxThread := tids.foldl OrdMap.erase index

def process_readings (system : System) (process : Nat) (tasks : Tasks) : List (Reading Nat CLinuxThread) :=
  let object := system.api.objects process
  thread_readings object.processId object.kernelTaskPids system.nextThread
    (tasks.tids ++ object.kernelTaskPids.map (fun pid => (pid, tasks.kernel pid)))

/-- `CLinuxProcess::UpdateThreads`. -/
def update_threads (persistence now process : Nat) (tasks : Tasks) (system : System) : System :=
  if tasks.tids = [] then system
  else
    let readings := process_readings system process tasks
    let list := system.threadLists process
    let refreshed := refresh persistence now readings list
    { system with
      threadLists := Function.update system.threadLists process refreshed.list
      threadMap := clear_threads refreshed.removed (add_threads readings ⟨list, list⟩ system.threadMap)
      nextThread := system.nextThread + readings.length }

def get_thread_by_id (system : System) (tid : Nat) : Option CLinuxThread := system.threadMap.get tid

def get_process_by_thread_id (system : System) (tid : Nat) : Option Nat :=
  match get_thread_by_id system tid with
  | some thread => system.api.processByPID.get thread.processId
  | none => none

/-! ## What is promised -/

/-- The index knows the threads of the listed processes, and no others. -/
structure Indexed (system : System) : Prop where
  found : ∀ tid thread, get_thread_by_id system tid = some thread → thread.threadId = tid ∧
    ∃ uid process item, system.api.processMap.get uid = some process ∧ (system.threadLists process).get tid = some item ∧
      item.object = thread ∧ get_process_by_thread_id system tid = some process
  known : ∀ uid process tid item, system.api.processMap.get uid = some process → (system.threadLists process).get tid = some item →
    get_thread_by_id system tid = some item.object

inductive Event where
  | processes (options : Options) (now : Nat) (sample : Sample)
  | threads (persistence now process : Nat) (tasks : Tasks)

def step (system : System) : Event → Option System
  | .processes options now sample => some { system with api := (update_process_list options now sample system.api).api }
  | .threads persistence now process tasks => some (update_threads persistence now process tasks system)

/-- No thread is left behind, and no id is used again while it is listed. -/
def Tidy (system : System) : Event → Prop
  | .processes options now sample =>
    (∀ uid process, system.api.processMap.get uid = some process → ¬ Appears options sample uid →
      can_be_removed options.persistence now (system.api.objects process).removeTimeStamp = true → system.threadLists process = .empty) ∧
    (∀ read ∈ sample.reads, (grouping_of options sample).takes read.2.stat = false → system.api.processMap.get (uid_of read) = none →
      ∀ process, system.api.processByPID.get read.1 = some process → system.threadLists process = .empty)
  | .threads _ _ process tasks => tasks.tids = [] ∨
    ((system.api.objects process).kernelTaskPids = [] ∧
      system.api.processByPID.get (system.api.objects process).processId = some process ∧
      ∀ task ∈ tasks.tids, task.2 = true → (system.threadLists process).get task.1 = none → system.threadMap.get task.1 = none)

/-! ## Readings -/

theorem thread_readings_mem {pid : Nat} {foreign : List Nat} {object : Nat} {tids : List (Nat × Bool)} {reading : Reading Nat CLinuxThread}
    (member : reading ∈ thread_readings pid foreign object tids) : reading.changed = id ∧
      ∃ task ∈ tids, reading.key = task.1 ∧ ∀ thread, reading.made = some thread →
        task.2 = true ∧ thread.threadId = task.1 ∧ thread.processId = if task.1 ∈ foreign then task.1 else pid := by
  induction tids generalizing object with
  | nil => cases member
  | cons task rest ih =>
    rw [thread_readings] at member
    rcases List.mem_cons.mp member with rfl | later
    · refine ⟨rfl, task, List.mem_cons_self, rfl, ?_⟩
      intro thread made
      cases valid : task.2 with
      | true =>
        rw [valid, if_pos rfl] at made
        cases made
        exact ⟨rfl, rfl, rfl⟩
      | false =>
        rw [valid, if_neg Bool.false_ne_true] at made
        cases made
    · obtain ⟨same, other, among, which⟩ := ih later
      exact ⟨same, other, List.mem_cons_of_mem _ among, which⟩

/-! ## The loop over the threads -/

/-- The list, the copy and the index say the same about the threads of a process. -/
structure Agree (taking : Taking Nat CLinuxThread) (index : OrdMap Nat CLinuxThread) : Prop where
  listed : ∀ tid item, taking.list.get tid = some item → index.get tid = some item.object
  old : ∀ tid item, taking.old.get tid = some item → taking.list.get tid = some item

/-- The readings make threads under their own ids and change none. -/
def Plain (readings : List (Reading Nat CLinuxThread)) : Prop :=
  ∀ reading ∈ readings, reading.changed = id ∧ ∀ thread, reading.made = some thread → thread.threadId = reading.key

section
variable {taking : Taking Nat CLinuxThread} {index : OrdMap Nat CLinuxThread} {reading : Reading Nat CLinuxThread}

theorem take_one_kept (agree : Agree taking index) (same : reading.changed = id) {item : Listed CLinuxThread}
    (found : taking.old.get reading.key = some item) :
    (∀ tid, (take_one taking reading).list.get tid = taking.list.get tid) ∧
      (take_one taking reading).old = taking.old.erase reading.key ∧ add_thread taking reading index = index := by
  refine ⟨?_, ?_, ?_⟩
  · intro tid
    rw [take_one, found]
    dsimp only
    rw [OrdMap.get_insert, same]
    split_ifs with here
    · rw [← here]
      exact (agree.old _ _ found).symm
    · rfl
  · rw [take_one, found]
  · rw [add_thread, found]

theorem take_one_made (taking : Taking Nat CLinuxThread) (index : OrdMap Nat CLinuxThread) (found : taking.old.get reading.key = none) {thread : CLinuxThread} (made : reading.made = some thread)
    (same : reading.changed = id) (own : thread.threadId = reading.key) :
    take_one taking reading = { taking with list := taking.list.insert reading.key ⟨thread, 0⟩ } ∧
      add_thread taking reading index = index.insert reading.key thread := by
  rw [take_one, add_thread, found, made, same]
  refine ⟨rfl, ?_⟩
  dsimp only
  rw [own]

theorem take_one_failed (taking : Taking Nat CLinuxThread) (index : OrdMap Nat CLinuxThread) (found : taking.old.get reading.key = none) (made : reading.made = none) :
    take_one taking reading = taking ∧ add_thread taking reading index = index := by
  rw [take_one, add_thread, found, made]
  exact ⟨rfl, rfl⟩

theorem Agree.step (agree : Agree taking index) (same : reading.changed = id)
    (own : ∀ thread, reading.made = some thread → thread.threadId = reading.key) :
    Agree (take_one taking reading) (add_thread taking reading index) := by
  cases found : taking.old.get reading.key with
  | some item =>
    obtain ⟨list, old, index⟩ := take_one_kept agree same found
    rw [index]
    refine ⟨fun tid item there => agree.listed tid item ((list tid).symm.trans there), ?_⟩
    intro tid item there
    rw [old, OrdMap.get_erase] at there
    split_ifs at there
    rw [list]
    exact agree.old tid item there
  | none =>
    cases made : reading.made with
    | none =>
      obtain ⟨taking', index'⟩ := take_one_failed taking index found made
      rw [taking', index']
      exact agree
    | some thread =>
      obtain ⟨taking', index'⟩ := take_one_made taking index found made same (own thread made)
      rw [taking', index']
      refine ⟨?_, ?_⟩
      · intro tid item there
        dsimp only at there
        rw [OrdMap.get_insert] at there ⊢
        split_ifs at there ⊢
        · cases there
          rfl
        · exact agree.listed tid item there
      · intro tid item there
        dsimp only
        rw [OrdMap.get_insert, if_neg]
        · exact agree.old tid item there
        · rintro rfl
          cases found.symm.trans there

end

section
variable {readings : List (Reading Nat CLinuxThread)}

theorem Plain.tail {reading : Reading Nat CLinuxThread} (plain : Plain (reading :: readings)) : Plain readings :=
  fun other member => plain other (List.mem_cons_of_mem _ member)

theorem add_threads_agree (plain : Plain readings) {taking : Taking Nat CLinuxThread} {index : OrdMap Nat CLinuxThread}
    (agree : Agree taking index) : Agree (readings.foldl take_one taking) (add_threads readings taking index) := by
  induction readings generalizing taking index with
  | nil => exact agree
  | cons reading rest ih =>
    obtain ⟨same, own⟩ := plain reading List.mem_cons_self
    exact ih plain.tail (agree.step same own)

theorem add_threads_listed (plain : Plain readings) {taking : Taking Nat CLinuxThread} {index : OrdMap Nat CLinuxThread}
    (agree : Agree taking index) {tid : Nat} {item : Listed CLinuxThread} (found : (readings.foldl take_one taking).list.get tid = some item) :
    taking.list.get tid = some item ∨ ∃ reading ∈ readings, reading.key = tid ∧ reading.made = some item.object := by
  induction readings generalizing taking index with
  | nil => exact .inl found
  | cons reading rest ih =>
    obtain ⟨same, own⟩ := plain reading List.mem_cons_self
    rcases ih plain.tail (agree.step same own) found with before | ⟨other, member, which⟩
    · cases old : taking.old.get reading.key with
      | some kept =>
        rw [(take_one_kept agree same old).1] at before
        exact .inl before
      | none =>
        cases made : reading.made with
        | none =>
          rw [(take_one_failed taking index old made).1] at before
          exact .inl before
        | some thread =>
          rw [(take_one_made taking index old made same (own thread made)).1] at before
          dsimp only at before
          rw [OrdMap.get_insert] at before
          split_ifs at before with here
          · cases before
            exact .inr ⟨reading, List.mem_cons_self, here, made⟩
          · exact .inl before
    · exact .inr ⟨other, List.mem_cons_of_mem _ member, which⟩

theorem add_threads_other (plain : Plain readings) (taking : Taking Nat CLinuxThread) (index : OrdMap Nat CLinuxThread) {tid : Nat}
    (none : ∀ reading ∈ readings, reading.key = tid → reading.made = none) :
    (add_threads readings taking index).get tid = index.get tid := by
  induction readings generalizing taking index with
  | nil => rfl
  | cons reading rest ih =>
    rw [add_threads, ih plain.tail _ _ (fun other member => none other (List.mem_cons_of_mem _ member)), add_thread]
    cases taking.old.get reading.key with
    | some item => rfl
    | none =>
      cases made : reading.made with
      | none => rfl
      | some thread =>
        dsimp only
        rw [OrdMap.get_insert, if_neg]
        intro here
        have own := (plain reading List.mem_cons_self).2 thread made
        have impossible := none reading List.mem_cons_self (own.symm.trans here)
        cases made.symm.trans impossible

theorem add_threads_found (plain : Plain readings) {taking : Taking Nat CLinuxThread} {index : OrdMap Nat CLinuxThread}
    (agree : Agree taking index) {tid : Nat} {thread : CLinuxThread} (found : (add_threads readings taking index).get tid = some thread) :
    index.get tid = some thread ∨ ∃ item, (readings.foldl take_one taking).list.get tid = some item ∧ item.object = thread := by
  induction readings generalizing taking index with
  | nil => exact .inl found
  | cons reading rest ih =>
    obtain ⟨same, own⟩ := plain reading List.mem_cons_self
    have next := agree.step same own
    rcases ih plain.tail next found with before | listed
    · cases old : taking.old.get reading.key with
      | some kept =>
        rw [(take_one_kept agree same old).2.2] at before
        exact .inl before
      | none =>
        cases made : reading.made with
        | none =>
          rw [(take_one_failed taking index old made).2] at before
          exact .inl before
        | some other =>
          obtain ⟨taken, added⟩ := take_one_made taking index old made same (own other made)
          rw [added, OrdMap.get_insert] at before
          split_ifs at before with here
          · cases before
            have there : (take_one taking reading).list.get tid = some ⟨thread, 0⟩ := by
              rw [taken]
              dsimp only
              rw [OrdMap.get_insert, if_pos here]
            obtain ⟨later, listed, -⟩ := take_all_listed rest (take_one taking reading) there
              (fun item also => Option.some.inj ((next.old tid item also).symm.trans there))
            refine .inr ⟨later, listed, ?_⟩
            have indexed := (add_threads_agree plain.tail next).listed tid later listed
            exact Option.some.inj (indexed.symm.trans found)
          · exact .inl before
    · exact .inr listed

end

theorem clear_threads_get (tids : List Nat) (index : OrdMap Nat CLinuxThread) (tid : Nat) :
    (clear_threads tids index).get tid = if tid ∈ tids then none else index.get tid := by
  induction tids generalizing index with
  | nil => simp [clear_threads]
  | cons first rest ih =>
    have unfolded : clear_threads (first :: rest) index = clear_threads rest (index.erase first) := rfl
    rw [unfolded, ih, OrdMap.get_erase]
    by_cases here : tid = first
    · simp [here]
    · simp [here, Ne.symm here]

/-! ## Steps -/

/-- The index fits, each thread leads to its process, and new processes have no threads. -/
structure Sound (system : System) : Prop where
  valid : Valid system.api
  indexed : Indexed system
  belongs : ∀ uid process tid item, system.api.processMap.get uid = some process → (system.threadLists process).get tid = some item →
    system.api.processByPID.get item.object.processId = some process
  fresh : ∀ process, system.api.next ≤ process → system.threadLists process = .empty

theorem sound_idle : Sound idle where
  valid := valid_started
  indexed := ⟨fun tid thread found => (by cases found), fun uid process tid item found => (by cases found)⟩
  belongs uid process tid item found := by cases found
  fresh process _ := rfl

section
variable {system : System} (sound : Sound system)
include sound

theorem Sound.found_in {tid : Nat} {thread : CLinuxThread} (found : system.threadMap.get tid = some thread) :
    thread.threadId = tid ∧ ∃ uid process item, system.api.processMap.get uid = some process ∧
      (system.threadLists process).get tid = some item ∧ item.object = thread := by
  obtain ⟨own, uid, process, item, listed, there, same, -⟩ := sound.indexed.found tid thread found
  exact ⟨own, uid, process, item, listed, there, same⟩

end

theorem sound_of {system : System} (valid : Valid system.api)
    (found : ∀ tid thread, system.threadMap.get tid = some thread → thread.threadId = tid ∧
      ∃ uid process item, system.api.processMap.get uid = some process ∧ (system.threadLists process).get tid = some item ∧ item.object = thread)
    (known : ∀ uid process tid item, system.api.processMap.get uid = some process → (system.threadLists process).get tid = some item →
      system.threadMap.get tid = some item.object)
    (belongs : ∀ uid process tid item, system.api.processMap.get uid = some process → (system.threadLists process).get tid = some item →
      system.api.processByPID.get item.object.processId = some process)
    (fresh : ∀ process, system.api.next ≤ process → system.threadLists process = .empty) : Sound system := by
  refine ⟨valid, ⟨?_, known⟩, belongs, fresh⟩
  intro tid thread there
  obtain ⟨own, uid, process, item, listed, member, same⟩ := found tid thread there
  refine ⟨own, uid, process, item, listed, member, same, ?_⟩
  rw [get_process_by_thread_id, there]
  dsimp only
  rw [← same]
  exact belongs uid process tid item listed member

theorem Sound.processes {system : System} (sound : Sound system) {options : Options} {now : Nat} {sample : Sample}
    (tidy : Tidy system (.processes options now sample)) :
    Sound { system with api := (update_process_list options now sample system.api).api } := by
  obtain ⟨purged, recycled⟩ := tidy
  have valid := sound.valid
  -- A process with threads stays listed.
  have stays {uid process tid : Nat} {item : Listed CLinuxThread} (listed : system.api.processMap.get uid = some process)
      (there : (system.threadLists process).get tid = some item) :
      (update_process_list options now sample system.api).api.processMap.get uid = some process := by
    by_cases none : sample.directories = []
    · rw [update_process_list, if_pos none]
      exact listed
    · by_cases appears : Appears options sample uid
      · exact (valid.update_known none appears listed).1
      · rcases valid.update_missing none appears listed with ⟨old, -⟩ | ⟨stays, -⟩
        · rw [purged uid process listed appears old] at there
          cases there
        · exact stays
  -- A process with threads was listed before.
  have before {uid process tid : Nat} {item : Listed CLinuxThread}
      (listed : (update_process_list options now sample system.api).api.processMap.get uid = some process)
      (there : (system.threadLists process).get tid = some item) : system.api.processMap.get uid = some process := by
    cases old : system.api.processMap.get uid with
    | none =>
      obtain ⟨-, isNew, -⟩ := valid.update_fresh old listed
      rw [sound.fresh process isNew] at there
      cases there
    | some other => rw [valid.update_stable old listed]
  apply sound_of
  · exact valid.update_process_list
  · intro tid thread found
    obtain ⟨own, uid, process, item, listed, there, same⟩ := sound.found_in found
    exact ⟨own, uid, process, item, stays listed there, there, same⟩
  · intro uid process tid item listed there
    exact sound.indexed.known uid process tid item (before listed there) there
  · intro uid process tid item listed there
    have old := before listed there
    have index := sound.belongs uid process tid item old there
    have isUid := valid.own uid process old
    refine valid.update_index index ?_ (by rw [isUid]; exact listed)
    intro read member same
    by_contra which
    push Not at which
    obtain ⟨absent, shown⟩ := which
    have empty := recycled read member (Bool.eq_false_iff.mpr shown) absent process (by rw [same]; exact index)
    rw [empty] at there
    cases there
  · intro process isNew
    exact sound.fresh process (Nat.le_trans valid.update_next isNew)

theorem Sound.threads {system : System} (sound : Sound system) {persistence now process : Nat} {tasks : Tasks}
    (tidy : Tidy system (.threads persistence now process tasks)) : Sound (update_threads persistence now process tasks system) := by
  by_cases gone : tasks.tids = []
  · rw [update_threads, if_pos gone]
    exact sound
  obtain ⟨noHost, index, unused⟩ := tidy.resolve_left gone
  obtain ⟨-, listed⟩ := sound.valid.index _ _ index
  set pid := (system.api.objects process).processId with isPid
  set list := system.threadLists process with isList
  set readings := process_readings system process tasks with isReadings
  have tids : readings = thread_readings pid [] system.nextThread tasks.tids := by
    rw [isReadings, process_readings, noHost, List.map_nil, List.append_nil, isPid]
  have plain : Plain readings := by
    intro reading member
    rw [tids] at member
    obtain ⟨same, task, -, isKey, made⟩ := thread_readings_mem member
    exact ⟨same, fun thread isMade => (made thread isMade).2.1.trans isKey.symm⟩
  have agree : Agree ⟨list, list⟩ system.threadMap :=
    ⟨fun tid item there => sound.indexed.known _ process tid item listed there, fun tid item there => there⟩
  have later : update_threads persistence now process tasks system =
      { system with
        threadLists := Function.update system.threadLists process (refresh persistence now readings list).list
        threadMap := clear_threads (refresh persistence now readings list).removed (add_threads readings ⟨list, list⟩ system.threadMap)
        nextThread := system.nextThread + readings.length } := by
    rw [update_threads, if_neg gone]
  have agrees := add_threads_agree plain agree
  -- The threads that are listed afterwards.
  have here {tid : Nat} {item : Listed CLinuxThread} (there : (refresh persistence now readings list).list.get tid = some item) :
      tid ∉ (refresh persistence now readings list).removed ∧
        (add_threads readings ⟨list, list⟩ system.threadMap).get tid = some item.object ∧ item.object.threadId = tid ∧
        system.api.processByPID.get item.object.processId = some process := by
    obtain ⟨kept, taken, found, same⟩ := refresh_object persistence now readings list there
    refine ⟨kept, ?_, ?_⟩
    · rw [← same]
      exact agrees.listed tid taken found
    · rcases add_threads_listed plain agree found with old | ⟨reading, member, isKey, made⟩
      · have known := sound.indexed.known _ process tid taken listed old
        rw [← same]
        exact ⟨(sound.found_in known).1, sound.belongs _ process tid taken listed old⟩
      · rw [tids] at member
        obtain ⟨-, task, -, isTask, which⟩ := thread_readings_mem member
        obtain ⟨-, own, belongs⟩ := which taken.object made
        rw [← same, belongs, own]
        exact ⟨isTask.symm.trans isKey, by simpa using index⟩
  -- The threads of other processes.
  have elsewhere {uid other tid : Nat} {item : Listed CLinuxThread} (differs : other ≠ process)
      (isListed : system.api.processMap.get uid = some other) (there : (system.threadLists other).get tid = some item) :
      (clear_threads (refresh persistence now readings list).removed (add_threads readings ⟨list, list⟩ system.threadMap)).get tid =
        some item.object := by
    have known : system.threadMap.get tid = some item.object := sound.indexed.known uid other tid item isListed there
    have absent : list.get tid = none := by
      cases own : list.get tid with
      | none => rfl
      | some mine =>
        have also := sound.indexed.known _ process tid mine listed own
        have same : item.object = mine.object := Option.some.inj (known.symm.trans also)
        have toOther := sound.belongs uid other tid item isListed there
        have toMine := sound.belongs _ process tid mine listed own
        rw [same] at toOther
        exact absurd (Option.some.inj (toOther.symm.trans toMine)) differs
    rw [clear_threads_get, if_neg, add_threads_other plain]
    · exact known
    · intro reading member isKey
      by_contra made
      obtain ⟨thread, isMade⟩ := Option.ne_none_iff_exists'.mp made
      rw [tids] at member
      obtain ⟨-, task, among, isTask, which⟩ := thread_readings_mem member
      have same : task.1 = tid := isTask.symm.trans isKey
      have free := unused task among (which thread isMade).1 (by rw [same]; exact absent)
      rw [same, known] at free
      cases free
    · intro removed
      obtain ⟨-, mine, own, -⟩ := (refresh_removed persistence now readings list tid).mp removed
      cases absent.symm.trans own
  rw [later]
  apply sound_of
  · exact sound.valid
  · intro tid thread found
    dsimp only at found ⊢
    rw [clear_threads_get] at found
    split_ifs at found with removed
    have inList : (∃ item, (refresh persistence now readings list).list.get tid = some item ∧ item.object = thread) →
        thread.threadId = tid ∧ ∃ uid other item, system.api.processMap.get uid = some other ∧
          (Function.update system.threadLists process (refresh persistence now readings list).list other).get tid = some item ∧
          item.object = thread := by
      rintro ⟨item, there, rfl⟩
      obtain ⟨-, -, own, -⟩ := here there
      exact ⟨own, _, process, item, listed, by rw [Function.update_self]; exact there, rfl⟩
    rcases add_threads_found plain agree found with old | ⟨item, there, rfl⟩
    · obtain ⟨own, uid, other, item, isListed, there, rfl⟩ := sound.found_in old
      by_cases same : other = process
      · rw [same] at there
        obtain ⟨taken, isTaken, -⟩ := take_all_listed readings ⟨list, list⟩ there (fun also isAlso => Option.some.inj (isAlso.symm.trans there))
        have indexed := agrees.listed tid taken isTaken
        have sameObject : taken.object = item.object := Option.some.inj (indexed.symm.trans found)
        rcases refresh_stays persistence now readings list isTaken with dropped | ⟨after, isAfter, sameAfter⟩
        · exact absurd dropped removed
        · exact inList ⟨after, isAfter, sameAfter.trans sameObject⟩
      · exact ⟨own, uid, other, item, isListed, by rw [Function.update_of_ne same]; exact there, rfl⟩
    · rcases refresh_stays persistence now readings list there with dropped | ⟨after, isAfter, sameAfter⟩
      · exact absurd dropped removed
      · exact inList ⟨after, isAfter, sameAfter⟩
  · intro uid other tid item isListed there
    dsimp only at there ⊢
    by_cases same : other = process
    · rw [same, Function.update_self] at there
      obtain ⟨kept, indexed, -⟩ := here there
      rw [clear_threads_get, if_neg kept]
      exact indexed
    · rw [Function.update_of_ne same] at there
      exact elsewhere same isListed there
  · intro uid other tid item isListed there
    dsimp only at there ⊢
    by_cases same : other = process
    · rw [same, Function.update_self] at there
      rw [same]
      exact (here there).2.2.2
    · rw [Function.update_of_ne same] at there
      exact sound.belongs uid other tid item isListed there
  · intro other isNew
    dsimp only
    rw [Function.update_of_ne]
    · exact sound.fresh other isNew
    · rintro rfl
      exact Nat.lt_irrefl _ (Nat.lt_of_lt_of_le (sound.valid.made _ _ listed) isNew)

/-- In a run that leaves no thread behind the index knows the threads that are listed. -/
theorem threads_indexed {system : System} (run : Run step Tidy idle system) : Indexed system := by
  have sound : Sound system := by
    apply run.invariant Sound sound_idle
    intro state event later sound tidy moved
    cases event with
    | processes options now sample =>
      cases moved
      exact sound.processes tidy
    | threads persistence now process tasks =>
      cases moved
      exact sound.threads tidy
  exact sound.indexed

/-! ## A program that ends -/

def sampleOf (pids : List Nat) (distinct : pids.Nodup) (small : ∀ pid ∈ pids, pid < 2 ^ 22) : Sample where
  directories := pids.map (fun pid => ⟨pid, some ⟨0, 10, false⟩, true⟩)
  distinct := by
    rw [List.map_map]
    exact (List.map_id pids).symm ▸ distinct
  small directory member := by
    obtain ⟨pid, among, rfl⟩ := List.mem_map.mp member
    refine ⟨small pid among, ?_⟩
    rintro stat (⟨⟩)
    decide

def defaults : Options := ⟨true, true, 5000⟩

def bothRunning : Sample := sampleOf [1, 5] (by decide) (by decide)

def oneLeft : Sample := sampleOf [1] (by decide) (by decide)

def twoTasks : Tasks := ⟨[(5, true), (6, true)], fun _ => false⟩

/-- Two processes, and the threads of one of them, one of which ends. -/
def watchedRun : List Event :=
  [.processes defaults 100 bothRunning, .threads 5000 110 1 twoTasks, .threads 5000 120 1 ⟨[(5, true)], fun _ => false⟩,
    .threads 5000 5200 1 ⟨[(5, true)], fun _ => false⟩]

/-- The process ends while its threads are listed. -/
def endedRun : List Event :=
  [.processes defaults 100 bothRunning, .threads 5000 110 1 twoTasks, .processes defaults 120 oneLeft, .processes defaults 5200 oneLeft]

theorem threads_indexed_watched : ∃ system, runs step idle watchedRun = some system ∧
    system.threadMap.entries = [(5, ⟨0, 5, 5⟩)] ∧ get_process_by_thread_id system 5 = some 1 ∧ Indexed system := by
  have first : Tidy idle (.processes defaults 100 bothRunning) :=
    ⟨fun uid process found => (by cases found), fun read _ _ _ process found => (by cases found)⟩
  have meets : Meets step Tidy idle watchedRun :=
    ⟨first, .inr ⟨rfl, by decide, by decide⟩, .inr ⟨rfl, by decide, by decide⟩, .inr ⟨rfl, by decide, by decide⟩, trivial⟩
  exact ⟨_, rfl, by decide, by decide, threads_indexed (Run.of_runs .start meets rfl)⟩

/-- The threads of a process that was dropped are still found. -/
theorem ended_found : ∃ system, runs step idle endedRun = some system ∧ ¬ Indexed system := by
  refine ⟨_, rfl, fun indexed => ?_⟩
  obtain ⟨-, uid, process, item, listed, there, -⟩ := indexed.found 5 ⟨0, 5, 5⟩ (by decide)
  have only : (uid, process) ∈ [(process_uid 1 10, 0)] := OrdMap.mem_entries.mpr listed
  cases List.mem_singleton.mp only
  cases there

end TaskExplorer.ThreadIndex
