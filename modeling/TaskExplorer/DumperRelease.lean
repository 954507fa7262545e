import TaskExplorer.Tracing

/-!
# The threads a dump stops

A dump stops the threads of its target itself, and asks the privileged helper to do
so when it got no registers. Whoever stopped them has to let them go on every way out.
What the kernel, the helper and the file answer are inputs.
-/

namespace TaskExplorer.DumperRelease
open Tracing
set_option linter.unusedSimpArgs false

/-- A thread of the target, with what reading its registers gives once it has stopped. -/
structure Task extends Attempt where
  regs : Bool
  fpRegs : Bool
deriving DecidableEq, Repr

structure SThreadState where
  tid : Nat
  attached : Bool
  haveRegs : Bool
  haveFpRegs : Bool
deriving DecidableEq, Repr

/-- What comes back for `DumpAttach`; an answer that is no map has no threads. -/
inductive Reply where
  | unanswered
  | refused
  | info (threads : List SThreadState)
deriving DecidableEq, Repr

/-- How the contents get written. -/
inductive Writing where
  | completed
  | canceled
  | failed
deriving DecidableEq, Repr

/-- One dump. A directory has each of its entries once. -/
structure Dump where
  pid : Nat
  tasks : List Task
  distinct : (tasks.map (fun task => task.tid)).Nodup
  /-- `LinuxHelperNeeded` and the option. -/
  useHelper : Bool
  reply : Reply
  /-- The core file can be opened. -/
  opens : Bool
  writing : Writing

inductive Call where
  | dumpAttach
  | dumpDetach
deriving DecidableEq, Repr

/-- What a dump leaves behind: the threads it traces, and what it sent to the helper. -/
structure Left where
  kernel : Kernel
  calls : List Call
  threads : List SThreadState
  viaHelper : Bool
deriving DecidableEq, Repr

/-- The main thread goes first. -/
def place (pid : Nat) (threads : List SThreadState) (thread : SThreadState) : List SThreadState :=
  if thread.tid = pid then thread :: threads else threads ++ [thread]

/-- Registers are those of a thread that has stopped. -/
def thread_state (task : Task) (seen : Bool) : SThreadState :=
  ⟨task.tid, seen, seen && task.wait = .stopped && task.regs, seen && task.wait = .stopped && task.fpRegs⟩

def stop_thread (pid : Nat) (state : Kernel × List SThreadState) (task : Task) : Kernel × List SThreadState :=
  let attached := attach_thread pid state.1 task.toAttempt
  (attached.1, place pid state.2 (thread_state task attached.2))

def stop_threads (pid : Nat) (tasks : List Task) (state : Kernel × List SThreadState) : Kernel × List SThreadState :=
  tasks.foldl (stop_thread pid) state

def any_regs (threads : List SThreadState) : Bool := threads.any SThreadState.haveRegs

/-- The helper is asked when there are no registers. -/
def ask_helper (dump : Dump) (left : Left) : Left :=
  if !any_regs left.threads && dump.useHelper then
    let asked := { left with calls := left.calls ++ [.dumpAttach] }
    match dump.reply with
    | .info threads =>
      let threads := threads.foldl (place dump.pid) []
      if any_regs threads then { asked with threads := threads, viaHelper := true }
      else { asked with calls := asked.calls ++ [.dumpDetach] }
    | .unanswered => asked
    | .refused => asked
  else left

def release_threads (left : Left) : Left :=
  if left.viaHelper then { left with calls := left.calls ++ [.dumpDetach] }
  else { left with kernel := detach_all left.kernel ((left.threads.filter SThreadState.attached).map SThreadState.tid) }

/-- What the dump says at its end. -/
inductive Finish where
  | cannotWrite
  | canceled
  | completed (anyRegs : Bool)
deriving DecidableEq, Repr

/-- A write that fails ends the dump as one that is cancelled. -/
def finish (writing : Writing) (left : Left) : Finish :=
  match writing with
  | .completed => .completed (any_regs left.threads)
  | .canceled => .canceled
  | .failed => .canceled

def run (dump : Dump) : Left × Finish :=
  let begun := stop_threads dump.pid dump.tasks (idle, [])
  let left := ask_helper dump ⟨begun.1, [], begun.2, false⟩
  if dump.opens then (release_threads left, finish dump.writing left) else (release_threads left, .cannotWrite)

/-! ## Stopping -/

/-- The thread is stopped and not let go before the end. -/
def Held (task : Task) : Prop := task.seize = true ∧ Stays task.toAttempt

instance (task : Task) : Decidable (Held task) := inferInstanceAs (Decidable (_ ∧ _))

/-- The thread counts as attached. -/
def Noticed (task : Task) : Prop := task.seize = true ∧ Seen task.toAttempt

instance (task : Task) : Decidable (Noticed task) := inferInstanceAs (Decidable (_ ∧ _))

def Registers (task : Task) : Prop := task.seize = true ∧ task.interrupt = true ∧ task.wait = .stopped ∧ task.regs = true

instance (task : Task) : Decidable (Registers task) := inferInstanceAs (Decidable (_ ∧ _))

def attachedTids (threads : List SThreadState) : List Nat := (threads.filter SThreadState.attached).map SThreadState.tid

theorem attachedTids_place (pid : Nat) (threads : List SThreadState) (thread : SThreadState) :
    (attachedTids (place pid threads thread)).Perm (attachedTids threads ++ if thread.attached then [thread.tid] else []) := by
  unfold place
  split_ifs with main attached attached
  · simp only [attachedTids, List.filter_cons, attached, if_true, List.map_cons]
    exact (List.perm_append_singleton _ _).symm
  · simp [attachedTids, attached]
  · simp [attachedTids, attached]
  · simp [attachedTids, attached]

theorem any_regs_place (pid : Nat) (threads : List SThreadState) (thread : SThreadState) :
    any_regs (place pid threads thread) = (any_regs threads || thread.haveRegs) := by
  unfold place any_regs
  split_ifs
  · rw [List.any_cons, Bool.or_comm]
  · simp

/-- What the loop over the threads has done. -/
structure Stopped (tasks : List Task) (first last : Kernel × List SThreadState) : Prop where
  held : stopped last.1 = stopped first.1 ++ (tasks.filter (fun task => Held task)).map (fun task => task.tid)
  attached : (attachedTids last.2).Perm (attachedTids first.2 ++ (tasks.filter (fun task => Noticed task)).map (fun task => task.tid))
  regs : any_regs last.2 = (any_regs first.2 || tasks.any (fun task => Registers task))
  ledger : Ledger first.1 → Ledger last.1

theorem stop_threads_stopped (pid : Nat) {tasks : List Task} : ∀ {state : Kernel × List SThreadState},
    (tasks.map (fun task => task.tid)).Nodup → (∀ tracee ∈ state.1.tracees, ∀ task ∈ tasks, tracee.tid ≠ task.tid) →
    Stopped tasks state (stop_threads pid tasks state) := by
  induction tasks with
  | nil =>
    intro state _ _
    exact ⟨by simp [stop_threads], by simp [stop_threads], by simp [stop_threads], fun ledger => ledger⟩
  | cons task rest ih =>
    intro state distinct apart
    have free : traced state.1 task.tid = false := by
      simpa [traced] using fun tracee member => apart tracee member task List.mem_cons_self
    have others : ∀ tracee ∈ (stop_thread pid state task).1.tracees, ∀ other ∈ rest, tracee.tid ≠ other.tid := by
      intro tracee member other among
      rcases attach_thread_tracees pid state.1 task.toAttempt tracee member with old | ⟨same, -⟩
      · exact apart tracee old other (List.mem_cons_of_mem _ among)
      · rw [same]
        intro equal
        exact (List.nodup_cons.mp distinct).1 (List.mem_map.mpr ⟨other, among, equal.symm⟩)
    have below := ih (List.nodup_cons.mp distinct).2 others
    have seized : Seized state.1 task.toAttempt ↔ task.seize = true := by simp [Seized, free]
    have stays : Seized state.1 task.toAttempt ∧ Stays task.toAttempt ↔ Held task := and_congr_left (fun _ => seized)
    have seen : (attach_thread pid state.1 task.toAttempt).2 = decide (Noticed task) := by
      rw [attach_thread_seen]
      exact decide_eq_decide.mpr (and_congr_left (fun _ => seized))
    have placed : (stop_thread pid state task).2 = place pid state.2 (thread_state task (decide (Noticed task))) := by
      rw [← seen]
      rfl
    rw [show stop_threads pid (task :: rest) state = stop_threads pid rest (stop_thread pid state task) from rfl]
    refine ⟨?_, ?_, ?_, fun ledger => below.ledger (ledger.attach_thread pid task.toAttempt)⟩
    · rw [below.held]
      change stopped (attach_thread pid state.1 task.toAttempt).1 ++ _ = _
      rw [attach_thread_stopped, List.append_assoc]
      by_cases held : Held task
      · simp [if_pos (stays.mpr held), held]
      · simp [if_neg (fun both => held (stays.mp both)), held]
    · refine below.attached.trans ?_
      rw [placed]
      refine ((attachedTids_place pid state.2 _).append_right _).trans ?_
      rw [List.append_assoc]
      by_cases noticed : Noticed task
      · simp [thread_state, noticed]
      · simp [thread_state, noticed]
    · have same : (thread_state task (decide (Noticed task))).haveRegs = decide (Registers task) := by
        by_cases isStopped : task.wait = .stopped
        · simp [thread_state, Noticed, Seen, Registers, isStopped, Bool.and_assoc]
        · simp [thread_state, Registers, isStopped]
      rw [below.regs, placed, any_regs_place, same, List.any_cons, Bool.or_assoc]

/-! ## Letting go -/

/-- No thread gave registers and the helper is to be used. -/
def Asked (dump : Dump) : Prop := dump.useHelper = true ∧ ∀ task ∈ dump.tasks, ¬ Registers task

/-- The helper gave registers, and the dump goes on with its threads. -/
def TakenOver (dump : Dump) : Prop := Asked dump ∧ ∃ threads, dump.reply = .info threads ∧ ∃ thread ∈ threads, thread.haveRegs = true

/-- Every stop was ended by one detach, and the helper was told to detach when it had
    answered. -/
structure Released (dump : Dump) (left : Left) : Prop where
  once : ∀ hold < left.kernel.next, left.kernel.released.count hold = 1
  helper : Asked dump → dump.reply ≠ .unanswered → .dumpDetach ∈ left.calls

/-- A thread that is interrupted has stopped when the wait is over, none of them is
    held when the helper takes over, and the helper answers with a map. -/
structure Orderly (dump : Dump) : Prop where
  seen : ∀ task ∈ dump.tasks, task.seize = true → task.interrupt = true → task.wait ≠ .failed false
  free : TakenOver dump → ∀ task ∈ dump.tasks, task.seize = true → task.interrupt = true → task.wait ≠ .stopped
  map : Asked dump → dump.reply ≠ .refused

theorem any_regs_fold (pid : Nat) (threads : List SThreadState) (placed : List SThreadState) :
    any_regs (threads.foldl (place pid) placed) = (any_regs placed || any_regs threads) := by
  induction threads generalizing placed with
  | nil => simp [any_regs]
  | cons thread rest ih =>
    rw [List.foldl_cons, ih, any_regs_place, Bool.or_assoc]
    rfl

section
variable (dump : Dump)

/-- The threads behind the loop. -/
def begun : Kernel × List SThreadState := stop_threads dump.pid dump.tasks (idle, [])

theorem begun_stopped : Stopped dump.tasks (idle, []) (begun dump) :=
  stop_threads_stopped dump.pid dump.distinct (fun _ member => (List.not_mem_nil member).elim)

theorem begun_regs : any_regs (begun dump).2 = true ↔ ∃ task ∈ dump.tasks, Registers task := by
  rw [(begun_stopped dump).regs]
  simp [any_regs]

theorem ask_helper_cases :
    (ask_helper dump ⟨(begun dump).1, [], (begun dump).2, false⟩).kernel = (begun dump).1 ∧
    (TakenOver dump → (ask_helper dump ⟨(begun dump).1, [], (begun dump).2, false⟩).viaHelper = true) ∧
    (¬ TakenOver dump → (ask_helper dump ⟨(begun dump).1, [], (begun dump).2, false⟩).viaHelper = false ∧
      (ask_helper dump ⟨(begun dump).1, [], (begun dump).2, false⟩).threads = (begun dump).2 ∧
      (.dumpDetach ∈ (ask_helper dump ⟨(begun dump).1, [], (begun dump).2, false⟩).calls ↔
        Asked dump ∧ ∃ threads, dump.reply = .info threads)) := by
  by_cases asked : Asked dump
  · have quiet : any_regs (begun dump).2 = false := by
      rw [Bool.eq_false_iff]
      intro some
      obtain ⟨task, member, regs⟩ := (begun_regs dump).mp some
      exact asked.2 task member regs
    have guard : (!any_regs (begun dump).2 && dump.useHelper) = true := by rw [quiet, asked.1]; rfl
    cases answer : dump.reply with
    | unanswered =>
      have mine : ¬ TakenOver dump := by
        rintro ⟨-, threads, info, -⟩
        cases answer.symm.trans info
      simp [ask_helper, guard, answer, mine]
    | refused =>
      have mine : ¬ TakenOver dump := by
        rintro ⟨-, threads, info, -⟩
        cases answer.symm.trans info
      simp [ask_helper, guard, answer, mine]
    | info threads =>
      have fold : any_regs (threads.foldl (place dump.pid) []) = any_regs threads := by
        rw [any_regs_fold]
        rfl
      by_cases regs : any_regs threads = true
      · have taken : TakenOver dump := ⟨asked, threads, answer, by simpa [any_regs] using regs⟩
        simp [ask_helper, guard, answer, fold, regs, taken]
      · have mine : ¬ TakenOver dump := by
          rintro ⟨-, others, info, thread, member, has⟩
          cases answer.symm.trans info
          exact regs (List.any_eq_true.mpr ⟨thread, member, has⟩)
        simp [ask_helper, guard, answer, fold, regs, mine, asked]
  · have guard : (!any_regs (begun dump).2 && dump.useHelper) = false := by
      rw [Bool.eq_false_iff]
      intro both
      rw [Bool.and_eq_true, Bool.not_eq_true'] at both
      refine asked ⟨both.2, fun task member regs => ?_⟩
      have some := (begun_regs dump).mpr ⟨task, member, regs⟩
      rw [both.1] at some
      cases some
    have mine : ¬ TakenOver dump := fun taken => asked taken.1
    simp [ask_helper, guard, mine, asked]

theorem run_left : (run dump).1 = release_threads (ask_helper dump ⟨(begun dump).1, [], (begun dump).2, false⟩) := by
  by_cases opens : dump.opens = true
  · simp only [run, opens, if_true]
    rfl
  · simp only [run, opens, if_false]
    rfl

theorem begun_held (tid : Nat) : tid ∈ stopped (begun dump).1 ↔ ∃ task ∈ dump.tasks, Held task ∧ task.tid = tid := by
  have held : stopped (begun dump).1 = (dump.tasks.filter (fun task => Held task)).map (fun task => task.tid) :=
    (begun_stopped dump).held
  rw [held]
  simp [and_assoc]

theorem begun_nodup : (stopped (begun dump).1).Nodup := by
  have held : stopped (begun dump).1 = (dump.tasks.filter (fun task => Held task)).map (fun task => task.tid) :=
    (begun_stopped dump).held
  rw [held]
  exact dump.distinct.sublist (List.filter_sublist.map _)

theorem begun_attached (tid : Nat) : tid ∈ attachedTids (begun dump).2 ↔ ∃ task ∈ dump.tasks, Noticed task ∧ task.tid = tid := by
  have attached : (attachedTids (begun dump).2).Perm ((dump.tasks.filter (fun task => Noticed task)).map (fun task => task.tid)) :=
    (begun_stopped dump).attached
  rw [attached.mem_iff]
  simp [and_assoc]

theorem detached_iff : stopped (detach_all (begun dump).1 (attachedTids (begun dump).2)) = [] ↔
    ∀ task ∈ dump.tasks, task.seize = true → task.interrupt = true → task.wait ≠ .failed false := by
  rw [detach_all_stopped, (begun_nodup dump).sdiff_eq_filter, List.filter_eq_nil_iff]
  constructor
  · intro none task member seize interrupt failed
    have held := (begun_held dump task.tid).mpr ⟨task, member, ⟨seize, interrupt, .inr failed⟩, rfl⟩
    have seen : task.tid ∈ attachedTids (begun dump).2 := by simpa using none task.tid held
    obtain ⟨other, among, noticed, same⟩ := (begun_attached dump task.tid).mp seen
    cases List.inj_on_of_nodup_map dump.distinct among member same
    rcases noticed.2.2 with stopped | exited
    · cases failed.symm.trans stopped
    · cases failed.symm.trans exited
  · intro none tid member
    obtain ⟨task, among, ⟨seize, interrupt, wait⟩, rfl⟩ := (begun_held dump tid).mp member
    have isStopped : task.wait = .stopped := by
      rcases wait with stopped | failed
      · exact stopped
      · exact absurd failed (none task among seize interrupt)
    simpa using (begun_attached dump task.tid).mpr ⟨task, among, ⟨seize, interrupt, .inl isStopped⟩, rfl⟩

theorem begun_free_iff : stopped (begun dump).1 = [] ↔
    ∀ task ∈ dump.tasks, task.seize = true → task.interrupt = true → task.wait ≠ .failed false ∧ task.wait ≠ .stopped := by
  rw [List.eq_nil_iff_forall_not_mem]
  constructor
  · intro none task member seize interrupt
    constructor
    · intro failed
      exact none task.tid ((begun_held dump task.tid).mpr ⟨task, member, ⟨seize, interrupt, .inr failed⟩, rfl⟩)
    · intro isStopped
      exact none task.tid ((begun_held dump task.tid).mpr ⟨task, member, ⟨seize, interrupt, .inl isStopped⟩, rfl⟩)
  · intro none tid member
    obtain ⟨task, among, ⟨seize, interrupt, wait⟩, rfl⟩ := (begun_held dump tid).mp member
    obtain ⟨notFailed, notStopped⟩ := none task among seize interrupt
    rcases wait with stopped | failed
    · exact notStopped stopped
    · exact notFailed failed

end

/-- A dump lets go what it stopped exactly in the runs that are orderly. -/
theorem dump_releases_iff (dump : Dump) : Released dump (run dump).1 ↔ Orderly dump := by
  obtain ⟨sameKernel, taken, mine⟩ := ask_helper_cases dump
  have ledger : Ledger (begun dump).1 := (begun_stopped dump).ledger ledger_idle
  rw [run_left]
  by_cases replaced : TakenOver dump
  · have via := taken replaced
    obtain ⟨asked, threads, answer, -⟩ := id replaced
    have kernel : (release_threads (ask_helper dump ⟨(begun dump).1, [], (begun dump).2, false⟩)).kernel = (begun dump).1 := by
      rw [release_threads, if_pos via]
      exact sameKernel
    have sent : .dumpDetach ∈ (release_threads (ask_helper dump ⟨(begun dump).1, [], (begun dump).2, false⟩)).calls := by
      rw [release_threads, if_pos via]
      exact List.mem_append_right _ List.mem_cons_self
    have free := ledger.released_iff.trans (begun_free_iff dump)
    constructor
    · rintro ⟨once, -⟩
      rw [kernel] at once
      have all := free.mp once
      refine ⟨fun task member seize interrupt => (all task member seize interrupt).1,
        fun _ task member seize interrupt => (all task member seize interrupt).2, fun _ refused => ?_⟩
      cases answer.symm.trans refused
    · rintro ⟨seen, unheld, -⟩
      refine ⟨?_, fun _ _ => sent⟩
      rw [kernel]
      exact free.mpr (fun task member seize interrupt => ⟨seen task member seize interrupt, unheld replaced task member seize interrupt⟩)
  · obtain ⟨via, sameThreads, sent⟩ := mine replaced
    have kernel : (release_threads (ask_helper dump ⟨(begun dump).1, [], (begun dump).2, false⟩)).kernel =
        detach_all (begun dump).1 (attachedTids (begun dump).2) := by
      rw [release_threads, if_neg (by rw [via]; simp)]
      dsimp only
      rw [sameKernel, sameThreads]
      rfl
    have calls : (release_threads (ask_helper dump ⟨(begun dump).1, [], (begun dump).2, false⟩)).calls =
        (ask_helper dump ⟨(begun dump).1, [], (begun dump).2, false⟩).calls := by
      rw [release_threads, if_neg (by rw [via]; simp)]
    have free := (ledger.detach_all (attachedTids (begun dump).2)).released_iff.trans (detached_iff dump)
    constructor
    · rintro ⟨once, helper⟩
      rw [kernel] at once
      refine ⟨free.mp once, fun impossible => absurd impossible replaced, fun asked refused => ?_⟩
      have answered : dump.reply ≠ .unanswered := by rw [refused]; simp
      have detach := helper asked answered
      rw [calls, sent] at detach
      obtain ⟨-, threads, info⟩ := detach
      cases refused.symm.trans info
    · rintro ⟨seen, -, map⟩
      refine ⟨by rw [kernel]; exact free.mpr seen, fun asked answered => ?_⟩
      rw [calls, sent]
      refine ⟨asked, ?_⟩
      cases answer : dump.reply with
      | unanswered => exact absurd answer answered
      | refused => exact absurd answer (map asked)
      | info threads => exact ⟨threads, rfl⟩

/-- One thread stops but gives no registers, and the helper gives those of another. -/
def takenOver : Dump where
  pid := 7
  tasks := [⟨⟨7, true, true, .stopped⟩, false, false⟩, ⟨⟨8, false, false, .exited⟩, false, false⟩]
  distinct := by decide
  useHelper := true
  reply := .info [⟨7, false, false, false⟩, ⟨8, true, true, true⟩]
  opens := true
  writing := .completed

/-- The thread that this dump has stopped stays so. -/
theorem dump_leaves_stopped : stopped (run takenOver).1.kernel = [7] ∧ (run takenOver).1.kernel.released = [] ∧
    ¬ Released takenOver (run takenOver).1 := by
  refine ⟨rfl, rfl, ?_⟩
  rintro ⟨once, -⟩
  have ended := once 0 (by decide)
  revert ended
  decide

end TaskExplorer.DumperRelease
