import TaskExplorer.Tracing
import TaskExplorer.Transition

/-!
# Dump sessions of the helper

The privileged helper serves one request for each connection. `DumpAttach` stops the
threads of a process and answers; they stay stopped until `DumpDetach`, another
`DumpAttach`, or the end of the server loop. What the bytes of a request decode to is
an input, and so is what the kernel answers.
-/

namespace TaskExplorer.HelperSession
open Tracing Transition

/-- What a connection carries. -/
inductive Request where
  /-- Nothing that could be read came. -/
  | unread
  /-- Reading it raises an exception, which nothing catches. -/
  | malformed
  | quit
  | dumpAttach (pid : Nat) (tasks : List Attempt)
  | dumpDetach
  /-- A command that does not trace, or, as `TraceStack`, lets go what it traced. -/
  | other

/-- `g_DumpAttached` and `g_Running`, and what the kernel holds for the helper. -/
structure Helper where
  attached : List Nat
  running : Bool
  ended : Bool
  kernel : Kernel
  /-- The process of the last `DumpAttach` that was accepted; not in the source. -/
  session : Option Nat

def start : Helper := ⟨[], true, false, idle, none⟩

def dump_detach_all (helper : Helper) : Helper :=
  { helper with attached := [], kernel := detach_all helper.kernel helper.attached }

/-- One entry of the task directory. -/
def attach_task (pid : Nat) (helper : Helper) (task : Attempt) : Helper :=
  let (kernel, seen) := attach_thread pid helper.kernel task
  { helper with kernel := kernel, attached := if seen then helper.attached ++ [task.tid] else helper.attached }

def dump_attach (helper : Helper) (pid : Nat) (tasks : List Attempt) : Helper :=
  if pid = 0 then helper
  else tasks.foldl (attach_task pid) { dump_detach_all helper with session := some pid }

/-- `terminate`: the kernel lets go what a dead tracer held. -/
def aborted (helper : Helper) : Helper := { helper with ended := true, kernel := tracer_exits helper.kernel }

def serve_connection (helper : Helper) : Request → Helper
  | .unread => helper
  | .malformed => aborted helper
  | .quit => { helper with running := false }
  | .dumpAttach pid tasks => dump_attach helper pid tasks
  | .dumpDetach => dump_detach_all helper
  | .other => helper

inductive Event where
  | connection (request : Request)
  /-- `SIGTERM`, `SIGINT` or `SIGHUP`. -/
  | terminate
  /-- The idle timeout, or a `poll` that failed. -/
  | giveUp
  /-- The loop finds that it is not to run any more. -/
  | wound

/-- Behind the loop. -/
def leave (helper : Helper) : Helper := { dump_detach_all helper with ended := true }

def step (helper : Helper) (event : Event) : Option Helper :=
  if helper.ended then none
  else
    match event with
    | .connection request => if helper.running then some (serve_connection helper request) else none
    | .terminate => some { helper with running := false }
    | .giveUp => if helper.running then some (leave helper) else none
    | .wound => if helper.running then none else some (leave helper)

/-! ## Sessions -/

/-- Every thread that is interrupted is seen to stop, or has stopped when it is let go. -/
def Stops (_ : Helper) : Event → Prop
  | .connection (.dumpAttach _ tasks) =>
    ∀ task ∈ tasks, task.seize = true → task.interrupt = true → task.wait = .stopped ∨ task.wait = .failed true
  | _ => True

instance (helper : Helper) : ∀ event, Decidable (Stops helper event)
  | .connection (.dumpAttach _ tasks) =>
    inferInstanceAs (Decidable (∀ task ∈ tasks, task.seize = true → task.interrupt = true → task.wait = .stopped ∨ task.wait = .failed true))
  | .connection .unread | .connection .malformed | .connection .quit | .connection .dumpDetach | .connection .other
  | .terminate | .giveUp | .wound => isTrue trivial

/-- The threads that are held are those of the list, all of one process, and every
    stop so far is held or was ended once. -/
structure Sound (helper : Helper) : Prop where
  exact : helper.ended = false → stopped helper.kernel = helper.attached
  owned : ∀ tracee ∈ helper.kernel.tracees, tracee.hold ≠ none → helper.session = some tracee.owner
  once : Ledger helper.kernel
  free : helper.ended = true → stopped helper.kernel = []

theorem sound_start : Sound start :=
  ⟨fun _ => rfl, fun _ member => (List.not_mem_nil member).elim, ledger_idle, fun impossible => by cases impossible⟩

section
variable {helper : Helper}

theorem Sound.detached (sound : Sound helper) (running : helper.ended = false) : stopped (dump_detach_all helper).kernel = [] :=
  detach_all_self (sound.exact running)

theorem Sound.dump_detach_all (sound : Sound helper) (running : helper.ended = false) : Sound (dump_detach_all helper) where
  exact _ := sound.detached running
  owned tracee member := sound.owned tracee ((detach_all_sublist helper.kernel helper.attached).subset member)
  once := sound.once.detach_all helper.attached
  free _ := sound.detached running

/-- What a session has stopped so far. -/
structure Attaching (first helper : Helper) (pid : Nat) : Prop where
  running : helper.ended = false
  session : helper.session = some pid
  exact : stopped helper.kernel = helper.attached
  once : Ledger helper.kernel
  later : first.kernel.next ≤ helper.kernel.next
  own : ∀ tracee ∈ helper.kernel.tracees, ∀ hold, tracee.hold = some hold → tracee.owner = pid ∧ first.kernel.next ≤ hold

theorem attach_thread_next (owner : Nat) (kernel : Kernel) (attempt : Attempt) :
    kernel.next ≤ (attach_thread owner kernel attempt).1.next := by
  by_cases seized : Seized kernel attempt
  · rw [attach_thread_seized seized]
    split_ifs
    · split <;> simp [held]
    · simp [add]
  · simp only [attach_thread_refused seized, Nat.le_refl]

theorem Attaching.attach_task {first : Helper} {pid : Nat} (attaching : Attaching first helper pid) {task : Attempt}
    (stops : task.seize = true → task.interrupt = true → task.wait = .stopped ∨ task.wait = .failed true) :
    Attaching first (attach_task pid helper task) pid where
  running := attaching.running
  session := attaching.session
  exact := by
    have flag := attach_thread_seen pid helper.kernel task
    have list := attach_thread_stopped pid helper.kernel task
    have same : Seized helper.kernel task ∧ Stays task ↔ Seized helper.kernel task ∧ Seen task := by
      constructor
      · rintro ⟨seized, interrupt, wait⟩
        refine ⟨seized, interrupt, ?_⟩
        rcases stops seized.1 interrupt with stopped | late
        · exact .inl stopped
        · rcases wait with stopped | early
          · exact .inl stopped
          · cases late.symm.trans early
      · rintro ⟨seized, interrupt, wait⟩
        refine ⟨seized, interrupt, ?_⟩
        rcases stops seized.1 interrupt with stopped | late
        · exact .inl stopped
        · rcases wait with stopped | gone
          · exact .inl stopped
          · cases late.symm.trans gone
    change stopped (attach_thread pid helper.kernel task).1 =
      if (attach_thread pid helper.kernel task).2 then helper.attached ++ [task.tid] else helper.attached
    rw [list, flag, attaching.exact]
    by_cases stays : Seized helper.kernel task ∧ Stays task
    · simp [stays, same.mp stays]
    · have unseen : ¬ (Seized helper.kernel task ∧ Seen task) := fun seen => stays (same.mpr seen)
      rw [if_neg stays, decide_eq_false unseen]
      simp
  once := attaching.once.attach_thread pid task
  later := Nat.le_trans attaching.later (attach_thread_next pid helper.kernel task)
  own := by
    intro tracee member hold number
    rcases attach_thread_tracees pid helper.kernel task tracee member with old | ⟨-, owner, new⟩
    · exact attaching.own tracee old hold number
    · rw [new hold number]
      exact ⟨owner, attaching.later⟩

theorem Attaching.attach_tasks {first : Helper} {pid : Nat} {tasks : List Attempt} (attaching : Attaching first helper pid)
    (stops : ∀ task ∈ tasks, task.seize = true → task.interrupt = true → task.wait = .stopped ∨ task.wait = .failed true) :
    Attaching first (tasks.foldl (HelperSession.attach_task pid) helper) pid := by
  induction tasks generalizing helper with
  | nil => exact attaching
  | cons task rest ih =>
    exact ih (attaching.attach_task (stops task List.mem_cons_self)) (fun other member => stops other (List.mem_cons_of_mem _ member))

theorem Sound.attaching (sound : Sound helper) (running : helper.ended = false) {pid : Nat} {tasks : List Attempt} (accepted : pid ≠ 0)
    (stops : ∀ task ∈ tasks, task.seize = true → task.interrupt = true → task.wait = .stopped ∨ task.wait = .failed true) :
    Attaching helper (dump_attach helper pid tasks) pid := by
  rw [dump_attach, if_neg accepted]
  apply Attaching.attach_tasks _ stops
  refine ⟨running, rfl, sound.detached running, sound.once.detach_all helper.attached, ?_, ?_⟩
  · exact Nat.le_of_eq (detach_all_next helper.kernel helper.attached).symm
  · intro tracee member hold number
    cases (stopped_nil_hold (sound.detached running) tracee member).symm.trans number

theorem Sound.dump_attach (sound : Sound helper) (running : helper.ended = false) {pid : Nat} {tasks : List Attempt}
    (stops : ∀ task ∈ tasks, task.seize = true → task.interrupt = true → task.wait = .stopped ∨ task.wait = .failed true) :
    Sound (dump_attach helper pid tasks) := by
  by_cases refused : pid = 0
  · rw [HelperSession.dump_attach, if_pos refused]
    exact sound
  · have attaching := sound.attaching running refused stops
    refine ⟨fun _ => attaching.exact, ?_, attaching.once, ?_⟩
    · intro tracee member held
      obtain ⟨hold, number⟩ := Option.ne_none_iff_exists'.mp held
      rw [attaching.session, (attaching.own tracee member hold number).1]
    · intro ended
      cases attaching.running.symm.trans ended

theorem Sound.aborted (sound : Sound helper) : Sound (aborted helper) where
  exact impossible := by cases impossible
  owned tracee member := (List.not_mem_nil member).elim
  once := sound.once.tracer_exits
  free _ := rfl

theorem Sound.leave (sound : Sound helper) (running : helper.ended = false) : Sound (leave helper) :=
  { sound.dump_detach_all running with
    exact := fun impossible => by cases impossible
    free := fun _ => sound.detached running }

theorem step_took {event : Event} {later : Helper} (moved : step helper event = some later) :
    helper.ended = false ∧
      match event with
      | .connection request => later = serve_connection helper request
      | .terminate => later = { helper with running := false }
      | .giveUp | .wound => later = leave helper := by
  unfold step at moved
  by_cases ended : helper.ended = true
  · rw [if_pos ended] at moved
    cases moved
  · rw [if_neg ended] at moved
    refine ⟨by simpa using ended, ?_⟩
    cases event with
    | terminate =>
      cases moved
      rfl
    | connection request =>
      dsimp only at moved
      split_ifs at moved
      cases moved
      rfl
    | giveUp =>
      dsimp only at moved
      split_ifs at moved
      cases moved
      rfl
    | wound =>
      dsimp only at moved
      split_ifs at moved
      cases moved
      rfl

theorem Sound.step (sound : Sound helper) {event : Event} (stops : Stops helper event) {later : Helper}
    (moved : step helper event = some later) : Sound later := by
  obtain ⟨running, took⟩ := step_took moved
  cases event with
  | connection request =>
    dsimp only at took
    subst took
    cases request with
    | unread => exact sound
    | malformed => exact sound.aborted
    | quit => exact ⟨sound.exact, sound.owned, sound.once, sound.free⟩
    | dumpAttach pid tasks => exact sound.dump_attach running stops
    | dumpDetach => exact sound.dump_detach_all running
    | other => exact sound
  | terminate =>
    dsimp only at took
    subst took
    exact ⟨sound.exact, sound.owned, sound.once, sound.free⟩
  | giveUp =>
    dsimp only at took
    subst took
    exact sound.leave running
  | wound =>
    dsimp only at took
    subst took
    exact sound.leave running

end

/-- What an event has let go. -/
def Freed (helper : Helper) : Event → Helper → Prop
  | .connection .dumpDetach, later => stopped later.kernel = []
  | .connection (.dumpAttach pid _), later => pid ≠ 0 → ∀ hold ∈ holds later.kernel, helper.kernel.next ≤ hold
  | .giveUp, later | .wound, later | .connection .malformed, later => stopped later.kernel = []
  | _, _ => True

/-- Two sessions, the second while the first is open, and a signal. -/
def twoSessions : List Event :=
  [.connection (.dumpAttach 7 [⟨7, true, true, .stopped⟩, ⟨8, true, true, .stopped⟩, ⟨9, false, false, .exited⟩]),
    .connection (.dumpAttach 20 [⟨20, true, true, .stopped⟩]), .terminate]

end TaskExplorer.HelperSession
