import Mathlib

/-!
# Threads held by a tracer

A tracer seizes threads and asks them to stop. A thread that has stopped stays so
until it is detached, and a detach of one that has not stopped is refused. Every stop
gets a number, so that one can say how often it was ended.
-/

namespace TaskExplorer.Tracing

structure Tracee where
  tid : Nat
  /-- The process it is a thread of. -/
  owner : Nat
  /-- The number of the stop, once it has stopped. -/
  hold : Option Nat
deriving DecidableEq, Repr

structure Kernel where
  tracees : List Tracee
  next : Nat
  /-- The stops that a detach has ended. -/
  released : List Nat
deriving DecidableEq, Repr

/-- Nothing is traced. -/
def idle : Kernel := ⟨[], 0, []⟩

/-- What `waitpid` tells about a thread that was interrupted: when it fails, the
    thread stops before or after a detach is tried. -/
inductive Waited where
  | stopped
  | exited
  | failed (before : Bool)
deriving DecidableEq, Repr

/-- The answers that one thread gets for `PTRACE_SEIZE`, `PTRACE_INTERRUPT` and
    `waitpid`. -/
structure Attempt where
  tid : Nat
  seize : Bool
  interrupt : Bool
  wait : Waited
deriving DecidableEq, Repr

/-! ## Calls -/

def stop_first (hold tid : Nat) : List Tracee → List Tracee
  | [] => []
  | tracee :: rest => if tracee.tid = tid then { tracee with hold := some hold } :: rest else tracee :: stop_first hold tid rest

/-- The interrupt takes effect. -/
def stop (kernel : Kernel) (tid : Nat) : Kernel :=
  { kernel with tracees := stop_first kernel.next tid kernel.tracees, next := kernel.next + 1 }

/-- The thread that a detach lets go, with the number of its stop. -/
def resume_first (tid : Nat) : List Tracee → Option (Nat × List Tracee)
  | [] => none
  | tracee :: rest =>
    match tracee.hold with
    | some hold =>
      if tracee.tid = tid then some (hold, rest) else (resume_first tid rest).map (fun found => (found.1, tracee :: found.2))
    | none => (resume_first tid rest).map (fun found => (found.1, tracee :: found.2))

/-- `PTRACE_DETACH`. -/
def detach (kernel : Kernel) (tid : Nat) : Kernel :=
  match resume_first tid kernel.tracees with
  | some (hold, rest) => { kernel with tracees := rest, released := kernel.released ++ [hold] }
  | none => kernel

/-- `PTRACE_DETACH` for one thread after the other. -/
def detach_all (kernel : Kernel) (tids : List Nat) : Kernel := tids.foldl detach kernel

/-- The thread is gone. -/
def exits (kernel : Kernel) (tid : Nat) : Kernel := { kernel with tracees := kernel.tracees.filter (fun tracee => tracee.tid ≠ tid) }

def add (kernel : Kernel) (owner tid : Nat) : Kernel := { kernel with tracees := kernel.tracees ++ [⟨tid, owner, none⟩] }

def traced (kernel : Kernel) (tid : Nat) : Bool := kernel.tracees.any (fun tracee => tracee.tid = tid)

/-- Seizes a thread and waits for it to stop, and lets it go unless the wait saw it. A
    thread that is traced already is not seized. -/
def attach_thread (owner : Nat) (kernel : Kernel) (attempt : Attempt) : Kernel × Bool :=
  if attempt.seize ∧ !traced kernel attempt.tid then
    let seized := add kernel owner attempt.tid
    if attempt.interrupt then
      match attempt.wait with
      | .stopped => (stop seized attempt.tid, true)
      | .exited => (exits seized attempt.tid, true)
      | .failed true => (detach (stop seized attempt.tid) attempt.tid, false)
      | .failed false => (stop (detach seized attempt.tid) attempt.tid, false)
    else (detach seized attempt.tid, false)
  else (kernel, false)

/-- The tracer has ended, and what it traced goes on. -/
def tracer_exits (kernel : Kernel) : Kernel :=
  { kernel with tracees := [], released := kernel.released ++ kernel.tracees.filterMap Tracee.hold }

/-! ## What is held -/

def stopped (kernel : Kernel) : List Nat := (kernel.tracees.filter (fun tracee => tracee.hold.isSome)).map Tracee.tid

def holds (kernel : Kernel) : List Nat := kernel.tracees.filterMap Tracee.hold

/-- Every stop is held, or was ended exactly once. -/
def Ledger (kernel : Kernel) : Prop :=
  ∀ hold, (hold < kernel.next → (holds kernel).count hold + kernel.released.count hold = 1) ∧
    (kernel.next ≤ hold → (holds kernel).count hold + kernel.released.count hold = 0)

theorem ledger_idle : Ledger idle := by
  intro hold
  simp [holds, idle]

variable {tracees : List Tracee}

theorem resume_first_holds {tid hold : Nat} {rest : List Tracee} (found : resume_first tid tracees = some (hold, rest))
    : (tracees.filterMap Tracee.hold).Perm (hold :: rest.filterMap Tracee.hold) := by
  induction tracees generalizing rest with
  | nil => cases found
  | cons tracee others ih =>
    cases held : tracee.hold with
    | none =>
      simp only [resume_first, held] at found
      obtain ⟨inner, isInner, same⟩ := Option.map_eq_some_iff.mp found
      cases same
      have below := ih isInner
      simpa [held] using below
    | some number =>
      simp only [resume_first, held] at found
      split_ifs at found with here
      · cases found
        simp [held]
      · obtain ⟨inner, isInner, same⟩ := Option.map_eq_some_iff.mp found
        cases same
        have below := ih isInner
        simp only [List.filterMap_cons, held]
        exact (below.cons number).trans (List.Perm.swap _ _ _)

theorem resume_first_stopped (tid : Nat) (tracees : List Tracee) :
    (((resume_first tid tracees).map Prod.snd).getD tracees |>.filter (fun tracee => tracee.hold.isSome)).map Tracee.tid =
      ((tracees.filter (fun tracee => tracee.hold.isSome)).map Tracee.tid).erase tid := by
  induction tracees with
  | nil => rfl
  | cons tracee rest ih =>
    cases held : tracee.hold with
    | none =>
      cases found : resume_first tid rest with
      | none =>
        rw [found] at ih
        simpa [resume_first, held, found] using ih
      | some pair =>
        rw [found] at ih
        simpa [resume_first, held, found] using ih
    | some number =>
      by_cases here : tracee.tid = tid
      · simp [resume_first, held, here]
      · cases found : resume_first tid rest with
        | none =>
          rw [found] at ih
          simpa [resume_first, held, found, here, List.erase_cons_tail] using ih
        | some pair =>
          rw [found] at ih
          simpa [resume_first, held, found, here, List.erase_cons_tail] using ih

theorem resume_first_sublist {tid hold : Nat} {rest : List Tracee}
    (found : resume_first tid tracees = some (hold, rest)) : rest.Sublist tracees := by
  induction tracees generalizing rest with
  | nil => cases found
  | cons tracee others ih =>
    cases held : tracee.hold with
    | none =>
      simp only [resume_first, held] at found
      obtain ⟨inner, isInner, same⟩ := Option.map_eq_some_iff.mp found
      cases same
      exact (ih isInner).cons_cons tracee
    | some number =>
      simp only [resume_first, held] at found
      split_ifs at found with here
      · cases found
        exact List.sublist_cons_self tracee others
      · obtain ⟨inner, isInner, same⟩ := Option.map_eq_some_iff.mp found
        cases same
        exact (ih isInner).cons_cons tracee

/-! ## Detaching -/

theorem detach_stopped (kernel : Kernel) (tid : Nat) : stopped (detach kernel tid) = (stopped kernel).erase tid := by
  have erased := resume_first_stopped tid kernel.tracees
  unfold detach stopped
  cases found : resume_first tid kernel.tracees with
  | none =>
    rw [found] at erased
    exact erased
  | some pair =>
    rw [found] at erased
    exact erased

theorem detach_sublist (kernel : Kernel) (tid : Nat) : (detach kernel tid).tracees.Sublist kernel.tracees := by
  unfold detach
  cases found : resume_first tid kernel.tracees with
  | none => exact List.Sublist.refl _
  | some pair => exact resume_first_sublist found

theorem detach_next (kernel : Kernel) (tid : Nat) : (detach kernel tid).next = kernel.next := by
  unfold detach
  split <;> rfl

theorem Ledger.detach {kernel : Kernel} (ledger : Ledger kernel) (tid : Nat) : Ledger (detach kernel tid) := by
  intro hold
  have before := ledger hold
  unfold Tracing.detach
  cases found : resume_first tid kernel.tracees with
  | none => exact before
  | some pair =>
    have moved := (resume_first_holds found).count_eq hold
    simp only [holds, List.count_append] at before ⊢
    rw [moved, List.count_cons] at before
    rw [List.count_cons, List.count_nil]
    omega

theorem detach_all_stopped (kernel : Kernel) (tids : List Nat) : stopped (detach_all kernel tids) = (stopped kernel).diff tids := by
  induction tids generalizing kernel with
  | nil => rfl
  | cons tid rest ih =>
    rw [detach_all, List.foldl_cons, ← detach_all, ih, detach_stopped, List.diff_cons]

theorem Ledger.detach_all {kernel : Kernel} (ledger : Ledger kernel) (tids : List Nat) : Ledger (detach_all kernel tids) := by
  induction tids generalizing kernel with
  | nil => exact ledger
  | cons tid rest ih => exact ih (ledger.detach tid)

theorem detach_all_sublist (kernel : Kernel) (tids : List Nat) : (detach_all kernel tids).tracees.Sublist kernel.tracees := by
  induction tids generalizing kernel with
  | nil => exact List.Sublist.refl _
  | cons tid rest ih => exact (ih (detach kernel tid)).trans (detach_sublist kernel tid)

theorem detach_all_next (kernel : Kernel) (tids : List Nat) : (detach_all kernel tids).next = kernel.next := by
  induction tids generalizing kernel with
  | nil => rfl
  | cons tid rest ih => exact (ih (detach kernel tid)).trans (detach_next kernel tid)

theorem detach_all_self {kernel : Kernel} {tids : List Nat} (all : stopped kernel = tids) : stopped (detach_all kernel tids) = [] := by
  have itself (list : List Nat) : list.diff list = [] := by
    induction list with
    | nil => rfl
    | cons head rest ih => rw [List.diff_cons, List.erase_cons_head, ih]
  rw [detach_all_stopped, all, itself]

theorem Ledger.tracer_exits {kernel : Kernel} (ledger : Ledger kernel) : Ledger (tracer_exits kernel) := by
  intro hold
  have before := ledger hold
  simp only [Tracing.tracer_exits, holds, List.filterMap_nil, List.count_nil, List.count_append] at before ⊢
  omega

theorem stopped_nil_hold {kernel : Kernel} (none : stopped kernel = []) : ∀ tracee ∈ kernel.tracees, tracee.hold = .none := by
  intro tracee member
  cases held : tracee.hold with
  | none => rfl
  | some hold =>
    have among : tracee.tid ∈ stopped kernel :=
      List.mem_map.mpr ⟨tracee, List.mem_filter.mpr ⟨member, by simp [held]⟩, rfl⟩
    rw [none] at among
    cases among

theorem Ledger.released_iff {kernel : Kernel} (ledger : Ledger kernel) :
    (∀ hold < kernel.next, kernel.released.count hold = 1) ↔ stopped kernel = [] := by
  constructor
  · intro ended
    apply List.eq_nil_iff_forall_not_mem.mpr
    intro tid member
    obtain ⟨tracee, among, -⟩ := List.mem_map.mp member
    obtain ⟨there, some⟩ := List.mem_filter.mp among
    obtain ⟨hold, number⟩ := Option.isSome_iff_exists.mp some
    have positive : 0 < (holds kernel).count hold := List.count_pos_iff.mpr (List.mem_filterMap.mpr ⟨tracee, there, number⟩)
    have balance := ledger hold
    have once := ended hold
    omega
  · intro none hold before
    have empty : (holds kernel).count hold = 0 := by
      apply List.count_eq_zero.mpr
      intro member
      obtain ⟨tracee, among, number⟩ := List.mem_filterMap.mp member
      cases (stopped_nil_hold none tracee among).symm.trans number
    have balance := (ledger hold).1 before
    omega

/-! ## Attaching -/

theorem not_traced {kernel : Kernel} {tid : Nat} (free : traced kernel tid = false) : ∀ tracee ∈ kernel.tracees, tracee.tid ≠ tid := by
  simpa [traced] using free

theorem stop_first_append {hold tid : Nat} (free : ∀ tracee ∈ tracees, tracee.tid ≠ tid) (owner : Nat) :
    stop_first hold tid (tracees ++ [⟨tid, owner, none⟩]) = tracees ++ [⟨tid, owner, some hold⟩] := by
  induction tracees with
  | nil => simp [stop_first]
  | cons tracee rest ih =>
    have differs : tracee.tid ≠ tid := free tracee List.mem_cons_self
    rw [List.cons_append, stop_first, if_neg differs, ih (fun other member => free other (List.mem_cons_of_mem _ member)), List.cons_append]

theorem resume_first_free {tid : Nat} (free : ∀ tracee ∈ tracees, tracee.tid ≠ tid) (last : Tracee) :
    resume_first tid (tracees ++ [last]) = (resume_first tid [last]).map (fun found => (found.1, tracees ++ found.2)) := by
  induction tracees with
  | nil => simp
  | cons tracee rest ih =>
    have differs : tracee.tid ≠ tid := free tracee List.mem_cons_self
    have below := ih (fun other member => free other (List.mem_cons_of_mem _ member))
    cases held : tracee.hold with
    | none => simp [resume_first, held, below, Function.comp_def]
    | some number => simp [resume_first, held, below, differs, Function.comp_def]

section
variable {kernel : Kernel} {tid : Nat} (free : traced kernel tid = false) (owner : Nat)
include free

theorem stop_add : stop (add kernel owner tid) tid =
    { kernel with tracees := kernel.tracees ++ [⟨tid, owner, some kernel.next⟩], next := kernel.next + 1 } := by
  simp only [stop, add, stop_first_append (not_traced free)]

theorem detach_add : detach (add kernel owner tid) tid = add kernel owner tid := by
  simp only [detach, add, resume_first_free (not_traced free), resume_first, Option.map_none]

theorem detach_stop_add : detach (stop (add kernel owner tid) tid) tid =
    { kernel with next := kernel.next + 1, released := kernel.released ++ [kernel.next] } := by
  rw [stop_add free]
  simp only [detach, resume_first_free (not_traced free), resume_first, if_true, Option.map_some, List.append_nil]

theorem exits_add : exits (add kernel owner tid) tid = kernel := by
  have same : kernel.tracees.filter (fun tracee => decide (tracee.tid ≠ tid)) = kernel.tracees := by
    apply List.filter_eq_self.mpr
    intro tracee member
    simpa using not_traced free tracee member
  simp only [exits, add, List.filter_append, same]
  simp

end

/-- The thread has stopped, and nothing has let it go. -/
def Stays (attempt : Attempt) : Prop := attempt.interrupt = true ∧ (attempt.wait = .stopped ∨ attempt.wait = .failed false)

instance (attempt : Attempt) : Decidable (Stays attempt) := inferInstanceAs (Decidable (_ ∧ _))

/-- The wait told of the thread. -/
def Seen (attempt : Attempt) : Prop := attempt.interrupt = true ∧ (attempt.wait = .stopped ∨ attempt.wait = .exited)

instance (attempt : Attempt) : Decidable (Seen attempt) := inferInstanceAs (Decidable (_ ∧ _))

def Seized (kernel : Kernel) (attempt : Attempt) : Prop := attempt.seize = true ∧ traced kernel attempt.tid = false

instance (kernel : Kernel) (attempt : Attempt) : Decidable (Seized kernel attempt) := inferInstanceAs (Decidable (_ ∧ _))

/-- The thread as it is held. -/
def held (kernel : Kernel) (owner tid : Nat) : Kernel :=
  { kernel with tracees := kernel.tracees ++ [⟨tid, owner, some kernel.next⟩], next := kernel.next + 1 }

theorem attach_thread_refused {kernel : Kernel} {attempt : Attempt} (refused : ¬ Seized kernel attempt) (owner : Nat) :
    attach_thread owner kernel attempt = (kernel, false) := by
  rw [attach_thread, if_neg]
  rintro ⟨granted, free⟩
  exact refused ⟨granted, by simpa using free⟩

theorem attach_thread_seized {kernel : Kernel} {attempt : Attempt} (seized : Seized kernel attempt) (owner : Nat) :
    attach_thread owner kernel attempt =
      if attempt.interrupt = true then
        match attempt.wait with
        | .stopped => (held kernel owner attempt.tid, true)
        | .exited => (kernel, true)
        | .failed true => ({ kernel with next := kernel.next + 1, released := kernel.released ++ [kernel.next] }, false)
        | .failed false => (held kernel owner attempt.tid, false)
      else (add kernel owner attempt.tid, false) := by
  obtain ⟨granted, free⟩ := seized
  rw [attach_thread, if_pos ⟨granted, by simp [free]⟩]
  dsimp only
  rw [detach_stop_add free, detach_add free, stop_add free, exits_add free]
  rfl

theorem stopped_held (kernel : Kernel) (owner tid : Nat) : stopped (held kernel owner tid) = stopped kernel ++ [tid] := by
  simp [stopped, held]

theorem stopped_add (kernel : Kernel) (owner tid : Nat) : stopped (add kernel owner tid) = stopped kernel := by
  simp [stopped, add]

theorem attach_thread_stopped (owner : Nat) (kernel : Kernel) (attempt : Attempt) :
    stopped (attach_thread owner kernel attempt).1 =
      stopped kernel ++ (if Seized kernel attempt ∧ Stays attempt then [attempt.tid] else []) := by
  by_cases seized : Seized kernel attempt
  · rw [attach_thread_seized seized]
    by_cases interrupt : attempt.interrupt = true
    · rw [if_pos interrupt]
      cases wait : attempt.wait with
      | stopped => simp [seized, Stays, interrupt, wait, stopped_held]
      | exited => simp [Stays, wait]
      | failed before =>
        cases before with
        | true => simp [Stays, wait, stopped]
        | false => simp [seized, Stays, interrupt, wait, stopped_held]
    · rw [if_neg interrupt, stopped_add]
      simp [Stays, interrupt]
  · rw [attach_thread_refused seized]
    simp [seized]

theorem attach_thread_seen (owner : Nat) (kernel : Kernel) (attempt : Attempt) :
    (attach_thread owner kernel attempt).2 = decide (Seized kernel attempt ∧ Seen attempt) := by
  by_cases seized : Seized kernel attempt
  · rw [attach_thread_seized seized]
    by_cases interrupt : attempt.interrupt = true
    · rw [if_pos interrupt]
      cases wait : attempt.wait with
      | stopped => simp [seized, Seen, interrupt, wait]
      | exited => simp [seized, Seen, interrupt, wait]
      | failed before => cases before <;> simp [Seen, wait]
    · rw [if_neg interrupt]
      simp [Seen, interrupt]
  · rw [attach_thread_refused seized]
    simp [seized]

theorem Ledger.held {kernel : Kernel} (ledger : Ledger kernel) (owner tid : Nat) : Ledger (held kernel owner tid) := by
  intro hold
  have before := ledger hold
  simp only [holds, Tracing.held, List.filterMap_append, List.filterMap_cons, List.filterMap_nil, List.count_append, List.count_cons,
    List.count_nil, beq_iff_eq] at before ⊢
  split_ifs <;> omega

theorem Ledger.attach_thread {kernel : Kernel} (ledger : Ledger kernel) (owner : Nat) (attempt : Attempt) :
    Ledger (attach_thread owner kernel attempt).1 := by
  by_cases seized : Seized kernel attempt
  · rw [attach_thread_seized seized]
    by_cases interrupt : attempt.interrupt = true
    · rw [if_pos interrupt]
      cases attempt.wait with
      | stopped => exact ledger.held owner attempt.tid
      | exited => exact ledger
      | failed before =>
        cases before with
        | true =>
          intro hold
          have before := ledger hold
          simp only [holds, List.count_append, List.count_cons, List.count_nil, beq_iff_eq] at before ⊢
          split_ifs <;> omega
        | false => exact ledger.held owner attempt.tid
    · rw [if_neg interrupt]
      intro hold
      have before := ledger hold
      simpa [holds, add] using before
  · rw [attach_thread_refused seized]
    exact ledger

theorem attach_thread_tracees (owner : Nat) (kernel : Kernel) (attempt : Attempt) :
    ∀ tracee ∈ (attach_thread owner kernel attempt).1.tracees, tracee ∈ kernel.tracees ∨
      (tracee.tid = attempt.tid ∧ tracee.owner = owner ∧ ∀ hold, tracee.hold = some hold → hold = kernel.next) := by
  intro tracee member
  have last {new : Tracee} (among : tracee ∈ kernel.tracees ++ [new]) (tid : new.tid = attempt.tid) (owned : new.owner = owner)
      (number : ∀ hold, new.hold = some hold → hold = kernel.next) : tracee ∈ kernel.tracees ∨
      (tracee.tid = attempt.tid ∧ tracee.owner = owner ∧ ∀ hold, tracee.hold = some hold → hold = kernel.next) := by
    rcases List.mem_append.mp among with old | new
    · exact .inl old
    · rw [List.mem_singleton.mp new]
      exact .inr ⟨tid, owned, number⟩
  by_cases seized : Seized kernel attempt
  · rw [attach_thread_seized seized] at member
    by_cases interrupt : attempt.interrupt = true
    · rw [if_pos interrupt] at member
      cases wait : attempt.wait with
      | stopped =>
        rw [wait] at member
        exact last member rfl rfl (fun _ same => (Option.some.inj same).symm)
      | exited =>
        rw [wait] at member
        exact .inl member
      | failed before =>
        rw [wait] at member
        cases before with
        | true => exact .inl member
        | false => exact last member rfl rfl (fun _ same => (Option.some.inj same).symm)
    · rw [if_neg interrupt] at member
      exact last member rfl rfl (fun _ impossible => by cases impossible)
  · rw [attach_thread_refused seized] at member
    exact .inl member

end TaskExplorer.Tracing
