import TaskExplorer.Codec
import TaskExplorer.DnsCache

/-!
# Starting a program

`ForkAndExec` forks a middle process, which forks the one that becomes the program. The caller
reads a pipe until its end: what does not become the program writes the stage that failed, and
a program that runs has closed the pipe. A program that is to be suspended asks the middle
process to trace it, stops behind its exec and is let go with a stop. One system call of one
process is a step; no signal comes from anywhere else.
-/

namespace TaskExplorer.ForkExec
open Codec Transition
open DnsCache (arg)

abbrev Text := List Char

abbrev Errno := UInt32

/-! ## The call -/

structure passwd where
  pw_name : Text
deriving DecidableEq, Repr

structure Call where
  Program : Text
  bSuspended : Bool
  pAs : Option passwd
deriving DecidableEq, Repr

/-- `QProcess::splitCommand` and `strerror`. -/
structure Platform where
  splitCommand : Text → List Text
  strerror : Errno → Text

/-- `SplitCommand`; the arguments have no part in the outcome. -/
def Executable (platform : Platform) (call : Call) : Text := (platform.splitCommand call.Program).headD []

def User (call : Call) : Text := call.pAs.elim [] passwd.pw_name

inductive EChildStage where
  | eStageGroups
  | eStageGid
  | eStageUid
  | eStageExec
  | eStageFork
deriving DecidableEq, Repr

def EChildStage.code : EChildStage → Nat
  | eStageGroups => 1
  | eStageGid => 2
  | eStageUid => 3
  | eStageExec => 4
  | eStageFork => 5

/-- Two ints, as `ChildFailed` writes them. -/
def Record (stage : EChildStage) (error : Errno) : Bytes := leBytes 4 stage.code ++ leBytes 4 error.toNat

inductive STATUS where
  | OK
  | ERR (TE_Message : Text)
deriving DecidableEq, Repr

def pipeFailed (platform : Platform) (error : Errno) : STATUS := .ERR (arg "pipe failed: %1".toList (platform.strerror error))

def forkFailed (platform : Platform) (error : Errno) : STATUS := .ERR (arg "fork failed: %1".toList (platform.strerror error))

def unableToRunAs (platform : Platform) (call : Call) (error : Errno) : STATUS :=
  .ERR (arg (arg "Unable to run as %1: %2".toList (User call)) (platform.strerror error))

def unableToStart (platform : Platform) (call : Call) (error : Errno) : STATUS :=
  .ERR (arg (arg "Unable to start %1: %2".toList (Executable platform call)) (platform.strerror error))

def noProgram : STATUS := .ERR "No program was given.".toList

/-- What the caller makes of the bytes it got. -/
def result (platform : Platform) (call : Call) (Got : Bytes) : STATUS :=
  if Got.length = 8 then
    let stage := leNat (Got.take 4)
    let error := UInt32.ofNat (leNat (Got.drop 4))
    if stage = 1 ∨ stage = 2 ∨ stage = 3 then unableToRunAs platform call error
    else if stage = 4 then unableToStart platform call error
    else forkFailed platform error
  else .OK

/-! ## The processes -/

/-- Where the caller is. -/
inductive Caller where
  | start
  | pipe
  | fork
  | close
  | read (Got : Bytes)
  | closeRead (Got : Bytes)
  | waitpid (Got : Bytes)
  | returned (status : STATUS)
deriving DecidableEq, Repr

/-- Where the middle process is. -/
inductive Middle where
  | unborn
  | closeRead
  | fork
  | failed (error : Errno)
  | told
  | close
  | waitpid
  | detach
  | exit
  | zombie
  | reaped
deriving DecidableEq, Repr

/-- Where the process is that becomes the program. It is `held` when it has stopped itself before
its exec; behind the exec it is `trapped` for its tracer, `stopped` without one, or `running`. -/
inductive Child where
  | unborn
  | initgroups
  | setgid
  | setuid
  | traceme
  | raise
  | held
  | execvp (traced : Bool)
  | failed (stage : EChildStage) (error : Errno)
  | told
  | exited
  | trapped
  | stopped
  | running
deriving DecidableEq, Repr

def Child.isProgram : Child → Bool
  | trapped | stopped | running => true
  | _ => false

/-- The write end of the pipe is open. -/
def Caller.writes : Caller → Bool
  | fork | close => true
  | _ => false

def Middle.writes : Middle → Bool
  | closeRead | fork | failed _ | told | close => true
  | _ => false

def Child.writes : Child → Bool
  | initgroups | setgid | setuid | traceme | raise | held | execvp _ | failed _ _ | told => true
  | _ => false

/-- The read end of the pipe is open. -/
def Caller.reads : Caller → Bool
  | fork | close | read _ | closeRead _ => true
  | _ => false

def Middle.reads : Middle → Bool
  | closeRead => true
  | _ => false

/-- A stage that failed. -/
inductive Failure where
  | program
  | pipe (error : Errno)
  | fork (error : Errno)
  | child (stage : EChildStage) (error : Errno)
deriving DecidableEq, Repr

structure State where
  caller : Caller := .start
  middle : Middle := .unborn
  child : Child := .unborn
  /-- What is written to the pipe and not read. -/
  pipe : Bytes := []
  /-- The stage that failed; no process looks here. -/
  failed : Option Failure := none
deriving DecidableEq, Repr

def State.writers (s : State) : Bool := s.caller.writes || s.middle.writes || s.child.writes

def State.readers (s : State) : Bool := s.caller.reads || s.middle.reads

/-! ## Steps -/

/-- The calls whose outcome is not given by the state carry their error. -/
inductive Event where
  | splitCommand
  | pipe (error : Option Errno)
  | fork (error : Option Errno)
  | close
  | read (count : Nat)
  | closeRead
  | waitpid
  | middleCloseRead
  | middleFork (error : Option Errno)
  | middleFailed
  | middleClose
  | middleWaitpid
  | detach (error : Option Errno)
  | middleExit
  | initgroups (error : Option Errno)
  | setgid (error : Option Errno)
  | setuid (error : Option Errno)
  | traceme (error : Option Errno)
  | raise
  | execvp (error : Option Errno)
  | childFailed
  | childExit
deriving DecidableEq, Repr

section Steps
variable (platform : Platform) (call : Call)

/-- The status of a call that ends before there is another process, or of a stage of these. -/
def Failure.status : Failure → STATUS
  | .program => noProgram
  | .pipe error => pipeFailed platform error
  | .fork error => forkFailed platform error
  | .child stage error =>
    match stage with
    | .eStageGroups | .eStageGid | .eStageUid => unableToRunAs platform call error
    | .eStageExec => unableToStart platform call error
    | .eStageFork => forkFailed platform error

/-- The caller returns before it has forked. -/
def refuse (s : State) (failure : Failure) : State :=
  { s with caller := .returned (failure.status platform call), failed := some failure }

/-- The first stage of the child, and what follows when the user is changed. -/
def firstStage : Child := if call.pAs.isSome then .initgroups else if call.bSuspended then .traceme else .execvp false

def afterUser : Child := if call.bSuspended then .traceme else .execvp false

/-- What `ChildFailed` writes; without a reader there is nothing but a signal. -/
def tell (s : State) (stage : EChildStage) (error : Errno) : Bytes := if s.readers then s.pipe ++ Record stage error else s.pipe

/-- The child does `next` when it is at `place` and the call succeeds; otherwise it fails at the stage. -/
def childStage (s : State) (place next : Child) (stage : EChildStage) (error : Option Errno) : Option State :=
  if s.child = place then
    match error with
    | none => some { s with child := next }
    | some error => some { s with child := .failed stage error, failed := some (.child stage error) }
  else none

/-- One system call of one process. -/
def step (s : State) : Event → Option State
  | .splitCommand =>
    if s.caller = .start then
      if (Executable platform call).isEmpty then some (refuse platform call s .program) else some { s with caller := .pipe }
    else none
  | .pipe error =>
    if s.caller = .pipe then
      match error with
      | none => some { s with caller := .fork }
      | some error => some (refuse platform call s (.pipe error))
    else none
  | .fork error =>
    if s.caller = .fork then
      match error with
      | none => some { s with caller := .close, middle := .closeRead }
      | some error => some (refuse platform call s (.fork error))
    else none
  | .close => if s.caller = .close then some { s with caller := .read [] } else none
  | .read count =>
    match s.caller with
    | .read Got =>
      if Got.length < 8 then
        if 0 < count ∧ count ≤ s.pipe.length ∧ count ≤ 8 - Got.length then
          some { s with caller := .read (Got ++ s.pipe.take count), pipe := s.pipe.drop count }
        else if count = 0 ∧ s.pipe = [] ∧ s.writers = false then some { s with caller := .closeRead Got }
        else none
      else some { s with caller := .closeRead Got }
    | _ => none
  | .closeRead =>
    match s.caller with
    | .closeRead Got => some { s with caller := .waitpid Got }
    | _ => none
  | .waitpid =>
    match s.caller with
    | .waitpid Got =>
      if s.middle = .zombie then some { s with caller := .returned (result platform call Got), middle := .reaped } else none
    | _ => none
  | .middleCloseRead => if s.middle = .closeRead then some { s with middle := .fork } else none
  | .middleFork error =>
    if s.middle = .fork then
      match error with
      | none => some { s with middle := .close, child := firstStage call }
      | some error => some { s with middle := .failed error, failed := some (.child .eStageFork error) }
    else none
  | .middleFailed =>
    match s.middle with
    | .failed error => some { s with middle := .told, pipe := tell s .eStageFork error }
    | _ => none
  | .middleClose =>
    if s.middle = .close then some { s with middle := if call.bSuspended then .waitpid else .exit } else none
  | .middleWaitpid =>
    if s.middle = .waitpid then
      if s.child = .held ∨ s.child = .trapped then some { s with middle := .detach }
      else if s.child = .exited then some { s with middle := .exit }
      else none
    else none
  | .detach error =>
    if s.middle = .detach then
      match error with
      | none => if s.child = .trapped then some { s with middle := .exit, child := .stopped } else none
      | some _ => some { s with middle := .exit }
    else none
  -- a tracer that exits lets what it traces run
  | .middleExit =>
    if s.middle = .told then some { s with middle := .zombie }
    else if s.middle = .exit then some { s with middle := .zombie, child := if s.child = .trapped then .running else s.child }
    else none
  | .initgroups error => childStage s .initgroups .setgid .eStageGroups error
  | .setgid error => childStage s .setgid .setuid .eStageGid error
  | .setuid error => childStage s .setuid (afterUser call) .eStageUid error
  | .traceme error =>
    if s.child = .traceme then some { s with child := if error.isNone then .execvp true else .raise } else none
  | .raise => if s.child = .raise then some { s with child := .held } else none
  | .execvp error =>
    match s.child with
    | .execvp traced => childStage s (.execvp traced) (if traced then .trapped else .running) .eStageExec error
    | _ => none
  | .childFailed =>
    match s.child with
    | .failed stage error => some { s with child := .told, pipe := tell s stage error }
    | _ => none
  | .childExit => if s.child = .told then some { s with child := .exited } else none

end Steps

/-! ## What the two processes do -/

/-! ## Where the processes can be -/

/-- Where the middle process is while the child has not stopped or ended. -/
def Beside (suspended : Bool) (m : Middle) : Prop :=
  m = .close ∨ if suspended then m = .waitpid else m = .exit ∨ m = .zombie ∨ m = .reaped

/-- The middle process is where the child needs it to be. -/
def Shape (suspended : Bool) (m : Middle) : Child → Prop
  | .unborn => m ≠ .close ∧ m ≠ .waitpid ∧ m ≠ .detach ∧ m ≠ .exit
  | .initgroups | .setgid | .setuid | .failed _ _ | .told => Beside suspended m
  | .traceme | .raise => suspended = true ∧ Beside suspended m
  | .execvp traced => traced = suspended ∧ Beside suspended m
  | .held => suspended = true ∧ m ≠ .unborn ∧ m ≠ .closeRead ∧ m ≠ .fork ∧ m ≠ .told ∧ ∀ error, m ≠ .failed error
  | .exited => m = .close ∨ (suspended = true ∧ m = .waitpid) ∨ m = .exit ∨ m = .zombie ∨ m = .reaped
  | .trapped => suspended = true ∧ (m = .close ∨ m = .waitpid ∨ m = .detach ∨ m = .exit)
  | .stopped => suspended = true ∧ (m = .exit ∨ m = .zombie ∨ m = .reaped)
  | .running => (suspended = false ∧ (m = .close ∨ m = .exit)) ∨ m = .zombie ∨ m = .reaped

/-- What was written of the stage that failed. -/
def Reports (m : Middle) (c : Child) (failed : Option Failure) (sent : Bytes) : Prop :=
  match c with
  | .failed stage error => failed = some (.child stage error) ∧ sent = []
  | .told | .exited => ∃ stage error, failed = some (.child stage error) ∧ sent = Record stage error
  | .unborn =>
    match m with
    | .failed error => failed = some (.child .eStageFork error) ∧ sent = []
    | .told | .zombie | .reaped => ∃ error, failed = some (.child .eStageFork error) ∧ sent = Record .eStageFork error
    | _ => failed = none ∧ sent = []
  | _ => failed = none ∧ sent = []

/-- All is read: a record, or the pipe up to its end. -/
def Done (s : State) (Got : Bytes) : Prop := Got.length = 8 ∨ (s.pipe = [] ∧ s.middle.writes = false ∧ s.child.writes = false)

/-- Where the caller is, and what it has read. -/
def Phase (platform : Platform) (call : Call) (s : State) : Prop :=
  match s.caller with
  | .start | .pipe | .fork => s.middle = .unborn ∧ s.child = .unborn ∧ Reports s.middle s.child s.failed s.pipe
  | .close => s.middle ≠ .unborn ∧ s.middle ≠ .reaped ∧ Reports s.middle s.child s.failed s.pipe
  | .read Got => s.middle ≠ .unborn ∧ s.middle ≠ .reaped ∧ Reports s.middle s.child s.failed (Got ++ s.pipe)
  | .closeRead Got | .waitpid Got =>
    s.middle ≠ .unborn ∧ s.middle ≠ .reaped ∧ Reports s.middle s.child s.failed (Got ++ s.pipe) ∧ Done s Got
  | .returned status => (s.middle = .unborn ∧ s.child = .unborn ∧ ∃ failure, s.failed = some failure ∧ status = failure.status platform call) ∨
    (s.middle = .reaped ∧ ∃ Got, status = result platform call Got ∧ Reports s.middle s.child s.failed (Got ++ s.pipe) ∧ Done s Got)

structure Inv (platform : Platform) (call : Call) (s : State) : Prop where
  shape : Shape call.bSuspended s.middle s.child
  phase : Phase platform call s

section Invariant
variable {platform : Platform} {call : Call} {s t : State}

/-- A step of the two processes that writes nothing. -/
structure Quiet (call : Call) (s t : State) : Prop where
  caller : t.caller = s.caller
  pipe : t.pipe = s.pipe
  shape : Shape call.bSuspended t.middle t.child
  reports : ∀ sent, Reports s.middle s.child s.failed sent → Reports t.middle t.child t.failed sent
  writes : s.middle.writes = false ∧ s.child.writes = false → t.middle.writes = false ∧ t.child.writes = false
  live : s.middle ≠ .unborn ∧ t.middle ≠ .unborn ∧ (s.middle ≠ .reaped → t.middle ≠ .reaped) ∧ (s.middle = .reaped → t.middle = .reaped)

/-- The steps of the caller. -/
def Event.ofCaller : Event → Bool
  | splitCommand | pipe _ | fork _ | close | read _ | closeRead | waitpid => true
  | _ => false

/-- The steps that write a record. -/
def Event.tells : Event → Bool
  | middleFailed | childFailed => true
  | _ => false

theorem quiet_child {place next : Child} {stage : EChildStage} {error : Option Errno}
    (which : place = .initgroups ∨ place = .setgid ∨ place = .setuid ∨ ∃ traced, place = .execvp traced)
    (following : ∀ m, Shape call.bSuspended m place → Shape call.bSuspended m next)
    (reports : ∀ m sent, Reports m next none sent ↔ sent = []) (shape : Shape call.bSuspended s.middle s.child)
    (moved : childStage s place next stage error = some t) : Quiet call s t := by
  obtain ⟨caller, m, c, pipe, failed⟩ := s
  simp only [childStage] at moved
  split_ifs at moved with here
  subst here
  have shapeNext := following m shape
  have beside : Beside call.bSuspended m := by
    rcases which with rfl | rfl | rfl | ⟨traced, rfl⟩
    · exact shape
    · exact shape
    · exact shape
    · exact shape.2
  have born : m ≠ .unborn := by
    rintro rfl
    simp [Beside] at beside
  have writes : c.writes = true := by rcases which with rfl | rfl | rfl | ⟨traced, rfl⟩ <;> rfl
  have quiet : ∀ sent, Reports m c failed sent → failed = none ∧ sent = [] := by
    rcases which with rfl | rfl | rfl | ⟨traced, rfl⟩ <;> exact fun _ => id
  cases error with
  | none =>
    cases moved
    refine ⟨rfl, rfl, shapeNext, fun sent there => ?_, fun silent => ?_, ⟨born, born, id, id⟩⟩
    · obtain ⟨rfl, rfl⟩ := quiet sent there
      exact (reports m []).mpr rfl
    · rw [writes] at silent
      cases silent.2
  | some error =>
    cases moved
    refine ⟨rfl, rfl, beside, fun sent there => ⟨rfl, (quiet sent there).2⟩, fun silent => ?_, ⟨born, born, id, id⟩⟩
    rw [writes] at silent
    cases silent.2

variable {failed : Option Failure}

theorem reports_middle {m m' : Middle} {c : Child} {sent : Bytes} (born : c ≠ .unborn) (there : Reports m c failed sent) :
    Reports m' c failed sent := by
  cases c <;> first | exact absurd rfl born | exact there

theorem quiet_middle {m m' : Middle} {c : Child} {caller : Caller} {pipe : Bytes} {failed' : Option Failure}
    (shape : Shape call.bSuspended m' c) (reports : ∀ sent, Reports m c failed sent → Reports m' c failed' sent)
    (writes : m'.writes = true → m.writes = true) (live : m ≠ .unborn ∧ m' ≠ .unborn ∧ m' ≠ .reaped ∧ m ≠ .reaped) :
    Quiet call { caller := caller, middle := m, child := c, pipe := pipe, failed := failed }
      { caller := caller, middle := m', child := c, pipe := pipe, failed := failed' } := by
  obtain ⟨born, later, unreaped, before⟩ := live
  refine ⟨rfl, rfl, shape, reports, fun silent => ⟨?_, silent.2⟩, ⟨born, later, fun _ => unreaped, fun reaped => absurd reaped before⟩⟩
  by_contra open_
  rw [Bool.not_eq_false] at open_
  exact Bool.false_ne_true (silent.1.symm.trans (writes open_))

theorem quiet_step (shape : Shape call.bSuspended s.middle s.child) {event : Event} (other : event.ofCaller = false) (silent : event.tells = false)
    (moved : step platform call s event = some t) : Quiet call s t := by
  cases event with
  | splitCommand | pipe | fork | close | read | closeRead | waitpid => cases other
  | middleFailed | childFailed => cases silent
  | initgroups error =>
    have stage : childStage s .initgroups .setgid .eStageGroups error = some t := moved
    refine quiet_child (.inl rfl) (fun m there => ?_) (fun m sent => ?_) shape stage
    · exact there
    · exact ⟨And.right, fun nothing => ⟨rfl, nothing⟩⟩
  | setgid error =>
    have stage : childStage s .setgid .setuid .eStageGid error = some t := moved
    refine quiet_child (.inr (.inl rfl)) (fun m there => ?_) (fun m sent => ?_) shape stage
    · exact there
    · exact ⟨And.right, fun nothing => ⟨rfl, nothing⟩⟩
  | setuid error =>
    have stage : childStage s .setuid (afterUser call) .eStageUid error = some t := moved
    refine quiet_child (.inr (.inr (.inl rfl))) (fun m beside => ?_) (fun m sent => ?_) shape stage
    · cases kind : call.bSuspended <;> simpa [afterUser, kind, Shape] using beside
    · rw [afterUser]
      split <;> exact ⟨And.right, fun nothing => ⟨rfl, nothing⟩⟩
  | execvp error =>
    simp only [step] at moved
    split at moved
    · next traced here =>
      refine quiet_child (.inr (.inr (.inr ⟨traced, rfl⟩))) (fun m there => ?_) (fun m sent => ?_) shape moved
      · obtain ⟨rfl, beside⟩ := there
        cases kind : call.bSuspended <;> simp [Shape, Beside, kind] at beside ⊢
        · tauto
        · tauto
      · cases traced <;> exact ⟨And.right, fun nothing => ⟨rfl, nothing⟩⟩
    · cases moved
  | middleCloseRead =>
    obtain ⟨caller, m, c, pipe, failed⟩ := s
    simp only [step] at moved
    split_ifs at moved with here
    subst here
    cases moved
    cases c <;> simp [Shape, Beside] at shape
    exact quiet_middle (by simp [Shape]) (fun _ => id) (fun _ => rfl) (by simp)
  | middleFork error =>
    obtain ⟨caller, m, c, pipe, failed⟩ := s
    simp only [step] at moved
    split_ifs at moved with here
    subst here
    cases c <;> simp [Shape, Beside] at shape
    cases error with
    | none =>
      cases moved
      refine ⟨rfl, rfl, ?_, fun sent there => ?_, fun closed => (nomatch closed.1), by simp⟩
      · rw [firstStage]
        split_ifs with as kind <;> simp [Shape, Beside, *]
      · rw [firstStage]
        split_ifs <;> exact there
    | some error =>
      cases moved
      exact quiet_middle (by simp [Shape]) (fun sent there => ⟨rfl, there.2⟩) (fun _ => rfl) (by simp)
  | middleClose =>
    obtain ⟨caller, m, c, pipe, failed⟩ := s
    simp only [step] at moved
    split_ifs at moved with here kind
    all_goals
      subst here
      cases moved
      have born : c ≠ .unborn := by
        rintro rfl
        simp [Shape] at shape
      refine quiet_middle ?_ (fun sent => reports_middle born) nofun (by simp)
      cases c <;> simp [Shape, Beside, kind] at shape ⊢
      all_goals exact shape
  | middleWaitpid =>
    obtain ⟨caller, m, c, pipe, failed⟩ := s
    simp only [step] at moved
    split_ifs at moved with here held exited <;> subst here <;> cases moved
    · rcases held with rfl | rfl
      · exact quiet_middle (by simpa [Shape] using shape) (fun _ => id) nofun (by simp)
      · exact quiet_middle (by simpa [Shape] using shape) (fun _ => id) nofun (by simp)
    · subst exited
      exact quiet_middle (by simp [Shape]) (fun _ => id) nofun (by simp)
  | detach error =>
    obtain ⟨caller, m, c, pipe, failed⟩ := s
    simp only [step] at moved
    by_cases here : m = .detach
    · subst here
      cases error with
      | none =>
        by_cases traced : c = .trapped
        · subst traced
          cases moved
          exact ⟨rfl, rfl, by simpa [Shape] using shape, fun _ => id, fun _ => ⟨rfl, rfl⟩, by simp⟩
        · simp [traced] at moved
      | some error =>
        cases moved
        have born : c ≠ .unborn := by
          rintro rfl
          simp [Shape] at shape
        refine quiet_middle ?_ (fun sent => reports_middle born) nofun (by simp)
        cases c <;> simp_all [Shape, Beside]
    · simp [here] at moved
  | middleExit =>
    obtain ⟨caller, m, c, pipe, failed⟩ := s
    simp only [step] at moved
    split_ifs at moved with here there traced
    · subst here
      cases moved
      cases c <;> simp [Shape, Beside] at shape
      exact quiet_middle (by simp [Shape]) (fun _ => id) nofun (by simp)
    · subst there traced
      cases moved
      exact ⟨rfl, rfl, by simp [Shape], fun _ => id, fun _ => ⟨rfl, rfl⟩, by simp⟩
    · subst there
      cases moved
      have born : c ≠ .unborn := by
        rintro rfl
        simp [Shape] at shape
      refine quiet_middle ?_ (fun sent => reports_middle born) nofun (by simp)
      cases c <;> simp_all [Shape, Beside]
  | traceme error =>
    obtain ⟨caller, m, c, pipe, failed⟩ := s
    simp only [step] at moved
    split_ifs at moved with here success <;> subst here <;> cases moved
    all_goals
      obtain ⟨suspended, beside⟩ := shape
      have born : m ≠ .unborn := by
        rintro rfl
        simp [Beside, suspended] at beside
      refine ⟨rfl, rfl, ?_, fun _ => id, fun closed => (nomatch closed.2), ⟨born, born, id, id⟩⟩
    · exact ⟨suspended.symm, beside⟩
    · exact ⟨suspended, beside⟩
  | raise =>
    obtain ⟨caller, m, c, pipe, failed⟩ := s
    simp only [step] at moved
    split_ifs at moved with here
    subst here
    cases moved
    obtain ⟨suspended, beside⟩ := shape
    simp only [Beside, suspended, if_true] at beside
    rcases beside with rfl | rfl
    all_goals exact ⟨rfl, rfl, by simp [Shape, suspended], fun _ => id, fun closed => (nomatch closed.2), by simp⟩
  | childExit =>
    obtain ⟨caller, m, c, pipe, failed⟩ := s
    simp only [step] at moved
    split_ifs at moved with here
    subst here
    cases moved
    have beside : Beside call.bSuspended m := shape
    have born : m ≠ .unborn := by
      rintro rfl
      simp [Beside] at beside
    refine ⟨rfl, rfl, ?_, fun _ => id, fun closed => (nomatch closed.2), ⟨born, born, id, id⟩⟩
    cases kind : call.bSuspended <;> simp [Shape, Beside, kind] at beside ⊢
    · tauto
    · tauto

theorem phase_quiet (quiet : Quiet call s t) (phase : Phase platform call s) : Phase platform call t := by
  obtain ⟨caller, pipe, -, reports, writes, born, later, unreaped, reaped⟩ := quiet
  have done : ∀ Got, Done s Got → Done t Got := by
    rintro Got (full | ⟨empty, closed⟩)
    · exact .inl full
    · exact .inr ⟨pipe.trans empty, writes closed⟩
  unfold Phase at phase ⊢
  rw [caller, pipe]
  split at phase
  · exact absurd phase.1 born
  · exact absurd phase.1 born
  · exact absurd phase.1 born
  · exact ⟨later, unreaped phase.2.1, reports _ phase.2.2⟩
  · exact ⟨later, unreaped phase.2.1, reports _ phase.2.2⟩
  · exact ⟨later, unreaped phase.2.1, reports _ phase.2.2.1, done _ phase.2.2.2⟩
  · exact ⟨later, unreaped phase.2.1, reports _ phase.2.2.1, done _ phase.2.2.2⟩
  · rcases phase with early | ⟨gone, Got, status, there, all⟩
    · exact absurd early.1 born
    · exact .inr ⟨reaped gone, Got, status, reports _ there, done Got all⟩

theorem phase_told {stage : EChildStage} {error : Errno} (caller : t.caller = s.caller) (pipe : t.pipe = tell s stage error)
    (reports : ∀ sent, Reports s.middle s.child s.failed sent → sent = [] ∧ Reports t.middle t.child t.failed (Record stage error))
    (writes : s.middle.writes = true ∨ s.child.writes = true) (born : s.middle ≠ .unborn) (later : t.middle ≠ .unborn)
    (unreaped : s.middle ≠ .reaped → t.middle ≠ .reaped) (phase : Phase platform call s) : Phase platform call t := by
  have open_ : ∀ Got, Reports s.middle s.child s.failed (Got ++ s.pipe) → ¬ Done s Got := by
    rintro Got there (full | ⟨-, closed⟩)
    · have nothing := (List.append_eq_nil_iff.mp (reports _ there).1).1
      rw [nothing] at full
      cases full
    · rw [closed.1, closed.2] at writes
      simp at writes
  have writing : ∀ Got, s.caller.reads = true → Reports s.middle s.child s.failed (Got ++ s.pipe) → Got = [] ∧ t.pipe = Record stage error := by
    intro Got reads there
    obtain ⟨nothing, empty⟩ := List.append_eq_nil_iff.mp (reports _ there).1
    rw [pipe, tell, State.readers, reads, Bool.true_or, if_pos rfl, empty]
    exact ⟨nothing, rfl⟩
  unfold Phase at phase ⊢
  rw [caller]
  split at phase
  · exact absurd phase.1 born
  · exact absurd phase.1 born
  · exact absurd phase.1 born
  · next here =>
    obtain ⟨-, written⟩ := writing [] (by rw [here]; rfl) phase.2.2
    rw [written]
    exact ⟨later, unreaped phase.2.1, (reports _ phase.2.2).2⟩
  · next Got here =>
    obtain ⟨rfl, written⟩ := writing Got (by rw [here]; rfl) phase.2.2
    rw [written]
    exact ⟨later, unreaped phase.2.1, (reports _ phase.2.2).2⟩
  · exact absurd phase.2.2.2 (open_ _ phase.2.2.1)
  · exact absurd phase.2.2.2 (open_ _ phase.2.2.1)
  · rcases phase with early | ⟨-, Got, -, there, all⟩
    · exact absurd early.1 born
    · exact absurd all (open_ Got there)

theorem inv_told (inv : Inv platform call s) {event : Event} (tells : event.tells = true) (moved : step platform call s event = some t) :
    Inv platform call t := by
  obtain ⟨shape, phase⟩ := inv
  cases event with
  | middleFailed =>
    simp only [step] at moved
    split at moved
    · next error here =>
      cases moved
      have unborn : s.child = .unborn := by
        rw [here] at shape
        cases there : s.child <;> simp [there, Shape, Beside] at shape ⊢
      refine ⟨by simp [unborn, Shape], phase_told (s := s) rfl rfl (fun sent there => ?_) (.inl (by rw [here]; rfl)) (by simp [here]) (by simp)
        (by simp) phase⟩
      rw [here, unborn] at there
      rw [unborn]
      exact ⟨there.2, error, there.1, rfl⟩
    · cases moved
  | childFailed =>
    simp only [step] at moved
    split at moved
    · next stage error here =>
      cases moved
      rw [here] at shape
      have beside : Beside call.bSuspended s.middle := shape
      have born : s.middle ≠ .unborn := by
        intro there
        simp [Beside, there] at beside
      refine ⟨beside, phase_told (s := s) rfl rfl (fun sent there => ?_) (.inr (by rw [here]; rfl)) born born id phase⟩
      rw [here] at there
      exact ⟨there.2, stage, error, there.1, rfl⟩
    · cases moved
  | _ => cases tells

theorem reports_sent {m : Middle} {c : Child} {sent : Bytes} (there : Reports m c failed sent) :
    sent = [] ∨ ∃ stage error, sent = Record stage error := by
  cases c with
  | told | exited =>
    obtain ⟨stage, error, -, same⟩ := there
    exact .inr ⟨stage, error, same⟩
  | unborn =>
    cases m with
    | told | zombie | reaped =>
      obtain ⟨error, -, same⟩ := there
      exact .inr ⟨_, error, same⟩
    | _ => exact .inl there.2
  | _ => exact .inl there.2

@[simp] theorem length_Record (stage : EChildStage) (error : Errno) : (Record stage error).length = 8 := by simp [Record]

theorem shape_reaped {suspended : Bool} {c : Child} (shape : Shape suspended .zombie c) : Shape suspended .reaped c := by
  cases c <;> cases suspended <;> simp_all [Shape, Beside]

theorem reports_reaped {c : Child} {sent : Bytes} (there : Reports .zombie c failed sent) :
    Reports .reaped c failed sent := by
  cases c <;> exact there

theorem inv_caller (inv : Inv platform call s) {event : Event} (own : event.ofCaller = true) (moved : step platform call s event = some t) :
    Inv platform call t := by
  obtain ⟨shape, phase⟩ := inv
  cases event with
  | splitCommand =>
    simp only [step] at moved
    split_ifs at moved with here empty <;> cases moved
    all_goals simp only [Phase, here] at phase
    · exact ⟨shape, .inl ⟨phase.1, phase.2.1, .program, rfl, rfl⟩⟩
    · exact ⟨shape, phase⟩
  | pipe error =>
    simp only [step] at moved
    split_ifs at moved with here
    simp only [Phase, here] at phase
    cases error with
    | none =>
      cases moved
      exact ⟨shape, phase⟩
    | some error =>
      cases moved
      exact ⟨shape, .inl ⟨phase.1, phase.2.1, .pipe error, rfl, rfl⟩⟩
  | fork error =>
    simp only [step] at moved
    split_ifs at moved with here
    simp only [Phase, here] at phase
    cases error with
    | none =>
      cases moved
      obtain ⟨unborn, childless, there⟩ := phase
      rw [unborn, childless] at there
      refine ⟨by simp [childless, Shape], by simp, by simp, ?_⟩
      rw [childless]
      exact there
    | some error =>
      cases moved
      exact ⟨shape, .inl ⟨phase.1, phase.2.1, .fork error, rfl, rfl⟩⟩
  | close =>
    simp only [step] at moved
    split_ifs at moved with here
    simp only [Phase, here] at phase
    cases moved
    exact ⟨shape, phase⟩
  | read count =>
    simp only [step] at moved
    split at moved
    · next Got here =>
      simp only [Phase, here] at phase
      obtain ⟨born, unreaped, there⟩ := phase
      split_ifs at moved with more some_ end_ <;> cases moved
      · refine ⟨shape, born, unreaped, ?_⟩
        rwa [List.append_assoc, List.take_append_drop]
      · obtain ⟨-, empty, closed⟩ := end_
        simp only [State.writers, here, Caller.writes, Bool.false_or, Bool.or_eq_false_iff] at closed
        exact ⟨shape, born, unreaped, there, .inr ⟨empty, closed⟩⟩
      · refine ⟨shape, born, unreaped, there, .inl ?_⟩
        have whole : (Got ++ s.pipe).length ≤ 8 := by
          rcases reports_sent there with nothing | ⟨stage, error, same⟩
          · simp [nothing]
          · simp [same]
        rw [List.length_append] at whole
        omega
    · cases moved
  | closeRead =>
    simp only [step] at moved
    split at moved
    · next Got here =>
      simp only [Phase, here] at phase
      cases moved
      exact ⟨shape, phase⟩
    · cases moved
  | waitpid =>
    simp only [step] at moved
    split at moved
    · next Got here =>
      simp only [Phase, here] at phase
      obtain ⟨born, unreaped, there, all⟩ := phase
      split_ifs at moved with ended
      cases moved
      rw [ended] at shape there
      refine ⟨shape_reaped shape, .inr ⟨rfl, Got, rfl, reports_reaped there, ?_⟩⟩
      rcases all with full | ⟨empty, -, closed⟩
      · exact .inl full
      · exact .inr ⟨empty, rfl, closed⟩
    · cases moved
  | _ => cases own

theorem inv_next (inv : Inv platform call s) {event : Event} (moved : step platform call s event = some t) : Inv platform call t := by
  by_cases own : event.ofCaller = true
  · exact inv_caller inv own moved
  · by_cases tells : event.tells = true
    · exact inv_told inv tells moved
    · have quiet := quiet_step inv.shape (by simpa using own) (by simpa using tells) moved
      exact ⟨quiet.shape, phase_quiet quiet inv.phase⟩

theorem inv_start : Inv platform call {} := ⟨by simp [Shape], rfl, rfl, rfl, rfl⟩

end Invariant

/-! ## What the caller returns -/

theorem leNat_code (stage : EChildStage) : leNat (leBytes 4 stage.code) = stage.code := leNat_leBytes_of_lt (by cases stage <;> decide)

theorem result_Record (platform : Platform) (call : Call) (stage : EChildStage) (error : Errno) :
    result platform call (Record stage error) = (Failure.child stage error).status platform call := by
  have front : (Record stage error).take 4 = leBytes 4 stage.code := List.take_left' (leBytes_length 4 _)
  have back : (Record stage error).drop 4 = leBytes 4 error.toNat := List.drop_left' (leBytes_length 4 _)
  have number : UInt32.ofNat (leNat (leBytes 4 error.toNat)) = error := by
    rw [leNat_leBytes_of_lt error.toNat_lt, UInt32.ofNat_toNat]
  simp only [result, length_Record, if_true, front, back, leNat_code, number]
  cases stage <;> rfl

theorem status_ne_ok (platform : Platform) (call : Call) (failure : Failure) : failure.status platform call ≠ .OK := by
  cases failure with
  | child stage error => cases stage <;> exact nofun
  | _ => exact nofun

/-- The program was lost: its process stopped itself before the exec, or a program that was to be
suspended has lost its tracer without being told to stop. -/
def Lost (call : Call) (s : State) : Prop :=
  s.child = .raise ∨ s.child = .held ∨ (call.bSuspended = true ∧ s.child = .running) ∨ (s.child = .trapped ∧ s.middle = .exit)

/-- What is returned is what happened. -/
structure Truthful (platform : Platform) (call : Call) (s : State) (status : STATUS) : Prop where
  names : status = match s.failed with
    | none => .OK
    | some failure => failure.status platform call
  fails : status ≠ .OK ↔ s.failed.isSome = true
  started : status = .OK → s.child.isProgram = true
  reaped : s.middle = .unborn ∨ s.middle = .reaped
  suspended : call.bSuspended = true → status = .OK → s.child = .stopped

section Return
variable {platform : Platform} {call : Call} {s t : State} {status : STATUS}

theorem read_all {Got pipe sent : Bytes} (same : Got ++ pipe = sent) (whole : sent.length ≤ 8) (all : Got.length = 8 ∨ pipe = []) : Got = sent := by
  rcases all with full | rfl
  · have rest : pipe = [] := by
      rw [← List.length_eq_zero_iff]
      have both := congrArg List.length same
      rw [List.length_append] at both
      omega
    rw [← same, rest, List.append_nil]
  · rw [← same, List.append_nil]

theorem truthful_of_failed {failure : Failure} (failed : s.failed = some failure) (names : status = failure.status platform call)
    (reaped : s.middle = .unborn ∨ s.middle = .reaped) : Truthful platform call s status := by
  have wrong : status ≠ .OK := names ▸ status_ne_ok platform call failure
  refine ⟨?_, ?_, fun ok => absurd ok wrong, reaped, fun _ ok => absurd ok wrong⟩
  · rw [failed]
    exact names
  · simp [wrong, failed]

theorem truthful_of_program (failed : s.failed = none) (ok : status = .OK) (program : s.child.isProgram = true) (reaped : s.middle = .reaped)
    (stopped : call.bSuspended = true → s.child = .stopped) : Truthful platform call s status := by
  refine ⟨?_, ?_, fun _ => program, .inr reaped, fun suspended _ => stopped suspended⟩
  · rw [failed]
    exact ok
  · simp [ok, failed]

theorem returned_cases (inv : Inv platform call s) (returned : s.caller = .returned status) :
    (∃ failure, s.failed = some failure ∧ status = failure.status platform call ∧ s.child.isProgram = false ∧ ¬ Lost call s ∧
      (s.middle = .unborn ∨ s.middle = .reaped)) ∨
    (s.failed = none ∧ status = .OK ∧ s.middle = .reaped ∧
      ((call.bSuspended = true ∧ s.child = .stopped) ∨ s.child = .running)) := by
  obtain ⟨shape, phase⟩ := inv
  simp only [Phase, returned] at phase
  rcases phase with ⟨unborn, childless, failure, failed, names⟩ | ⟨reaped, Got, names, there, all⟩
  · exact .inl ⟨failure, failed, names, by rw [childless]; rfl, by simp [Lost, childless], .inl unborn⟩
  · rw [reaped] at shape there
    have told : ∀ stage error, s.failed = some (.child stage error) → Got ++ s.pipe = Record stage error →
        s.child.isProgram = false → ¬ Lost call s → (∃ failure, s.failed = some failure ∧ status = failure.status platform call ∧
          s.child.isProgram = false ∧ ¬ Lost call s ∧ (s.middle = .unborn ∨ s.middle = .reaped)) := by
      intro stage error failed same early found
      have got := read_all same (by simp) (all.imp_right And.left)
      exact ⟨_, failed, by rw [names, got, result_Record], early, found, .inr reaped⟩
    have silent : s.child.writes = true → Got ++ s.pipe ≠ [] := by
      intro writes nothing
      rcases all with full | ⟨-, -, closed⟩
      · rw [(List.append_eq_nil_iff.mp nothing).1] at full
        cases full
      · rw [writes] at closed
        cases closed
    have quiet : Got ++ s.pipe = [] → status = .OK := by
      intro nothing
      rw [names, (List.append_eq_nil_iff.mp nothing).1]
      rfl
    cases child : s.child with
    | unborn =>
      rw [child] at there
      obtain ⟨error, failed, same⟩ := there
      rw [← child]
      exact .inl (told _ error failed same (by rw [child]; rfl) (by simp [Lost, child]))
    | told | exited =>
      rw [child] at there
      obtain ⟨stage, error, failed, same⟩ := there
      rw [← child]
      exact .inl (told stage error failed same (by rw [child]; rfl) (by simp [Lost, child]))
    | stopped =>
      rw [child] at there shape
      exact .inr ⟨there.1, quiet there.2, reaped, .inl ⟨shape.1, rfl⟩⟩
    | running =>
      rw [child] at there
      exact .inr ⟨there.1, quiet there.2, reaped, .inr rfl⟩
    | trapped =>
      rw [child] at shape
      simp [Shape] at shape
    | _ =>
      rw [child] at there
      exact absurd there.2 (silent (by rw [child]; rfl))

theorem truthful_of_found (inv : Inv platform call s) (found : ¬ Lost call s) (returned : s.caller = .returned status) :
    Truthful platform call s status := by
  rcases returned_cases inv returned with ⟨failure, failed, names, -, -, reaped⟩ | ⟨failed, ok, reaped, ⟨-, stopped⟩ | running⟩
  · exact truthful_of_failed failed names reaped
  · exact truthful_of_program failed ok (by rw [stopped]; rfl) reaped fun _ => stopped
  · refine truthful_of_program failed ok (by rw [running]; rfl) reaped fun suspended => ?_
    exact absurd (.inr (.inr (.inl ⟨suspended, running⟩))) found

theorem untruthful_of_lost (inv : Inv platform call s) (lost : Lost call s) (returned : s.caller = .returned status) :
    ¬ Truthful platform call s status := by
  rcases returned_cases inv returned with ⟨_, _, _, _, found, _⟩ | ⟨_, ok, _, ⟨_, stopped⟩ | running⟩
  · exact absurd lost found
  · rw [Lost, stopped] at lost
    simp at lost
  · rw [Lost, running] at lost
    simp only [reduceCtorEq, false_or, false_and, or_false, and_true] at lost
    intro truthful
    have stopped := truthful.suspended lost ok
    rw [running] at stopped
    cases stopped

end Return

/-! ## No process is left waiting -/

/-- A call of `ptrace` fails. -/
def Event.refused : Event → Bool
  | traceme (some _) | detach (some _) => true
  | _ => false

/-- Both calls of `ptrace` succeed where they are made. -/
def Fits (_ : State) (event : Event) : Prop := event.refused = false

instance (s : State) (event : Event) : Decidable (Fits s event) := inferInstanceAs (Decidable (_ = _))

section Progress
variable {platform : Platform} {call : Call} {s t : State} {event : Event}

/-- What a step does to a lost program: only the two calls of `ptrace` lose one, and it stays lost. -/
theorem lost_step (inv : Inv platform call s) (moved : step platform call s event = some t) :
    Lost call t ↔ Lost call s ∨ ¬ Fits s event := by
  have shape := inv.shape
  have phase := inv.phase
  obtain ⟨caller, m, c, pipe, failed⟩ := s
  cases event with
  | splitCommand =>
    simp only [step] at moved
    split_ifs at moved <;> cases moved <;> simp [Lost, Fits, Event.refused, refuse]
  | pipe error =>
    simp only [step] at moved
    split_ifs at moved
    cases error <;> cases moved <;> simp [Lost, Fits, Event.refused, refuse]
  | fork error =>
    simp only [step] at moved
    split_ifs at moved with here
    subst here
    obtain ⟨unborn, childless, -⟩ := phase
    cases error <;> cases moved <;> simp_all [Lost, Fits, Event.refused, refuse]
  | close =>
    simp only [step] at moved
    split_ifs at moved
    cases moved
    simp [Lost, Fits, Event.refused]
  | read count =>
    simp only [step] at moved
    split at moved
    · split_ifs at moved <;> cases moved <;> simp [Lost, Fits, Event.refused]
    · cases moved
  | closeRead =>
    simp only [step] at moved
    split at moved <;> cases moved
    simp [Lost, Fits, Event.refused]
  | waitpid =>
    simp only [step] at moved
    split at moved
    · split_ifs at moved with ended
      cases moved
      simp_all [Lost, Fits, Event.refused]
    · cases moved
  | middleCloseRead =>
    simp only [step] at moved
    split_ifs at moved with here
    subst here
    cases moved
    simp [Lost, Fits, Event.refused]
  | middleFork error =>
    simp only [step] at moved
    split_ifs at moved with here
    subst here
    cases c <;> simp [Shape, Beside] at shape
    cases error with
    | none =>
      cases moved
      simp only [Lost, Fits, Event.refused, firstStage]
      split_ifs <;> simp
    | some error =>
      cases moved
      simp [Lost, Fits, Event.refused]
  | middleFailed =>
    simp only [step] at moved
    split at moved <;> cases moved
    simp [Lost, Fits, Event.refused]
  | middleClose =>
    simp only [step] at moved
    split_ifs at moved with here <;> subst here <;> cases moved
    all_goals cases c <;> simp_all [Lost, Fits, Event.refused, Shape, Beside]
  | middleWaitpid =>
    simp only [step] at moved
    split_ifs at moved with here held exited <;> subst here <;> cases moved
    all_goals simp_all [Lost, Fits, Event.refused]
  | detach error =>
    simp only [step] at moved
    by_cases here : m = .detach
    · subst here
      cases error with
      | none =>
        by_cases traced : c = .trapped
        · subst traced
          cases moved
          simp [Lost, Fits, Event.refused]
        · simp [traced] at moved
      | some error =>
        cases moved
        cases c <;> simp [Lost, Fits, Event.refused, Shape, Beside] at shape ⊢
    · simp [here] at moved
  | middleExit =>
    simp only [step] at moved
    split_ifs at moved with here there traced
    · subst here
      cases moved
      simp [Lost, Fits, Event.refused]
    · subst there traced
      cases moved
      simpa [Lost, Fits, Event.refused] using shape.1
    · subst there
      cases moved
      simp [Lost, Fits, Event.refused, traced]
  | initgroups error | setgid error =>
    simp only [step, childStage] at moved
    split_ifs at moved with here
    subst here
    cases error <;> cases moved <;> simp [Lost, Fits, Event.refused]
  | setuid error =>
    simp only [step, childStage, afterUser] at moved
    split_ifs at moved with here kind <;> subst here <;> cases error <;> cases moved <;> simp [Lost, Fits, Event.refused]
  | traceme error =>
    simp only [step] at moved
    split_ifs at moved with here success <;> subst here <;> cases moved
    all_goals cases error <;> simp_all [Lost, Fits, Event.refused]
  | raise =>
    simp only [step] at moved
    split_ifs at moved with here
    subst here
    cases moved
    simp [Lost]
  | execvp error =>
    simp only [step, childStage] at moved
    split at moved
    · next traced =>
      simp only [if_true] at moved
      obtain ⟨rfl, beside⟩ := shape
      cases error with
      | none =>
        cases moved
        cases kind : call.bSuspended with
        | true =>
          simp only [Beside, kind, if_true] at beside
          rcases beside with rfl | rfl <;> simp [Lost, Fits, Event.refused]
        | false => simp [Lost, Fits, Event.refused, kind]
      | some error =>
        cases moved
        simp [Lost, Fits, Event.refused]
    · cases moved
  | childFailed =>
    simp only [step] at moved
    split at moved <;> cases moved
    simp [Lost, Fits, Event.refused]
  | childExit =>
    simp only [step] at moved
    split_ifs at moved with here
    subst here
    cases moved
    simp [Lost, Fits, Event.refused]

theorem others_step (inv : Inv platform call s) (found : ¬ Lost call s) (born : s.middle ≠ .unborn) (unreaped : s.middle ≠ .reaped)
    (busy : s.middle ≠ .zombie ∨ s.child.writes = true) : ∃ event t, step platform call s event = some t := by
  have shape := inv.shape
  cases child : s.child with
  | initgroups => exact ⟨.initgroups none, _, by simp only [step, childStage, child, if_true]; rfl⟩
  | setgid => exact ⟨.setgid none, _, by simp only [step, childStage, child, if_true]; rfl⟩
  | setuid => exact ⟨.setuid none, _, by simp only [step, childStage, child, if_true]; rfl⟩
  | traceme => exact ⟨.traceme none, _, by simp only [step, child, if_true]; rfl⟩
  | execvp traced => exact ⟨.execvp none, _, by simp only [step, childStage, child, if_true]; rfl⟩
  | failed stage error => exact ⟨.childFailed, _, by simp only [step, child]; rfl⟩
  | told => exact ⟨.childExit, _, by simp only [step, child, if_true]; rfl⟩
  | raise => exact absurd (.inl child) found
  | held => exact absurd (.inr (.inl child)) found
  | _ =>
    rw [child] at shape
    cases middle : s.middle with
    | unborn => exact absurd middle born
    | reaped => exact absurd middle unreaped
    | closeRead => exact ⟨.middleCloseRead, _, by simp only [step, middle, if_true]; rfl⟩
    | fork => exact ⟨.middleFork none, _, by simp only [step, middle, if_true]; rfl⟩
    | failed error => exact ⟨.middleFailed, _, by simp only [step, middle]; rfl⟩
    | told => exact ⟨.middleExit, _, by simp only [step, middle, if_true]; rfl⟩
    | close => exact ⟨.middleClose, _, by simp only [step, middle, if_true]; rfl⟩
    | detach => exact ⟨.detach (some 0), _, by simp only [step, middle, if_true]; rfl⟩
    | exit => exact ⟨.middleExit, _, by simp only [step, middle, if_true, reduceCtorEq, if_false]; rfl⟩
    | zombie => simp [middle, child, Child.writes] at busy
    | waitpid =>
      rw [middle] at shape
      first
        | exact ⟨.middleWaitpid, _, by simp only [step, middle, child, if_true, reduceCtorEq, or_true, or_false, if_false]; rfl⟩
        | simp [Shape] at shape

theorem busy_of_writers (closed : s.caller.writes = false) (open_ : s.writers = true) : s.middle ≠ .zombie ∨ s.child.writes = true := by
  by_cases zombie : s.middle = .zombie
  · rw [State.writers, closed, zombie, Bool.false_or] at open_
    exact .inr open_
  · exact .inl zombie

theorem progress (inv : Inv platform call s) (found : ¬ Lost call s) (waits : ∀ status, s.caller ≠ .returned status) :
    ∃ event t, step platform call s event = some t := by
  have phase := inv.phase
  cases here : s.caller with
  | start =>
    by_cases empty : (Executable platform call).isEmpty = true
    · exact ⟨.splitCommand, _, by simp only [step, here, if_true, empty]; rfl⟩
    · exact ⟨.splitCommand, _, by simp only [step, here, if_true, empty]; rfl⟩
  | pipe => exact ⟨.pipe none, _, by simp only [step, here, if_true]; rfl⟩
  | fork => exact ⟨.fork none, _, by simp only [step, here, if_true]; rfl⟩
  | close => exact ⟨.close, _, by simp only [step, here, if_true]; rfl⟩
  | closeRead Got => exact ⟨.closeRead, _, by simp only [step, here]; rfl⟩
  | returned status => exact absurd here (waits status)
  | waitpid Got =>
    simp only [Phase, here] at phase
    by_cases ended : s.middle = .zombie
    · exact ⟨.waitpid, _, by simp only [step, here, ended, if_true]; rfl⟩
    · exact others_step inv found phase.1 phase.2.1 (.inl ended)
  | read Got =>
    simp only [Phase, here] at phase
    obtain ⟨born, unreaped, -⟩ := phase
    by_cases more : Got.length < 8
    · cases pending : s.pipe with
      | cons byte rest =>
        have one : 0 < 1 ∧ 1 ≤ s.pipe.length ∧ 1 ≤ 8 - Got.length := by
          rw [pending, List.length_cons]
          omega
        exact ⟨.read 1, _, by simp only [step, here, more, if_true, one]; rfl⟩
      | nil =>
        by_cases closed : s.writers = false
        · have end_ : (0 : Nat) = 0 ∧ s.pipe = [] ∧ s.writers = false := ⟨rfl, pending, closed⟩
          exact ⟨.read 0, { s with caller := .closeRead Got }, by
            simp only [step, here, more, if_true, Nat.lt_irrefl, false_and, if_false]
            exact if_pos ⟨trivial, end_.2⟩⟩
        · exact others_step inv found born unreaped (busy_of_writers (by rw [here]; rfl) (by simpa using closed))
    · exact ⟨.read 0, _, by simp only [step, here, more, if_false]; rfl⟩

end Progress

/-! ## Steps are few -/

def Caller.rank : Caller → Nat
  | start => 15
  | pipe => 14
  | fork => 13
  | close => 12
  | read Got => 3 + (8 - Got.length)
  | closeRead _ => 2
  | waitpid _ => 1
  | returned _ => 0

def Middle.rank : Middle → Nat
  | unborn => 8
  | closeRead => 7
  | fork => 6
  | close => 5
  | waitpid => 4
  | failed _ | detach => 3
  | told | exit => 2
  | zombie => 1
  | reaped => 0

def Child.rank : Child → Nat
  | unborn => 9
  | initgroups => 8
  | setgid => 7
  | setuid => 6
  | traceme => 5
  | execvp _ => 4
  | failed _ _ => 3
  | raise | told | trapped => 2
  | held | stopped => 1
  | exited | running => 0

/-- How many steps are left at most. -/
def State.rank (s : State) : Nat := s.caller.rank + s.middle.rank + s.child.rank

section Rank
variable {platform : Platform} {call : Call} {s t : State} {event : Event}

theorem rank_childStage {place next : Child} {stage : EChildStage} {error : Option Errno} (high : 3 < place.rank) (lower : next.rank < place.rank)
    (moved : childStage s place next stage error = some t) : t.rank < s.rank := by
  simp only [childStage] at moved
  split_ifs at moved with here
  cases error with
  | none =>
    cases moved
    simp only [State.rank, here]
    omega
  | some error =>
    cases moved
    have failing : (Child.failed stage error).rank = 3 := rfl
    simp only [State.rank, here, failing]
    omega

theorem rank_step (inv : Inv platform call s) (moved : step platform call s event = some t) : t.rank < s.rank := by
  cases event with
  | initgroups error => exact rank_childStage (by decide) (by decide) (show childStage s .initgroups .setgid .eStageGroups error = some t from moved)
  | setgid error => exact rank_childStage (by decide) (by decide) (show childStage s .setgid .setuid .eStageGid error = some t from moved)
  | setuid error =>
    have lower : (afterUser call).rank < Child.setuid.rank := by
      rw [afterUser]
      split_ifs <;> decide
    exact rank_childStage (by decide) lower (show childStage s .setuid (afterUser call) .eStageUid error = some t from moved)
  | execvp error =>
    simp only [step] at moved
    split at moved
    · next traced here => exact rank_childStage (by simp [Child.rank]) (by cases traced <;> decide) moved
    · cases moved
  | read count =>
    simp only [step] at moved
    split at moved
    · next Got here =>
      split_ifs at moved with more some_ end_ <;> cases moved
      · simp only [State.rank, here, Caller.rank, List.length_append, List.length_take]
        omega
      · simp only [State.rank, here, Caller.rank]
        omega
      · simp only [State.rank, here, Caller.rank]
        omega
    · cases moved
  | fork error =>
    simp only [step] at moved
    split_ifs at moved with here
    have phase := inv.phase
    simp only [Phase, here] at phase
    cases error <;> cases moved <;> simp [State.rank, refuse, here, phase, Caller.rank, Middle.rank]
  | middleFork error =>
    have shape := inv.shape
    simp only [step] at moved
    split_ifs at moved with here
    rw [here] at shape
    have childless : s.child = .unborn := by cases child : s.child <;> simp [child, Shape, Beside] at shape ⊢
    have lower : (firstStage call).rank < Child.unborn.rank := by
      rw [firstStage]
      split_ifs <;> decide
    cases error <;> cases moved <;> simp only [State.rank, here, childless, Middle.rank] <;> omega
  | splitCommand =>
    simp only [step] at moved
    split_ifs at moved with here empty <;> cases moved <;> simp [State.rank, refuse, here, Caller.rank]
  | pipe error =>
    simp only [step] at moved
    split_ifs at moved with here
    cases error <;> cases moved <;> simp [State.rank, refuse, here, Caller.rank]
  | close | middleCloseRead | raise | childExit =>
    simp only [step] at moved
    split_ifs at moved with here
    cases moved
    simp [State.rank, here, Caller.rank, Middle.rank, Child.rank]
  | closeRead | middleFailed | childFailed =>
    simp only [step] at moved
    split at moved <;> cases moved
    next here => simp [State.rank, here, Caller.rank, Middle.rank, Child.rank]
  | waitpid =>
    simp only [step] at moved
    split at moved
    · next Got here =>
      split_ifs at moved with ended
      cases moved
      simp [State.rank, here, ended, Caller.rank, Middle.rank]
    · cases moved
  | middleClose | middleWaitpid | traceme =>
    simp only [step] at moved
    split_ifs at moved <;> cases moved <;> simp [State.rank, *, Middle.rank, Child.rank]
  | middleExit =>
    simp only [step] at moved
    split_ifs at moved <;> cases moved <;> simp [State.rank, *, Middle.rank, Child.rank]
  | detach error =>
    simp only [step] at moved
    by_cases here : s.middle = .detach
    · cases error with
      | none =>
        by_cases traced : s.child = .trapped
        · rw [if_pos here] at moved
          simp only [traced, if_true] at moved
          cases moved
          simp [State.rank, here, traced, Middle.rank, Child.rank]
        · simp [here, traced] at moved
      | some error =>
        rw [if_pos here] at moved
        cases moved
        simp [State.rank, here, Middle.rank]
    · simp [here] at moved

end Rank

/-! ## Runs -/

/-- As long as both calls of `ptrace` succeed, what is returned is what happened, and a caller that
has not returned is brought on by one of at most `rank` steps. After one of them has failed it
comes to no such return. -/
theorem start_reported (platform : Platform) (call : Call) {s : State} (run : Run (step platform call) Fits {} s) :
    (∀ status, s.caller = .returned status → Truthful platform call s status) ∧
    ((∀ status, s.caller ≠ .returned status) → ∃ event t, step platform call s event = some t) ∧
    ∀ event t, step platform call s event = some t → t.rank < s.rank ∧
      (¬ Fits s event → ∀ last, Run (step platform call) Always t last → ∀ status, last.caller = .returned status →
        ¬ Truthful platform call last status) := by
  have kept : Inv platform call s ∧ ¬ Lost call s := by
    refine run.invariant (fun s => Inv platform call s ∧ ¬ Lost call s) ⟨inv_start, by simp [Lost]⟩ ?_
    rintro s event t ⟨inv, found⟩ fits moved
    refine ⟨inv_next inv moved, fun lost => ?_⟩
    rcases (lost_step inv moved).mp lost with before | unfit
    · exact found before
    · exact unfit fits
  obtain ⟨inv, found⟩ := kept
  refine ⟨fun status => truthful_of_found inv found, progress inv found, fun event t moved => ⟨rank_step inv moved, ?_⟩⟩
  intro unfit last later status returned
  have lost : Inv platform call last ∧ Lost call last := by
    refine later.invariant (fun s => Inv platform call s ∧ Lost call s) ⟨inv_next inv moved, (lost_step inv moved).mpr (.inr unfit)⟩ ?_
    rintro s event t ⟨inv, lost⟩ - moved
    exact ⟨inv_next inv moved, (lost_step inv moved).mpr (.inl lost)⟩
  exact untruthful_of_lost lost.1 lost.2 returned

/-! ## One program -/

def linux : Platform where
  splitCommand Program := [Program]
  strerror _ := "Operation not permitted".toList

def sleeper : Call where
  Program := "sleep".toList
  bSuspended := true
  pAs := none

theorem start_reported_stopped : ∃ s : State, s.caller = .returned .OK ∧ s.child = .stopped ∧ Truthful linux sleeper s .OK := by
  have run : Run (step linux sleeper) Fits {} { caller := .returned .OK, middle := .reaped, child := .stopped } :=
    @Run.of_runs _ _ _ _ _ _ _ [.splitCommand, .pipe none, .fork none, .close, .middleCloseRead, .middleFork none, .traceme none, .execvp none,
      .middleClose, .read 0, .closeRead, .middleWaitpid, .detach none, .middleExit, .waitpid] .start (by decide +kernel) (by decide +kernel)
  exact ⟨_, rfl, rfl, (start_reported linux sleeper run).1 .OK rfl⟩

/-- The child stopped itself with the pipe open: the middle process is gone, the caller reads, and no process can do anything. -/
theorem caller_waits : ¬ ∀ (platform : Platform) (call : Call) (s : State), Run (step platform call) Always {} s →
    (∀ status, s.caller ≠ .returned status) → ∃ event t, step platform call s event = some t := by
  intro claim
  have run : Run (step linux sleeper) Always {} { caller := .read [], middle := .zombie, child := .held } :=
    Run.of_runs .start (meets_always _ [.splitCommand, .pipe none, .fork none, .close, .middleCloseRead, .middleFork none, .traceme (some 1), .raise,
      .middleClose, .middleWaitpid, .detach (some 3), .middleExit]) (by decide +kernel)
  obtain ⟨event, t, moved⟩ := claim linux sleeper _ run nofun
  cases event with
  | read count =>
    simp [step, State.writers, Child.writes] at moved
    omega
  | _ => simp [step, childStage] at moved

/-! ## Whatever the kernel answers -/

theorem runs_bounded {platform : Platform} {call : Call} {events : List Event} {s t : State} (inv : Inv platform call s)
    (ran : runs (step platform call) s events = some t) : Inv platform call t ∧ events.length + t.rank ≤ s.rank := by
  induction events generalizing s with
  | nil =>
    cases ran
    exact ⟨inv, by simp⟩
  | cons event rest ih =>
    obtain ⟨next, moved, later⟩ := Option.bind_eq_some_iff.mp ran
    obtain ⟨kept, bound⟩ := ih (inv_next inv moved) later
    have lower := rank_step inv moved
    exact ⟨kept, by rw [List.length_cons]; omega⟩

/-- The tracer could not be told to stop the program. -/
def detachFails : List Event :=
  [.splitCommand, .pipe none, .fork none, .close, .middleCloseRead, .middleFork none, .traceme none, .execvp none, .middleClose, .read 0,
    .closeRead, .middleWaitpid, .detach (some 3), .middleExit, .waitpid]

end TaskExplorer.ForkExec
