import TaskExplorer.OrderedMap
import TaskExplorer.Transition

/-!
# Desktop agents

`CWndAgents` starts a helper in each session and asks all of them for their windows. `Update`, `SetEnabled` and
`Shutdown` run on several threads; a step is one section that holds `m_Mutex`, or one exchange with an agent.
What an agent was started, told and asked is kept beside the state, and the random part of a socket name is never drawn twice.
-/

namespace TaskExplorer.WndAgents
open OrderedMap Transition

/-- A window as an agent reports it. -/
structure Reported where
  hWnd : UInt64
  Parent : UInt64
  ProcessId : UInt64
  ThreadId : UInt64
  ShowCommand : UInt32
  Visible : Bool
  Enabled : Bool
  OnTop : Bool
  Title : String
  Class : String
  Desktop : String
deriving DecidableEq, Repr

structure SWindow extends Reported where
  SessionId : UInt32
deriving DecidableEq, Repr

structure SAgent where
  SessionId : UInt32
  UserName : String
  Socket : Nat
  ProcessId : UInt64
  Failures : Nat
deriving DecidableEq, Repr

inductive SessionState where
  | active
  | disconnected
  | other
deriving DecidableEq, Repr

structure Session where
  SessionId : UInt32
  State : SessionState
  UserName : String
deriving DecidableEq, Repr

def c_AskInterval : UInt64 := 2000
def c_StartInterval : UInt64 := 30000
def c_RetryInterval : UInt64 := 5000

/-- The locals of `AskAgents`, and what it copied. -/
structure Asking where
  copied : OrdMap UInt32 SAgent
  done : List (UInt32 × SAgent)
  rest : List (UInt32 × SAgent)
  windows : List SWindow
  sessions : OrdMap UInt64 UInt32
  dead : List UInt32

/-- Where a call is. -/
inductive Phase where
  | idle
  | enabling
  | stopping
  | enumerating (now : UInt64)
  | starting (now : UInt64) (missing : List (UInt32 × String))
  | copying
  | asking (asking : Asking)

/-- Every socket below `next` is that of an agent that was started. -/
structure State where
  setting : Bool
  enabled : Bool
  checked : Bool
  lastStart : UInt64
  lastUpdate : UInt64
  agents : OrdMap UInt32 SAgent
  windows : List SWindow
  windowSessions : OrdMap UInt64 UInt32
  calls : Nat → Phase
  next : Nat
  told : List Nat
  missed : Nat → Nat
  last : Nat → List SWindow

def initial (setting : Bool) : State :=
  ⟨setting, false, false, 0, 0, OrdMap.empty, [], OrdMap.empty, fun _ => .idle, 0, [], fun _ => 0, fun _ => []⟩

def IsEnabled (state : State) : Bool := bif state.checked then state.enabled else state.setting

def move (state : State) (call : Nat) (phase : Phase) : State :=
  { state with calls := fun other => if other = call then phase else state.calls other }

/-! ## Switching -/

def SetEnabled (state : State) (call : Nat) (enable : Bool) : State :=
  move { state with enabled := enable, checked := true } call (bif enable then .enabling else .stopping)

def Shutdown (state : State) (call : Nat) : State :=
  move { state with enabled := false, checked := true } call .stopping

def StopAllAgents (state : State) (call : Nat) : State :=
  move { state with
    agents := OrdMap.empty
    windows := []
    windowSessions := OrdMap.empty
    told := state.told ++ state.agents.entries.map (fun pair => pair.2.Socket) } call .idle

/-! ## Starting -/

/-- The last part of `Update`. -/
def ask_in_time (state : State) (call : Nat) (now : UInt64) : State :=
  if state.lastUpdate ≠ 0 ∧ now - state.lastUpdate < c_AskInterval then move state call .idle
  else move { state with lastUpdate := now } call .copying

def Update (state : State) (call : Nat) (now : UInt64) : State :=
  let state := { state with enabled := IsEnabled state, checked := true }
  if state.enabled = false then move state call .idle
  else
    let interval := if state.agents.entries.isEmpty then c_RetryInterval else c_StartInterval
    if state.lastStart = 0 ∨ now - state.lastStart > interval then move { state with lastStart := now } call (.enumerating now)
    else ask_in_time state call now

def wanted (sessions : List Session) : OrdMap UInt32 String :=
  (sessions.filter (fun session => (session.State == .active || session.State == .disconnected) && session.UserName != "")).foldl
    (fun map session => map.insert session.SessionId session.UserName) OrdMap.empty

/-- The rest of `StartMissingAgents`, one session after the other. -/
def start_next (state : State) (call : Nat) (now : UInt64) : List (UInt32 × String) → State
  | [] => ask_in_time state call now
  | missing => move state call (.starting now missing)

/-- `none` when the sessions cannot be enumerated. -/
def StartMissingAgents (state : State) (call : Nat) (now : UInt64) : Option (List Session) → State
  | none => ask_in_time state call now
  | some sessions => start_next state call now ((wanted sessions).entries.filter (fun pair => (state.agents.get pair.1).isNone))

/-- How a start ends: without a process, with one that never answers, or with an agent. -/
inductive Outcome where
  | failed
  | silent
  | answered (pid : UInt64)

def StartAgent (state : State) (session : UInt32) (user : String) : Outcome → State
  | .failed => state
  | .silent => { state with next := state.next + 1 }
  | .answered pid => { state with
    agents := state.agents.insert session ⟨session, user, state.next, pid, 0⟩
    next := state.next + 1 }

/-! ## Asking -/

def is_window (reported : Reported) : Bool := reported.hWnd != 0 && reported.ProcessId != 0

def windows_of (session : UInt32) (reply : List Reported) : List SWindow :=
  (reply.filter is_window).map (fun reported => ⟨reported, session⟩)

/-- One turn of the loop of `AskAgents`; a reply that is not a list is none. -/
def ask_agent (asking : Asking) (session : UInt32) (agent : SAgent) (rest : List (UInt32 × SAgent)) : Option (List Reported) → Asking
  | none => { asking with
    done := asking.done ++ [(session, { agent with Failures := agent.Failures + 1 })]
    rest := rest
    dead := if agent.Failures + 1 ≥ 2 then asking.dead ++ [session] else asking.dead }
  | some reply => { asking with
    done := asking.done ++ [(session, { agent with Failures := 0 })]
    rest := rest
    windows := (windows_of agent.SessionId reply).foldl (fun windows window => window :: windows) asking.windows
    sessions := (windows_of agent.SessionId reply).foldl (fun map window => map.insert window.hWnd window.SessionId) asking.sessions }

/-- The failures that were counted, for the agents that are still there. -/
def set_failures (agents : OrdMap UInt32 SAgent) (asked : UInt32 × SAgent) : OrdMap UInt32 SAgent :=
  match agents.get asked.1 with
  | some agent => agents.insert asked.1 { agent with Failures := asked.2.Failures }
  | none => agents

def write_back (state : State) (asking : Asking) : State :=
  { state with
    agents := asking.done.foldl set_failures (asking.dead.foldl OrdMap.erase state.agents)
    windows := asking.windows
    windowSessions := asking.sessions }

/-- What becomes of the question: one more is missed, or the answer is the last one. -/
def record (state : State) (agent : SAgent) : Option (List Reported) → State
  | none => { state with missed := fun socket => if socket = agent.Socket then state.missed socket + 1 else state.missed socket }
  | some reply => { state with
    missed := fun socket => if socket = agent.Socket then 0 else state.missed socket
    last := fun socket => if socket = agent.Socket then windows_of agent.SessionId reply else state.last socket }

/-! ## Steps -/

inductive Event where
  | setEnabled (call : Nat) (enable : Bool)
  | shutdown (call : Nat)
  | stop (call : Nat)
  | update (call : Nat) (now : UInt64)
  | enumerate (call : Nat) (sessions : Option (List Session))
  | start (call : Nat) (outcome : Outcome)
  | copy (call : Nat)
  | exchange (call : Nat) (reply : Option (List Reported))
  | write (call : Nat)

def step (state : State) : Event → Option State
  | .setEnabled call enable =>
    match state.calls call with
    | .idle => some (SetEnabled state call enable)
    | _ => none
  | .shutdown call =>
    match state.calls call with
    | .idle => some (Shutdown state call)
    | _ => none
  | .stop call =>
    match state.calls call with
    | .stopping => some (StopAllAgents state call)
    | _ => none
  | .update call now =>
    match state.calls call with
    | .idle | .enabling => some (Update state call now)
    | _ => none
  | .enumerate call sessions =>
    match state.calls call with
    | .enumerating now => some (StartMissingAgents state call now sessions)
    | _ => none
  | .start call outcome =>
    match state.calls call with
    | .starting now ((session, user) :: rest) => some (start_next (StartAgent state session user outcome) call now rest)
    | _ => none
  | .copy call =>
    match state.calls call with
    | .copying => some (move state call (.asking ⟨state.agents, [], state.agents.entries, [], OrdMap.empty, []⟩))
    | _ => none
  | .exchange call reply =>
    match state.calls call with
    | .asking asking =>
      match asking.rest with
      | (session, agent) :: rest => some (move (record state agent reply) call (.asking (ask_agent asking session agent rest reply)))
      | [] => none
    | _ => none
  | .write call =>
    match state.calls call with
    | .asking asking =>
      match asking.rest with
      | [] => some (move (write_back state asking) call .idle)
      | _ => none
    | _ => none

/-! ## Calls that only move on -/

/-- The call is neither about to stop the agents nor asking them. -/
def Plain : Phase → Prop
  | .stopping | .asking _ => False
  | _ => True

/-- Nothing but the place of the call and the times have changed. -/
structure Passes (call : Nat) (state later : State) : Prop where
  enabled : IsEnabled later = IsEnabled state
  agents : later.agents = state.agents
  windows : later.windows = state.windows
  windowSessions : later.windowSessions = state.windowSessions
  next : later.next = state.next
  told : later.told = state.told
  missed : later.missed = state.missed
  last : later.last = state.last
  others : ∀ other, other ≠ call → later.calls other = state.calls other
  plain : Plain (later.calls call)

@[simp] theorem move_self (state : State) (call : Nat) (phase : Phase) : (move state call phase).calls call = phase := by simp [move]

variable {call : Nat} {state later : State} {session : UInt32} {asking : Asking} {asked rest : List (UInt32 × SAgent)}
  {agent : SAgent}

theorem move_other (state : State) {other : Nat} (differ : other ≠ call) (phase : Phase) :
    (move state call phase).calls other = state.calls other := by simp [move, differ]

theorem move_passes (state : State) (call : Nat) {phase : Phase} (plain : Plain phase) : Passes call state (move state call phase) :=
  ⟨rfl, rfl, rfl, rfl, rfl, rfl, rfl, rfl, fun _ differ => move_other state differ phase, by simpa using plain⟩

theorem ask_in_time_passes (state : State) (call : Nat) (now : UInt64) : Passes call state (ask_in_time state call now) := by
  rw [ask_in_time]
  split_ifs
  · exact move_passes state call trivial
  · obtain ⟨enabled, agents, windows, sessions, next, told, missed, last, others, plain⟩ :=
      @move_passes { state with lastUpdate := now } call .copying trivial
    exact ⟨enabled, agents, windows, sessions, next, told, missed, last, others, plain⟩

theorem update_passes (state : State) (call : Nat) (now : UInt64) : Passes call state (Update state call now) := by
  have checked : Passes call { state with enabled := IsEnabled state, checked := true } (Update state call now) := by
    rw [Update]
    dsimp only
    generalize (if state.agents.entries.isEmpty then c_RetryInterval else c_StartInterval) = interval
    split_ifs
    · exact move_passes _ call trivial
    · obtain ⟨enabled, agents, windows, sessions, next, told, missed, last, others, plain⟩ :=
        @move_passes { state with enabled := IsEnabled state, checked := true, lastStart := now } call (.enumerating now) trivial
      exact ⟨enabled, agents, windows, sessions, next, told, missed, last, others, plain⟩
    · exact ask_in_time_passes _ call now
  obtain ⟨enabled, agents, windows, sessions, next, told, missed, last, others, plain⟩ := checked
  exact ⟨enabled, agents, windows, sessions, next, told, missed, last, others, plain⟩

theorem start_next_passes (state : State) (call : Nat) (now : UInt64) (missing : List (UInt32 × String)) :
    Passes call state (start_next state call now missing) := by
  cases missing with
  | nil => exact ask_in_time_passes state call now
  | cons first rest => exact move_passes state call trivial

theorem start_missing_passes (state : State) (call : Nat) (now : UInt64) (sessions : Option (List Session)) :
    Passes call state (StartMissingAgents state call now sessions) := by
  cases sessions with
  | none => exact ask_in_time_passes state call now
  | some sessions => exact start_next_passes state call now _

theorem write_cases (moved : step state (.write call) = some later) :
    ∃ asking, state.calls call = .asking asking ∧ asking.rest = [] ∧ later = move (write_back state asking) call .idle := by
  rw [step] at moved
  cases phase : state.calls call with
  | asking asking =>
    simp only [phase] at moved
    cases rest : asking.rest with
    | nil =>
      simp only [rest, Option.some.injEq] at moved
      exact ⟨asking, rfl, rest, moved.symm⟩
    | cons first others => simp [rest] at moved
  | _ => simp [phase] at moved

variable {event : Event}

/-- What a step does: it switches, stops, moves on, starts, copies, asks or writes back. -/
theorem step_cases (moved : step state event = some later) :
    (∃ call enable, Plain (state.calls call) ∧ later = SetEnabled state call enable) ∨
    (∃ call, event = .stop call ∧ state.calls call = .stopping ∧ later = StopAllAgents state call) ∨
    (∃ call, Plain (state.calls call) ∧ Passes call state later) ∨
    (∃ call now session user rest outcome, event = .start call outcome ∧ state.calls call = .starting now ((session, user) :: rest) ∧
      Passes call (StartAgent state session user outcome) later) ∨
    (∃ call, event = .copy call ∧ state.calls call = .copying ∧
      later = move state call (.asking ⟨state.agents, [], state.agents.entries, [], OrdMap.empty, []⟩)) ∨
    (∃ call asking session agent rest reply, event = .exchange call reply ∧ state.calls call = .asking asking ∧
      asking.rest = (session, agent) :: rest ∧
      later = move (record state agent reply) call (.asking (ask_agent asking session agent rest reply))) ∨
    (∃ call asking, event = .write call ∧ state.calls call = .asking asking ∧ asking.rest = [] ∧
      later = move (write_back state asking) call .idle) := by
  cases event with
  | setEnabled call enable =>
    rw [step] at moved
    cases phase : state.calls call with
    | idle =>
      simp only [phase, Option.some.injEq] at moved
      exact .inl ⟨call, enable, by simp [phase, Plain], moved.symm⟩
    | _ => simp [phase] at moved
  | shutdown call =>
    rw [step] at moved
    cases phase : state.calls call with
    | idle =>
      simp only [phase, Option.some.injEq] at moved
      exact .inl ⟨call, false, by simp [phase, Plain], moved.symm⟩
    | _ => simp [phase] at moved
  | stop call =>
    rw [step] at moved
    cases phase : state.calls call with
    | stopping =>
      simp only [phase, Option.some.injEq] at moved
      exact .inr (.inl ⟨call, rfl, phase, moved.symm⟩)
    | _ => simp [phase] at moved
  | update call now =>
    rw [step] at moved
    cases phase : state.calls call with
    | idle | enabling =>
      simp only [phase, Option.some.injEq] at moved
      exact .inr (.inr (.inl ⟨call, by simp [phase, Plain], moved ▸ update_passes state call now⟩))
    | _ => simp [phase] at moved
  | enumerate call sessions =>
    rw [step] at moved
    cases phase : state.calls call with
    | enumerating now =>
      simp only [phase, Option.some.injEq] at moved
      exact .inr (.inr (.inl ⟨call, by simp [phase, Plain], moved ▸ start_missing_passes state call now sessions⟩))
    | _ => simp [phase] at moved
  | start call outcome =>
    rw [step] at moved
    cases phase : state.calls call with
    | starting now missing =>
      cases missing with
      | nil => simp [phase] at moved
      | cons first rest =>
        simp only [phase, Option.some.injEq] at moved
        exact .inr (.inr (.inr (.inl ⟨call, now, first.1, first.2, rest, outcome, rfl, phase, moved ▸ start_next_passes _ call now rest⟩)))
    | _ => simp [phase] at moved
  | copy call =>
    rw [step] at moved
    cases phase : state.calls call with
    | copying =>
      simp only [phase, Option.some.injEq] at moved
      exact .inr (.inr (.inr (.inr (.inl ⟨call, rfl, phase, moved.symm⟩))))
    | _ => simp [phase] at moved
  | exchange call reply =>
    rw [step] at moved
    cases phase : state.calls call with
    | asking asking =>
      simp only [phase] at moved
      cases rest : asking.rest with
      | nil => simp [rest] at moved
      | cons first others =>
        simp only [rest, Option.some.injEq] at moved
        exact .inr (.inr (.inr (.inr (.inr (.inl ⟨call, asking, first.1, first.2, others, reply, rfl, phase, rest, moved.symm⟩)))))
    | _ => simp [phase] at moved
  | write call =>
    obtain ⟨asking, isAsking, isDone, isLater⟩ := write_cases moved
    exact .inr (.inr (.inr (.inr (.inr (.inr ⟨call, asking, rfl, isAsking, isDone, isLater⟩)))))

/-! ## Off means gone -/

/-- An off has not yet run its `StopAllAgents`. -/
def Closing (state : State) : Prop := ∃ call, state.calls call = .stopping

/-- An agent is recorded, and windows are written back, only while the feature is on or an off has yet to stop the agents; the session
    has no agent yet, every helper that was started answers, and none is dropped. -/
def Orderly (state : State) : Event → Prop
  | .start call outcome => ∀ now session user rest, state.calls call = .starting now ((session, user) :: rest) →
    match outcome with
    | .failed => True
    | .silent => False
    | .answered _ => (IsEnabled state = true ∨ Closing state) ∧ state.agents.get session = none
  | .write call => ∀ asking, state.calls call = .asking asking →
    (IsEnabled state = true ∨ Closing state ∨ asking.windows = []) ∧ ∀ session ∈ asking.dead, state.agents.get session = none
  | _ => True

/-- With the feature off and no call under way nothing is held, and all agents were told to quit. -/
def Gone (state : State) : Prop :=
  state.checked = true → state.enabled = false → (∀ call, state.calls call = .idle) →
    state.agents = OrdMap.empty ∧ state.windows = [] ∧ state.windowSessions = OrdMap.empty ∧ ∀ socket, socket < state.next → socket ∈ state.told

/-- An agent is told or in the map; the map and the windows are empty while the feature is off. -/
structure Tracked (state : State) : Prop where
  off : IsEnabled state = false → ¬ Closing state → state.agents = OrdMap.empty ∧ state.windows = [] ∧ state.windowSessions = OrdMap.empty
  known : ∀ socket, socket < state.next → socket ∈ state.told ∨ ∃ session agent, state.agents.get session = some agent ∧ agent.Socket = socket
  gathered : ∀ call asking, state.calls call = .asking asking → asking.windows = [] → asking.sessions = OrdMap.empty

theorem initial_tracked (setting : Bool) : Tracked (initial setting) := by
  constructor <;> simp [initial]

theorem closing_congr (call : Nat) (others : ∀ other, other ≠ call → later.calls other = state.calls other)
    (before : state.calls call ≠ .stopping) (after : later.calls call ≠ .stopping) : Closing later ↔ Closing state := by
  constructor
  · rintro ⟨other, isStopping⟩
    have differ : other ≠ call := by
      rintro rfl
      exact after isStopping
    exact ⟨other, by rw [← others other differ, isStopping]⟩
  · rintro ⟨other, isStopping⟩
    have differ : other ≠ call := by
      rintro rfl
      exact before isStopping
    exact ⟨other, by rw [others other differ, isStopping]⟩

theorem Plain.not_stopping {phase : Phase} (plain : Plain phase) : phase ≠ .stopping := by
  rintro rfl
  exact plain

theorem Plain.not_asking {phase : Phase} (plain : Plain phase) (asking : Asking) : phase ≠ .asking asking := by
  rintro rfl
  exact plain

theorem Tracked.passes (tracked : Tracked state) (plain : Plain (state.calls call)) (passes : Passes call state later) :
    Tracked later := by
  refine ⟨?_, ?_, ?_⟩
  · intro isOff notClosing
    rw [passes.agents, passes.windows, passes.windowSessions]
    have same := closing_congr call passes.others plain.not_stopping passes.plain.not_stopping
    exact tracked.off (passes.enabled.symm.trans isOff) (fun closing => notClosing (same.mpr closing))
  · intro socket started
    rw [passes.told, passes.agents]
    exact tracked.known socket (passes.next ▸ started)
  · intro other asking isAsking
    have differ : other ≠ call := by
      rintro rfl
      exact passes.plain.not_asking asking isAsking
    exact tracked.gathered other asking (by rw [← passes.others other differ, isAsking])

theorem asking_of_move {state : State} {call other : Nat} {phase : Phase} {asking : Asking} (plain : ∀ asking, phase ≠ .asking asking)
    (isAsking : (move state call phase).calls other = .asking asking) : state.calls other = .asking asking := by
  by_cases same : other = call
  · subst same
    rw [move_self] at isAsking
    exact absurd isAsking (plain asking)
  · rwa [move_other state same] at isAsking

theorem Tracked.set_enabled (tracked : Tracked state) (call : Nat) (enable : Bool) :
    Tracked (SetEnabled state call enable) := by
  cases enable with
  | true =>
    refine ⟨?_, tracked.known, ?_⟩
    · intro isOff
      simp [IsEnabled, SetEnabled, move] at isOff
    · intro other asking isAsking
      exact tracked.gathered other asking (@asking_of_move { state with enabled := true, checked := true } call other .enabling asking (by simp) isAsking)
  | false =>
    refine ⟨?_, tracked.known, ?_⟩
    · intro _ notClosing
      exact absurd ⟨call, by simp [SetEnabled]⟩ notClosing
    · intro other asking isAsking
      exact tracked.gathered other asking (@asking_of_move { state with enabled := false, checked := true } call other .stopping asking (by simp) isAsking)

theorem Tracked.stop (tracked : Tracked state) (call : Nat) : Tracked (StopAllAgents state call) := by
  refine ⟨fun _ _ => ⟨rfl, rfl, rfl⟩, ?_, ?_⟩
  · intro socket started
    refine .inl (List.mem_append.mpr ?_)
    obtain told | ⟨session, agent, isAgent, isSocket⟩ := tracked.known socket started
    · exact .inl told
    · exact .inr (List.mem_map.mpr ⟨(session, agent), OrdMap.mem_entries.mpr isAgent, isSocket⟩)
  · intro other asking isAsking
    exact tracked.gathered other asking (asking_of_move (by simp) isAsking)

theorem Tracked.start (tracked : Tracked state) {user : String} {outcome : Outcome}
    (orderly : match outcome with | .failed => True | .silent => False | .answered _ => (IsEnabled state = true ∨ Closing state) ∧ state.agents.get session = none)
    : Tracked (StartAgent state session user outcome) := by
  cases outcome with
  | failed => exact tracked
  | silent => exact orderly.elim
  | answered pid =>
    obtain ⟨isOpen, isFree⟩ := orderly
    refine ⟨?_, ?_, tracked.gathered⟩
    · intro isOff notClosing
      obtain isOn | closing := isOpen
      · exact absurd (isOn.symm.trans isOff) (by simp)
      · exact absurd closing notClosing
    · intro socket started
      obtain older | isNew := Nat.lt_succ_iff_lt_or_eq.mp started
      · obtain told | ⟨other, agent, isAgent, isSocket⟩ := tracked.known socket older
        · exact .inl told
        · refine .inr ⟨other, agent, ?_, isSocket⟩
          have differ : other ≠ session := by
            rintro rfl
            rw [isFree] at isAgent
            cases isAgent
          simpa [StartAgent, Ne.symm differ] using isAgent
      · exact .inr ⟨session, ⟨session, user, state.next, pid, 0⟩, by simp [StartAgent], isNew.symm⟩

theorem get_erase_all (dead : List UInt32) (agents : OrdMap UInt32 SAgent) (session : UInt32) :
    (dead.foldl OrdMap.erase agents).get session = if session ∈ dead then none else agents.get session := by
  induction dead generalizing agents with
  | nil => simp
  | cons first rest ih =>
    rw [List.foldl_cons, ih, OrdMap.get_erase]
    by_cases same : first = session
    · simp [same]
    · simp [same, Ne.symm same]

theorem get_set_failures (agents : OrdMap UInt32 SAgent) (asked : UInt32 × SAgent) (session : UInt32) :
    (set_failures agents asked).get session =
      (agents.get session).map (fun agent => if asked.1 = session then { agent with Failures := asked.2.Failures } else agent) := by
  rw [set_failures]
  cases isAgent : agents.get asked.1 with
  | none =>
    by_cases same : asked.1 = session
    · simp [← same, isAgent]
    · simp [same]
  | some agent =>
    by_cases same : asked.1 = session
    · simp [← same, isAgent]
    · simp [same]

theorem socket_set_failures (done : List (UInt32 × SAgent)) (agents : OrdMap UInt32 SAgent) (session : UInt32) :
    ((done.foldl set_failures agents).get session).map SAgent.Socket = (agents.get session).map SAgent.Socket := by
  induction done generalizing agents with
  | nil => rfl
  | cons first rest ih =>
    rw [List.foldl_cons, ih, get_set_failures, Option.map_map]
    congr 1
    funext agent
    simp only [Function.comp_apply]
    split_ifs <;> rfl

theorem windows_fold (session : UInt32) (reply : List Reported) (windows : List SWindow) :
    (windows_of session reply).foldl (fun windows window => window :: windows) windows = (windows_of session reply).reverse ++ windows := by
  simp

theorem Tracked.exchange (tracked : Tracked state) (isAsking : state.calls call = .asking asking) (session : UInt32)
    (agent : SAgent) (rest : List (UInt32 × SAgent)) (reply : Option (List Reported)) :
    Tracked (move (record state agent reply) call (.asking (ask_agent asking session agent rest reply))) := by
  have before := tracked.gathered call asking isAsking
  have gathered : (ask_agent asking session agent rest reply).windows = [] → (ask_agent asking session agent rest reply).sessions = OrdMap.empty := by
    cases reply with
    | none => exact before
    | some reply =>
      intro none
      simp only [ask_agent, windows_fold, List.append_eq_nil_iff, List.reverse_eq_nil_iff] at none
      simpa [ask_agent, none.1] using before none.2
  have same : Closing (move (record state agent reply) call (.asking (ask_agent asking session agent rest reply))) ↔ Closing state := by
    refine closing_congr call (fun other differ => ?_) (by simp [isAsking]) (by simp)
    rw [move_other _ differ]
    cases reply <;> rfl
  refine ⟨?_, ?_, ?_⟩
  · intro isOff notClosing
    have isEmpty := tracked.off (by cases reply <;> exact isOff) (fun closing => notClosing (same.mpr closing))
    cases reply <;> exact isEmpty
  · cases reply <;> exact tracked.known
  · intro other otherAsking isOther
    by_cases isCall : other = call
    · subst isCall
      rw [move_self, Phase.asking.injEq] at isOther
      exact isOther ▸ gathered
    · rw [move_other _ isCall] at isOther
      exact tracked.gathered other otherAsking (by cases reply <;> exact isOther)

theorem Tracked.write (tracked : Tracked state) (isAsking : state.calls call = .asking asking)
    (isOpen : IsEnabled state = true ∨ Closing state ∨ asking.windows = [])
    (notDropped : ∀ session ∈ asking.dead, state.agents.get session = none) :
    Tracked (move (write_back state asking) call .idle) := by
  have same : Closing (move (write_back state asking) call .idle) ↔ Closing state :=
    closing_congr call (fun other differ => move_other _ differ _) (by simp [isAsking]) (by simp)
  have sockets : ∀ session, ((write_back state asking).agents.get session).map SAgent.Socket = (state.agents.get session).map SAgent.Socket := by
    intro session
    rw [write_back, socket_set_failures, get_erase_all]
    split_ifs with isDead
    · rw [notDropped session isDead]
    · rfl
  refine ⟨?_, ?_, ?_⟩
  · intro isOff notClosing
    have stays : ¬ Closing state := fun closing => notClosing (same.mpr closing)
    have none : asking.windows = [] := by
      obtain isOn | closing | none := isOpen
      · exact absurd (isOn.symm.trans isOff) (by simp)
      · exact absurd closing stays
      · exact none
    refine ⟨OrdMap.ext_get (fun session => ?_), none, tracked.gathered call asking isAsking none⟩
    have socket := sockets session
    rw [(tracked.off isOff stays).1, OrdMap.get_empty, Option.map_none, Option.map_eq_none_iff] at socket
    exact socket
  · intro socket started
    obtain told | ⟨session, agent, isAgent, isSocket⟩ := tracked.known socket started
    · exact .inl told
    · have still := sockets session
      rw [isAgent] at still
      obtain ⟨later, isLater, sameSocket⟩ := Option.map_eq_some_iff.mp still
      exact .inr ⟨session, later, isLater, sameSocket.trans isSocket⟩
  · intro other otherAsking isOther
    exact tracked.gathered other otherAsking (asking_of_move (by simp) isOther)

theorem Tracked.step (tracked : Tracked state) (orderly : Orderly state event) (moved : step state event = some later) :
    Tracked later := by
  obtain ⟨call, enable, -, rfl⟩ | ⟨call, rfl, isStopping, rfl⟩ | ⟨call, plain, passes⟩ |
    ⟨call, now, session, user, rest, outcome, rfl, isStarting, passes⟩ | ⟨call, rfl, isCopying, rfl⟩ |
    ⟨call, asking, session, agent, rest, reply, rfl, isAsking, isRest, rfl⟩ | ⟨call, asking, rfl, isAsking, isDone, rfl⟩ := step_cases moved
  · exact tracked.set_enabled call enable
  · exact tracked.stop call
  · exact tracked.passes plain passes
  · refine (tracked.start (orderly now session user rest isStarting)).passes ?_ passes
    cases outcome <;> simp [StartAgent, isStarting, Plain]
  · refine ⟨?_, tracked.known, ?_⟩
    · intro isOff notClosing
      have same : Closing (move state call (.asking ⟨state.agents, [], state.agents.entries, [], OrdMap.empty, []⟩)) ↔ Closing state :=
        closing_congr call (fun other differ => move_other state differ _) (by simp [isCopying]) (by simp)
      exact tracked.off isOff (fun closing => notClosing (same.mpr closing))
    · intro other asking isAsking
      by_cases isCall : other = call
      · subst isCall
        rw [move_self, Phase.asking.injEq] at isAsking
        simp [← isAsking]
      · rw [move_other _ isCall] at isAsking
        exact tracked.gathered other asking isAsking
  · exact tracked.exchange isAsking session agent rest reply
  · obtain ⟨isOpen, notDropped⟩ := orderly asking isAsking
    exact tracked.write isAsking isOpen notDropped

theorem Tracked.gone (tracked : Tracked state) : Gone state := by
  intro checked isOff allIdle
  have disabled : IsEnabled state = false := by simp [IsEnabled, checked, isOff]
  have notClosing : ¬ Closing state := by
    rintro ⟨call, isStopping⟩
    rw [allIdle call] at isStopping
    cases isStopping
  obtain ⟨noAgents, noWindows, noSessions⟩ := tracked.off disabled notClosing
  refine ⟨noAgents, noWindows, noSessions, fun socket started => ?_⟩
  obtain told | ⟨session, agent, isAgent, -⟩ := tracked.known socket started
  · exact told
  · rw [noAgents] at isAgent
    cases isAgent

/-! ## The windows of the last answers -/

/-- `AskAgents` runs in one call at a time, the agents it asked are unchanged when it writes back, an agent is started for a session that
    has none, and one that misses a question after an answer had no windows to lose. -/
def Apart (state : State) : Event → Prop
  | .start call (.answered _) => ∀ now session user rest, state.calls call = .starting now ((session, user) :: rest) →
    state.agents.get session = none
  | .copy _ => ∀ other asking, state.calls other ≠ .asking asking
  | .exchange call none => ∀ asking session agent rest, state.calls call = .asking asking → asking.rest = (session, agent) :: rest →
    agent.Failures = 0 → state.last agent.Socket = []
  | .write call => ∀ asking, state.calls call = .asking asking → state.agents = asking.copied
  | _ => True

/-- The sessions are those of the windows. -/
structure Listed (windows : List SWindow) (sessions : OrdMap UInt64 UInt32) : Prop where
  all : ∀ window ∈ windows, (sessions.get window.hWnd).isSome
  only : ∀ hWnd session, sessions.get hWnd = some session → ∃ window ∈ windows, window.hWnd = hWnd ∧ window.SessionId = session

/-- The windows held are those of the last answer of each agent, and no agent has missed more than one question in a row. -/
structure Shown (state : State) : Prop where
  windows : state.windows.Perm (state.agents.entries.flatMap (fun pair => state.last pair.2.Socket))
  sessions : Listed state.windows state.windowSessions
  missed : ∀ session agent, state.agents.get session = some agent → state.missed agent.Socket ≤ 1

/-- An agent goes when the answers are written back and it has missed two questions in a row, and else only when all are stopped. -/
def DroppedRightly (state : State) (event : Event) (later : State) : Prop :=
  ∀ session agent, state.agents.get session = some agent →
    match event with
    | .stop _ => True
    | .write _ => later.agents.get session = none ↔ 2 ≤ state.missed agent.Socket
    | _ => later.agents.get session = some agent

/-- No two sessions have one agent. -/
def OwnSockets (agents : OrdMap UInt32 SAgent) : Prop :=
  ∀ session other agent further, agents.get session = some agent → agents.get other = some further → agent.Socket = further.Socket → session = other

/-- How far a round has come: of the agents it copied, `asked` have been asked. -/
structure Round (state : State) (asking : Asking) (asked : List (UInt32 × SAgent)) : Prop where
  copied : asking.copied.entries = asked ++ asking.rest
  done : asking.done = asked.map (fun pair => (pair.1, { pair.2 with Failures := state.missed pair.2.Socket }))
  dead : asking.dead = (asked.filter (fun pair => 2 ≤ state.missed pair.2.Socket)).map Prod.fst
  windows : asking.windows.Perm ((asked.filter (fun pair => state.missed pair.2.Socket < 2)).flatMap (fun pair => state.last pair.2.Socket))
  sessions : Listed asking.windows asking.sessions
  waiting : ∀ pair ∈ asking.rest, state.missed pair.2.Socket = pair.2.Failures ∧ pair.2.Failures ≤ 1
  sockets : OwnSockets asking.copied
  started : ∀ pair ∈ asking.copied.entries, pair.2.Socket < state.next

/-- The failures of an agent count the questions it has missed, as soon as they are written back. -/
structure Counted (state : State) : Prop where
  started : ∀ session agent, state.agents.get session = some agent → agent.Socket < state.next
  sockets : OwnSockets state.agents
  fresh : ∀ socket, state.next ≤ socket → state.missed socket = 0
  single : ∀ call other one two, state.calls call = .asking one → state.calls other = .asking two → call = other
  few : ∀ session agent, state.agents.get session = some agent → agent.Failures ≤ 1
  counted : ∀ session agent, state.agents.get session = some agent →
    (∀ call asking, state.calls call = .asking asking → ∀ pair ∈ asking.done, pair.2.Socket ≠ agent.Socket) → state.missed agent.Socket = agent.Failures
  round : ∀ call asking, state.calls call = .asking asking → ∃ asked, Round state asking asked

theorem Round.congr (round : Round state asking asked) (missed : later.missed = state.missed)
    (last : later.last = state.last) (next : state.next ≤ later.next) : Round later asking asked := by
  obtain ⟨copied, done, dead, windows, sessions, waiting, sockets, started⟩ := round
  refine ⟨copied, ?_, ?_, ?_, sessions, ?_, sockets, fun pair member => (started pair member).trans_le next⟩
  · rwa [missed]
  · rwa [missed]
  · rwa [missed, last]
  · rwa [missed]

theorem initial_counted (setting : Bool) : Counted (initial setting) := by
  constructor <;> simp [initial, OwnSockets]

theorem Counted.congr (call : Nat) (counted : Counted state)
    (others : ∀ other, other ≠ call → later.calls other = state.calls other)
    (before : ∀ asking, state.calls call ≠ .asking asking) (after : ∀ asking, later.calls call ≠ .asking asking)
    (agents : later.agents = state.agents) (next : later.next = state.next) (missed : later.missed = state.missed)
    (last : later.last = state.last) : Counted later := by
  have same : ∀ other asking, later.calls other = .asking asking ↔ state.calls other = .asking asking := by
    intro other asking
    by_cases isCall : other = call
    · subst isCall
      exact iff_of_false (after asking) (before asking)
    · rw [others other isCall]
  refine ⟨?_, ?_, ?_, ?_, ?_, ?_, ?_⟩
  · rw [agents, next]
    exact counted.started
  · rw [agents]
    exact counted.sockets
  · rw [missed, next]
    exact counted.fresh
  · simp only [same]
    exact counted.single
  · rw [agents]
    exact counted.few
  · simp only [same, agents, missed]
    exact counted.counted
  · intro other asking isAsking
    obtain ⟨asked, round⟩ := counted.round other asking ((same other asking).mp isAsking)
    exact ⟨asked, round.congr missed last next.ge⟩

theorem Counted.passes (counted : Counted state) (plain : Plain (state.calls call)) (passes : Passes call state later) :
    Counted later :=
  counted.congr call passes.others plain.not_asking passes.plain.not_asking passes.agents passes.next passes.missed passes.last

theorem Counted.set_enabled (counted : Counted state) (plain : Plain (state.calls call)) (enable : Bool) :
    Counted (SetEnabled state call enable) := by
  refine counted.congr call (fun other differ => move_other _ differ _) plain.not_asking (fun asking => ?_) rfl rfl rfl rfl
  cases enable <;> simp [SetEnabled]

theorem Counted.stop (counted : Counted state) (isStopping : state.calls call = .stopping) :
    Counted (StopAllAgents state call) := by
  have cleared : Counted { state with agents := OrdMap.empty } := by
    refine ⟨by simp, by simp [OwnSockets], counted.fresh, counted.single, by simp, by simp, ?_⟩
    intro other asking isAsking
    obtain ⟨asked, round⟩ := counted.round other asking isAsking
    exact ⟨asked, round.congr rfl rfl le_rfl⟩
  exact cleared.congr call (fun other differ => move_other _ differ _) (by simp [isStopping]) (by simp [StopAllAgents]) rfl rfl rfl rfl

theorem Counted.start (counted : Counted state) (session : UInt32) (user : String) (outcome : Outcome) :
    Counted (StartAgent state session user outcome) := by
  have waiting : ∀ call asking, state.calls call = .asking asking → ∃ asked, Round { state with next := state.next + 1 } asking asked := by
    intro call asking isAsking
    obtain ⟨asked, round⟩ := counted.round call asking isAsking
    exact ⟨asked, round.congr rfl rfl (Nat.le_succ _)⟩
  cases outcome with
  | failed => exact counted
  | silent =>
    refine ⟨?_, counted.sockets, ?_, counted.single, counted.few, counted.counted, waiting⟩
    · intro other agent isAgent
      exact (counted.started other agent isAgent).trans (Nat.lt_succ_self _)
    · intro socket later
      exact counted.fresh socket (Nat.le_of_succ_le later)
  | answered pid =>
    refine ⟨?_, ?_, ?_, counted.single, ?_, ?_, ?_⟩
    · intro other agent isAgent
      rw [StartAgent, OrdMap.get_insert] at isAgent
      split_ifs at isAgent with same
      · cases isAgent
        exact Nat.lt_succ_self _
      · exact (counted.started other agent isAgent).trans (Nat.lt_succ_self _)
    · intro one two agent further isAgent isFurther same
      rw [StartAgent, OrdMap.get_insert] at isAgent isFurther
      split_ifs at isAgent isFurther with isOne isTwo isTwo
      · exact isOne.symm.trans isTwo
      · cases isAgent
        have older := counted.started two further isFurther
        simp only at same
        omega
      · cases isFurther
        have older := counted.started one agent isAgent
        simp only at same
        omega
      · exact counted.sockets one two agent further isAgent isFurther same
    · intro socket later
      exact counted.fresh socket (Nat.le_of_succ_le later)
    · intro other agent isAgent
      rw [StartAgent, OrdMap.get_insert] at isAgent
      split_ifs at isAgent with same
      · cases isAgent
        exact Nat.zero_le _
      · exact counted.few other agent isAgent
    · intro other agent isAgent
      rw [StartAgent, OrdMap.get_insert] at isAgent
      split_ifs at isAgent with same
      · cases isAgent
        exact fun _ => counted.fresh state.next le_rfl
      · exact counted.counted other agent isAgent
    · intro call asking isAsking
      obtain ⟨asked, round⟩ := waiting call asking isAsking
      exact ⟨asked, round.congr rfl rfl le_rfl⟩

theorem Counted.copy {state : State} (counted : Counted state) (call : Nat)
    (alone : ∀ other asking, state.calls other ≠ .asking asking) :
    Counted (move state call (.asking ⟨state.agents, [], state.agents.entries, [], OrdMap.empty, []⟩)) := by
  have only : ∀ other asking, (move state call (.asking ⟨state.agents, [], state.agents.entries, [], OrdMap.empty, []⟩)).calls other =
      .asking asking → other = call ∧ asking = ⟨state.agents, [], state.agents.entries, [], OrdMap.empty, []⟩ := by
    intro other asking isAsking
    by_cases isCall : other = call
    · subst isCall
      rw [move_self, Phase.asking.injEq] at isAsking
      exact ⟨rfl, isAsking.symm⟩
    · rw [move_other _ isCall] at isAsking
      exact absurd isAsking (alone other asking)
  refine ⟨counted.started, counted.sockets, counted.fresh, ?_, counted.few, ?_, ?_⟩
  · intro one two first second isFirst isSecond
    exact (only one first isFirst).1.trans (only two second isSecond).1.symm
  · intro session agent isAgent _
    exact counted.counted session agent isAgent (fun other asking isAsking => absurd isAsking (alone other asking))
  · intro other asking isAsking
    obtain ⟨rfl, rfl⟩ := only other asking isAsking
    refine ⟨[], rfl, rfl, rfl, by simp, ⟨by simp, by simp⟩, ?_, counted.sockets, ?_⟩
    · rintro ⟨session, agent⟩ member
      have isAgent := OrdMap.mem_entries.mp member
      exact ⟨counted.counted session agent isAgent (fun other asking isAsking => absurd isAsking (alone other asking)), counted.few session agent isAgent⟩
    · rintro ⟨session, agent⟩ member
      exact counted.started session agent (OrdMap.mem_entries.mp member)

theorem Listed.insert {windows : List SWindow} {sessions : OrdMap UInt64 UInt32} (listed : Listed windows sessions) (further : List SWindow) :
    Listed (further.foldl (fun windows window => window :: windows) windows)
      (further.foldl (fun map window => map.insert window.hWnd window.SessionId) sessions) := by
  induction further generalizing windows sessions with
  | nil => exact listed
  | cons first rest ih =>
    refine ih ⟨?_, ?_⟩
    · intro window member
      rw [OrdMap.get_insert]
      split_ifs with same
      · rfl
      · obtain rfl | older := List.mem_cons.mp member
        · exact absurd rfl same
        · exact listed.all window older
    · intro hWnd session isSession
      rw [OrdMap.get_insert] at isSession
      split_ifs at isSession with same
      · exact ⟨first, List.mem_cons_self, same, Option.some.inj isSession⟩
      · obtain ⟨window, member, rest⟩ := listed.only hWnd session isSession
        exact ⟨window, List.mem_cons_of_mem _ member, rest⟩

theorem Round.differ (round : Round state asking asked) (isRest : asking.rest = (session, agent) :: rest) :
    (∀ pair ∈ asked, pair.2.Socket ≠ agent.Socket) ∧ ∀ pair ∈ rest, pair.2.Socket ≠ agent.Socket := by
  have entries : asking.copied.entries = asked ++ (session, agent) :: rest := isRest ▸ round.copied
  have keys := asking.copied.keys_nodup
  rw [entries, List.map_append, List.map_cons, List.nodup_append, List.nodup_cons] at keys
  have own : asking.copied.get session = some agent := OrdMap.mem_entries.mp (by simp [entries])
  constructor
  · rintro ⟨other, further⟩ member same
    have there : asking.copied.get other = some further := OrdMap.mem_entries.mp (by simp [entries, member])
    obtain rfl := round.sockets other session further agent there own same
    exact keys.2.2 other (List.mem_map.mpr ⟨_, member, rfl⟩) other (by simp) rfl
  · rintro ⟨other, further⟩ member same
    have there : asking.copied.get other = some further := OrdMap.mem_entries.mp (by simp [entries, member])
    obtain rfl := round.sockets other session further agent there own same
    exact keys.2.1.1 (List.mem_map.mpr ⟨_, member, rfl⟩)

theorem Round.extend {further : Asking} (round : Round state asking asked)
    (isRest : asking.rest = (session, agent) :: further.rest)
    (missed : ∀ socket, socket ≠ agent.Socket → later.missed socket = state.missed socket)
    (last : ∀ socket, socket ≠ agent.Socket → later.last socket = state.last socket) (next : later.next = state.next)
    (copied : further.copied = asking.copied)
    (done : further.done = asking.done ++ [(session, { agent with Failures := later.missed agent.Socket })])
    (dead : further.dead = asking.dead ++ if 2 ≤ later.missed agent.Socket then [session] else [])
    (windows : further.windows.Perm (asking.windows ++ if later.missed agent.Socket < 2 then later.last agent.Socket else []))
    (sessions : Listed further.windows further.sessions) : Round later further (asked ++ [(session, agent)]) := by
  obtain ⟨before, after⟩ := round.differ isRest
  have sameMissed : ∀ pair ∈ asked, later.missed pair.2.Socket = state.missed pair.2.Socket := fun pair member => missed _ (before pair member)
  refine ⟨?_, ?_, ?_, ?_, sessions, ?_, copied ▸ round.sockets, ?_⟩
  · rw [copied, round.copied, isRest]
    simp
  · rw [done, round.done, List.map_append]
    congr 1
    exact List.map_congr_left (fun pair member => by rw [sameMissed pair member])
  · rw [dead, round.dead, List.filter_append, List.map_append]
    congr 2
    · exact List.filter_congr (fun pair member => by rw [sameMissed pair member])
    · split_ifs with twice <;> simp [twice]
  · refine windows.trans ?_
    rw [List.filter_append, List.flatMap_append]
    refine List.Perm.append ?_ ?_
    · rw [List.filter_congr (fun pair member => by rw [sameMissed pair member])]
      refine round.windows.trans (List.Perm.of_eq (List.flatMap_congr (fun pair member => ?_)))
      exact (last _ (before pair (List.mem_filter.mp member).1)).symm
    · split_ifs with once
      · rw [List.filter_cons_of_pos (by simpa using once)]
        simp
      · rw [List.filter_cons_of_neg (by simpa using once)]
        simp
  · intro pair member
    rw [missed _ (after pair member)]
    exact round.waiting pair (by simp [isRest, member])
  · rw [copied, next]
    exact round.started

theorem Round.missed (round : Round state asking asked) (isRest : asking.rest = (session, agent) :: rest)
    (nothing : agent.Failures = 0 → state.last agent.Socket = []) :
    Round (record state agent none) (ask_agent asking session agent rest none) (asked ++ [(session, agent)]) := by
  obtain ⟨isFailures, few⟩ := round.waiting (session, agent) (by simp [isRest])
  have now : (record state agent none).missed agent.Socket = agent.Failures + 1 := by simp [record, isFailures]
  refine round.extend isRest ?_ ?_ rfl rfl ?_ ?_ ?_ round.sessions
  · intro socket differ
    simp [record, differ]
  · exact fun _ _ => rfl
  · rw [now]
    rfl
  · rw [now, ask_agent]
    split_ifs <;> simp
  · rw [now]
    split_ifs with once
    · rw [show (record state agent none).last = state.last from rfl, nothing (by omega)]
      simp [ask_agent]
    · simp [ask_agent]

theorem Round.answered (round : Round state asking asked) (isRest : asking.rest = (session, agent) :: rest)
    (reply : List Reported) :
    Round (record state agent (some reply)) (ask_agent asking session agent rest (some reply)) (asked ++ [(session, agent)]) := by
  have now : (record state agent (some reply)).missed agent.Socket = 0 := by simp [record]
  refine round.extend isRest ?_ ?_ rfl rfl ?_ ?_ ?_ (round.sessions.insert _)
  · intro socket differ
    simp [record, differ]
  · intro socket differ
    simp [record, differ]
  · rw [now]
    rfl
  · simp [now, ask_agent]
  · rw [now, if_pos Nat.zero_lt_two, ask_agent, windows_fold]
    simp only [record, if_true]
    exact List.perm_append_comm.trans (List.Perm.append_left _ (List.reverse_perm _))

theorem Counted.exchange (counted : Counted state) {reply : Option (List Reported)}
    (isAsking : state.calls call = .asking asking) (isRest : asking.rest = (session, agent) :: rest)
    (nothing : reply = none → agent.Failures = 0 → state.last agent.Socket = []) :
    Counted (move (record state agent reply) call (.asking (ask_agent asking session agent rest reply))) := by
  obtain ⟨asked, round⟩ := counted.round call asking isAsking
  have further : ∃ asked, Round (record state agent reply) (ask_agent asking session agent rest reply) asked := by
    cases reply with
    | none => exact ⟨_, round.missed isRest (nothing rfl)⟩
    | some reply => exact ⟨_, round.answered isRest reply⟩
  have only : ∀ other otherAsking, (move (record state agent reply) call (.asking (ask_agent asking session agent rest reply))).calls other =
      .asking otherAsking → other = call ∧ otherAsking = ask_agent asking session agent rest reply := by
    intro other otherAsking isOther
    by_cases isCall : other = call
    · subst isCall
      rw [move_self, Phase.asking.injEq] at isOther
      exact ⟨rfl, isOther.symm⟩
    · rw [move_other _ isCall] at isOther
      have before : state.calls other = .asking otherAsking := by cases reply <;> exact isOther
      exact absurd (counted.single other call otherAsking asking before isAsking) isCall
  have started : agent.Socket < state.next := round.started (session, agent) (by simp [round.copied, isRest])
  have others : ∀ socket, socket ≠ agent.Socket → (record state agent reply).missed socket = state.missed socket := by
    intro socket differ
    cases reply <;> simp [record, differ]
  refine ⟨?_, ?_, ?_, ?_, ?_, ?_, ?_⟩
  · cases reply <;> exact counted.started
  · cases reply <;> exact counted.sockets
  · intro socket later
    have old : state.next ≤ socket := by cases reply <;> exact later
    exact (others socket (by omega)).trans (counted.fresh socket old)
  · intro one two first second isFirst isSecond
    exact (only one first isFirst).1.trans (only two second isSecond).1.symm
  · cases reply <;> exact counted.few
  · intro other otherAgent isAgent notDone
    have isOld : state.agents.get other = some otherAgent := by cases reply <;> exact isAgent
    have unasked := notDone call _ (move_self _ _ _)
    have differ : otherAgent.Socket ≠ agent.Socket := by
      have isDone := unasked (session, { agent with Failures := (if reply.isNone then agent.Failures + 1 else 0) })
        (by cases reply <;> simp [ask_agent])
      exact fun same => isDone same.symm
    refine (others otherAgent.Socket differ).trans (counted.counted other otherAgent isOld ?_)
    intro otherCall otherAsking isOther pair member
    have isCall := counted.single otherCall call otherAsking asking isOther isAsking
    subst isCall
    rw [isAsking, Phase.asking.injEq] at isOther
    subst isOther
    exact unasked pair (by cases reply <;> simp [ask_agent, member])
  · intro other otherAsking isOther
    obtain ⟨rfl, rfl⟩ := only other otherAsking isOther
    obtain ⟨asked, round⟩ := further
    exact ⟨asked, round.congr rfl rfl le_rfl⟩

theorem find_set_failures {done : List (UInt32 × SAgent)} (once : (done.map Prod.fst).Nodup) (agents : OrdMap UInt32 SAgent) (session : UInt32) :
    (done.foldl set_failures agents).get session =
      (agents.get session).map (fun agent => ((find session done).map (fun asked => { agent with Failures := asked.Failures })).getD agent) := by
  induction done generalizing agents with
  | nil => simp
  | cons first rest ih =>
    obtain ⟨notRest, onceRest⟩ := List.nodup_cons.mp once
    rw [List.foldl_cons, ih onceRest, get_set_failures, Option.map_map, find]
    congr 1
    funext agent
    simp only [Function.comp_apply]
    split_ifs with same
    · have absent : find session rest = none := by
        by_contra there
        obtain ⟨asked, found⟩ := Option.ne_none_iff_exists'.mp there
        exact notRest (List.mem_map.mpr ⟨_, find_mem found, same.symm⟩)
      simp [absent]
    · rfl

theorem Round.written {state : State} {asking : Asking} {asked : List (UInt32 × SAgent)} (round : Round state asking asked)
    (isDone : asking.rest = []) (unchanged : state.agents = asking.copied) :
    (write_back state asking).agents = (state.agents.filter (fun _ agent => state.missed agent.Socket < 2)).mapValues
      (fun _ agent => { agent with Failures := state.missed agent.Socket }) := by
  have entries : state.agents.entries = asked := by rw [unchanged, round.copied, isDone, List.append_nil]
  have keys : asking.done.map Prod.fst = state.agents.entries.map Prod.fst := by
    rw [round.done, entries, List.map_map]
    rfl
  have isDead : ∀ session agent, state.agents.get session = some agent → (session ∈ asking.dead ↔ 2 ≤ state.missed agent.Socket) := by
    intro session agent isAgent
    rw [round.dead, ← entries, List.mem_map]
    constructor
    · rintro ⟨⟨other, further⟩, member, rfl⟩
      obtain ⟨isOther, twice⟩ := List.mem_filter.mp member
      rw [OrdMap.mem_entries.mp isOther, Option.some.injEq] at isAgent
      simpa [isAgent] using twice
    · intro twice
      exact ⟨(session, agent), List.mem_filter.mpr ⟨OrdMap.mem_entries.mpr isAgent, by simpa using twice⟩, rfl⟩
  have isCounted : ∀ session agent, state.agents.get session = some agent →
      find session asking.done = some { agent with Failures := state.missed agent.Socket } := by
    intro session agent isAgent
    rw [round.done, ← entries]
    have mapped := find_map session (fun _ (agent : SAgent) => { agent with Failures := state.missed agent.Socket }) state.agents.entries
    rw [mapped]
    exact congrArg _ isAgent
  refine OrdMap.ext_get (fun session => ?_)
  rw [write_back, find_set_failures (keys ▸ state.agents.keys_nodup), get_erase_all, OrdMap.get_mapValues, OrdMap.get_filter]
  cases isAgent : state.agents.get session with
  | none => simp
  | some agent =>
    by_cases twice : 2 ≤ state.missed agent.Socket
    · simp only [(isDead session agent isAgent).mpr twice, if_true, Option.map_none]
      simp
      omega
    · have stays : session ∉ asking.dead := fun member => twice ((isDead session agent isAgent).mp member)
      simp only [stays, if_false, isCounted session agent isAgent]
      simp
      omega

theorem Round.shown (round : Round state asking asked) (isDone : asking.rest = [])
    (unchanged : state.agents = asking.copied) : Shown (write_back state asking) := by
  have written := round.written isDone unchanged
  have entries : state.agents.entries = asked := by rw [unchanged, round.copied, isDone, List.append_nil]
  refine ⟨?_, round.sessions, ?_⟩
  · rw [written]
    refine round.windows.trans (List.Perm.of_eq ?_)
    rw [← entries, OrdMap.mapValues, List.flatMap_map]
    rfl
  · intro session agent isAgent
    rw [written, OrdMap.get_mapValues, OrdMap.get_filter] at isAgent
    obtain ⟨older, isOlder, rfl⟩ := Option.map_eq_some_iff.mp isAgent
    have once := (Option.filter_eq_some_iff.mp isOlder).2
    simp only [decide_eq_true_eq] at once
    exact Nat.le_of_lt_succ once

theorem Counted.write (counted : Counted state) (isAsking : state.calls call = .asking asking)
    (isDone : asking.rest = []) (unchanged : state.agents = asking.copied) :
    Counted (move (write_back state asking) call .idle) := by
  obtain ⟨asked, round⟩ := counted.round call asking isAsking
  have written := round.written isDone unchanged
  have shown := round.shown isDone unchanged
  have older : ∀ session agent, (write_back state asking).agents.get session = some agent →
      agent.Failures = state.missed agent.Socket ∧ ∃ before, state.agents.get session = some before ∧ before.Socket = agent.Socket := by
    intro session agent isAgent
    rw [written, OrdMap.get_mapValues, OrdMap.get_filter] at isAgent
    obtain ⟨before, isBefore, rfl⟩ := Option.map_eq_some_iff.mp isAgent
    exact ⟨rfl, before, (Option.filter_eq_some_iff.mp isBefore).1, rfl⟩
  have none : ∀ other otherAsking, (move (write_back state asking) call .idle).calls other ≠ .asking otherAsking := by
    intro other otherAsking isOther
    by_cases isCall : other = call
    · subst isCall
      simp at isOther
    · rw [move_other _ isCall] at isOther
      exact isCall (counted.single other call otherAsking asking isOther isAsking)
  refine ⟨?_, ?_, counted.fresh, ?_, ?_, ?_, ?_⟩
  · intro session agent isAgent
    obtain ⟨-, before, isBefore, same⟩ := older session agent isAgent
    exact same ▸ counted.started session before isBefore
  · intro session other agent further isAgent isFurther same
    obtain ⟨-, before, isBefore, sameAgent⟩ := older session agent isAgent
    obtain ⟨-, beforeFurther, isBeforeFurther, sameFurther⟩ := older other further isFurther
    exact counted.sockets session other before beforeFurther isBefore isBeforeFurther (by rw [sameAgent, same, sameFurther])
  · intro one two first second isFirst _
    exact absurd isFirst (none one first)
  · intro session agent isAgent
    rw [(older session agent isAgent).1]
    exact shown.missed session agent isAgent
  · intro session agent isAgent _
    exact (older session agent isAgent).1.symm
  · intro other otherAsking isOther
    exact absurd isOther (none other otherAsking)

theorem Counted.step (counted : Counted state) (apart : Apart state event) (moved : step state event = some later) :
    Counted later := by
  obtain ⟨call, enable, plain, rfl⟩ | ⟨call, rfl, isStopping, rfl⟩ | ⟨call, plain, passes⟩ |
    ⟨call, now, session, user, rest, outcome, rfl, isStarting, passes⟩ | ⟨call, rfl, isCopying, rfl⟩ |
    ⟨call, asking, session, agent, rest, reply, rfl, isAsking, isRest, rfl⟩ | ⟨call, asking, rfl, isAsking, isDone, rfl⟩ := step_cases moved
  · exact counted.set_enabled plain enable
  · exact counted.stop isStopping
  · exact counted.passes plain passes
  · refine (counted.start session user outcome).passes ?_ passes
    cases outcome <;> simp [StartAgent, isStarting, Plain]
  · exact counted.copy call apart
  · refine counted.exchange isAsking isRest ?_
    rintro rfl isFirst
    exact apart asking session agent rest isAsking isRest isFirst
  · exact counted.write isAsking isDone (apart asking isAsking)

theorem agents_kept (apart : Apart state event) (moved : step state event = some later)
    (notStop : ∀ call, event ≠ .stop call) (notWrite : ∀ call, event ≠ .write call)
    (isAgent : state.agents.get session = some agent) : later.agents.get session = some agent := by
  obtain ⟨call, enable, plain, rfl⟩ | ⟨call, rfl, isStopping, rfl⟩ | ⟨call, plain, passes⟩ |
    ⟨call, now, other, user, rest, outcome, rfl, isStarting, passes⟩ | ⟨call, rfl, isCopying, rfl⟩ |
    ⟨call, asking, other, further, rest, reply, rfl, isAsking, isRest, rfl⟩ | ⟨call, asking, rfl, isAsking, isDone, rfl⟩ := step_cases moved
  · exact isAgent
  · exact absurd rfl (notStop call)
  · rw [passes.agents]
    exact isAgent
  · rw [passes.agents]
    cases outcome with
    | failed | silent => exact isAgent
    | answered pid =>
      have isFree := apart now other user rest isStarting
      rw [StartAgent, OrdMap.get_insert, if_neg]
      · exact isAgent
      · rintro rfl
        rw [isFree] at isAgent
        cases isAgent
  · exact isAgent
  · cases reply <;> exact isAgent
  · exact absurd rfl (notWrite call)

theorem Counted.dropped (counted : Counted state) (apart : Apart state event)
    (moved : WndAgents.step state event = some later) : DroppedRightly state event later := by
  intro session agent isAgent
  cases event with
  | stop call => trivial
  | write call =>
    obtain ⟨asking, isAsking, isDone, rfl⟩ := write_cases moved
    obtain ⟨asked, round⟩ := counted.round call asking isAsking
    show (write_back state asking).agents.get session = none ↔ 2 ≤ state.missed agent.Socket
    rw [round.written isDone (apart asking isAsking), OrdMap.get_mapValues, OrdMap.get_filter, isAgent]
    simp
    omega
  | _ => exact agents_kept apart moved (by simp) (by simp) isAgent

/-- One user, and one window on the desktop. -/
def oneSession : List Session := [⟨1, .active, "user"⟩]

def oneWindow : Reported := ⟨0x10, 0, 40, 41, 1, true, true, false, "title", "class", "Default"⟩

/-- The feature is switched on and an agent starts. -/
def switchedOn : List Event := [.setEnabled 0 true, .update 0 100, .enumerate 0 (some oneSession), .start 0 (.answered 900)]

end TaskExplorer.WndAgents
