import TaskExplorer.OrderedMap
import TaskExplorer.Transition

/-!
# The thread behind a lookup

`CDnsResolver` and `CSidResolver` queue what they are asked and look it up in a thread of their own, which
ends when it has been idle for ten seconds and is started again by the next request. Each step here is a
section that holds `m_JobMutex`, or something the thread does without it.
-/

namespace TaskExplorer.LookupWorker
open OrderedMap Transition

/-- Only names are looked up in the DNS that may have no result. -/
inductive Resolver where
  | dns
  | sid
deriving DecidableEq, Repr

/-- Where the thread is: not running, started, at the condition of the loop, before the lock,
looking something up, or behind the loop. -/
inductive Phase (K : Type) where
  | ended
  | started
  | looping
  | locking
  | working (key : K)
  | leaving
deriving DecidableEq, Repr

/-- Inside the loop, or on the way to it. -/
def Phase.Active {K : Type} : Phase K → Prop
  | .started | .looping | .locking | .working _ => True
  | .ended | .leaving => False

/-- `queue` has the receivers of each job; `notified` are the signals that were emitted, and
`connected` all receivers there ever were. -/
structure State (K R : Type) [LinearOrder K] where
  running : Bool
  queue : OrdMap K (List R)
  phase : Phase K
  idleCount : Nat
  noResultBlackList : OrdMap K Nat
  notified : List (R × K)
  connected : List (R × K)
  destroying : Bool

inductive Event (K R : Type) where
  /-- `GetHostName` or `GetSidFullName`; `known` is an answer that needs no lookup. -/
  | request (key : K) (receiver : Option R) (known : Bool) (now : Nat)
  | enter
  | check
  /-- The section at the top of the loop. -/
  | next
  /-- The section after the lookup. -/
  | finish (found : Bool) (now : Nat)
  | leave
  | destroy
deriving DecidableEq, Repr

section
variable {K R : Type} [LinearOrder K] (resolver : Resolver)

def initial : State K R := ⟨false, OrdMap.empty, .ended, 0, OrdMap.empty, [], [], false⟩

/-- `QThread::start` does nothing while `run` has not ended. -/
def start (phase : Phase K) : Phase K :=
  match phase with
  | .ended => .started
  | other => other

/-- A job for the key, with one more receiver. -/
def enqueue (state : State K R) (key : K) (receiver : Option R) : State K R :=
  { state with
    running := true
    phase := bif state.running then state.phase else start state.phase
    queue := state.queue.insert key ((state.queue.get key).getD [] ++ receiver.toList)
    connected := receiver.toList.map (fun receiver => (receiver, key)) ++ state.connected }

def request (state : State K R) (key : K) (receiver : Option R) (known : Bool) (now : Nat) : State K R :=
  bif known then state
  else
    match resolver with
    | .sid => enqueue state key receiver
    | .dns =>
      if (state.noResultBlackList.get key).getD 0 > now then state
      else enqueue { state with noResultBlackList := state.noResultBlackList.insert key ((state.noResultBlackList.get key).getD 0) } key receiver

def next_job (state : State K R) : State K R :=
  match state.queue.entries with
  | [] =>
    if state.idleCount > 4 * 10 then { state with running := false, phase := .leaving, idleCount := state.idleCount + 1 }
    else { state with phase := .looping, idleCount := state.idleCount + 1 }
  | (key, _) :: _ => { state with phase := .working key, idleCount := 0 }

def emit (state : State K R) (key : K) : State K R :=
  { state with notified := ((state.queue.get key).getD []).map (fun receiver => (receiver, key)) ++ state.notified }

def finish_job (state : State K R) (key : K) (found : Bool) (now : Nat) : State K R :=
  let told :=
    match resolver, found with
    | .dns, false => { state with noResultBlackList := state.noResultBlackList.insert key (now + 10 * 60 * 1000) }
    | _, _ => emit state key
  { told with queue := told.queue.erase key, phase := .looping }

def step (state : State K R) : Event K R → Option (State K R)
  | .request key receiver known now => some (request resolver state key receiver known now)
  | .enter =>
    match state.phase with
    | .started => some { state with phase := .looping, idleCount := 0 }
    | _ => none
  | .check =>
    match state.phase with
    | .looping => some { state with phase := bif state.running then .locking else .leaving }
    | _ => none
  | .next =>
    match state.phase with
    | .locking => some (next_job state)
    | _ => none
  | .finish found now =>
    match state.phase with
    | .working key => some (finish_job resolver state key found now)
    | _ => none
  | .leave =>
    match state.phase with
    | .leaving => some { state with phase := .ended }
    | _ => none
  | .destroy => some { state with running := false, destroying := true }

/-! ## The property -/

/-- A queued job has a thread that will come to it. -/
def HasWorker (state : State K R) : Prop := state.destroying = false → state.queue.entries ≠ [] → state.phase.Active

/-- A receiver waits in the queue, was told, or its key has no result. -/
def Answered (state : State K R) : Prop :=
  ∀ pair ∈ state.connected, (∃ receivers, state.queue.get pair.2 = some receivers ∧ pair.1 ∈ receivers) ∨ pair ∈ state.notified ∨
    ∃ time, state.noResultBlackList.get pair.2 = some time ∧ time ≠ 0

/-- No request that needs a lookup comes between the end of the loop and the end of `run`. -/
def Timely (state : State K R) : Event K R → Prop
  | .request _ _ known _ => known = true ∨ state.phase ≠ .leaving
  | _ => True

/-! ## The thread -/

/-- While the resolver lives, the flag says whether the thread is active, and what it has left is empty. -/
structure Sound (state : State K R) : Prop where
  active : state.phase.Active → state.running = true
  running : state.running = true → state.phase.Active
  left : ¬ state.phase.Active → state.queue.entries = []

theorem Sound.enqueue {state : State K R} (sound : Sound state) (timely : state.phase ≠ .leaving) (key : K) (receiver : Option R) :
    Sound (enqueue state key receiver) := by
  have active : (LookupWorker.enqueue state key receiver).phase.Active := by
    rw [LookupWorker.enqueue]
    cases running : state.running with
    | true => exact sound.running running
    | false =>
      have inactive : ¬ state.phase.Active := by
        intro isActive
        rw [sound.active isActive] at running
        cases running
      cases phase : state.phase <;> simp_all [start, Phase.Active]
  exact ⟨fun _ => rfl, fun _ => active, fun inactive => absurd active inactive⟩

theorem request_cases (state : State K R) (key : K) (receiver : Option R) (known : Bool) (now : Nat) :
    request resolver state key receiver known now = state ∨
    (known = false ∧ ∃ list : OrdMap K Nat, (∀ sought time, state.noResultBlackList.get sought = some time → list.get sought = some time) ∧
      request resolver state key receiver known now = enqueue { state with noResultBlackList := list } key receiver) := by
  cases known with
  | true => exact .inl rfl
  | false =>
    cases resolver with
    | sid => exact .inr ⟨rfl, state.noResultBlackList, fun _ _ found => found, rfl⟩
    | dns =>
      by_cases listed : (state.noResultBlackList.get key).getD 0 > now
      · exact .inl (if_pos listed)
      · refine .inr ⟨rfl, state.noResultBlackList.insert key ((state.noResultBlackList.get key).getD 0), ?_, if_neg listed⟩
        intro sought time found
        rw [OrdMap.get_insert]
        split_ifs with same
        · rw [same, found, Option.getD_some]
        · exact found

theorem Sound.step {state later : State K R} {event : Event K R} (sound : state.destroying = false → Sound state) (timely : Timely state event)
    (moved : step resolver state event = some later) : later.destroying = false → Sound later := by
  intro alive
  cases event with
  | request key receiver known now =>
    cases moved
    rcases request_cases resolver state key receiver known now with same | ⟨unknown, list, -, same⟩ <;> rw [same] at alive ⊢
    · exact sound alive
    · have before := sound alive
      have notLeaving : state.phase ≠ .leaving := timely.resolve_left (by simp [unknown])
      exact @Sound.enqueue _ _ _ { state with noResultBlackList := list } ⟨before.active, before.running, before.left⟩ notLeaving key receiver
  | enter =>
    rw [LookupWorker.step] at moved
    cases phase : state.phase <;> rw [phase] at moved <;> cases moved
    have running := (sound alive).active (by simp [phase, Phase.Active])
    exact ⟨fun _ => running, fun _ => trivial, fun inactive => absurd trivial inactive⟩
  | check =>
    rw [LookupWorker.step] at moved
    cases phase : state.phase <;> rw [phase] at moved <;> cases moved
    have running := (sound alive).active (by simp [phase, Phase.Active])
    simp only [running, cond_true]
    exact ⟨fun _ => rfl, fun _ => trivial, fun inactive => absurd trivial inactive⟩
  | next =>
    rw [LookupWorker.step] at moved
    cases phase : state.phase <;> rw [phase] at moved <;> cases moved
    rw [next_job] at alive ⊢
    cases queue : state.queue.entries with
    | nil =>
      simp only [queue] at alive ⊢
      split_ifs at alive ⊢
      · exact ⟨fun active => active.elim, fun impossible => (by cases impossible), fun _ => queue⟩
      · have running := (sound alive).active (by simp [phase, Phase.Active])
        exact ⟨fun _ => running, fun _ => trivial, fun inactive => absurd trivial inactive⟩
    | cons first rest =>
      simp only [queue] at alive ⊢
      have running := (sound alive).active (by simp [phase, Phase.Active])
      exact ⟨fun _ => running, fun _ => trivial, fun inactive => absurd trivial inactive⟩
  | finish found now =>
    rw [LookupWorker.step] at moved
    cases phase : state.phase <;> rw [phase] at moved <;> cases moved
    have kept : ∀ key, (finish_job resolver state key found now).running = state.running ∧
        (finish_job resolver state key found now).destroying = state.destroying ∧ (finish_job resolver state key found now).phase = .looping := by
      intro key
      cases resolver <;> cases found <;> exact ⟨rfl, rfl, rfl⟩
    obtain ⟨sameRunning, sameDestroying, isLooping⟩ := kept _
    rw [sameDestroying] at alive
    have running := (sound alive).active (by simp [phase, Phase.Active])
    refine ⟨fun _ => sameRunning.trans running, fun _ => ?_, fun inactive => ?_⟩
    · rw [isLooping]
      trivial
    · rw [isLooping] at inactive
      exact absurd trivial inactive
  | leave =>
    rw [LookupWorker.step] at moved
    cases phase : state.phase <;> rw [phase] at moved <;> cases moved
    have inactive : ¬ state.phase.Active := by simp [phase, Phase.Active]
    refine ⟨fun active => active.elim, fun running => ?_, fun _ => (sound alive).left inactive⟩
    exact absurd ((sound alive).running running) inactive
  | destroy =>
    cases moved
    cases alive

/-! ## The receivers -/

theorem Answered.enqueue {state : State K R} (answered : Answered state) (key : K) (receiver : Option R) : Answered (enqueue state key receiver) := by
  have kept : ∀ pair : R × K, (∃ receivers, state.queue.get pair.2 = some receivers ∧ pair.1 ∈ receivers) →
      ∃ receivers, (LookupWorker.enqueue state key receiver).queue.get pair.2 = some receivers ∧ pair.1 ∈ receivers := by
    rintro ⟨one, sought⟩ ⟨receivers, found, among⟩
    simp only [LookupWorker.enqueue, OrdMap.get_insert]
    split_ifs with same
    · subst same
      exact ⟨_, rfl, by simp [show state.queue.get key = some receivers from found, show one ∈ receivers from among]⟩
    · exact ⟨receivers, found, among⟩
  intro pair isConnected
  rcases List.mem_append.mp isConnected with new | old
  · obtain ⟨one, isOne, rfl⟩ := List.mem_map.mp new
    exact .inl ⟨(state.queue.get key).getD [] ++ receiver.toList, by simp [LookupWorker.enqueue], List.mem_append_right _ isOne⟩
  · rcases answered pair old with waiting | told | none
    · exact .inl (kept pair waiting)
    · exact .inr (.inl told)
    · exact .inr (.inr none)

theorem Answered.finish {state : State K R} (answered : Answered state) (key : K) (found : Bool) (now : Nat) :
    Answered (finish_job resolver state key found now) := by
  have notified : Answered { emit state key with queue := state.queue.erase key, phase := .looping } := by
    rintro ⟨one, sought⟩ isConnected
    rcases answered _ isConnected with ⟨receivers, isQueued, among⟩ | told | none
    · by_cases same : key = sought
      · subst same
        refine .inr (.inl (List.mem_append_left _ (List.mem_map.mpr ⟨one, ?_, rfl⟩)))
        rw [show state.queue.get key = some receivers from isQueued]
        exact among
      · exact .inl ⟨receivers, by simpa [same] using isQueued, among⟩
    · exact .inr (.inl (List.mem_append_right _ told))
    · exact .inr (.inr none)
  cases resolver with
  | sid => cases found <;> exact notified
  | dns =>
    cases found with
    | true => exact notified
    | false =>
      rintro ⟨one, sought⟩ isConnected
      rcases answered _ isConnected with ⟨receivers, isQueued, among⟩ | told | ⟨time, isTime, positive⟩
      · by_cases same : key = sought
        · exact .inr (.inr ⟨now + 10 * 60 * 1000, by simp [finish_job, same], by omega⟩)
        · exact .inl ⟨receivers, by simpa [finish_job, same] using isQueued, among⟩
      · exact .inr (.inl told)
      · by_cases same : key = sought
        · exact .inr (.inr ⟨now + 10 * 60 * 1000, by simp [finish_job, same], by omega⟩)
        · exact .inr (.inr ⟨time, by simpa [finish_job, same] using isTime, positive⟩)

theorem Answered.step {state later : State K R} {event : Event K R} (answered : Answered state) (moved : step resolver state event = some later) :
    Answered later := by
  cases event with
  | request key receiver known now =>
    cases moved
    rcases request_cases resolver state key receiver known now with same | ⟨-, list, kept, same⟩ <;> rw [same]
    · exact answered
    · refine @Answered.enqueue _ _ _ { state with noResultBlackList := list } ?_ key receiver
      intro pair isConnected
      rcases answered pair isConnected with waiting | told | ⟨time, found, positive⟩
      · exact .inl waiting
      · exact .inr (.inl told)
      · exact .inr (.inr ⟨time, kept _ _ found, positive⟩)
  | finish found now =>
    rw [LookupWorker.step] at moved
    cases phase : state.phase <;> rw [phase] at moved <;> cases moved
    exact answered.finish resolver _ found now
  | next =>
    rw [LookupWorker.step] at moved
    cases phase : state.phase <;> rw [phase] at moved <;> cases moved
    rw [next_job]
    cases state.queue.entries with
    | nil =>
      dsimp only
      split_ifs <;> exact answered
    | cons first rest => exact answered
  | enter =>
    rw [LookupWorker.step] at moved
    cases phase : state.phase <;> rw [phase] at moved <;> cases moved
    exact answered
  | check =>
    rw [LookupWorker.step] at moved
    cases phase : state.phase <;> rw [phase] at moved <;> cases moved
    exact answered
  | leave =>
    rw [LookupWorker.step] at moved
    cases phase : state.phase <;> rw [phase] at moved <;> cases moved
    exact answered
  | destroy =>
    cases moved
    exact answered

end

/-! ## Two runs -/

/-- The thread turns round until it has been idle for long enough. -/
def idleTurns : List (Event Nat Nat) := (List.replicate 42 [.check, .next]).flatten

end TaskExplorer.LookupWorker
