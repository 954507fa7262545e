/-!
# Runs of a transition system

A system takes one event at a time, or refuses it. A run takes events that each
meet a condition on the state they come in; what holds at the start and is kept
by every such event holds wherever the run leads.
-/

namespace TaskExplorer.Transition

universe u v

section
variable {State : Type u} {Event : Type v} {step : State → Event → Option State}

/-- The states that events meeting `allowed` lead to. -/
inductive Run (step : State → Event → Option State) (allowed : State → Event → Prop) (first : State) : State → Prop where
  | start : Run step allowed first first
  | next {state later : State} {event : Event} (before : Run step allowed first state) (meets : allowed state event)
      (moved : step state event = some later) : Run step allowed first later

/-- Every event is allowed. -/
def Always (_ : State) (_ : Event) : Prop := True

variable {allowed other : State → Event → Prop} {first last : State}

theorem Run.invariant (holds : State → Prop) (initially : holds first)
    (kept : ∀ {state event later}, holds state → allowed state event → step state event = some later → holds later)
    (run : Run step allowed first last) : holds last := by
  induction run with
  | start => exact initially
  | next before meets moved ih => exact kept ih meets moved

/-- Events taken one after the other. -/
def runs (step : State → Event → Option State) : State → List Event → Option State
  | state, [] => some state
  | state, event :: rest => (step state event).bind (fun later => runs step later rest)

/-- Every event of the list is allowed in the state it comes in. -/
def Meets (step : State → Event → Option State) (allowed : State → Event → Prop) : State → List Event → Prop
  | _, [] => True
  | state, event :: rest => allowed state event ∧
    match step state event with
    | some later => Meets step allowed later rest
    | none => True

instance Meets.decide (step : State → Event → Option State) (allowed : State → Event → Prop)
    [∀ state event, Decidable (allowed state event)] : ∀ state events, Decidable (Meets step allowed state events)
  | _, [] => isTrue trivial
  | state, event :: rest =>
    match moved : step state event with
    | some later =>
      have := Meets.decide step allowed later rest
      decidable_of_iff (allowed state event ∧ Meets step allowed later rest) (by rw [Meets, moved])
    | none => decidable_of_iff (allowed state event) (by rw [Meets, moved]; simp)

theorem meets_always (state : State) (events : List Event) : Meets step Always state events := by
  induction events generalizing state with
  | nil => trivial
  | cons event rest ih =>
    refine ⟨trivial, ?_⟩
    cases step state event with
    | none => trivial
    | some later => exact ih later

theorem Run.of_runs {state : State} {events : List Event} (before : Run step allowed first state)
    (meets : Meets step allowed state events) (ran : runs step state events = some last) : Run step allowed first last := by
  induction events generalizing state with
  | nil =>
    cases ran
    exact before
  | cons event rest ih =>
    obtain ⟨later, moved, ran⟩ := Option.bind_eq_some_iff.mp ran
    rw [Meets, moved] at meets
    exact ih (.next before meets.1 moved) meets.2 ran

end

end TaskExplorer.Transition
