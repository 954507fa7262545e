import TaskExplorer.OrderedMap
import TaskExplorer.Transition

/-!
# The limit on failed handshakes

The server notes the time of every handshake that fails, for all addresses together and for
each one, and looks at the times of a window before it takes a connection. Times are dropped
from the front of a list when it is looked at.
-/

namespace TaskExplorer.HandshakeLimits
open OrderedMap Transition

/-! ## The server -/

structure Limits where
  maxPerAddress : Int32
  maxGlobal : Int32
  limitWindowMs : Int32
deriving DecidableEq, Repr

def Limits.default : Limits := ⟨10, 60, 60 * 1000⟩

structure CIPCServer where
  failures : OrdMap String (List UInt64)
  allFailures : List UInt64

/-- The difference is one of unsigned numbers, and so is what the window is made to. -/
def drop_older_than (now : UInt64) (windowMs : Int32) : List UInt64 → List UInt64
  | [] => []
  | first :: times => if now - first > windowMs.toInt64.toUInt64 then drop_older_than now windowMs times else first :: times

def is_rate_limited (limits : Limits) (server : CIPCServer) (address : String) (clock : Int64) : Bool × CIPCServer :=
  let now := clock.toUInt64
  let allFailures := drop_older_than now limits.limitWindowMs server.allFailures
  if limits.maxGlobal.toInt ≤ allFailures.length then (true, { server with allFailures := allFailures })
  else
    let times := drop_older_than now limits.limitWindowMs ((server.failures.get address).getD [])
    (limits.maxPerAddress.toInt ≤ times.length, ⟨server.failures.insert address times, allFailures⟩)

def note_handshake_failure (server : CIPCServer) (address : String) (clock : Int64) : CIPCServer :=
  let now := clock.toUInt64
  ⟨server.failures.insert address ((server.failures.get address).getD [] ++ [now]), server.allFailures ++ [now]⟩

/-! ## Its calls -/

inductive Call where
  | note (address : String) (clock : Int64)
  | ask (address : String) (clock : Int64)

/-- The server with every failure it was told of and every reading it was asked at. -/
structure State where
  server : CIPCServer
  noted : List (String × Int64)
  asked : List Int64

def initial : State := ⟨⟨OrdMap.empty, []⟩, [], []⟩

def step (limits : Limits) (state : State) : Call → Option State
  | .note address clock => some ⟨note_handshake_failure state.server address clock, state.noted ++ [(address, clock)], state.asked⟩
  | .ask address clock => some ⟨(is_rate_limited limits state.server address clock).2, state.noted, state.asked ++ [clock]⟩

/-- A failure is in the window. -/
def Within (limits : Limits) (clock time : Int64) : Prop := clock.toInt ≤ time.toInt + limits.limitWindowMs.toInt

instance (limits : Limits) (clock time : Int64) : Decidable (Within limits clock time) := inferInstanceAs (Decidable (_ ≤ _))

def times (state : State) : List Int64 := state.noted.map Prod.snd

def times_of (state : State) (address : String) : List Int64 := (state.noted.filter (fun failure => failure.1 = address)).map Prod.snd

/-- What is expected of an answer. -/
def Exact (limits : Limits) (state : State) (address : String) (clock : Int64) : Prop :=
  (is_rate_limited limits state.server address clock).1 = true ↔
    limits.maxGlobal.toInt ≤ ((times state).filter (fun time => Within limits clock time)).length ∨
    limits.maxPerAddress.toInt ≤ ((times_of state address).filter (fun time => Within limits clock time)).length

instance (limits : Limits) (state : State) (address : String) (clock : Int64) : Decidable (Exact limits state address clock) :=
  inferInstanceAs (Decidable (_ = true ↔ _ ∨ _))

/-- The window is not negative, no failure is later than the reading, none that came before one that is out of the window is in it, and
none that was out of it before is in it again. -/
def Steady (limits : Limits) (state : State) : Call → Prop
  | .note _ _ => True
  | .ask _ clock => 0 ≤ limits.limitWindowMs.toInt ∧ (∀ time ∈ times state, time.toInt ≤ clock.toInt) ∧
      (times state).Pairwise (fun earlier later => Within limits clock earlier → Within limits clock later) ∧
      ∀ time ∈ times state, ∀ before ∈ state.asked, Within limits clock time → Within limits before time

/-! ## What is dropped -/

theorem unsigned_value (value : Int64) : (value.toUInt64.toNat : Int) = if 0 ≤ value.toInt then value.toInt else value.toInt + 2 ^ 64 := by
  have bound := value.toBitVec.isLt
  change (value.toBitVec.toNat : Int) = if 0 ≤ value.toBitVec.toInt then value.toBitVec.toInt else value.toBitVec.toInt + 2 ^ 64
  rw [BitVec.toInt_eq_toNat_cond]
  split_ifs <;> omega

theorem old_iff {limits : Limits} {clock time : Int64} (window : 0 ≤ limits.limitWindowMs.toInt) (past : time.toInt ≤ clock.toInt) :
    clock.toUInt64 - time.toUInt64 > limits.limitWindowMs.toInt64.toUInt64 ↔ ¬ Within limits clock time := by
  have isWindow := unsigned_value limits.limitWindowMs.toInt64
  rw [Int32.toInt_toInt64, if_pos window] at isWindow
  have isClock := unsigned_value clock
  have isTime := unsigned_value time
  have isAge : ((clock.toUInt64 - time.toUInt64).toNat : Int) = clock.toInt - time.toInt := by
    have clockBound := clock.toInt_lt
    have timeBound := time.le_toInt
    simp only [UInt64.toNat_sub, Nat.reducePow]
    split_ifs at isClock isTime <;> omega
  rw [gt_iff_lt, UInt64.lt_iff_toNat_lt, Within]
  omega

theorem drop_older_than_spec {limits : Limits} {clock : Int64} {kept : List Int64} (window : 0 ≤ limits.limitWindowMs.toInt)
    (past : ∀ time ∈ kept, time.toInt ≤ clock.toInt)
    (ordered : kept.Pairwise (fun earlier later => Within limits clock earlier → Within limits clock later)) :
    ∃ dropped rest, kept = dropped ++ rest ∧
      drop_older_than clock.toUInt64 limits.limitWindowMs (kept.map Int64.toUInt64) = rest.map Int64.toUInt64 ∧
      (∀ time ∈ dropped, ¬ Within limits clock time) ∧ ∀ time ∈ rest, Within limits clock time := by
  induction kept with
  | nil => exact ⟨[], [], rfl, rfl, by simp, by simp⟩
  | cons first kept ih =>
    obtain ⟨after, ordered⟩ := List.pairwise_cons.mp ordered
    obtain ⟨firstPast, past⟩ := List.forall_mem_cons.mp past
    rw [List.map_cons, drop_older_than]
    by_cases isWithin : Within limits clock first
    · refine ⟨[], first :: kept, rfl, ?_, by simp, ?_⟩
      · rw [if_neg (fun old => (old_iff window firstPast).mp old isWithin), List.map_cons]
      · intro time member
        rcases List.mem_cons.mp member with rfl | later
        · exact isWithin
        · exact after time later isWithin
    · obtain ⟨dropped, rest, isKept, same, out, within⟩ := ih past ordered
      refine ⟨first :: dropped, rest, by rw [isKept, List.cons_append], ?_, ?_, within⟩
      · rw [if_pos ((old_iff window firstPast).mpr isWithin), same]
      · exact List.forall_mem_cons.mpr ⟨isWithin, out⟩

/-- A list of the server has what was noted, without a first part that was out of the window when the server was asked. -/
def Kept (limits : Limits) (asked history : List Int64) (list : List UInt64) : Prop :=
  ∃ gone kept, history = gone ++ kept ∧ list = kept.map Int64.toUInt64 ∧ ∀ time ∈ gone, ∃ before ∈ asked, ¬ Within limits before time

section
variable {limits : Limits} {asked history : List Int64} {list : List UInt64}

theorem Kept.note (holds : Kept limits asked history list) (clock : Int64) :
    Kept limits asked (history ++ [clock]) (list ++ [clock.toUInt64]) := by
  obtain ⟨gone, kept, isHistory, isList, out⟩ := holds
  exact ⟨gone, kept ++ [clock], by rw [isHistory, List.append_assoc], by rw [isList, List.map_append, List.map_singleton], out⟩

theorem Kept.more (holds : Kept limits asked history list) (clock : Int64) : Kept limits (asked ++ [clock]) history list := by
  obtain ⟨gone, kept, isHistory, isList, out⟩ := holds
  refine ⟨gone, kept, isHistory, isList, fun time isGone => ?_⟩
  obtain ⟨before, isBefore, isOut⟩ := out time isGone
  exact ⟨before, List.mem_append_left _ isBefore, isOut⟩

theorem Kept.drop (holds : Kept limits asked history list) {clock : Int64} (window : 0 ≤ limits.limitWindowMs.toInt)
    (past : ∀ time ∈ history, time.toInt ≤ clock.toInt)
    (ordered : history.Pairwise (fun earlier later => Within limits clock earlier → Within limits clock later))
    (stay : ∀ time ∈ history, ∀ before ∈ asked, Within limits clock time → Within limits before time) :
    Kept limits (asked ++ [clock]) history (drop_older_than clock.toUInt64 limits.limitWindowMs list) ∧
      (drop_older_than clock.toUInt64 limits.limitWindowMs list).length = (history.filter (fun time => Within limits clock time)).length := by
  obtain ⟨gone, kept, rfl, rfl, out⟩ := holds
  obtain ⟨dropped, rest, rfl, same, droppedOut, restWithin⟩ := drop_older_than_spec window
    (fun time member => past time (List.mem_append_right _ member)) (List.pairwise_append.mp ordered).2.1
  have goneOut : ∀ time ∈ gone, ¬ Within limits clock time := by
    intro time isGone isWithin
    obtain ⟨before, isBefore, isOut⟩ := out time isGone
    exact isOut (stay time (List.mem_append_left _ isGone) before isBefore isWithin)
  constructor
  · refine ⟨gone ++ dropped, rest, by rw [List.append_assoc], same, fun time member => ⟨clock, by simp, ?_⟩⟩
    rcases List.mem_append.mp member with isGone | isDropped
    · exact goneOut time isGone
    · exact droppedOut time isDropped
  · rw [same, List.length_map, List.filter_append, List.filter_append, List.filter_eq_nil_iff.mpr (by simpa using goneOut),
      List.filter_eq_nil_iff.mpr (by simpa using droppedOut), List.filter_eq_self.mpr (by simpa using restWithin)]
    rfl

end

/-! ## Every run -/

/-- Both kinds of lists have what was noted. -/
structure Sound (limits : Limits) (state : State) : Prop where
  all : Kept limits state.asked (times state) state.server.allFailures
  each : ∀ address, Kept limits state.asked (times_of state address) ((state.server.failures.get address).getD [])

section
variable {limits : Limits} {state : State}

theorem times_of_sublist (state : State) (address : String) : (times_of state address).Sublist (times state) := List.filter_sublist.map _

theorem Sound.drop (sound : Sound limits state) {address : String} {clock : Int64} (steady : Steady limits state (.ask address clock)) :
    (Kept limits (state.asked ++ [clock]) (times state) (drop_older_than clock.toUInt64 limits.limitWindowMs state.server.allFailures) ∧
      (drop_older_than clock.toUInt64 limits.limitWindowMs state.server.allFailures).length =
        ((times state).filter (fun time => Within limits clock time)).length) ∧
    ∀ other, Kept limits (state.asked ++ [clock]) (times_of state other)
        (drop_older_than clock.toUInt64 limits.limitWindowMs ((state.server.failures.get other).getD [])) ∧
      (drop_older_than clock.toUInt64 limits.limitWindowMs ((state.server.failures.get other).getD [])).length =
        ((times_of state other).filter (fun time => Within limits clock time)).length := by
  obtain ⟨window, past, ordered, stay⟩ := steady
  refine ⟨sound.all.drop window past ordered stay, fun other => ?_⟩
  have fewer := times_of_sublist state other
  exact (sound.each other).drop window (fun time member => past time (fewer.subset member)) (ordered.sublist fewer)
    (fun time member => stay time (fewer.subset member))

theorem Sound.note (sound : Sound limits state) (address : String) (clock : Int64) :
    Sound limits ⟨note_handshake_failure state.server address clock, state.noted ++ [(address, clock)], state.asked⟩ := by
  constructor
  · simpa [times, note_handshake_failure] using sound.all.note clock
  · intro other
    rw [note_handshake_failure, OrdMap.get_insert, times_of, List.filter_append, List.map_append]
    split_ifs with same
    · subst same
      simpa [times_of] using (sound.each address).note clock
    · simpa [times_of, same] using sound.each other

theorem Sound.ask (sound : Sound limits state) {address : String} {clock : Int64} (steady : Steady limits state (.ask address clock)) :
    Sound limits ⟨(is_rate_limited limits state.server address clock).2, state.noted, state.asked ++ [clock]⟩ := by
  obtain ⟨all, each⟩ := sound.drop steady
  unfold is_rate_limited
  dsimp only
  split_ifs with limited
  · exact ⟨all.1, fun other => (sound.each other).more clock⟩
  · refine ⟨all.1, fun other => ?_⟩
    rw [OrdMap.get_insert]
    split_ifs with same
    · subst same
      exact (each address).1
    · exact (sound.each other).more clock

theorem Sound.exact (sound : Sound limits state) {address : String} {clock : Int64} (steady : Steady limits state (.ask address clock)) :
    Exact limits state address clock := by
  obtain ⟨all, each⟩ := sound.drop steady
  rw [Exact, ← all.2, ← (each address).2, is_rate_limited]
  split_ifs with limited
  · exact iff_of_true rfl (.inl limited)
  · simp [limited]

end

theorem sound_of_run {limits : Limits} {state : State} (run : Run (step limits) (Steady limits) initial state) : Sound limits state := by
  refine run.invariant (Sound limits) ⟨⟨[], [], rfl, rfl, by simp⟩, fun _ => ⟨[], [], rfl, rfl, by simp⟩⟩ ?_
  intro state event later sound steady moved
  cases event with
  | note address clock =>
    cases moved
    exact sound.note address clock
  | ask address clock =>
    cases moved
    exact sound.ask steady

/-- Where every question comes at a steady reading, every answer is that of an exact window. -/
theorem rate_limited_exact (limits : Limits) (state : State) (run : Run (step limits) (Steady limits) initial state) (address : String)
    (clock : Int64) (steady : Steady limits state (.ask address clock)) : Exact limits state address clock :=
  (sound_of_run run).exact steady

/-- As many failures of one address at one reading. -/
def noted (address : String) (clock : Int64) (count : Nat) : State :=
  ⟨⟨OrdMap.empty.insert address (List.replicate count clock.toUInt64), List.replicate count clock.toUInt64⟩,
    List.replicate count (address, clock), []⟩

theorem runs_noted (limits : Limits) (address : String) (clock : Int64) (count more : Nat) :
    runs (step limits) (noted address clock count) (List.replicate more (.note address clock)) = some (noted address clock (count + more)) := by
  induction more generalizing count with
  | zero => rfl
  | succ more ih =>
    have once : step limits (noted address clock count) (.note address clock) = some (noted address clock (count + 1)) := by
      have again : ∀ old new : List UInt64, (OrdMap.empty.insert address old).insert address new = OrdMap.empty.insert address new := by
        intro old new
        refine OrdMap.ext_get fun key => ?_
        simp only [OrdMap.get_insert]
        split_ifs <;> rfl
      simp [step, note_handshake_failure, noted, again, List.replicate_succ']
    rw [List.replicate_succ, runs, once, Option.bind_some, ih, Nat.add_right_comm, Nat.add_assoc]

theorem noted_steady {limits : Limits} {time clock : Int64} (window : 0 ≤ limits.limitWindowMs.toInt) (past : time.toInt ≤ clock.toInt)
    (address other : String) (count : Nat) : Steady limits (noted address time count) (.ask other clock) := by
  have isTimes : times (noted address time count) = List.replicate count time := List.map_replicate
  refine ⟨window, ?_, ?_, ?_⟩
  · intro each member
    rw [isTimes] at member
    rwa [List.eq_of_mem_replicate member]
  · rw [isTimes]
    exact List.pairwise_replicate.mpr (.inr id)
  · intro each _ before isBefore
    cases isBefore

theorem meets_notes (limits : Limits) (address : String) (clock : Int64) (count : Nat) (state : State) :
    Meets (step limits) (Steady limits) state (List.replicate count (.note address clock)) := by
  induction count generalizing state with
  | zero => trivial
  | succ count ih => exact ⟨trivial, ih _⟩

/-- Ten failures of one host. -/
def failures : List Call := List.replicate 10 (.note "192.0.2.7" 1700000000000)

theorem runs_failures : runs (step .default) initial failures = some (noted "192.0.2.7" 1700000000000 10) := by
  have first : step .default initial (.note "192.0.2.7" 1700000000000) = some (noted "192.0.2.7" 1700000000000 1) := rfl
  rw [failures, List.replicate_succ, runs, first, Option.bind_some]
  exact runs_noted .default _ _ 1 9

/-- When the clock was put back by a second all ten are forgotten, though none of them is out of the window. -/
theorem rate_limited_forgets : ∃ state, runs (step .default) initial failures = some state ∧ ¬ Exact .default state "192.0.2.7" 1699999999000 :=
  ⟨_, runs_failures, by decide +kernel⟩

/-- A second later they are still ten. -/
theorem rate_limited_exact_failures : ∃ state, runs (step .default) initial failures = some state ∧
    Exact .default state "192.0.2.7" 1700000001000 ∧ (is_rate_limited .default state.server "192.0.2.7" 1700000001000).1 = true :=
  ⟨_, runs_failures, rate_limited_exact .default _ (Run.of_runs .start (meets_notes _ _ _ _ _) runs_failures) _ _
    (noted_steady (by decide) (by decide) _ _ _), by decide +kernel⟩

/-! ## Any clock -/

theorem drop_older_than_suffix (now : UInt64) (windowMs : Int32) (list : List UInt64) : drop_older_than now windowMs list <:+ list := by
  fun_induction drop_older_than now windowMs list with
  | case1 => exact List.suffix_rfl
  | case2 first times old ih => exact ih.trans (List.suffix_cons _ _)
  | case3 => exact List.suffix_rfl

/-- Every list is the last part of what was noted for it. -/
structure Latest (state : State) : Prop where
  all : state.server.allFailures <:+ (times state).map Int64.toUInt64
  each : ∀ address, (state.server.failures.get address).getD [] <:+ (times_of state address).map Int64.toUInt64

theorem Latest.step {limits : Limits} {state later : State} {call : Call} (latest : Latest state) (moved : step limits state call = some later) :
    Latest later := by
  have longer {list history : List UInt64} (suffix : list <:+ history) (time : UInt64) : list ++ [time] <:+ history ++ [time] := by
    obtain ⟨front, rfl⟩ := suffix
    exact ⟨front, by simp⟩
  cases call with
  | note address clock =>
    cases moved
    constructor
    · simpa [times, note_handshake_failure] using longer latest.all clock.toUInt64
    · intro other
      rw [note_handshake_failure, OrdMap.get_insert, times_of, List.filter_append, List.map_append]
      split_ifs with same
      · subst same
        simpa [times_of] using longer (latest.each address) clock.toUInt64
      · simpa [times_of, same] using latest.each other
  | ask address clock =>
    cases moved
    have all := (drop_older_than_suffix clock.toUInt64 limits.limitWindowMs _).trans latest.all
    unfold is_rate_limited
    dsimp only
    split_ifs with limited
    · exact ⟨all, latest.each⟩
    · refine ⟨all, fun other => ?_⟩
      rw [OrdMap.get_insert]
      split_ifs with same
      · subst same
        exact (drop_older_than_suffix clock.toUInt64 limits.limitWindowMs _).trans (latest.each address)
      · exact latest.each other

/-- Whatever the clock does, an address is refused only for failures that were noted: as many of its own, or as many of all. -/
theorem limited_justified {limits : Limits} {state : State} (run : Run (step limits) Always initial state) (address : String) (clock : Int64)
    (limited : (is_rate_limited limits state.server address clock).1 = true) :
    limits.maxGlobal.toInt ≤ (times state).length ∨ limits.maxPerAddress.toInt ≤ (times_of state address).length := by
  have latest : Latest state :=
    run.invariant Latest ⟨List.suffix_rfl, fun _ => List.suffix_rfl⟩ fun latest _ moved => latest.step moved
  have shorter {list history : List UInt64} (suffix : list <:+ history) :
      (drop_older_than clock.toUInt64 limits.limitWindowMs list).length ≤ history.length :=
    ((drop_older_than_suffix _ _ _).trans suffix).length_le
  have all := shorter latest.all
  have each := shorter (latest.each address)
  rw [List.length_map] at all each
  rw [is_rate_limited] at limited
  dsimp only at limited
  split_ifs at limited with full
  · exact .inl (by omega)
  · exact .inr (by have := of_decide_eq_true limited; omega)

theorem limited_justified_failures : ∃ state, runs (step .default) initial failures = some state ∧
    (Limits.default.maxGlobal.toInt ≤ (times state).length ∨ Limits.default.maxPerAddress.toInt ≤ (times_of state "192.0.2.7").length) :=
  ⟨_, runs_failures, limited_justified (Run.of_runs .start (meets_always _ _) runs_failures) "192.0.2.7" 1700000001000 (by decide +kernel)⟩

end TaskExplorer.HandshakeLimits
