import TaskExplorer.CounterDeltas
import TaskExplorer.ProcFs

/-!
# Shares of the processors

`/proc/stat` counts what the machine and each processor have spent their time on. From one
reading to the next the time in the kernel and the time of programs are divided by all time
that has passed (`UpdateCpuStats`); the parts and the whole are compared on their own.
-/

namespace TaskExplorer.CpuStats
open ByteText ProcFs CounterDeltas

/-! ## Readings -/

structure SCpuTime where
  User : UInt64 := 0
  Nice : UInt64 := 0
  System : UInt64 := 0
  Idle : UInt64 := 0
  IoWait : UInt64 := 0
  Irq : UInt64 := 0
  SoftIrq : UInt64 := 0
  Steal : UInt64 := 0
  Guest : UInt64 := 0
  GuestNice : UInt64 := 0
deriving DecidableEq, Repr

namespace SCpuTime

def Total (time : SCpuTime) : UInt64 :=
  time.User + time.Nice + time.System + time.Idle + time.IoWait + time.Irq + time.SoftIrq + time.Steal

def kernel (time : SCpuTime) : UInt64 := time.System + time.Irq + time.SoftIrq

def user (time : SCpuTime) : UInt64 := time.User + time.Nice

def idle (time : SCpuTime) : UInt64 := time.Idle + time.IoWait

end SCpuTime

structure SSysStat where
  Total : SCpuTime := {}
  PerCpu : List SCpuTime := []
  ContextSwitches : UInt64 := 0
  BootTime : UInt64 := 0
  Processes : UInt64 := 0
  ProcsRunning : UInt64 := 0
  ProcsBlocked : UInt64 := 0
  Interrupts : UInt64 := 0
  Valid : Bool := false
deriving DecidableEq, Repr

def ParseCpuLine (F : List Bytes) : SCpuTime where
  User := (U64 F 1).toUInt64
  Nice := (U64 F 2).toUInt64
  System := (U64 F 3).toUInt64
  Idle := (U64 F 4).toUInt64
  IoWait := (U64 F 5).toUInt64
  Irq := (U64 F 6).toUInt64
  SoftIrq := (U64 F 7).toUInt64
  Steal := (U64 F 8).toUInt64
  Guest := (U64 F 9).toUInt64
  GuestNice := (U64 F 10).toUInt64

def key (name : String) : Bytes := toUtf8 name.toList

/-- The vector grows up to the index; processors that are not listed in between stay at zero. -/
def set_cpu (times : List SCpuTime) (index : Nat) (time : SCpuTime) : List SCpuTime :=
  (times ++ List.replicate (index + 1 - times.length) ({} : SCpuTime)).set index time

/-- `toInt`; a negative number is no index, and the kernel writes none. -/
def cpu_index (Key : Bytes) : Option Nat :=
  (to_signed (Key.drop 3)).bind fun Index => if 0 ≤ Index ∧ Index < 2 ^ 31 then some Index.toNat else none

def read_line (Stat : SSysStat) (Line : Bytes) : SSysStat :=
  let F := words is_space Line
  let Key := F.headD []
  if Key = key "cpu" then { Stat with Total := ParseCpuLine F }
  else if key "cpu" <+: Key then
    match cpu_index Key with
    | some Index => { Stat with PerCpu := set_cpu Stat.PerCpu Index (ParseCpuLine F) }
    | none => Stat
  else if F.length ≤ 1 then Stat
  else if Key = key "ctxt" then { Stat with ContextSwitches := (U64 F 1).toUInt64 }
  else if Key = key "btime" then { Stat with BootTime := (U64 F 1).toUInt64 }
  else if Key = key "processes" then { Stat with Processes := (U64 F 1).toUInt64 }
  else if Key = key "procs_running" then { Stat with ProcsRunning := (U64 F 1).toUInt64 }
  else if Key = key "procs_blocked" then { Stat with ProcsBlocked := (U64 F 1).toUInt64 }
  else if Key = key "intr" then { Stat with Interrupts := (U64 F 1).toUInt64 }
  else Stat

/-- What is read of `/proc/stat`, a file that cannot be read being empty. -/
def ReadSysStat (Data : Bytes) : SSysStat :=
  if Data = [] then {} else { (Data.splitOn 10).foldl read_line {} with Valid := true }

/-! ## Shares -/

/-- A quotient, before it is rounded; the whole is 0 as long as nothing has been divided. -/
structure Share where
  part : UInt64 := 0
  whole : UInt64 := 0
deriving DecidableEq, Repr

structure SCpuStats where
  KernelDelta : SDelta UInt64 := {}
  UserDelta : SDelta UInt64 := {}
  IdleDelta : SDelta UInt64 := {}
  KernelUsage : Share := {}
  UserUsage : Share := {}
deriving DecidableEq, Repr

structure SCpuStatsEx extends SCpuStats where
  ContextSwitchesDelta : SDelta32_64 := {}
  InterruptsDelta : SDelta32_64 := {}
deriving DecidableEq, Repr

/-- All time since the reading before, if there is one; none when the sum has gone backwards. -/
def total_delta (previous : Option SCpuTime) (time : SCpuTime) : UInt64 :=
  match previous with
  | some prev => if prev.Total < time.Total then time.Total - prev.Total else 0
  | none => 0

/-- The same for the machine and for each processor. -/
def SCpuStats.update (stats : SCpuStats) (time : SCpuTime) (TotalDelta : UInt64) : SCpuStats :=
  let kernelDelta := stats.KernelDelta.Update time.kernel
  let userDelta := stats.UserDelta.Update time.user
  { KernelDelta := kernelDelta
    UserDelta := userDelta
    IdleDelta := stats.IdleDelta.Update time.idle
    KernelUsage := if 0 < TotalDelta then ⟨kernelDelta.Delta, TotalDelta⟩ else stats.KernelUsage
    UserUsage := if 0 < TotalDelta then ⟨userDelta.Delta, TotalDelta⟩ else stats.UserUsage }

structure CpuState where
  m_CpuStats : SCpuStatsEx := {}
  m_CpusStats : List SCpuStats := []
  m_LastSysStat : SSysStat := {}
deriving DecidableEq, Repr

/-- After `InitCpuInfo`, with the number of processors. -/
def started (count : Nat) : CpuState := { m_CpusStats := List.replicate count {} }

/-- What the last reading has at a place, as long as there has been one. -/
def last_time (last : SSysStat) (time : SSysStat → Option SCpuTime) : Option SCpuTime := if last.Valid then time last else none

def UpdateCpuStats (state : CpuState) (Data : Bytes) : CpuState × UInt64 :=
  let SysStat := ReadSysStat Data
  let last := state.m_LastSysStat
  if SysStat.Valid = false then (state, 0)
  else
    let TotalDelta := total_delta (last_time last fun stat => some stat.Total) SysStat.Total
    ({ m_CpuStats :=
        { state.m_CpuStats.update SysStat.Total TotalDelta with
          ContextSwitchesDelta := state.m_CpuStats.ContextSwitchesDelta.Update64 SysStat.ContextSwitches
          InterruptsDelta := state.m_CpuStats.InterruptsDelta.Update64 SysStat.Interrupts }
       m_CpusStats := state.m_CpusStats.mapIdx fun i stats =>
        match SysStat.PerCpu[i]? with
        | some CpuCur => stats.update CpuCur (total_delta (last_time last fun stat => stat.PerCpu[i]?) CpuCur)
        | none => stats
       m_LastSysStat := SysStat }, TotalDelta)

def run (count : Nat) (files : List Bytes) : CpuState := files.foldl (fun state data => (UpdateCpuStats state data).1) (started count)

/-! ## The machine and its processors -/

inductive Who where
  | machine
  | processor (number : Nat)
deriving DecidableEq, Repr

namespace Who

def time : Who → SSysStat → Option SCpuTime
  | machine, stat => some stat.Total
  | processor number, stat => stat.PerCpu[number]?

def stats : Who → CpuState → Option SCpuStats
  | machine, state => some state.m_CpuStats.toSCpuStats
  | processor number, state => state.m_CpusStats[number]?

def Inside (count : Nat) : Who → Prop
  | machine => True
  | processor number => number < count

end Who

/-- The last reading that could be made. -/
def last_reading (files : List Bytes) : SSysStat := files.foldl (fun last data => if (ReadSysStat data).Valid then ReadSysStat data else last) {}

def previous (who : Who) (files : List Bytes) : Option SCpuTime := last_time (last_reading files) who.time

/-- All time has grown from one reading to the next. -/
def Grows (who : Who) (files : List Bytes) (data : Bytes) : Prop :=
  (ReadSysStat data).Valid = true ∧
    ∃ time, who.time (ReadSysStat data) = some time ∧ ∃ prev, previous who files = some prev ∧ prev.Total < time.Total

/-- An interval in which time has passed has gone before. -/
def HasGrown (who : Who) (files : List Bytes) : Prop := ∃ earlier data, earlier ++ [data] <+: files ∧ Grows who earlier data

/-- What is neither time in the kernel nor time of programs, by the sums as they are made in 64 bits. -/
def SCpuTime.others (time : SCpuTime) : Int := time.Total.toNat - time.kernel.toNat - time.user.toNat

/-- The other time has grown by at least what the time in the kernel and that of programs have gone back by. -/
def Steady (prev time : SCpuTime) : Prop :=
  prev.others + ((prev.kernel.toNat - time.kernel.toNat : Nat) : Int) + ((prev.user.toNat - time.user.toNat : Nat) : Int) ≤ time.others

instance (prev time : SCpuTime) : Decidable (Steady prev time) := inferInstanceAs (Decidable (_ ≤ _))

/-- An update in a run, for the machine or one of its processors, with what is read for it. -/
structure Interval where
  count : Nat
  files : List Bytes
  data : Bytes
  who : Who
  time : SCpuTime
  valid : (ReadSysStat data).Valid = true
  read : who.time (ReadSysStat data) = some time
  inside : who.Inside count

namespace Interval

/-- What is recorded after the update. -/
def stats (interval : Interval) : SCpuStats :=
  (interval.who.stats (UpdateCpuStats (run interval.count interval.files) interval.data).1).getD {}

def total (interval : Interval) : UInt64 := total_delta (previous interval.who interval.files) interval.time

/-- The parts are at most the whole they are divided by; and without a whole nothing of an earlier interval is left. -/
def WithinWhole (interval : Interval) : Prop :=
  (0 < interval.total → interval.stats.KernelDelta.Delta.toNat + interval.stats.UserDelta.Delta.toNat ≤ interval.total.toNat) ∧
  (interval.total = 0 → interval.stats.KernelUsage = {} ∧ interval.stats.UserUsage = {})

/-- When all time has grown, the other time makes up for what has gone back; when it has not, it has not grown before. -/
def IsSteady (interval : Interval) : Prop :=
  (∀ prev, previous interval.who interval.files = some prev → prev.Total < interval.time.Total → Steady prev interval.time) ∧
  ((∀ prev, previous interval.who interval.files = some prev → interval.time.Total ≤ prev.Total) → ¬ HasGrown interval.who interval.files)

end Interval

/-! ## One update -/

/-- The sums of the last reading are what the next update starts from. -/
def Counted (stats : SCpuStats) (previous : Option SCpuTime) : Prop :=
  ∀ prev, previous = some prev → stats.KernelDelta.Initialized = true ∧ stats.KernelDelta.Value = prev.kernel ∧
    stats.UserDelta.Initialized = true ∧ stats.UserDelta.Value = prev.user

theorem update_counted (stats : SCpuStats) (time : SCpuTime) (total : UInt64) : Counted (stats.update time total) (some time) := by
  intro prev same
  obtain rfl := Option.some.inj same
  exact ⟨rfl, rfl, rfl, rfl⟩

theorem total_pos_iff {previous : Option SCpuTime} {time : SCpuTime} :
    0 < total_delta previous time ↔ ∃ prev, previous = some prev ∧ prev.Total < time.Total := by
  cases previous with
  | none => simp [total_delta]
  | some prev =>
    rw [total_delta]
    by_cases grows : prev.Total < time.Total
    · have positive : 0 < time.Total - prev.Total := by
        rw [UInt64.lt_iff_toNat_lt] at grows ⊢
        rw [UInt64.toNat_sub_of_le _ _ (UInt64.le_iff_toNat_le.mpr (Nat.le_of_lt grows))]
        exact Nat.sub_pos_of_lt grows
      simp [grows, positive]
    · simp [grows]

theorem total_zero_iff {previous : Option SCpuTime} {time : SCpuTime} :
    total_delta previous time = 0 ↔ ∀ prev, previous = some prev → time.Total ≤ prev.Total := by
  have positive : 0 < total_delta previous time ↔ ¬ total_delta previous time = 0 := by
    rw [UInt64.lt_iff_toNat_lt, ← UInt64.toNat_inj]
    exact Nat.pos_iff_ne_zero
  rw [← not_iff_not, ← positive, total_pos_iff]
  simp

theorem update_toNat {delta : SDelta UInt64} {value : UInt64} (initialized : delta.Initialized = true) (same : delta.Value = value) (new : UInt64) :
    (delta.Update new).Delta.toNat = new.toNat - value.toNat := by
  rw [SDelta.Update_Delta initialized, same]
  split_ifs with back
  · rw [UInt64.lt_iff_toNat_lt] at back
    rw [Nat.sub_eq_zero_of_le (Nat.le_of_lt back)]
    rfl
  · exact UInt64.toNat_sub_of_le _ _ (UInt64.not_lt.mp back)

theorem update_whole {stats : SCpuStats} {prev time : SCpuTime} (counted : Counted stats (some prev)) (grows : prev.Total < time.Total) (total : UInt64) :
    (stats.update time total).KernelDelta.Delta.toNat + (stats.update time total).UserDelta.Delta.toNat ≤ (total_delta (some prev) time).toNat ↔
      Steady prev time := by
  obtain ⟨kernel, kernelValue, user, userValue⟩ := counted prev rfl
  have whole : (total_delta (some prev) time).toNat = time.Total.toNat - prev.Total.toNat := by
    rw [total_delta, if_pos grows]
    exact UInt64.toNat_sub_of_le _ _ (UInt64.le_of_lt grows)
  have larger := UInt64.lt_iff_toNat_lt.mp grows
  have kernelDelta := update_toNat kernel kernelValue time.kernel
  have userDelta := update_toNat user userValue time.user
  rw [whole, SCpuStats.update, kernelDelta, userDelta, Steady, SCpuTime.others, SCpuTime.others]
  omega

/-! ## Runs -/

theorem run_snoc (count : Nat) (files : List Bytes) (data : Bytes) : run count (files ++ [data]) = (UpdateCpuStats (run count files) data).1 := by
  rw [run, List.foldl_append]
  rfl

theorem last_snoc (files : List Bytes) (data : Bytes) :
    last_reading (files ++ [data]) = if (ReadSysStat data).Valid then ReadSysStat data else last_reading files := by
  rw [last_reading, List.foldl_append]
  rfl

theorem run_last (count : Nat) (files : List Bytes) : (run count files).m_LastSysStat = last_reading files := by
  induction files using List.reverseRecOn with
  | nil => rfl
  | append_singleton files data ih =>
    rw [run_snoc, last_snoc, UpdateCpuStats]
    cases valid : (ReadSysStat data).Valid with
    | false => exact ih
    | true => rfl

theorem update_stats (state : CpuState) (data : Bytes) (who : Who) :
    who.stats (UpdateCpuStats state data).1 =
      if (ReadSysStat data).Valid then
        match who.time (ReadSysStat data) with
        | some time => (who.stats state).map fun stats => stats.update time (total_delta (last_time state.m_LastSysStat who.time) time)
        | none => who.stats state
      else who.stats state := by
  rw [UpdateCpuStats]
  cases valid : (ReadSysStat data).Valid with
  | false => rfl
  | true =>
    cases who with
    | machine => rfl
    | processor number =>
      simp only [Who.stats, Who.time, Bool.true_eq_false, if_false, if_true, List.getElem?_mapIdx]
      cases read : (ReadSysStat data).PerCpu[number]? with
      | none => simp
      | some time =>
        simp only
        rfl

theorem run_inside {count : Nat} {who : Who} (inside : who.Inside count) (files : List Bytes) : ∃ stats, who.stats (run count files) = some stats := by
  induction files using List.reverseRecOn with
  | nil =>
    cases who with
    | machine => exact ⟨{}, rfl⟩
    | processor number =>
      have small : number < count := inside
      exact ⟨{}, by simp [run, started, Who.stats, small]⟩
  | append_singleton files data ih =>
    obtain ⟨stats, recorded⟩ := ih
    rw [run_snoc, update_stats, recorded]
    cases (ReadSysStat data).Valid with
    | false => exact ⟨stats, rfl⟩
    | true =>
      cases who.time (ReadSysStat data) with
      | none => exact ⟨stats, rfl⟩
      | some time => exact ⟨_, rfl⟩

theorem previous_snoc (who : Who) (files : List Bytes) (data : Bytes) :
    previous who (files ++ [data]) = if (ReadSysStat data).Valid then who.time (ReadSysStat data) else previous who files := by
  rw [previous, last_snoc]
  cases valid : (ReadSysStat data).Valid with
  | false => rfl
  | true =>
    rw [if_pos rfl, if_pos rfl, last_time, if_pos valid]

theorem run_counted {count : Nat} {who : Who} (files : List Bytes) {stats : SCpuStats} (recorded : who.stats (run count files) = some stats) :
    Counted stats (previous who files) := by
  induction files using List.reverseRecOn generalizing stats with
  | nil =>
    intro prev impossible
    cases impossible
  | append_singleton files data ih =>
    rw [run_snoc, update_stats] at recorded
    rw [previous_snoc]
    cases valid : (ReadSysStat data).Valid with
    | false =>
      rw [valid] at recorded
      exact ih recorded
    | true =>
      rw [valid, if_pos rfl] at recorded
      rw [if_pos rfl]
      cases read : who.time (ReadSysStat data) with
      | none =>
        intro prev impossible
        cases impossible
      | some time =>
        rw [read] at recorded
        obtain ⟨before, -, rfl⟩ := Option.map_eq_some_iff.mp recorded
        exact update_counted before time _

theorem has_grown_snoc (who : Who) (files : List Bytes) (data : Bytes) : HasGrown who (files ++ [data]) ↔ HasGrown who files ∨ Grows who files data := by
  constructor
  · rintro ⟨earlier, other, before, grows⟩
    rcases List.prefix_concat_iff.mp before with same | inside
    · obtain ⟨rfl, isData⟩ := List.append_inj' same rfl
      rw [List.singleton_inj.mp isData] at grows
      exact .inr grows
    · exact .inl ⟨earlier, other, inside, grows⟩
  · rintro (⟨earlier, other, before, grows⟩ | grows)
    · exact ⟨earlier, other, before.trans (List.prefix_append _ _), grows⟩
    · exact ⟨files, data, List.prefix_rfl, grows⟩

theorem run_recorded {count : Nat} {who : Who} (files : List Bytes) {stats : SCpuStats} (recorded : who.stats (run count files) = some stats) :
    stats.KernelUsage = {} ∧ stats.UserUsage = {} ↔ ¬ HasGrown who files := by
  induction files using List.reverseRecOn generalizing stats with
  | nil =>
    have fresh : stats.KernelUsage = {} ∧ stats.UserUsage = {} := by
      cases who with
      | machine =>
        obtain rfl := Option.some.inj recorded
        exact ⟨rfl, rfl⟩
      | processor number =>
        obtain rfl := List.eq_of_mem_replicate (List.mem_of_getElem? recorded)
        exact ⟨rfl, rfl⟩
    refine iff_of_true fresh ?_
    rintro ⟨earlier, data, before, -⟩
    exact absurd (List.prefix_nil.mp before) (by simp)
  | append_singleton files data ih =>
    rw [run_snoc, update_stats, run_last] at recorded
    rw [has_grown_snoc, Grows]
    cases valid : (ReadSysStat data).Valid with
    | false =>
      rw [valid] at recorded
      rw [ih recorded]
      simp
    | true =>
      rw [valid, if_pos rfl] at recorded
      cases read : who.time (ReadSysStat data) with
      | none =>
        rw [read] at recorded
        rw [ih recorded]
        simp
      | some time =>
        rw [read] at recorded
        obtain ⟨before, isBefore, rfl⟩ := Option.map_eq_some_iff.mp recorded
        have earlier := ih isBefore
        change (before.update time (total_delta (previous who files) time)).KernelUsage = {} ∧
          (before.update time (total_delta (previous who files) time)).UserUsage = {} ↔ _
        by_cases positive : 0 < total_delta (previous who files) time
        · have grows : ∃ prev, previous who files = some prev ∧ prev.Total < time.Total := total_pos_iff.mp positive
          refine iff_of_false (fun fresh => ?_) (fun steady => steady (.inr ⟨rfl, time, rfl, grows⟩))
          rw [SCpuStats.update, if_pos positive] at fresh
          have zero : total_delta (previous who files) time = 0 := congrArg Share.whole fresh.1
          rw [zero] at positive
          exact absurd positive (by decide)
        · have still : ¬ ∃ prev, previous who files = some prev ∧ prev.Total < time.Total := fun grows => positive (total_pos_iff.mpr grows)
          rw [SCpuStats.update, if_neg positive, if_neg positive, earlier]
          simp only [Option.some.injEq, exists_eq_left', still, and_false, or_false]

/-- In every run the shares are parts of the whole, and none is left of an earlier interval, exactly at the steady updates. -/
theorem shares_within_whole (interval : Interval) : interval.WithinWhole ↔ interval.IsSteady := by
  obtain ⟨count, files, data, who, time, valid, read, inside⟩ := interval
  obtain ⟨before, isBefore⟩ := run_inside inside files
  have counted := run_counted files isBefore
  have recorded := run_recorded files isBefore
  have stats : Interval.stats ⟨count, files, data, who, time, valid, read, inside⟩ = before.update time (total_delta (previous who files) time) := by
    rw [Interval.stats, update_stats, valid, if_pos rfl, read, isBefore, run_last]
    rfl
  rw [Interval.WithinWhole, Interval.IsSteady, stats, Interval.total]
  simp only
  refine and_congr ?_ ?_
  · rw [total_pos_iff]
    constructor
    · intro within prev isPrev grows
      have least := within ⟨prev, isPrev, grows⟩
      rw [isPrev] at least counted
      exact (update_whole counted grows _).mp least
    · rintro steady ⟨prev, isPrev, grows⟩
      rw [isPrev] at counted ⊢
      exact (update_whole counted grows _).mpr (steady prev isPrev grows)
  · rw [← total_zero_iff, ← recorded]
    refine forall_congr' fun zero => ?_
    rw [zero]
    rfl

def file (line : String) : Bytes := toUtf8 line.toList

/-- The machine has waited for a device less than it had before; then nothing has passed. -/
def back : Interval where
  count := 1
  files := [file "cpu  0 0 0 10 10 0 0 0"]
  data := file "cpu  5 0 5 10 4 0 0 0"
  who := .machine
  time := { User := 5, System := 5, Idle := 10, IoWait := 4 }
  valid := by decide +kernel
  read := by decide +kernel
  inside := trivial

def still : Interval where
  count := 1
  files := [file "cpu  0 0 0 10 10 0 0 0", file "cpu  5 0 5 20 10 0 0 0"]
  data := file "cpu  5 0 5 20 10 0 0 0"
  who := .machine
  time := { User := 5, System := 5, Idle := 20, IoWait := 10 }
  valid := by decide +kernel
  read := by decide +kernel
  inside := trivial

theorem more_than_whole : ¬ back.WithinWhole ∧ ¬ still.WithinWhole := by
  rw [Interval.WithinWhole, Interval.WithinWhole]
  decide +kernel

end TaskExplorer.CpuStats
