import TaskExplorer.RingBuffer

/-!
# Rates over the last seconds

`SRateCounter` keeps samples in a ring buffer and the sums over them beside it.
-/

namespace TaskExplorer.RateCounter
open RingBuffer

structure SStat where
  Interval : UInt64 := 0
  Bytes : UInt64 := 0
deriving DecidableEq, Inhabited

structure SRateCounter where
  ByteRate : UInt64 := 0
  RateStat : SRingBuffer SStat := {}
  TotalBytes : UInt64 := 0
  TotalTime : UInt64 := 0

def AVG_INTERVAL : UInt64 := 3 * 1000

/-- One round of the loop that takes samples out, if there is another. -/
def drop_front (counter : SRateCounter) : Option SRateCounter :=
  if AVG_INTERVAL < counter.TotalTime ∧ counter.RateStat.is_empty = false then
    let Front := counter.RateStat.front
    some {
      counter with
      TotalTime := counter.TotalTime - Front.Interval
      TotalBytes := counter.TotalBytes - Front.Bytes
      RateStat := counter.RateStat.pop_front }
  else none

/-- The loop, after at most so many rounds. -/
def drop_old : Nat → SRateCounter → SRateCounter
  | 0, counter => counter
  | rounds + 1, counter => ((drop_front counter).map (drop_old rounds)).getD counter

def divisor (TotalTime Interval : UInt64) : UInt64 :=
  let totalTime := if TotalTime ≠ 0 then TotalTime else Interval
  if totalTime < AVG_INTERVAL / 2 then AVG_INTERVAL else totalTime

def Update (counter : SRateCounter) (Interval AddDelta : UInt64) : Option SRateCounter :=
  let counter := drop_old counter.RateStat.Size counter
  let TotalTime := counter.TotalTime + Interval
  let TotalBytes := counter.TotalBytes + AddDelta
  (counter.RateStat.push_back { Interval, Bytes := AddDelta }).map fun RateStat =>
    { ByteRate := TotalBytes * 1000 / divisor TotalTime Interval, RateStat, TotalBytes, TotalTime }

def updates (samples : List SStat) : Option SRateCounter := samples.foldlM (fun counter sample => Update counter sample.Interval sample.Bytes) {}

/-! ## What is retained -/

def time (samples : List SStat) : Nat := (samples.map fun sample => sample.Interval.toNat).sum

def bytes (samples : List SStat) : Nat := (samples.map fun sample => sample.Bytes.toNat).sum

/-- What the rule leaves: samples are taken out in front for as long as they are of more than three seconds. -/
def recent : List SStat → List SStat
  | [] => []
  | sample :: rest => if 3000 < time (sample :: rest) then recent rest else sample :: rest

/-- The samples behind an update. -/
def retained (samples : List SStat) : List SStat := recent samples.dropLast ++ samples.getLast?.toList

/-- The totals are the sums over the samples in the buffer. -/
structure Exact (counter : SRateCounter) (samples : List SStat) : Prop where
  holds : Holds counter.RateStat samples
  grow : 0 < counter.RateStat.Grow
  time : counter.TotalTime.toNat = time samples
  bytes : counter.TotalBytes.toNat = bytes samples

@[simp] theorem time_cons (sample : SStat) (rest : List SStat) : time (sample :: rest) = sample.Interval.toNat + time rest := rfl

@[simp] theorem bytes_cons (sample : SStat) (rest : List SStat) : bytes (sample :: rest) = sample.Bytes.toNat + bytes rest := rfl

@[simp] theorem time_append (samples others : List SStat) : time (samples ++ others) = time samples + time others := by simp [time]

@[simp] theorem bytes_append (samples others : List SStat) : bytes (samples ++ others) = bytes samples + bytes others := by simp [bytes]

theorem recent_suffix (samples : List SStat) : recent samples <:+ samples := by
  induction samples with
  | nil => exact List.suffix_refl _
  | cons sample rest ih =>
    rw [recent]
    split_ifs
    · exact ih.trans (List.suffix_cons sample rest)
    · exact List.suffix_refl _

theorem recent_time (samples : List SStat) : time (recent samples) ≤ 3000 := by
  induction samples with
  | nil => exact Nat.zero_le _
  | cons sample rest ih =>
    rw [recent]
    split_ifs with long
    · exact ih
    · exact not_lt.mp long

variable {samples : List SStat} {counter : SRateCounter}

theorem recent_longest {suffix : List SStat} (ends : suffix <:+ samples) (short : time suffix ≤ 3000) :
    suffix <:+ recent samples := by
  induction samples with
  | nil => exact ends
  | cons sample rest ih =>
    rw [recent]
    split_ifs with long
    · rcases List.suffix_cons_iff.mp ends with rfl | ends
      · omega
      · exact ih ends
    · exact ends

theorem recent_append (samples others : List SStat) : recent (recent samples ++ others) = recent (samples ++ others) := by
  induction samples with
  | nil => rfl
  | cons sample rest ih =>
    by_cases long : 3000 < time (sample :: rest)
    · have longer : 3000 < time (sample :: (rest ++ others)) := by
        rw [time_cons] at long
        rw [time_cons, time_append]
        omega
      rw [recent, if_pos long, ih, List.cons_append, recent, if_pos longer]
    · rw [recent, if_neg long]

theorem recent_retained (samples : List SStat) : recent (retained samples) = recent samples := by
  rcases List.eq_nil_or_concat samples with rfl | ⟨before, last, rfl⟩
  · rfl
  · rw [retained, List.concat_eq_append, List.dropLast_concat, List.getLast?_concat, Option.toList_some, recent_append]

theorem bytes_suffix {suffix : List SStat} (ends : suffix <:+ samples) : bytes suffix ≤ bytes samples := by
  obtain ⟨front, rfl⟩ := ends
  rw [bytes_append]
  omega

/-! ## The loop -/

theorem drop_front_exact {sample : SStat} {rest : List SStat} (exact_ : Exact counter (sample :: rest))
    (long : 3000 < time (sample :: rest)) :
    counter.RateStat.front = sample ∧ sample.Interval ≤ counter.TotalTime ∧ sample.Bytes ≤ counter.TotalBytes ∧
      ∃ after, drop_front counter = some after ∧ Exact after rest := by
  have front : counter.RateStat.front = sample := by
    have first := exact_.holds.front (by simp)
    exact (Option.some.inj first).symm
  have time := exact_.time
  have bytes := exact_.bytes
  rw [time_cons] at time long
  rw [bytes_cons] at bytes
  have held : sample.Interval ≤ counter.TotalTime := UInt64.le_iff_toNat_le.mpr (by omega)
  have held' : sample.Bytes ≤ counter.TotalBytes := UInt64.le_iff_toNat_le.mpr (by omega)
  have exceeds : AVG_INTERVAL < counter.TotalTime := UInt64.lt_iff_toNat_lt.mpr (by rw [time]; exact long)
  have some_ : counter.RateStat.is_empty = false := by
    rw [← Bool.not_eq_true, exact_.holds.is_empty_iff]
    simp
  have kept := exact_.holds.pop_front
  refine ⟨front, held, held', _, by rw [drop_front, if_pos ⟨exceeds, some_⟩], kept, ?_, ?_, ?_⟩
  · simp only [SRingBuffer.pop_front, some_]
    exact exact_.grow
  · simp only [front]
    rw [UInt64.toNat_sub_of_le _ _ held]
    omega
  · simp only [front]
    rw [UInt64.toNat_sub_of_le _ _ held']
    omega

theorem drop_front_none (exact_ : Exact counter samples) (short : time samples ≤ 3000) : drop_front counter = none := by
  have under : ¬ AVG_INTERVAL < counter.TotalTime := by
    rw [UInt64.lt_iff_toNat_lt, exact_.time]
    exact not_lt.mpr short
  rw [drop_front, if_neg fun both => under both.1]

theorem drop_old_exact (exact_ : Exact counter samples) (rounds : Nat) :
    ∃ left, left <:+ samples ∧ recent left = recent samples ∧ Exact (drop_old rounds counter) left ∧
      (samples.length ≤ rounds → left = recent samples) := by
  induction rounds generalizing counter samples with
  | zero =>
    refine ⟨samples, List.suffix_refl _, rfl, exact_, fun empty => ?_⟩
    rw [List.length_eq_zero_iff.mp (Nat.le_zero.mp empty)]
    rfl
  | succ rounds ih =>
    by_cases long : 3000 < time samples
    · cases samples with
      | nil => simp [time] at long
      | cons sample rest =>
        obtain ⟨-, -, -, after, step, kept⟩ := drop_front_exact exact_ long
        obtain ⟨left, ends, same, left_exact, enough⟩ := ih kept
        have rule : recent (sample :: rest) = recent rest := by rw [recent, if_pos long]
        refine ⟨left, ends.trans (List.suffix_cons sample rest), same.trans rule.symm, ?_, fun many => ?_⟩
        · rw [drop_old, step]
          exact left_exact
        · rw [rule]
          exact enough (by simpa using many)
    · have short := not_lt.mp long
      have rule : samples = recent samples := (recent_longest (List.suffix_refl _) short).eq_of_length_le (recent_suffix samples).length_le
      refine ⟨samples, List.suffix_refl _, rfl, ?_, fun _ => rule⟩
      rw [drop_old, drop_front_none exact_ short]
      exact exact_

/-! ## Updates -/

theorem divisor_pos (TotalTime Interval : UInt64) : 1500 ≤ (divisor TotalTime Interval).toNat := by
  have raised (total : UInt64) : 1500 ≤ (if total < AVG_INTERVAL / 2 then AVG_INTERVAL else total).toNat := by
    split_ifs with short
    · decide
    · exact UInt64.le_iff_toNat_le.mp (UInt64.not_lt.mp short)
  exact raised _

/-- Sums that fit: the time of the samples and of the next one, a thousand times the bytes, and as many samples as an `int` counts. -/
structure Fits (samples : List SStat) : Prop where
  time : ∀ before sample, before ++ [sample] <+: samples → time (recent before) + sample.Interval.toNat < 2 ^ 64
  bytes : bytes samples * 1000 < 2 ^ 64
  count : ∀ before sample, before ++ [sample] <+: samples → (recent before).length ≤ SRingBuffer.INT_MAX

theorem update_exact (exact_ : Exact counter samples) (sample : SStat)
    (timed : time (recent samples) + sample.Interval.toNat < 2 ^ 64)
    (sized : (bytes (recent samples) + sample.Bytes.toNat) * 1000 < 2 ^ 64)
    (few : (recent samples).length ≤ SRingBuffer.INT_MAX) :
    ∃ after, Update counter sample.Interval sample.Bytes = some after ∧ Exact after (recent samples ++ [sample]) ∧
      after.ByteRate.toNat = bytes (recent samples ++ [sample]) * 1000 / (divisor after.TotalTime sample.Interval).toNat := by
  obtain ⟨left, -, -, left_exact, enough⟩ := drop_old_exact exact_ counter.RateStat.Size
  rw [enough (by rw [exact_.holds.size])] at left_exact
  obtain ⟨RateStat, pushed, held, grow⟩ := left_exact.holds.push_back left_exact.grow few sample
  have time_sum : ((drop_old counter.RateStat.Size counter).TotalTime + sample.Interval).toNat = time (recent samples ++ [sample]) := by
    rw [UInt64.toNat_add, left_exact.time, Nat.mod_eq_of_lt timed, time_append]
    rfl
  have bytes_sum : ((drop_old counter.RateStat.Size counter).TotalBytes + sample.Bytes).toNat = bytes (recent samples ++ [sample]) := by
    rw [UInt64.toNat_add, left_exact.bytes, Nat.mod_eq_of_lt (by omega), bytes_append]
    rfl
  refine ⟨_, by rw [Update, pushed]; rfl, ⟨held, by rw [grow]; exact left_exact.grow, time_sum, bytes_sum⟩, ?_⟩
  have thousand : (1000 : UInt64).toNat = 1000 := rfl
  have product : bytes (recent samples ++ [sample]) * 1000 < 2 ^ 64 := by
    rw [bytes_append]
    exact sized
  simp only []
  rw [UInt64.toNat_div, UInt64.toNat_mul, bytes_sum, thousand, Nat.mod_eq_of_lt product]

theorem Fits.before {before : List SStat} {sample : SStat} (fits : Fits (before ++ [sample])) : Fits before where
  time h s starts := fits.time h s (starts.trans (List.prefix_append _ _))
  bytes := by
    refine lt_of_le_of_lt (Nat.mul_le_mul_right 1000 ?_) fits.bytes
    rw [bytes_append]
    exact Nat.le_add_right _ _
  count h s starts := fits.count h s (starts.trans (List.prefix_append _ _))

theorem updates_exact (samples : List SStat) (fits : Fits samples) : ∃ counter, updates samples = some counter ∧ Exact counter (retained samples) := by
  induction samples using List.reverseRecOn with
  | nil => exact ⟨{}, rfl, .nil 10, by decide, rfl, rfl⟩
  | append_singleton before sample ih =>
    obtain ⟨counter, reached, exact_⟩ := ih fits.before
    have sized : (bytes (recent before) + sample.Bytes.toNat) * 1000 < 2 ^ 64 := by
      refine lt_of_le_of_lt (Nat.mul_le_mul_right 1000 ?_) fits.bytes
      rw [bytes_append]
      exact Nat.add_le_add (bytes_suffix (recent_suffix before)) (le_of_eq rfl)
    have rule := recent_retained before
    obtain ⟨after, updated, after_exact, -⟩ := update_exact exact_ sample (by rw [rule]; exact fits.time before sample (List.prefix_refl _))
      (by rw [rule]; exact sized) (by rw [rule]; exact fits.count before sample (List.prefix_refl _))
    refine ⟨after, ?_, ?_⟩
    · rw [updates, List.foldlM_append]
      rw [updates] at reached
      rw [reached]
      simpa using updated
    · rw [retained, List.dropLast_concat, List.getLast?_concat, Option.toList_some, ← rule]
      exact after_exact

/-- No round takes more out of the totals than is in them. -/
def Covered (counter : SRateCounter) : Prop :=
  ∀ rounds, drop_front (drop_old rounds counter) ≠ none →
    (drop_old rounds counter).RateStat.front.Interval ≤ (drop_old rounds counter).TotalTime ∧
      (drop_old rounds counter).RateStat.front.Bytes ≤ (drop_old rounds counter).TotalBytes

theorem Exact.covered (exact_ : Exact counter samples) : Covered counter := by
  intro rounds another
  obtain ⟨left, -, -, left_exact, -⟩ := drop_old_exact exact_ rounds
  have long : 3000 < RateCounter.time left := not_le.mp fun short => another (drop_front_none left_exact short)
  cases left with
  | nil => simp [RateCounter.time] at long
  | cons sample rest =>
    obtain ⟨front, held, held', -⟩ := drop_front_exact left_exact long
    rw [front]
    exact ⟨held, held'⟩

theorem next_update {before : List SStat} {last : SStat} (fits : Fits (before ++ [last])) :
    ∃ counter after, updates before = some counter ∧ Covered counter ∧ Update counter last.Interval last.Bytes = some after ∧
      Exact after (recent before ++ [last]) ∧
      after.ByteRate.toNat = bytes (recent before ++ [last]) * 1000 / (divisor after.TotalTime last.Interval).toNat := by
  obtain ⟨counter, reached, exact_⟩ := updates_exact before fits.before
  have rule := recent_retained before
  have sized : (bytes (recent before) + last.Bytes.toNat) * 1000 < 2 ^ 64 := by
    refine lt_of_le_of_lt (Nat.mul_le_mul_right 1000 ?_) fits.bytes
    rw [bytes_append]
    exact Nat.add_le_add (bytes_suffix (recent_suffix before)) (le_of_eq rfl)
  have step := update_exact exact_ last (by rw [rule]; exact fits.time before last (List.prefix_refl _)) (by rw [rule]; exact sized)
    (by rw [rule]; exact fits.count before last (List.prefix_refl _))
  rw [rule] at step
  obtain ⟨after, updated, after_exact, rate⟩ := step
  exact ⟨counter, after, reached, exact_.covered, updated, after_exact, rate⟩

def one_sample : List SStat := [] ++ [{ Interval := 2000, Bytes := 500 }]

theorem one_prefix {before : List SStat} {sample : SStat} (starts : before ++ [sample] <+: one_sample) :
    before = [] ∧ sample = { Interval := 2000, Bytes := 500 } := by
  obtain ⟨back, whole⟩ := starts
  cases before with
  | nil => exact ⟨rfl, (List.cons.inj whole).1⟩
  | cons first rest =>
    have long := congrArg List.length whole
    simp [one_sample] at long

theorem one_fits : Fits one_sample where
  time before sample starts := by
    obtain ⟨rfl, rfl⟩ := one_prefix starts
    decide
  bytes := by decide
  count before sample starts := by
    obtain ⟨rfl, rfl⟩ := one_prefix starts
    decide

/-- Three seconds, and then an interval that reaches round the end of the numbers. -/
def long_samples : List SStat := [{ Interval := 3000, Bytes := 0 }, { Interval := UInt64.ofNat (2 ^ 64 - 1000), Bytes := 0 }]

/-- What is in the buffer, from the front on. -/
def contents (buffer : SRingBuffer SStat) : List SStat := (List.range buffer.Size).map buffer.elem

end TaskExplorer.RateCounter
