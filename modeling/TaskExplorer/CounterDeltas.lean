import Mathlib

/-!
# Counters that wrap

A delta keeps the last value of a counter and what it has grown by. Some counters have only
32 bits: how often they went back to a smaller value is counted, and a value of 64 bits is put
together from that number and the 32 bits (`FixValue`).
-/

namespace TaskExplorer.CounterDeltas

/-! ## Deltas -/

section
variable {T : Type} [OfNat T 0] [Sub T] [LT T] [DecidableLT T]

structure SDelta (T : Type) [OfNat T 0] where
  Initialized : Bool := false
  Value : T := 0
  Delta : T := 0
deriving DecidableEq, Repr

def SDelta.Init (new : T) : SDelta T := ⟨true, new, 0⟩

/-- A counter that goes backwards has been reset. -/
def SDelta.Update (delta : SDelta T) (new : T) : SDelta T where
  Initialized := true
  Value := new
  Delta := if delta.Initialized = false then delta.Delta else if new < delta.Value then 0 else new - delta.Value

@[simp] theorem SDelta.Update_Value (delta : SDelta T) (new : T) : (delta.Update new).Value = new := rfl

@[simp] theorem SDelta.Update_Initialized (delta : SDelta T) (new : T) : (delta.Update new).Initialized = true := rfl

theorem SDelta.Update_Delta {delta : SDelta T} (initialized : delta.Initialized = true) (new : T) :
    (delta.Update new).Delta = if new < delta.Value then 0 else new - delta.Value := by
  simp [Update, initialized]

end

/-! ## Counters of 32 bits -/

structure SUnOverflow where
  OverflowCount : UInt32 := 0
  Value32 : UInt32 := 0
deriving DecidableEq, Repr

def SUnOverflow.GetValue (counter : SUnOverflow) : UInt64 := counter.OverflowCount.toUInt64 * 0xFFFFFFFF + counter.Value32.toUInt64

def SUnOverflow.FixValue (counter : SUnOverflow) (curValue : UInt32) : SUnOverflow × UInt64 :=
  let later : SUnOverflow := ⟨if curValue < counter.Value32 then counter.OverflowCount + 1 else counter.OverflowCount, curValue⟩
  (later, later.GetValue)

structure SDelta32_64 where
  delta : SDelta UInt64 := {}
  overflow : SUnOverflow := {}
deriving DecidableEq, Repr

def SDelta32_64.Update (counter : SDelta32_64) (new : UInt32) : SDelta32_64 :=
  ⟨counter.delta.Update (counter.overflow.FixValue new).2, (counter.overflow.FixValue new).1⟩

/-- A value of 64 bits that needs no unwrapping. -/
def SDelta32_64.Update64 (counter : SDelta32_64) (new : UInt64) : SDelta32_64 := { counter with delta := counter.delta.Update new }

/-- The values that `FixValue` returns, one after the other. -/
def fix_values (counter : SUnOverflow) : List UInt32 → List UInt64
  | [] => []
  | new :: rest => (counter.FixValue new).2 :: fix_values (counter.FixValue new).1 rest

/-- The deltas after each of the samples. -/
def deltas (counter : SDelta32_64) : List UInt32 → List UInt64
  | [] => []
  | new :: rest => (counter.Update new).delta.Delta :: deltas (counter.Update new) rest

/-! ## What is expected -/

/-- A reading follows another one: the counter has not gone back, and by less than a round on. -/
def Follows (value next : UInt64) : Prop := value ≤ next ∧ next - value < 0x100000000

instance (value next : UInt64) : Decidable (Follows value next) := inferInstanceAs (Decidable (_ ∧ _))

/-- A counter of 64 bits as it is read from time to time, the first time before it has gone beyond 32 bits. -/
structure Readings where
  values : List UInt64
  low : ∀ first ∈ values.head?, first < 0x100000000
  steps : values.IsChain Follows

namespace Readings

/-- What a counter of 32 bits shows of it. -/
def samples (readings : Readings) : List UInt32 := readings.values.map UInt64.toUInt32

/-- The values come back as they were. -/
def Unwrapped (readings : Readings) : Prop := fix_values {} readings.samples = readings.values

/-- From the second sample on a delta is what the counter has grown by. -/
def DeltasExact (readings : Readings) : Prop :=
  (deltas {} readings.samples).tail = List.zipWith (fun value next => next - value) readings.values readings.values.tail

/-- The counter has not gone beyond 32 bits. -/
def Short (readings : Readings) : Prop := ∀ value ∈ readings.values, value < 0x100000000

end Readings

/-! ## What is computed -/

/-- What is made of a value: each round counts one too little. -/
def shortened (value : UInt64) : UInt64 := value - value >>> 32

theorem shortened_toNat (value : UInt64) : (shortened value).toNat = value.toNat - value.toNat / 2 ^ 32 := by
  have high : (value >>> 32).toNat = value.toNat / 2 ^ 32 := by
    rw [UInt64.toNat_shiftRight, Nat.shiftRight_eq_div_pow]
    rfl
  have below : value >>> 32 ≤ value := by
    rw [UInt64.le_iff_toNat_le, high]
    exact Nat.div_le_self _ _
  rw [shortened, UInt64.toNat_sub_of_le _ _ below, high]

/-- The counter as it stands after a value has been fed in. -/
def fed (value : UInt64) : SUnOverflow := ⟨(value >>> 32).toUInt32, value.toUInt32⟩

theorem fed_count (value : UInt64) : (fed value).OverflowCount.toNat = value.toNat / 2 ^ 32 := by
  have small := value.toNat_lt
  rw [fed, UInt64.toNat_toUInt32, UInt64.toNat_shiftRight, Nat.shiftRight_eq_div_pow]
  change value.toNat / 2 ^ 32 % 2 ^ 32 = _
  omega

theorem fed_value (value : UInt64) : (fed value).Value32.toNat = value.toNat % 2 ^ 32 := UInt64.toNat_toUInt32 value

theorem GetValue_fed (value : UInt64) : (fed value).GetValue = shortened value := by
  have small := value.toNat_lt
  rw [← UInt64.toNat_inj, shortened_toNat, SUnOverflow.GetValue, UInt64.toNat_add, UInt64.toNat_mul, UInt32.toNat_toUInt64, UInt32.toNat_toUInt64,
    fed_count, fed_value]
  change (value.toNat / 2 ^ 32 * 4294967295 % 2 ^ 64 + value.toNat % 2 ^ 32) % 2 ^ 64 = _
  omega

variable {value : UInt64}

theorem Follows.toNat {next : UInt64} (follows : Follows value next) :
    value.toNat ≤ next.toNat ∧ next.toNat < value.toNat + 2 ^ 32 := by
  have grows := UInt64.le_iff_toNat_le.mp follows.1
  have slow := UInt64.lt_iff_toNat_lt.mp follows.2
  rw [UInt64.toNat_sub_of_le _ _ follows.1] at slow
  change next.toNat - value.toNat < 2 ^ 32 at slow
  omega

theorem FixValue_fed {next : UInt64} (follows : Follows value next) :
    (fed value).FixValue next.toUInt32 = (fed next, shortened next) := by
  have bounds := follows.toNat
  have small := next.toNat_lt
  have lower : next.toUInt32 < (fed value).Value32 ↔ next.toNat % 2 ^ 32 < value.toNat % 2 ^ 32 := by
    rw [UInt32.lt_iff_toNat_lt, fed_value, UInt64.toNat_toUInt32]
  have later : (⟨if next.toUInt32 < (fed value).Value32 then (fed value).OverflowCount + 1 else (fed value).OverflowCount, next.toUInt32⟩ :
      SUnOverflow) = fed next := by
    have count : (if next.toUInt32 < (fed value).Value32 then (fed value).OverflowCount + 1 else (fed value).OverflowCount) =
        (fed next).OverflowCount := by
      rw [← UInt32.toNat_inj, fed_count]
      by_cases wraps : next.toUInt32 < (fed value).Value32
      · rw [if_pos wraps, UInt32.toNat_add, fed_count]
        rw [lower] at wraps
        change (value.toNat / 2 ^ 32 + 1) % 2 ^ 32 = _
        omega
      · rw [if_neg wraps, fed_count]
        rw [lower] at wraps
        omega
    rw [count]
    rfl
  rw [SUnOverflow.FixValue, later, GetValue_fed]

theorem fix_values_fed {rest : List UInt64} (chain : (value :: rest).IsChain Follows) :
    fix_values (fed value) (rest.map UInt64.toUInt32) = rest.map shortened := by
  induction rest generalizing value with
  | nil => rfl
  | cons next rest ih =>
    obtain ⟨follows, chain⟩ := List.isChain_cons_cons.mp chain
    rw [List.map_cons, fix_values, FixValue_fed follows, ih chain, List.map_cons]

theorem shortened_mono {next : UInt64} (below : value ≤ next) : shortened value ≤ shortened next := by
  have grows := UInt64.le_iff_toNat_le.mp below
  rw [UInt64.le_iff_toNat_le, shortened_toNat, shortened_toNat]
  omega

theorem deltas_fed {rest : List UInt64} (chain : (value :: rest).IsChain Follows) (delta : UInt64) :
    deltas ⟨⟨true, shortened value, delta⟩, fed value⟩ (rest.map UInt64.toUInt32) =
      List.zipWith (fun value next => shortened next - shortened value) (value :: rest) rest := by
  induction rest generalizing value delta with
  | nil => rfl
  | cons next rest ih =>
    obtain ⟨follows, chain⟩ := List.isChain_cons_cons.mp chain
    have ascends : ¬ shortened next < shortened value := UInt64.not_lt.mpr (shortened_mono follows.1)
    have updated : SDelta32_64.Update ⟨⟨true, shortened value, delta⟩, fed value⟩ next.toUInt32 =
        ⟨⟨true, shortened next, shortened next - shortened value⟩, fed next⟩ := by
      rw [SDelta32_64.Update, FixValue_fed follows]
      simp [SDelta.Update, ascends]
    rw [List.map_cons, deltas, updated, ih chain, List.zipWith_cons_cons]

/-! ## When it is exact -/

theorem shortened_iff (value : UInt64) : shortened value = value ↔ value < 0x100000000 := by
  rw [← UInt64.toNat_inj, shortened_toNat, UInt64.lt_iff_toNat_lt]
  change _ ↔ value.toNat < 2 ^ 32
  omega

theorem difference_iff {next : UInt64} (follows : Follows value next) :
    shortened next - shortened value = next - value ↔ next.toNat / 2 ^ 32 = value.toNat / 2 ^ 32 := by
  have bounds := follows.toNat
  rw [← UInt64.toNat_inj, UInt64.toNat_sub_of_le _ _ (shortened_mono follows.1), UInt64.toNat_sub_of_le _ _ follows.1, shortened_toNat,
    shortened_toNat]
  omega

theorem differences_iff {rest : List UInt64} (chain : (value :: rest).IsChain Follows) :
    List.zipWith (fun value next => shortened next - shortened value) (value :: rest) rest =
        List.zipWith (fun value next => next - value) (value :: rest) rest ↔
      ∀ next ∈ rest, next.toNat / 2 ^ 32 = value.toNat / 2 ^ 32 := by
  induction rest generalizing value with
  | nil => simp
  | cons next rest ih =>
    obtain ⟨follows, chain⟩ := List.isChain_cons_cons.mp chain
    rw [List.zipWith_cons_cons, List.zipWith_cons_cons, List.cons.injEq, ih chain, difference_iff follows, List.forall_mem_cons]
    refine and_congr_right fun same => ?_
    rw [same]

namespace Readings

theorem chain (readings : Readings) : (0 :: readings.values).IsChain Follows := by
  obtain ⟨values, low, steps⟩ := readings
  cases values with
  | nil => exact List.isChain_singleton 0
  | cons first rest =>
    refine List.isChain_cons_cons.mpr ⟨⟨UInt64.zero_le, ?_⟩, steps⟩
    rw [UInt64.sub_zero]
    exact low first rfl

theorem unwrapped_iff (readings : Readings) : readings.Unwrapped ↔ readings.Short := by
  have values : fix_values {} readings.samples = readings.values.map shortened := fix_values_fed readings.chain
  have same : readings.values.map shortened = readings.values ↔ ∀ value ∈ readings.values, shortened value = value := by
    conv_lhs => rw [← List.map_id readings.values, List.map_map]
    exact List.map_inj_left
  rw [Unwrapped, values, same, Short]
  exact forall₂_congr fun value _ => shortened_iff value

theorem deltas_exact_iff (readings : Readings) : readings.DeltasExact ↔ readings.Short := by
  have start := readings.chain
  obtain ⟨values, low, steps⟩ := readings
  cases values with
  | nil => simp [DeltasExact, Short, samples, deltas]
  | cons first rest =>
    have firstLow : first < 0x100000000 := low first rfl
    have isLow : first.toNat < 2 ^ 32 := UInt64.lt_iff_toNat_lt.mp firstLow
    have updated : SDelta32_64.Update {} first.toUInt32 = ⟨⟨true, shortened first, 0⟩, fed first⟩ := by
      have fixed : SUnOverflow.FixValue {} first.toUInt32 = (fed first, shortened first) := FixValue_fed (List.isChain_cons_cons.mp start).1
      rw [SDelta32_64.Update, fixed]
      rfl
    have computed : (deltas {} (List.map UInt64.toUInt32 (first :: rest))).tail =
        List.zipWith (fun value next => shortened next - shortened value) (first :: rest) rest := by
      rw [List.map_cons, deltas, updated, List.tail_cons, deltas_fed steps]
    rw [DeltasExact, samples, computed, List.tail_cons, differences_iff steps, Short, List.forall_mem_cons]
    have quotient (value : UInt64) : value.toNat / 2 ^ 32 = first.toNat / 2 ^ 32 ↔ value < 0x100000000 := by
      rw [UInt64.lt_iff_toNat_lt]
      change _ ↔ value.toNat < 2 ^ 32
      omega
    simp only [quotient, firstLow, true_and]

end Readings

/-- The values of a counter that wraps are exact exactly as long as it has not wrapped, and so are its deltas. -/
theorem counter_exact (readings : Readings) : (readings.Unwrapped ↔ readings.Short) ∧ (readings.DeltasExact ↔ readings.Short) :=
  ⟨readings.unwrapped_iff, readings.deltas_exact_iff⟩

/-- A counter that goes on by 32 where 32 bits end. -/
def once_round : Readings where
  values := [0xFFFFFFF0, 0x100000010]
  low := by simp
  steps := by decide

theorem wrap_loses_one : ¬ once_round.Unwrapped ∧ ¬ once_round.DeltasExact := by
  refine ⟨?_, ?_⟩
  · rw [Readings.Unwrapped]
    decide
  · rw [Readings.DeltasExact]
    decide

end TaskExplorer.CounterDeltas
