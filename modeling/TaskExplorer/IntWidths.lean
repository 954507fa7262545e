import TaskExplorer.IpcSocket
import TaskExplorer.VariantValue

/-!
# Integers of another width

A variant keeps an integer as its bytes, least significant first, and is read to a place of
any width. What is read is not told whether either side is signed: it fills up with zero
bytes, and leaves out zero bytes.
-/

namespace TaskExplorer.IntWidths
open Codec VariantFormat VariantContainer VariantValue
open IpcSocket (get_int)

/-! ## The types -/

inductive IntType where
  | sint8
  | uint8
  | sint16
  | uint16
  | sint32
  | uint32
  | sint64
  | uint64
deriving DecidableEq, Repr

namespace IntType

def size : IntType → Nat
  | .sint8 | .uint8 => 1
  | .sint16 | .uint16 => 2
  | .sint32 | .uint32 => 4
  | .sint64 | .uint64 => 8

def signed : IntType → Bool
  | .sint8 | .sint16 | .sint32 | .sint64 => true
  | .uint8 | .uint16 | .uint32 | .uint64 => false

def type (int : IntType) : VarType := bif int.signed then VAR_TYPE_SINT else VAR_TYPE_UINT

/-- How many values a type has. -/
def count (int : IntType) : Int := 256 ^ int.size

/-- A value is representable in a type. -/
def Holds (int : IntType) (value : Int) : Prop :=
  if int.signed = true then -int.count ≤ 2 * value ∧ 2 * value < int.count else 0 ≤ value ∧ value < int.count

instance (int : IntType) (value : Int) : Decidable (int.Holds value) := by
  unfold Holds
  infer_instance

/-- The bytes of a value in memory. -/
def bytes (int : IntType) (value : Int) : Bytes := leBytes int.size (value % int.count).toNat

/-- The value that bytes in memory stand for, given as an unsigned number. -/
def ofBytes (int : IntType) (number : Nat) : Int := if int.signed = true ∧ int.count ≤ 2 * number then number - int.count else number

end IntType

/-- A value of a type. -/
structure Value where
  int : IntType
  value : Int
  holds : int.Holds value

/-- The constructor of the type. -/
def construct (stored : Value) : Packed := ⟨stored.int.type, stored.int.bytes stored.value⟩

/-- The `Write` overload of the type. -/
def write (target : Variant) (key : Key) (stored : Value) : Except CException Variant :=
  write_value target key stored.int.type (stored.int.bytes stored.value)

/-- The conversion operator of a type. -/
def read (int : IntType) (variant : Packed) : Except CException Int := do
  let number ← get_int int.size variant
  return int.ofBytes number

/-- The variants that hold a value: the one it constructs, and what is found where it was written, behind what stood in the container
before, whatever is written after it. -/
inductive Stored (stored : Value) : Packed → Prop where
  | constructed : Stored stored (construct stored)
  | written {kind : Kind} {buffer later rest : Bytes} {before : List (Key × Packed)} {key other : Key} {packed : Packed}
      (whole : raw_entries kind buffer = (before, .pending [])) (wrote : write (.writing kind buffer) key stored = .ok (.writing kind later))
      (found : (raw_entries kind (later ++ rest)).1[before.length]? = some (other, packed)) : Stored stored packed

/-- A value that the type can represent is read, and no other. -/
def Survives (int : IntType) (value : Int) (packed : Packed) : Prop :=
  (int.Holds value → read int packed = .ok value) ∧ (¬ int.Holds value → ∃ raised, read int packed = .error raised)

/-- A value that is not negative is not one that the other type takes for a negative one. A negative value goes to the signed type of
its size, or to a shorter type that cannot represent it. -/
def Safe (stored : Value) (int : IntType) : Prop :=
  if 0 ≤ stored.value then int.signed = true → 2 * stored.value < int.count ∨ int.count ≤ stored.value
  else int.size = stored.int.size ∧ int.signed = true ∨
    int.size < stored.int.size ∧ (int.signed = true → 2 * stored.value < -int.count)

/-! ## Bytes of a number -/

theorem leBytes_take (size width number : Nat) : (leBytes width number).take size = leBytes (min size width) number := by
  induction width generalizing size number with
  | zero => simp [leBytes]
  | succ width ih =>
    cases size with
    | zero => simp [leBytes]
    | succ size => rw [leBytes, List.take_succ_cons, ih, Nat.succ_min_succ, leBytes]

theorem leBytes_drop (size width number : Nat) : (leBytes width number).drop size = leBytes (width - size) (number / 256 ^ size) := by
  induction width generalizing size number with
  | zero => simp [leBytes]
  | succ width ih =>
    cases size with
    | zero => simp
    | succ size => rw [leBytes, List.drop_succ_cons, ih, Nat.succ_sub_succ, Nat.div_div_eq_div_mul, ← pow_succ']

theorem leBytes_nonzero {width number : Nat} (fits : number < 256 ^ width) : (leBytes width number).any (· ≠ 0) = true ↔ number ≠ 0 := by
  induction width generalizing number with
  | zero =>
    have zero : number = 0 := by simpa using fits
    simp [leBytes, zero]
  | succ width ih =>
    have rest : number / 256 < 256 ^ width := by
      rw [pow_succ] at fits
      omega
    have first : UInt8.ofNat number ≠ 0 ↔ number % 256 ≠ 0 := by
      rw [ne_eq, ← UInt8.toNat_inj, UInt8.toNat_ofNat']
      rfl
    rw [leBytes, List.any_cons, Bool.or_eq_true, ih rest, decide_eq_true_iff, first]
    omega

theorem get_int_bytes (int : IntType) {width number : Nat} (size : Nat) (fits : number < 256 ^ width) :
    (number < 256 ^ size → get_int size ⟨int.type, leBytes width number⟩ = .ok number) ∧
      (256 ^ size ≤ number → ∃ raised, get_int size ⟨int.type, leBytes width number⟩ = .error raised) := by
  have notEmpty : int.type ≠ VAR_TYPE_EMPTY := by cases int <;> decide
  have integer : ¬ (int.type ≠ VAR_TYPE_SINT ∧ int.type ≠ VAR_TYPE_UINT) := by cases int <;> decide
  have restFits : number / 256 ^ size < 256 ^ (width - size) := by
    refine (Nat.div_lt_iff_lt_mul (Nat.pow_pos (by decide))).mpr ?_
    rw [← pow_add]
    exact fits.trans_le (Nat.pow_le_pow_right (by decide) (by omega))
  have longer : ((leBytes width number).drop size).any (· ≠ 0) = true ↔ 256 ^ size ≤ number := by
    rw [leBytes_drop, leBytes_nonzero restFits, ne_eq, Nat.div_eq_zero_iff]
    have positive : 256 ^ size ≠ 0 := (Nat.pow_pos (by decide)).ne'
    omega
  constructor
  · intro short
    have taken : leNat ((leBytes width number).take size) = number := by
      rw [leBytes_take]
      refine leNat_leBytes_of_lt ?_
      rcases min_choice size width with isMin | isMin <;> rw [isMin] <;> assumption
    rw [get_int, if_neg notEmpty, if_neg integer, if_neg (by rw [longer]; omega), taken]
  · intro long
    rw [get_int, if_neg notEmpty, if_neg integer, if_pos (longer.mpr long)]
    exact ⟨_, rfl⟩

/-! ## Reading a value -/

/-- The unsigned number that the bytes of a value spell. -/
def Value.number (stored : Value) : Nat := (stored.value % stored.int.count).toNat

theorem number_eq (stored : Value) : (stored.number : Int) = if 0 ≤ stored.value then stored.value else stored.value + stored.int.count := by
  obtain ⟨int, value, holds⟩ := stored
  rw [Value.number]
  cases int <;> simp only [IntType.Holds, IntType.count, IntType.signed, IntType.size] at holds ⊢ <;> split_ifs <;> norm_num at holds ⊢ <;> omega

theorem number_lt (stored : Value) : stored.number < 256 ^ stored.int.size := by
  have bound : (stored.number : Int) < stored.int.count := by
    obtain ⟨int, value, holds⟩ := stored
    have isNumber := number_eq ⟨int, value, holds⟩
    rw [isNumber]
    cases int <;> simp only [IntType.Holds, IntType.count, IntType.signed, IntType.size] at holds ⊢ <;> split_ifs <;> norm_num at holds ⊢ <;> omega
  rw [IntType.count] at bound
  exact_mod_cast bound

theorem counts (first second : IntType) :
    first.size < second.size ∧ 256 * first.count ≤ second.count ∨ first.size = second.size ∧ first.count = second.count ∨
      second.size < first.size ∧ 256 * second.count ≤ first.count := by
  cases first <;> cases second <;> decide

theorem safe_iff (stored : Value) (int : IntType) :
    Safe stored int ↔
      if (stored.number : Int) < int.count then int.Holds stored.value ∧ int.ofBytes stored.number = stored.value else ¬ int.Holds stored.value := by
  have isNumber := number_eq stored
  have sizes := counts stored.int int
  have holds := stored.holds
  rw [IntType.Holds] at holds ⊢
  rw [Safe, IntType.ofBytes]
  by_cases positive : 0 ≤ stored.value <;> by_cases short : (stored.number : Int) < int.count <;>
    cases first : stored.int.signed <;> cases int.signed <;>
    simp only [first, positive, short, Bool.false_eq_true, if_true, if_false, true_and, false_and, and_false, and_true, false_or, true_iff,
      iff_false, not_false_iff, iff_true, forall_const, false_implies] at holds isNumber ⊢ <;>
    try split_ifs
  all_goals omega

theorem survives_construct_iff (stored : Value) (int : IntType) : Survives int stored.value (construct stored) ↔ Safe stored int := by
  obtain ⟨reads, raises⟩ := get_int_bytes stored.int int.size (number_lt stored)
  have isCount : (int.count : Int) = (256 ^ int.size : Nat) := by
    rw [IntType.count]
    norm_cast
  by_cases short : stored.number < 256 ^ int.size
  · have isRead : read int (construct stored) = .ok (int.ofBytes stored.number) := by
      rw [read, construct, IntType.bytes, ← Value.number, reads short]
      rfl
    rw [safe_iff, if_pos (by rw [isCount]; exact_mod_cast short), Survives, isRead]
    by_cases holds : int.Holds stored.value
    · simp [holds]
    · simp [holds]
  · obtain ⟨raised, isRaised⟩ := raises (not_lt.mp short)
    have isRead : read int (construct stored) = .error raised := by
      rw [read, construct, IntType.bytes, ← Value.number, isRaised]
      rfl
    rw [safe_iff, if_neg (by rw [isCount]; exact_mod_cast short), Survives, isRead]
    simp

/-! ## What was written -/

theorem write_key_spelled (key : Key) : ∃ other, KeyFits (Key.kind key) other ∧ write_key key = write_key other := by
  cases key with
  | name text =>
    have length : (text.take (text.length % 256)).length = text.length % 256 := List.length_take_of_le (Nat.mod_le _ _)
    refine ⟨.name (text.take (text.length % 256)), ?_, ?_⟩
    · change (text.take (text.length % 256)).length < 256
      rw [length]
      exact Nat.mod_lt _ (by norm_num)
    · rw [write_key, write_key, length, Nat.mod_mod, List.take_take, min_self]
      congr 1
      apply UInt8.toNat_inj.mp
      simp
  | id index => exact ⟨.id index, trivial, rfl⟩
  | item => exact ⟨.item, trivial, rfl⟩

theorem stored_kind (key : Key) : Key.kind key.stored = Key.kind key := by cases key <;> rfl

theorem construct_encodable (stored : Value) : Encodable (construct stored) := by
  refine ⟨fun empty => ?_, ?_⟩
  · have notEmpty : stored.int.type ≠ VAR_TYPE_EMPTY := by cases stored.int <;> decide
    exact absurd empty notEmpty
  · have small : stored.int.size ≤ 8 := by cases stored.int <;> decide
    have length : (construct stored).payload.length = stored.int.size := leBytes_length _ _
    rw [length]
    exact small.trans_lt (by norm_num)

theorem raw_entries_behind {kind : Kind} {buffer bytes : Bytes} {before : List (Key × Packed)}
    (whole : raw_entries kind buffer = (before, .pending [])) {pair : Key × Packed} {rest : Bytes} (item : entry kind bytes = .item pair rest) :
    (raw_entries kind (buffer ++ bytes)).1[before.length]? = some pair := by
  have stable : ∀ bytes pair rest more, entry kind bytes = .item pair rest → entry kind (bytes ++ more) = .item pair (rest ++ more) := by
    intro bytes pair rest more found
    obtain ⟨keyFits, front, frontValid, rfl⟩ := entry_item_iff.mp found
    exact entry_item_iff.mpr ⟨keyFits, front, frontValid, by simp⟩
  rw [raw_entries] at whole ⊢
  rw [run_append_of_pending (entry_productive kind) stable whole, List.nil_append, run_item (entry_productive kind) item]
  simp

theorem stored_eq {stored : Value} {packed : Packed} (holds : Stored stored packed) : packed = construct stored := by
  cases holds with
  | constructed => rfl
  | @written kind buffer later rest before key other packed whole wrote found =>
    simp only [write, write_value, write_packet] at wrote
    split_ifs at wrote with sameKind
    · cases wrote
      obtain ⟨spelled, fits, isSpelled⟩ := write_key_spelled key.stored
      have item : entry kind (write_key key.stored ++ (to_packet (construct stored) ++ rest)) = .item (spelled, construct stored) rest := by
        rw [isSpelled]
        refine entry_item_iff.mpr ⟨?_, _, packet_header_correct _ (construct_encodable stored), ?_⟩
        · exact sameKind ▸ stored_kind key ▸ fits
        · simp [to_packet]
      have there := raw_entries_behind whole item
      rw [← List.append_assoc, ← List.append_assoc] at there
      exact (congrArg Prod.snd (Option.some.inj (there.symm.trans found))).symm
    · cases key <;> cases wrote

/-- Whether a value comes through a change of width does not depend on how it was stored, and is said by its sign and the two types. -/
theorem int_survives_iff (stored : Value) (int : IntType) : (∀ packed, Stored stored packed → Survives int stored.value packed) ↔ Safe stored int := by
  rw [← survives_construct_iff]
  constructor
  · exact fun all => all _ .constructed
  · intro survives packed holds
    rwa [stored_eq holds]

/-- Minus one of eight bits is read as 255 into sixteen. -/
theorem int_widened : ¬ ∀ packed, Stored ⟨.sint8, -1, by decide⟩ packed → Survives .sint16 (-1) packed := by
  intro all
  have read_as : read .sint16 (construct ⟨.sint8, -1, by decide⟩) = .ok 255 := by decide
  have survives := (all _ .constructed).1 (by decide)
  rw [read_as] at survives
  cases survives

end TaskExplorer.IntWidths
