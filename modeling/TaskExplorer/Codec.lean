import Mathlib

/-!
# Byte order and incremental decoders

Little endian numbers, and decoders that take one item at a time off the
front of a byte string. `run` repeats a decoder until it asks for more bytes
or refuses what it sees; the laws say how a run composes when the bytes come
in pieces.
-/

namespace TaskExplorer.Codec

abbrev Bytes := List UInt8

/-! ## Little endian -/

/-- The `width` lowest bytes of a number, least significant first. -/
def leBytes : Nat → Nat → Bytes
  | 0, _ => []
  | width + 1, value => UInt8.ofNat value :: leBytes width (value / 256)

def leNat : Bytes → Nat
  | [] => 0
  | byte :: rest => byte.toNat + 256 * leNat rest

@[simp] theorem leBytes_length (width value : Nat) : (leBytes width value).length = width := by
  induction width generalizing value with
  | zero => rfl
  | succ width ih => simp [leBytes, ih]

theorem leNat_leBytes (width value : Nat) : leNat (leBytes width value) = value % 256 ^ width := by
  induction width generalizing value with
  | zero => simp [leBytes, leNat, Nat.mod_one]
  | succ width ih =>
    have byte : (UInt8.ofNat value).toNat = value % 256 := by simp
    rw [leBytes, leNat, ih, byte, pow_succ, Nat.mul_comm (256 ^ width) 256, Nat.mod_mul]

theorem leNat_leBytes_of_lt {width value : Nat} (fits : value < 256 ^ width) :
    leNat (leBytes width value) = value := by
  rw [leNat_leBytes, Nat.mod_eq_of_lt fits]

theorem leNat_lt (bytes : Bytes) : leNat bytes < 256 ^ bytes.length := by
  induction bytes with
  | nil => simp [leNat]
  | cons byte rest ih =>
    have small : byte.toNat < 256 := byte.toNat_lt
    simp only [leNat, List.length_cons, pow_succ]
    omega

theorem leBytes_leNat (bytes : Bytes) : leBytes bytes.length (leNat bytes) = bytes := by
  induction bytes with
  | nil => rfl
  | cons byte rest ih =>
    have small : byte.toNat < 256 := byte.toNat_lt
    have tail : (byte.toNat + 256 * leNat rest) / 256 = leNat rest := by omega
    have head : UInt8.ofNat (byte.toNat + 256 * leNat rest) = byte := by
      apply UInt8.toNat_inj.mp
      rw [UInt8.toNat_ofNat']
      omega
    simp only [List.length_cons, leBytes, leNat, tail, head, ih]

/-! ## Decoders -/

/-- What a decoder makes of the front of its input: it may need more bytes,
    refuse them, or yield one item and the bytes behind it. -/
inductive Step (ε α : Type) where
  | more
  | fail (error : ε)
  | item (value : α) (rest : Bytes)
deriving DecidableEq, Repr

def Step.map {ε α β : Type} (label : α → β) : Step ε α → Step ε β
  | .more => .more
  | .fail error => .fail error
  | .item value rest => .item (label value) rest

/-- How a run ended: waiting with bytes in hand, or refused. -/
inductive Tail (ε : Type) where
  | pending (rest : Bytes)
  | failed (error : ε)
deriving DecidableEq, Repr

abbrev Decoder (ε α : Type) := Bytes → Step ε α

/-- Up to `fuel` items, in order, and how the run ended. -/
def scan {ε α : Type} (decode : Decoder ε α) : Nat → Bytes → List α × Tail ε
  | 0, bytes => ([], .pending bytes)
  | fuel + 1, bytes =>
    match decode bytes with
    | .more => ([], .pending bytes)
    | .fail error => ([], .failed error)
    | .item value rest =>
      let (values, tail) := scan decode fuel rest
      (value :: values, tail)

/-- An item takes at least one byte, so there are no more items than bytes. -/
def run {ε α : Type} (decode : Decoder ε α) (bytes : Bytes) : List α × Tail ε :=
  scan decode bytes.length bytes

/-- An item uses up a non-empty part of the input, and no input is never
    refused. -/
structure Productive {ε α : Type} (decode : Decoder ε α) : Prop where
  idle : decode [] = .more
  splits : ∀ bytes value rest, decode bytes = .item value rest → ∃ used, used ≠ [] ∧ bytes = used ++ rest

/-- A verdict does not depend on what follows the bytes it was reached on. -/
structure Stable {ε α : Type} (decode : Decoder ε α) : Prop where
  item : ∀ bytes value rest more, decode bytes = .item value rest → decode (bytes ++ more) = .item value (rest ++ more)
  fail : ∀ bytes error more, decode bytes = .fail error → decode (bytes ++ more) = .fail error

section Runs
variable {ε α : Type} {decode : Decoder ε α}

theorem Productive.shrinks (productive : Productive decode) (bytes : Bytes) (value : α) (rest : Bytes)
    (found : decode bytes = .item value rest) : rest.length < bytes.length := by
  obtain ⟨used, nonempty, rfl⟩ := productive.splits _ _ _ found
  have positive := List.length_pos_iff.mpr nonempty
  simp only [List.length_append]
  omega

private theorem scan_fuel (productive : Productive decode) (fuel other : Nat) (bytes : Bytes)
    (enough : bytes.length ≤ fuel) (otherEnough : bytes.length ≤ other) :
    scan decode fuel bytes = scan decode other bytes := by
  induction fuel generalizing other bytes with
  | zero =>
    have empty : bytes = [] := List.length_eq_zero_iff.mp (by omega)
    subst empty
    cases other <;> simp [scan, productive.idle]
  | succ fuel ih =>
    cases other with
    | zero =>
      have empty : bytes = [] := List.length_eq_zero_iff.mp (by omega)
      subst empty
      simp [scan, productive.idle]
    | succ other =>
      simp only [scan]
      cases verdict : decode bytes with
      | more => rfl
      | fail error => rfl
      | item value rest =>
        have shorter := productive.shrinks _ _ _ verdict
        simp only [ih other rest (by omega) (by omega)]

theorem run_more {bytes : Bytes} (verdict : decode bytes = .more) : run decode bytes = ([], .pending bytes) := by
  unfold run
  cases length : bytes.length with
  | zero => rfl
  | succ fuel => simp [scan, verdict]

theorem run_fail (productive : Productive decode) {bytes : Bytes} {error : ε} (verdict : decode bytes = .fail error) :
    run decode bytes = ([], .failed error) := by
  unfold run
  cases bytes with
  | nil => simp [productive.idle] at verdict
  | cons head tail => simp [scan, verdict]

theorem run_item (productive : Productive decode) {bytes : Bytes} {value : α} {rest : Bytes}
    (verdict : decode bytes = .item value rest) :
    run decode bytes = (value :: (run decode rest).1, (run decode rest).2) := by
  have shorter := productive.shrinks _ _ _ verdict
  unfold run
  cases bytes with
  | nil => simp at shorter
  | cons head tail =>
    simp only [List.length_cons] at shorter
    simp only [List.length_cons, scan, verdict,
      scan_fuel productive tail.length rest.length rest (by omega) (by omega)]

theorem run_pending (productive : Productive decode) (bytes rest : Bytes)
    (ended : (run decode bytes).2 = .pending rest) : decode rest = .more := by
  induction length : bytes.length using Nat.strong_induction_on generalizing bytes with
  | _ size ih =>
    cases verdict : decode bytes with
    | more =>
      rw [run_more verdict] at ended
      cases ended
      exact verdict
    | fail error =>
      rw [run_fail productive verdict] at ended
      cases ended
    | item value after =>
      rw [run_item productive verdict] at ended
      exact ih after.length (length ▸ productive.shrinks _ _ _ verdict) after ended rfl

theorem run_append_of_pending (productive : Productive decode)
    (stable : ∀ bytes value rest more, decode bytes = .item value rest → decode (bytes ++ more) = .item value (rest ++ more))
    {first rest : Bytes} {values : List α} (ended : run decode first = (values, .pending rest)) (second : Bytes) :
    run decode (first ++ second) = (values ++ (run decode (rest ++ second)).1, (run decode (rest ++ second)).2) := by
  induction length : first.length using Nat.strong_induction_on generalizing first values with
  | _ size ih =>
    cases verdict : decode first with
    | more =>
      rw [run_more verdict] at ended
      cases ended
      rfl
    | fail error =>
      rw [run_fail productive verdict] at ended
      cases ended
    | item value after =>
      rw [run_item productive verdict] at ended
      obtain ⟨rfl, tail⟩ := Prod.mk.inj ended
      have later := ih after.length (length ▸ productive.shrinks _ _ _ verdict) (Prod.ext rfl tail) rfl
      rw [run_item productive (stable _ _ _ second verdict), later]
      rfl

theorem run_append (productive : Productive decode) (stable : Stable decode) (first second : Bytes) :
    run decode (first ++ second) =
      match run decode first with
      | (values, .failed error) => (values, .failed error)
      | (values, .pending rest) =>
        (values ++ (run decode (rest ++ second)).1, (run decode (rest ++ second)).2) := by
  induction length : first.length using Nat.strong_induction_on generalizing first with
  | _ size ih =>
    cases verdict : decode first with
    | more => simp [run_more verdict]
    | fail error =>
      rw [run_fail productive verdict, run_fail productive (stable.fail _ _ second verdict)]
    | item value rest =>
      have later := ih rest.length (length ▸ productive.shrinks _ _ _ verdict) rest rfl
      rw [run_item productive verdict, run_item productive (stable.item _ _ _ second verdict), later]
      cases tail : (run decode rest).2 with
      | failed error =>
        have split : run decode rest = ((run decode rest).1, .failed error) := by rw [← tail]
        rw [split]
      | pending after =>
        have split : run decode rest = ((run decode rest).1, .pending after) := by rw [← tail]
        rw [split]
        rfl

theorem run_encoded (productive : Productive decode) (encode : α → Bytes) (values : List α)
    (inverse : ∀ value ∈ values, ∀ rest, decode (encode value ++ rest) = .item value rest) (rest : Bytes) :
    run decode (values.flatMap encode ++ rest) = (values ++ (run decode rest).1, (run decode rest).2) := by
  induction values with
  | nil => rfl
  | cons value values ih =>
    have head := inverse value (by simp) (values.flatMap encode ++ rest)
    rw [List.flatMap_cons, List.append_assoc, run_item productive head,
      ih (fun other member => inverse other (List.mem_cons_of_mem _ member))]
    rfl

theorem run_encoded_cut (productive : Productive decode) (encode : α → Bytes) (values : List α)
    (inverse : ∀ value ∈ values, ∀ rest, decode (encode value ++ rest) = .item value rest)
    (waits : ∀ value ∈ values, ∀ part missing, part ++ missing = encode value → missing ≠ [] → decode part = .more)
    (bytes missing : Bytes) (cut : bytes ++ missing = values.flatMap encode) :
    ∃ done left kept, values = done ++ left ∧ run decode bytes = (done, .pending kept) ∧
      bytes = done.flatMap encode ++ kept ∧ kept ++ missing = left.flatMap encode ∧
      ∀ next ∈ left.head?, kept.length < (encode next).length := by
  induction values generalizing bytes with
  | nil =>
    obtain ⟨rfl, rfl⟩ := List.append_eq_nil_iff.mp cut
    exact ⟨[], [], [], rfl, run_more productive.idle, rfl, rfl, by simp⟩
  | cons value values ih =>
    rw [List.flatMap_cons] at cut
    by_cases short : bytes.length < (encode value).length
    · have start : bytes = (encode value).take bytes.length := by
        have front := congrArg (List.take bytes.length) cut
        rwa [List.take_left, List.take_append_of_le_length (by omega)] at front
      have waiting : decode bytes = .more := by
        refine waits value (by simp) bytes ((encode value).drop bytes.length) ?_ ?_
        · nth_rewrite 1 [start]
          exact List.take_append_drop _ _
        · intro complete
          have size := congrArg List.length complete
          simp only [List.length_drop, List.length_nil] at size
          omega
      exact ⟨[], value :: values, bytes, rfl, run_more waiting, rfl, cut, by simpa using short⟩
    · obtain ⟨behind, rfl⟩ : encode value <+: bytes :=
        List.prefix_of_prefix_length_le ⟨_, cut.symm⟩ ⟨missing, rfl⟩ (by omega)
      rw [List.append_assoc, List.append_cancel_left_eq] at cut
      obtain ⟨done, left, kept, rfl, ran, split, rest, next⟩ :=
        ih (fun other member => inverse other (List.mem_cons_of_mem _ member))
          (fun other member => waits other (List.mem_cons_of_mem _ member)) behind cut
      refine ⟨value :: done, left, kept, rfl, ?_, ?_, rest, next⟩
      · rw [run_item productive (inverse value (by simp) behind), ran]
      · rw [split, List.flatMap_cons, List.append_assoc]

theorem run_congr {other : Decoder ε α} (productive : Productive decode) (otherProductive : Productive other) {bound : Nat}
    (agree : ∀ bytes, bytes.length < bound → decode bytes = other bytes) (bytes : Bytes) (short : bytes.length < bound) :
    run decode bytes = run other bytes := by
  induction length : bytes.length using Nat.strong_induction_on generalizing bytes with
  | _ size ih =>
    have same := agree bytes short
    cases verdict : decode bytes with
    | more => rw [run_more verdict, run_more (same ▸ verdict)]
    | fail error => rw [run_fail productive verdict, run_fail otherProductive (same ▸ verdict)]
    | item value rest =>
      have shorter := productive.shrinks _ _ _ verdict
      have later := ih rest.length (length ▸ shorter) rest (by omega) rfl
      rw [run_item productive verdict, run_item otherProductive (same ▸ verdict), later]

theorem run_map {β : Type} {finer : Decoder ε β} (forget : β → α) (productive : Productive finer)
    (coarser : ∀ bytes, decode bytes = (finer bytes).map forget) (bytes : Bytes) :
    run decode bytes = ((run finer bytes).1.map forget, (run finer bytes).2) := by
  have coarse : Productive decode := by
    constructor
    · rw [coarser, productive.idle, Step.map]
    · intro bytes value rest found
      rw [coarser] at found
      cases verdict : finer bytes with
      | more => simp [verdict, Step.map] at found
      | fail error => simp [verdict, Step.map] at found
      | item more after =>
        simp only [verdict, Step.map, Step.item.injEq] at found
        obtain ⟨-, rfl⟩ := found
        exact productive.splits _ _ _ verdict
  induction length : bytes.length using Nat.strong_induction_on generalizing bytes with
  | _ size ih =>
    have same := coarser bytes
    cases verdict : finer bytes with
    | more =>
      rw [verdict, Step.map] at same
      rw [run_more verdict, run_more same, List.map_nil]
    | fail error =>
      rw [verdict, Step.map] at same
      rw [run_fail productive verdict, run_fail coarse same, List.map_nil]
    | item value rest =>
      rw [verdict, Step.map] at same
      have later := ih rest.length (length ▸ productive.shrinks _ _ _ verdict) rest rfl
      rw [run_item productive verdict, run_item coarse same, later, List.map_cons]

theorem run_cost (productive : Productive decode) (cost : α → Nat)
    (paid : ∀ bytes value rest, decode bytes = .item value rest → cost value + rest.length ≤ bytes.length) (bytes : Bytes) :
    ((run decode bytes).1.map cost).sum ≤ bytes.length := by
  induction length : bytes.length using Nat.strong_induction_on generalizing bytes with
  | _ size ih =>
    cases verdict : decode bytes with
    | more => simp [run_more verdict]
    | fail error => simp [run_fail productive verdict]
    | item value rest =>
      have later := ih rest.length (length ▸ productive.shrinks _ _ _ verdict) rest rfl
      have head := paid _ _ _ verdict
      simp only [run_item productive verdict, List.map_cons, List.sum_cons]
      omega

theorem run_forall (productive : Productive decode) {holds : α → Prop}
    (each : ∀ bytes value rest, decode bytes = .item value rest → holds value) (bytes : Bytes) :
    ∀ value ∈ (run decode bytes).1, holds value := by
  induction length : bytes.length using Nat.strong_induction_on generalizing bytes with
  | _ size ih =>
    cases verdict : decode bytes with
    | more => simp [run_more verdict]
    | fail error => simp [run_fail productive verdict]
    | item value rest =>
      have later := ih rest.length (length ▸ productive.shrinks _ _ _ verdict) rest rfl
      rw [run_item productive verdict]
      intro other member
      rcases List.mem_cons.mp member with rfl | behind
      · exact each _ _ _ verdict
      · exact later other behind

end Runs
end TaskExplorer.Codec
