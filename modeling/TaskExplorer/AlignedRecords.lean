import TaskExplorer.Records

/-!
# Records one behind the other

A buffer of records, each a header that says how long header and body are, padded to a
multiple of four bytes. A reader walks from record to record and stops at what is no whole
record.
-/

namespace TaskExplorer.AlignedRecords
open Codec

/-- How long a header is, and where it says the length of the record. -/
structure Framing where
  head : Nat
  size : Bytes → Nat

def align (length : Nat) : Nat := (length + 3) / 4 * 4

/-- At most so many records at the front of the bytes, each as its header and its body. -/
def walk (framing : Framing) : Nat → Bytes → List (Bytes × Bytes)
  | 0, _ => []
  | count + 1, bytes =>
    let size := framing.size bytes
    if framing.head ≤ bytes.length ∧ framing.head ≤ size ∧ size ≤ bytes.length then
      (bytes.take framing.head, (bytes.take size).drop framing.head) :: walk framing count (bytes.drop (align size))
    else []

/-- All records. -/
def records (framing : Framing) (bytes : Bytes) : List (Bytes × Bytes) := walk framing bytes.length bytes

/-- A record with its padding. -/
def padded (record : Bytes × Bytes) : Bytes :=
  let whole := record.1 ++ record.2
  whole ++ List.replicate (align whole.length - whole.length) 0

/-- The header says how long the record is, whatever stands behind it. -/
def Framed (framing : Framing) (record : Bytes × Bytes) : Prop :=
  record.1.length = framing.head ∧ ∀ rest, framing.size (record.1 ++ rest) = framing.head + record.2.length

variable {framing : Framing}

theorem le_align (length : Nat) : length ≤ align length := by
  rw [align]
  omega

@[simp] theorem padded_length (record : Bytes × Bytes) : (padded record).length = align (record.1.length + record.2.length) := by
  have bound := le_align (record.1.length + record.2.length)
  simp only [padded, List.length_append, List.length_replicate]
  omega

theorem walk_padded {record : Bytes × Bytes} (framed : Framed framing record) (count : Nat) (rest : Bytes) :
    walk framing (count + 1) (padded record ++ rest) = record :: walk framing count rest := by
  obtain ⟨header, body⟩ := record
  obtain ⟨head, size⟩ := framed
  have length : (padded (header, body)).length = align (framing.head + body.length) := by rw [padded_length, ← head]
  have bound := le_align (framing.head + body.length)
  have said : framing.size (padded (header, body) ++ rest) = framing.head + body.length := by
    rw [padded, List.append_assoc, List.append_assoc]
    exact size _
  have enough : framing.head ≤ (padded (header, body) ++ rest).length ∧ framing.head ≤ framing.head + body.length ∧
      framing.head + body.length ≤ (padded (header, body) ++ rest).length := by
    rw [List.length_append, length]
    omega
  have whole : (padded (header, body) ++ rest).take (framing.head + body.length) = header ++ body := by
    rw [padded, List.append_assoc]
    exact List.take_left' (by simp [head])
  have front : (padded (header, body) ++ rest).take framing.head = header := by
    rw [padded, List.append_assoc, List.append_assoc]
    exact List.take_left' head
  rw [walk, said, if_pos enough, front, whole, List.drop_left' head, List.drop_left' length]

theorem walk_flatMap (items : List (Bytes × Bytes)) (framed : ∀ record ∈ items, Framed framing record) {count : Nat} (enough : items.length ≤ count)
    (large : 0 < framing.head) : walk framing count (items.flatMap padded) = items := by
  induction items generalizing count with
  | nil =>
    cases count with
    | zero => rfl
    | succ count =>
      rw [List.flatMap_nil, walk, if_neg]
      rintro ⟨short, -⟩
      simp at short
      omega
  | cons record rest ih =>
    cases count with
    | zero => simp at enough
    | succ count =>
      rw [List.flatMap_cons, walk_padded (framed record (by simp)), ih (fun other member => framed other (by simp [member])) (by simpa using enough)]

theorem records_flatMap (items : List (Bytes × Bytes)) (framed : ∀ record ∈ items, Framed framing record) (large : 0 < framing.head) :
    records framing (items.flatMap padded) = items := by
  have counted : items.length ≤ (items.flatMap padded).length := by
    induction items with
    | nil => simp
    | cons record rest ih =>
      have front : record.1.length = framing.head := (framed record (by simp)).1
      have bound := le_align (record.1.length + record.2.length)
      have later := ih fun other member => framed other (by simp [member])
      rw [List.flatMap_cons, List.length_append, padded_length, List.length_cons]
      omega
  exact walk_flatMap items framed counted large

end TaskExplorer.AlignedRecords
