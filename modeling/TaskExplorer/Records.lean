import TaskExplorer.Codec

/-!
# Records in a byte string

Numbers of a fixed width in either byte order, records of such numbers, and what a
reader finds who looks at an offset.
-/

namespace TaskExplorer.Records
open Codec

/-! ## Numbers -/

/-- The lowest bytes of a number, most significant first if `big`. -/
def number (big : Bool) (width value : Nat) : Bytes := bif big then (leBytes width value).reverse else leBytes width value

def value_of (big : Bool) (bytes : Bytes) : Nat := leNat (bif big then bytes.reverse else bytes)

@[simp] theorem number_length (big : Bool) (width value : Nat) : (number big width value).length = width := by
  cases big <;> simp [number]

theorem value_of_number (big : Bool) (width value : Nat) : value_of big (number big width value) = value % 256 ^ width := by
  cases big <;> simp [value_of, number, leNat_leBytes]

/-! ## What stands at an offset -/

def slice (file : Bytes) (offset count : Nat) : Bytes := (file.drop offset).take count

/-- The bytes stand at the offset. -/
def Sits (file : Bytes) (offset : Nat) (bytes : Bytes) : Prop := slice file offset bytes.length = bytes

theorem sits_append (front bytes back : Bytes) : Sits (front ++ (bytes ++ back)) front.length bytes := by
  rw [Sits, slice, List.drop_left, List.take_left]

theorem Sits.inside {file outer bytes : Bytes} {offset inner : Nat} (sits : Sits file offset outer) (within : Sits outer inner bytes) :
    Sits file (offset + inner) bytes := by
  have size : bytes.length ≤ outer.length - inner := by
    have length := congrArg List.length within
    rw [slice, List.length_take, List.length_drop] at length
    omega
  rw [Sits]
  calc slice file (offset + inner) bytes.length
      = slice (slice file offset outer.length) inner bytes.length := by
        rw [slice, slice, slice, List.drop_take, List.take_take, List.drop_drop, Nat.min_eq_left size]
    _ = slice outer inner bytes.length := by rw [sits]
    _ = bytes := within

theorem sits_self (file : Bytes) : Sits file 0 file := by rw [Sits, slice, List.drop_zero, List.take_length]

theorem Sits.left {file front back : Bytes} {offset : Nat} (sits : Sits file offset (front ++ back)) : Sits file offset front :=
  sits.inside (sits_append [] front back)

theorem Sits.right {file front back : Bytes} {offset : Nat} (sits : Sits file offset (front ++ back)) : Sits file (offset + front.length) back := by
  have last := sits_append front back []
  rw [List.append_nil] at last
  exact sits.inside last

theorem sits_flatMap {α : Type} (bytes : α → Bytes) {pieces : List α} {index : Nat} {piece : α} (found : pieces[index]? = some piece) :
    Sits (pieces.flatMap bytes) ((pieces.take index).flatMap bytes).length (bytes piece) := by
  obtain ⟨inside, here⟩ := List.getElem?_eq_some_iff.mp found
  have parts : pieces = pieces.take index ++ piece :: pieces.drop (index + 1) := by
    rw [← here, List.getElem_cons_drop, List.take_append_drop]
  have whole : pieces.flatMap bytes = (pieces.take index).flatMap bytes ++ (bytes piece ++ (pieces.drop (index + 1)).flatMap bytes) := by
    conv_lhs => rw [parts]
    rw [List.flatMap_append, List.flatMap_cons]
  rw [whole]
  exact sits_append _ _ _

/-! ## Records -/

/-- A record as the widths and values of its fields. -/
abbrev Fields := List (Nat × Nat)

def encode (big : Bool) (fields : Fields) : Bytes := fields.flatMap (fun field => number big field.1 field.2)

/-- How long a record is. -/
def span (fields : Fields) : Nat := (fields.map Prod.fst).sum

@[simp] theorem encode_length (big : Bool) (fields : Fields) : (encode big fields).length = span fields := by
  induction fields with
  | nil => rfl
  | cons first rest ih =>
    rw [encode, List.flatMap_cons, List.length_append, number_length]
    exact congrArg (first.1 + ·) ih

/-- The number a reader finds. -/
def field (big : Bool) (file : Bytes) (offset width : Nat) : Nat := value_of big (slice file offset width)

theorem Sits.field {big : Bool} {file : Bytes} {offset : Nat} {fields : Fields} (sits : Sits file offset (encode big fields)) {index width value : Nat}
    (found : fields[index]? = some (width, value)) : field big file (offset + span (fields.take index)) width = value % 256 ^ width := by
  have here := sits_flatMap (fun field => number big field.1 field.2) found
  have length : ((fields.take index).flatMap (fun field => number big field.1 field.2)).length = span (fields.take index) := encode_length big _
  rw [length] at here
  have inner := sits.inside here
  rw [Sits, number_length] at inner
  rw [Records.field, inner, value_of_number]

theorem field_single (big : Bool) (file : Bytes) (offset : Nat) : field big file offset 1 = field false file offset 1 := by
  have short : (slice file offset 1).length ≤ 1 := by
    rw [slice, List.length_take]
    exact Nat.min_le_left _ _
  rw [field, field, value_of, value_of]
  cases big with
  | false => rfl
  | true =>
    match slice file offset 1, short with
    | [], _ => rfl
    | [byte], _ => rfl

end TaskExplorer.Records
