import Mathlib

/-!
# A block of memory

Cells that are read, written and moved by offset and count. An access outside
the block has no result; none is made for a count of zero.
-/

namespace TaskExplorer.Memory

variable {α : Type}

/-- The cells with the data at an offset. -/
def overwrite (cells : List α) (offset : Nat) (data : List α) : List α :=
  cells.take offset ++ data ++ cells.drop (offset + data.length)

def load (cells : List α) (offset count : Nat) : Option (List α) :=
  if count = 0 ∨ offset + count ≤ cells.length then some ((cells.drop offset).take count) else none

def store (cells : List α) (offset : Nat) (data : List α) : Option (List α) :=
  if data = [] ∨ offset + data.length ≤ cells.length then some (overwrite cells offset data) else none

/-- The cells at `source` are read before any is written at `target`. -/
def move (cells : List α) (target source count : Nat) : Option (List α) :=
  (load cells source count).bind (store cells target)

/-! ## Accesses inside the block -/

variable {cells : List α} {offset : Nat}

theorem load_inside {count : Nat} (inside : offset + count ≤ cells.length) :
    load cells offset count = some ((cells.drop offset).take count) := if_pos (.inr inside)

theorem store_inside {data : List α} (inside : offset + data.length ≤ cells.length) :
    store cells offset data = some (overwrite cells offset data) := if_pos (.inr inside)

theorem move_inside {target source count : Nat} (readable : source + count ≤ cells.length)
    (writable : target + count ≤ cells.length) :
    move cells target source count = some (overwrite cells target ((cells.drop source).take count)) := by
  have length : ((cells.drop source).take count).length = count := by
    rw [List.length_take, List.length_drop]
    omega
  rw [move, load_inside readable, Option.bind_some, store_inside (by rw [length]; exact writable)]

@[simp] theorem overwrite_nil (cells : List α) (offset : Nat) : overwrite cells offset [] = cells := by
  simp [overwrite]

@[simp] theorem move_zero (cells : List α) (target source : Nat) : move cells target source 0 = some cells := by
  simp [move, load, store]

theorem move_outside {target source count : Nat} (some_ : count ≠ 0) (outside : cells.length < source + count) :
    move cells target source count = none := by
  have beyond : ¬ (count = 0 ∨ source + count ≤ cells.length) := by omega
  rw [move, load, if_neg beyond, Option.bind_none]

@[simp] theorem length_overwrite {data : List α} (inside : offset + data.length ≤ cells.length) :
    (overwrite cells offset data).length = cells.length := by
  simp only [overwrite, List.length_append, List.length_take, List.length_drop]
  omega

theorem overwrite_same {count : Nat} (inside : offset + count ≤ cells.length) :
    overwrite cells offset ((cells.drop offset).take count) = cells := by
  apply List.ext_getElem?
  intro i
  simp only [overwrite, List.getElem?_take, List.getElem?_append, List.getElem?_drop, List.length_take, List.length_append,
    List.length_drop]
  grind

/-! ## The front of the block -/

theorem take_overwrite {data : List α} {front : Nat} (before : offset ≤ front) (bounded : front ≤ cells.length) :
    (overwrite cells offset data).take (max front (offset + data.length)) = overwrite (cells.take front) offset data := by
  apply List.ext_getElem?
  intro i
  simp only [overwrite, List.getElem?_take, List.getElem?_append, List.getElem?_drop, List.length_take, List.length_append]
  grind

theorem take_insert {data : List α} {front : Nat} (before : offset ≤ front)
    (inside : front + data.length ≤ cells.length) :
    (overwrite (overwrite cells (offset + data.length) ((cells.drop offset).take (front - offset))) offset data).take
      (front + data.length) = (cells.take front).take offset ++ data ++ (cells.take front).drop offset := by
  apply List.ext_getElem?
  intro i
  simp only [overwrite, List.getElem?_take, List.getElem?_append, List.getElem?_drop, List.length_take, List.length_append,
    List.length_drop]
  grind

theorem take_remove {front count : Nat} (before : offset + count ≤ front) (inside : offset + front ≤ cells.length) :
    (overwrite cells offset ((cells.drop (offset + count)).take (front - count))).take (front - count) =
      (cells.take front).take offset ++ (cells.take front).drop (offset + count) := by
  apply List.ext_getElem?
  intro i
  simp only [overwrite, List.getElem?_take, List.getElem?_append, List.getElem?_drop, List.length_take, List.length_append,
    List.length_drop]
  grind

theorem take_shift {front : Nat} (before : offset ≤ front) (inside : front ≤ cells.length) :
    (overwrite cells 0 ((cells.drop offset).take (front - offset))).take (front - offset) = (cells.take front).drop offset := by
  apply List.ext_getElem?
  intro i
  simp only [overwrite, List.getElem?_take, List.getElem?_append, List.getElem?_drop, List.length_take, List.length_append,
    List.length_drop]
  grind

end TaskExplorer.Memory
