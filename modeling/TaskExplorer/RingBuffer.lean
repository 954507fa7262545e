import Mathlib

/-!
# A ring buffer and the queue it stands for

`SRingBuffer` keeps its elements in a vector, from `Head` on and around the end. It behaves as
a queue for as long as the loop of `expand` can count its elements.
-/

namespace TaskExplorer.RingBuffer

/-- A vector with its length, where the first and the last element stand, and how many there are. -/
structure SRingBuffer (T : Type) where
  Buffer : List T := []
  Head : Nat := 0
  Tail : Nat := 0
  Size : Nat := 0
  Grow : Nat := 10
  Length : Nat := 0

namespace SRingBuffer
variable {T : Type} [Inhabited T] (buffer : SRingBuffer T)

def free_size : Nat := buffer.Length - buffer.Size

def is_empty : Bool := buffer.Size == 0

def is_full : Bool := buffer.free_size == 0

def clear : SRingBuffer T := { buffer with Head := 0, Tail := 0, Size := 0 }

def elem (pos : Nat) : T := buffer.Buffer.getD ((buffer.Head + pos) % buffer.Length) default

def front : T := buffer.Buffer.getD buffer.Head default

def back : T := buffer.Buffer.getD buffer.Tail default

def pop_front : SRingBuffer T :=
  if buffer.is_empty then buffer
  else
    let Head := (buffer.Head + 1) % buffer.Length
    { buffer with Head, Size := buffer.Size - 1, Tail := if buffer.Size - 1 = 0 then Head else buffer.Tail }

/-- The largest `int`, in which `expand` counts. -/
def INT_MAX : Nat := 2 ^ 31 - 1

/-- The elements in front of a longer vector; no value where the index would run over. -/
def expand : Option (SRingBuffer T) :=
  if INT_MAX < buffer.Size then none
  else
    let NewBuffer := (List.range buffer.Size).foldl (fun NewBuffer i => NewBuffer.set i (buffer.elem i))
      (List.replicate (buffer.Length + buffer.Grow) default)
    some {
      buffer with
      Buffer := NewBuffer
      Length := NewBuffer.length
      Head := if buffer.Size ≠ 0 then 0 else buffer.Head
      Tail := if buffer.Size ≠ 0 then buffer.Size - 1 else buffer.Tail }

def append (value : T) : SRingBuffer T :=
  let Tail := if 0 < buffer.Size then (buffer.Tail + 1) % buffer.Length else buffer.Tail
  { buffer with Tail, Buffer := buffer.Buffer.set Tail value, Size := buffer.Size + 1 }

def push_back (value : T) : Option (SRingBuffer T) :=
  (if buffer.is_full then buffer.expand else some buffer).map fun buffer => buffer.append value

end SRingBuffer

/-! ## The queue -/

inductive Op (T : Type) where
  | push_back (value : T)
  | pop_front
  | clear

/-- What an operation does to a queue. -/
def Op.queue {T : Type} : Op T → List T → List T
  | .push_back value, queue => queue ++ [value]
  | .pop_front, queue => queue.tail
  | .clear, _ => []

variable {T : Type} [Inhabited T]

/-- What it does to a ring buffer. -/
def Op.buffer : Op T → SRingBuffer T → Option (SRingBuffer T)
  | .push_back value, buffer => buffer.push_back value
  | .pop_front, buffer => some buffer.pop_front
  | .clear, buffer => some buffer.clear

def run (buffer : SRingBuffer T) (ops : List (Op T)) : Option (SRingBuffer T) := ops.foldlM (fun buffer op => op.buffer buffer) buffer

def queue_of (queue : List T) (ops : List (Op T)) : List T := ops.foldl (fun queue op => op.queue queue) queue

/-- The buffer holds the queue from `Head` on; `Tail` is at the last element, and where there is none at `Head`. -/
structure Holds (buffer : SRingBuffer T) (queue : List T) : Prop where
  size : buffer.Size = queue.length
  fits : buffer.Size ≤ buffer.Length
  length : buffer.Buffer.length = buffer.Length
  head : buffer.Head < buffer.Length ∨ buffer.Head = 0
  tail : buffer.Tail = if buffer.Size = 0 then buffer.Head else (buffer.Head + (buffer.Size - 1)) % buffer.Length
  elems : ∀ i < buffer.Size, buffer.Buffer[(buffer.Head + i) % buffer.Length]? = queue[i]?

/-! ## Places -/

theorem place_injective {head length i j : Nat} (small : i < length) (small' : j < length) (same : (head + i) % length = (head + j) % length) : i = j := by
  have mod := Nat.ModEq.add_left_cancel' head same
  rwa [Nat.ModEq, Nat.mod_eq_of_lt small, Nat.mod_eq_of_lt small'] at mod

omit [Inhabited T] in
theorem foldl_set_length (value : Nat → T) (count : Nat) (buffer : List T) :
    ((List.range count).foldl (fun buffer i => buffer.set i (value i)) buffer).length = buffer.length := by
  induction count with
  | zero => rfl
  | succ count ih => rw [List.range_succ, List.foldl_append, List.foldl_cons, List.foldl_nil, List.length_set, ih]

omit [Inhabited T] in
theorem foldl_set (value : Nat → T) (count : Nat) (buffer : List T) {i : Nat} (small : i < count) (inside : i < buffer.length) :
    ((List.range count).foldl (fun buffer i => buffer.set i (value i)) buffer)[i]? = some (value i) := by
  induction count with
  | zero => omega
  | succ count ih =>
    rw [List.range_succ, List.foldl_append, List.foldl_cons, List.foldl_nil, List.getElem?_set, foldl_set_length]
    by_cases last : count = i
    · rw [if_pos last, if_pos (by omega), last]
    · rw [if_neg last, ih (by omega)]

namespace Holds
variable {buffer : SRingBuffer T} {queue : List T}

omit [Inhabited T] in
theorem nil (Grow : Nat) : Holds ({ Grow } : SRingBuffer T) [] where
  size := rfl
  fits := le_refl _
  length := rfl
  head := .inr rfl
  tail := rfl
  elems i small := absurd small (Nat.not_lt_zero i)

/-! ## What is read -/

omit [Inhabited T] in
theorem is_empty_iff (holds : Holds buffer queue) : buffer.is_empty = true ↔ queue = [] := by
  rw [SRingBuffer.is_empty, beq_iff_eq, holds.size, List.length_eq_zero_iff]

theorem elem (holds : Holds buffer queue) {i : Nat} (small : i < buffer.Size) : queue[i]? = some (buffer.elem i) := by
  have inside : i < queue.length := holds.size ▸ small
  rw [SRingBuffer.elem, List.getD_eq_getElem?_getD, holds.elems i small, List.getElem?_eq_getElem inside, Option.getD_some]

theorem front (holds : Holds buffer queue) (some_ : queue ≠ []) : queue.head? = some buffer.front := by
  have positive : 0 < buffer.Size := by rw [holds.size]; exact List.length_pos_iff.mpr some_
  have head : buffer.Head < buffer.Length := by have := holds.fits; rcases holds.head with inside | zero <;> omega
  have first := holds.elem positive
  rw [SRingBuffer.elem, Nat.add_zero, Nat.mod_eq_of_lt head] at first
  rw [List.head?_eq_getElem?, first]
  rfl

theorem back (holds : Holds buffer queue) (some_ : queue ≠ []) : queue.getLast? = some buffer.back := by
  have positive : 0 < buffer.Size := by rw [holds.size]; exact List.length_pos_iff.mpr some_
  have last := holds.elem (i := buffer.Size - 1) (by omega)
  have tail := holds.tail
  rw [if_neg (by omega)] at tail
  rw [List.getLast?_eq_getElem?, ← holds.size, last, SRingBuffer.elem, SRingBuffer.back, tail]

/-! ## What the operations do -/

omit [Inhabited T] in
theorem clear (holds : Holds buffer queue) : Holds buffer.clear [] where
  size := rfl
  fits := Nat.zero_le _
  length := holds.length
  head := .inr rfl
  tail := rfl
  elems i small := absurd small (Nat.not_lt_zero i)

omit [Inhabited T] in
theorem pop_front (holds : Holds buffer queue) : Holds buffer.pop_front queue.tail := by
  cases queue with
  | nil => rwa [SRingBuffer.pop_front, if_pos (holds.is_empty_iff.mpr rfl)]
  | cons value rest =>
    have size : buffer.Size = rest.length + 1 := holds.size
    have fits := holds.fits
    have nonempty : ¬ buffer.is_empty = true := by rw [holds.is_empty_iff]; simp
    have moved (i : Nat) : ((buffer.Head + 1) % buffer.Length + i) % buffer.Length = (buffer.Head + (i + 1)) % buffer.Length := by
      rw [Nat.mod_add_mod, Nat.add_assoc, Nat.add_comm 1 i]
    rw [SRingBuffer.pop_front, if_neg nonempty]
    refine ⟨by simp [size], by simp only []; omega, holds.length, .inl (Nat.mod_lt _ (by omega)), ?_, fun i small => ?_⟩
    · simp only []
      split_ifs with last
      · rfl
      · rw [holds.tail, if_neg (by omega), moved]
        congr 2
        omega
    · simp only [] at small ⊢
      rw [moved, holds.elems (i + 1) (by omega)]
      rfl

theorem expand (holds : Holds buffer queue) (full : buffer.Size = buffer.Length) (few : queue.length ≤ SRingBuffer.INT_MAX) :
    ∃ larger, buffer.expand = some larger ∧ Holds larger queue ∧ larger.Grow = buffer.Grow ∧ larger.Length = buffer.Length + buffer.Grow := by
  have small : ¬ SRingBuffer.INT_MAX < buffer.Size := by rw [holds.size]; omega
  rw [SRingBuffer.expand, if_neg small]
  refine ⟨_, rfl, ⟨holds.size, ?_, rfl, ?_, ?_, fun i inside => ?_⟩, rfl, ?_⟩
  · simp only [foldl_set_length, List.length_replicate]
    omega
  · right
    simp only []
    split_ifs with nonempty
    · rfl
    · have := holds.head
      omega
  · simp only [foldl_set_length, List.length_replicate]
    by_cases empty : buffer.Size = 0
    · rw [if_neg (by omega), if_pos empty, if_neg (by omega), holds.tail, if_pos empty]
    · rw [if_pos empty, if_neg empty, if_pos empty, Nat.zero_add, Nat.mod_eq_of_lt (by omega)]
  · have nonempty : buffer.Size ≠ 0 := by
      simp only [] at inside
      omega
    have within : i < buffer.Size := inside
    simp only [foldl_set_length, List.length_replicate]
    rw [if_pos nonempty, Nat.zero_add, Nat.mod_eq_of_lt (by omega), foldl_set _ _ _ within (by rw [List.length_replicate]; omega), holds.elem within]
  · simp only [foldl_set_length, List.length_replicate]

omit [Inhabited T] in
theorem append (holds : Holds buffer queue) (room : buffer.Size < buffer.Length) (value : T) : Holds (buffer.append value) (queue ++ [value]) := by
  have head : buffer.Head < buffer.Length := by rcases holds.head with inside | zero <;> omega
  -- the new element stands behind as many as there are
  have place : (if 0 < buffer.Size then (buffer.Tail + 1) % buffer.Length else buffer.Tail) = (buffer.Head + buffer.Size) % buffer.Length := by
    have tail := holds.tail
    split_ifs with positive
    · rw [if_neg (by omega)] at tail
      rw [tail, Nat.mod_add_mod]
      congr 1
      omega
    · rw [if_pos (by omega)] at tail
      rw [tail, show buffer.Size = 0 by omega, Nat.add_zero, Nat.mod_eq_of_lt head]
  rw [SRingBuffer.append, place]
  refine ⟨by simp [holds.size], Nat.succ_le_of_lt room, by simp [holds.length], .inl head, ?_, fun i small => ?_⟩
  · simp
  · simp only [] at small ⊢
    rw [List.getElem?_set, holds.length]
    by_cases last : i = buffer.Size
    · subst last
      rw [if_pos rfl, if_pos (Nat.mod_lt _ (by omega)), holds.size, List.getElem?_concat_length]
    · have other : (buffer.Head + buffer.Size) % buffer.Length ≠ (buffer.Head + i) % buffer.Length :=
        fun same => last (place_injective (by omega) room same.symm)
      rw [if_neg other, holds.elems i (by omega), List.getElem?_append_left (by rw [← holds.size]; omega)]

theorem push_back (holds : Holds buffer queue) (grow : 0 < buffer.Grow) (few : queue.length ≤ SRingBuffer.INT_MAX) (value : T) :
    ∃ after, buffer.push_back value = some after ∧ Holds after (queue ++ [value]) ∧ after.Grow = buffer.Grow := by
  have fits := holds.fits
  rw [SRingBuffer.push_back, SRingBuffer.is_full, SRingBuffer.free_size]
  by_cases full : buffer.Size = buffer.Length
  · obtain ⟨larger, grown, held, same, length⟩ := holds.expand full few
    have room : larger.Size < larger.Length := by
      rw [length, ← full, holds.size, ← held.size]
      omega
    rw [if_pos (by rw [full]; simp), grown]
    exact ⟨_, rfl, held.append room value, same⟩
  · rw [if_neg (by simp only [beq_iff_eq]; omega)]
    exact ⟨_, rfl, holds.append (by omega) value, rfl⟩

end Holds

/-! ## Runs -/

/-- No more elements than an `int` counts are there when one is pushed. -/
def Countable (queue : List T) (ops : List (Op T)) : Prop :=
  ∀ before value, before ++ [.push_back value] <+: ops → (queue_of queue before).length ≤ SRingBuffer.INT_MAX

theorem step_holds {buffer : SRingBuffer T} {queue : List T} (holds : Holds buffer queue) (grow : 0 < buffer.Grow) (op : Op T)
    (few : ∀ value, op = .push_back value → queue.length ≤ SRingBuffer.INT_MAX) :
    ∃ after, op.buffer buffer = some after ∧ Holds after (op.queue queue) ∧ after.Grow = buffer.Grow := by
  cases op with
  | push_back value => exact holds.push_back grow (few value rfl) value
  | pop_front =>
    refine ⟨_, rfl, holds.pop_front, ?_⟩
    rw [SRingBuffer.pop_front]
    split_ifs <;> rfl
  | clear => exact ⟨_, rfl, holds.clear, rfl⟩

theorem run_holds {buffer : SRingBuffer T} {queue : List T} (holds : Holds buffer queue) (grow : 0 < buffer.Grow) (ops : List (Op T))
    (few : Countable queue ops) : ∃ after, run buffer ops = some after ∧ Holds after (queue_of queue ops) := by
  induction ops generalizing buffer queue with
  | nil => exact ⟨buffer, rfl, holds⟩
  | cons op rest ih =>
    obtain ⟨next, step, held, same⟩ := step_holds holds grow op fun value pushes => few [] value (by rw [pushes]; exact ⟨rest, rfl⟩)
    have later : Countable (op.queue queue) rest := fun before value starts => few (op :: before) value (List.cons_prefix_cons.mpr ⟨rfl, starts⟩)
    obtain ⟨after, done, kept⟩ := ih held (same ▸ grow) later
    exact ⟨after, by rw [run, List.foldlM_cons, step]; exact done, kept⟩

/-- What can be read of the buffer is what is in the queue. -/
structure Agrees (buffer : SRingBuffer T) (queue : List T) : Prop where
  size : buffer.Size = queue.length
  elem : ∀ i < buffer.Size, queue[i]? = some (buffer.elem i)
  front : queue ≠ [] → queue.head? = some buffer.front
  back : queue ≠ [] → queue.getLast? = some buffer.back

theorem Holds.agrees {buffer : SRingBuffer T} {queue : List T} (holds : Holds buffer queue) : Agrees buffer queue where
  size := holds.size
  elem _ small := holds.elem small
  front := holds.front
  back := holds.back

theorem run_agrees {Grow : Nat} (grow : 0 < Grow) {ops : List (Op T)} (few : Countable [] ops) :
    ∃ buffer, run ({ Grow } : SRingBuffer T) ops = some buffer ∧ Agrees buffer (queue_of [] ops) := by
  obtain ⟨buffer, reached, holds⟩ := run_holds (Holds.nil Grow) grow ops few
  exact ⟨buffer, reached, holds.agrees⟩

end TaskExplorer.RingBuffer
