import TaskExplorer.CoreDump

/-!
# ELF notes

A note is a header of three words, a name and a descriptor. The two lengths are rounded up in
32 bits, taken as `int`s and added before they are compared with the size of the segment.
-/

namespace TaskExplorer.ElfNotes
open Codec Records CoreDump

/-! ## The parser -/

/-- What an `int` keeps of a number. -/
def to_int (n : Int) : Int := n.bmod (2 ^ 32)

/-- A segment as it was read, with the NUL that every `QByteArray` ends with, and whatever memory is around it. -/
structure Heap where
  big : Bool
  Segment : Bytes
  outside : Int → UInt8

def Heap.byte (heap : Heap) (i : Int) : UInt8 :=
  if 0 ≤ i ∧ i < heap.Segment.length then heap.Segment.getD i.toNat 0
  else if i = heap.Segment.length then 0 else heap.outside i

def Heap.bytes (heap : Heap) (start : Int) (count : Nat) : Bytes := (List.range count).map fun k : Nat => heap.byte (start + k)

/-- A word of the header. -/
def Heap.word (heap : Heap) (Pos : Int) : UInt32 := (value_of heap.big (heap.bytes Pos 4)).toUInt32

structure Nhdr where
  n_namesz : UInt32
  n_descsz : UInt32
  n_type : UInt32

def header (heap : Heap) (Pos : Int) : Nhdr := ⟨heap.word Pos, heap.word (Pos + 4), heap.word (Pos + 8)⟩

/-- `(n + 3) & ~3u`. -/
def align4 (n : UInt32) : UInt32 := (n + 3) &&& ~~~3

def NameSize (Nhdr : Nhdr) : Int := to_int (align4 Nhdr.n_namesz).toNat
def DescSize (Nhdr : Nhdr) : Int := to_int (align4 Nhdr.n_descsz).toNat

/-- There is room for a header. -/
def Room (heap : Heap) (Pos : Int) : Prop := to_int (Pos + 12) ≤ heap.Segment.length

/-- The bounds check, with `Pos` behind the header. -/
def Fits (heap : Heap) (Nhdr : Nhdr) (Pos : Int) : Prop :=
  ¬ (NameSize Nhdr < 0 ∨ DescSize Nhdr < 0 ∨ to_int (to_int (Pos + NameSize Nhdr) + DescSize Nhdr) > heap.Segment.length)

instance (heap : Heap) (Pos : Int) : Decidable (Room heap Pos) := inferInstanceAs (Decidable (_ ≤ _))
instance (heap : Heap) (Nhdr : Nhdr) (Pos : Int) : Decidable (Fits heap Nhdr Pos) := inferInstanceAs (Decidable (¬ _))

/-- How long the name is: the `QByteArray` is given this length. -/
def name_length (Nhdr : Nhdr) : Nat :=
  min (if Nhdr.n_namesz ≠ 0 then Nhdr.n_namesz.toNat - 1 else 0) (NameSize Nhdr).toNat

/-- How long a text is up to the end of the segment at most. -/
def text_length (heap : Heap) (start : Int) : Nat := ((heap.Segment.drop start.toNat).takeWhile (· ≠ 0)).length

/-- How long the descriptor is: for a negative length the `QByteArray` takes the text up to its NUL. -/
def desc_length (heap : Heap) (Nhdr : Nhdr) (start : Int) : Nat :=
  if to_int Nhdr.n_descsz.toNat < 0 then text_length heap start else Nhdr.n_descsz.toNat

/-- The ranges that one round of the loop reads, with the NUL of a text. -/
def reads (heap : Heap) (Pos : Int) : List (Int × Nat) :=
  if Room heap Pos then
    let Nhdr := header heap Pos
    let Data := to_int (Pos + 12)
    (Pos, 12) ::
      if Fits heap Nhdr Data then
        [(Data, name_length Nhdr),
          (Data + NameSize Nhdr, desc_length heap Nhdr (Data + NameSize Nhdr) + if to_int Nhdr.n_descsz.toNat < 0 then 1 else 0)]
      else []
  else []

/-- The position after one round, if the loop goes on. -/
def next (heap : Heap) (Pos : Int) : Option Int :=
  if Room heap Pos then
    let Nhdr := header heap Pos
    let Data := to_int (Pos + 12)
    if Fits heap Nhdr Data then to_int (Data + to_int (NameSize Nhdr + DescSize Nhdr)) else none
  else none

/-- A note: what `ParseNotes` looks at. -/
structure Note where
  Name : Bytes
  n_type : UInt32
  Desc : Bytes
deriving DecidableEq

def note_at (heap : Heap) (Pos : Int) : Note :=
  let Nhdr := header heap Pos
  let Data := to_int (Pos + 12)
  ⟨heap.bytes Data (name_length Nhdr), Nhdr.n_type,
    heap.bytes (Data + NameSize Nhdr) (desc_length heap Nhdr (Data + NameSize Nhdr))⟩

/-- The loop from a position on comes to its end and visits these notes. -/
inductive Visits (heap : Heap) : Int → List Note → Prop
  | done {Pos} (stop : next heap Pos = none) : Visits heap Pos []
  | note {Pos later rest} (step : next heap Pos = some later) (visits : Visits heap later rest) : Visits heap Pos (note_at heap Pos :: rest)

/-- The positions of a call. -/
inductive Reached (heap : Heap) : Int → Prop
  | first : Reached heap 0
  | later {Pos later} (reached : Reached heap Pos) (step : next heap Pos = some later) : Reached heap later

/-! ## What is wanted of it -/

structure Sound (heap : Heap) : Prop where
  inside : ∀ Pos, Reached heap Pos → ∀ range ∈ reads heap Pos, 0 ≤ range.1 ∧ range.1 + range.2 ≤ heap.Segment.length
  increases : ∀ Pos later, Reached heap Pos → next heap Pos = some later → Pos < later
  ends : ∃ notes, Visits heap 0 notes

/-- The notes one after the other. -/
def layout (big : Bool) (notes : List Note) : Bytes :=
  notes.foldl (fun bytes note => append_note big bytes note.Name note.n_type.toNat note.Desc) []

/-- A name that a `const char*` can be, and lengths of 32 bits. -/
def Note.Writable (note : Note) : Prop := 0 ∉ note.Name ∧ note.Name.length + 1 < 2 ^ 32 ∧ note.Desc.length < 2 ^ 32

/-- A segment of the notes is read as these notes. -/
def RoundTrip (notes : List Note) : Prop :=
  ∀ heap : Heap, heap.Segment = layout heap.big notes → heap.Segment.length ≤ 2 ^ 20 → Visits heap 0 notes

/-! ## Segments without a wrap -/

/-- A length rounded up in 32 bits. -/
def rounded (n : Nat) : Nat := (n + 3) % 2 ^ 32 / 4 * 4

/-- Where the note behind a position ends. -/
def note_end (big : Bool) (Segment : Bytes) (Pos : Nat) : Nat :=
  Pos + 12 + rounded (field big Segment Pos 4) + rounded (field big Segment (Pos + 4) 4)

/-- The notes of a segment start here. -/
inductive Starts (big : Bool) (Segment : Bytes) : Nat → Prop
  | first : Starts big Segment 0
  | later {Pos} (starts : Starts big Segment Pos) (room : Pos + 12 ≤ Segment.length) (fits : note_end big Segment Pos ≤ Segment.length) :
      Starts big Segment (note_end big Segment Pos)

/-- Both rounded lengths are positive `int`s, and the end of the note is not. -/
def Overflows (big : Bool) (Segment : Bytes) (Pos : Nat) : Prop :=
  rounded (field big Segment Pos 4) < 2 ^ 31 ∧ rounded (field big Segment (Pos + 4) 4) < 2 ^ 31 ∧
    2 ^ 31 ≤ note_end big Segment Pos ∧ note_end big Segment Pos ≤ 2 ^ 32 + Segment.length

/-- The length of the descriptor is rounded up to nothing, and no NUL follows. -/
def Unended (big : Bool) (Segment : Bytes) (Pos : Nat) : Prop :=
  note_end big Segment Pos ≤ Segment.length ∧ 2 ^ 32 - 3 ≤ field big Segment (Pos + 4) 4 ∧
    0 ∉ Segment.drop (Pos + 12 + rounded (field big Segment Pos 4))

def Regular (big : Bool) (Segment : Bytes) : Prop :=
  ∀ Pos, Starts big Segment Pos → Pos + 12 ≤ Segment.length → ¬ Overflows big Segment Pos ∧ ¬ Unended big Segment Pos

/-! ## Lengths -/

theorem align4_toNat (n : UInt32) : (align4 n).toNat = rounded n.toNat := by
  rw [align4, UInt32.toNat_and, UInt32.toNat_add, rounded]
  have small : (n.toNat + 3) % 2 ^ 32 < 2 ^ 32 := Nat.mod_lt _ (by decide)
  show (n.toNat + 3) % 2 ^ 32 &&& 4294967292 = _
  generalize (n.toNat + 3) % 2 ^ 32 = total at small
  have mask : 4294967292 = (2 ^ 30 - 1) <<< 2 := by decide
  have halves : total / 4 * 4 = total >>> 2 <<< 2 := by rw [Nat.shiftLeft_eq, Nat.shiftRight_eq_div_pow]
  rw [mask, halves]
  apply Nat.eq_of_testBit_eq
  intro index
  rw [Nat.testBit_and, Nat.testBit_shiftLeft, Nat.testBit_shiftLeft, Nat.testBit_shiftRight, Nat.testBit_two_pow_sub_one]
  by_cases behind : 2 ≤ index
  · by_cases inside : index < 32
    · simp [behind, show index - 2 < 30 by omega, Nat.add_sub_cancel' behind]
    · have zero : total.testBit index = false := Nat.testBit_lt_two_pow (small.trans_le (Nat.pow_le_pow_right (by decide) (by omega)))
      simp [behind, Nat.add_sub_cancel' behind, zero]
  · simp [behind]

theorem rounded_facts (n : Nat) (h : n < 2 ^ 32) :
    rounded n < 2 ^ 32 ∧ rounded n % 4 = 0 ∧ (2 ^ 32 - 3 ≤ n ∧ rounded n = 0 ∨ n ≤ rounded n ∧ rounded n < n + 4) := by
  rw [rounded]
  omega

theorem to_int_eq {n : Int} (low : -2 ^ 31 ≤ n) (high : n < 2 ^ 31) : to_int n = n := by
  rw [to_int, Int.bmod]
  split_ifs <;> omega

theorem to_int_high {n : Int} (low : 2 ^ 31 ≤ n) (high : n < 2 ^ 32 + 2 ^ 31) : to_int n = n - 2 ^ 32 := by
  rw [to_int, Int.bmod]
  split_ifs <;> omega

theorem to_int_add (a b : Int) : to_int (to_int a + b) = to_int (a + b) := by
  rw [to_int, to_int, to_int, Int.bmod_add_bmod]

theorem to_int_add_right (a b : Int) : to_int (a + to_int b) = to_int (a + b) := by
  rw [to_int, to_int, to_int, Int.add_bmod_bmod]

/-! ## Words -/

variable {heap : Heap}

theorem bytes_inside {start count : Nat} (inside : start + count ≤ heap.Segment.length) :
    heap.bytes start count = slice heap.Segment start count := by
  apply List.ext_getElem?
  intro k
  rw [Heap.bytes, slice, List.getElem?_map]
  by_cases before : k < count
  · have byte : heap.byte ((start : Int) + k) = heap.Segment.getD (start + k) 0 := by
      rw [Heap.byte, if_pos (by omega)]
      rfl
    rw [List.getElem?_range before, List.getElem?_take_of_lt before, List.getElem?_drop, Option.map_some, byte,
      List.getD_eq_getElem?_getD, List.getElem?_eq_getElem (by omega), Option.getD_some]
  · rw [List.getElem?_eq_none (by simpa using before), List.getElem?_eq_none (by rw [List.length_take]; omega), Option.map_none]

theorem field_lt (big : Bool) (Segment : Bytes) (Pos : Nat) : field big Segment Pos 4 < 2 ^ 32 := by
  have short : (bif big then (slice Segment Pos 4).reverse else slice Segment Pos 4).length ≤ 4 := by
    cases big <;> simp [slice, List.length_take]
  calc field big Segment Pos 4
      < 256 ^ (bif big then (slice Segment Pos 4).reverse else slice Segment Pos 4).length := leNat_lt _
    _ ≤ 256 ^ 4 := Nat.pow_le_pow_right (by decide) short

theorem word_inside {Pos : Nat} (inside : Pos + 4 ≤ heap.Segment.length) : (heap.word Pos).toNat = field heap.big heap.Segment Pos 4 := by
  rw [Heap.word, bytes_inside inside]
  exact UInt32.toNat_ofNat_of_lt (field_lt heap.big heap.Segment Pos)

/-! ## One round -/

theorem to_int_neg {n : Nat} (h : n < 2 ^ 32) : to_int n < 0 ↔ 2 ^ 31 ≤ n := by
  rcases Nat.lt_or_ge n (2 ^ 31) with low | high
  · rw [to_int_eq (by omega) (by omega)]
    omega
  · rw [to_int_high (by omega) (by omega)]
    omega

theorem name_length_eq (Nhdr : Nhdr) : name_length Nhdr = min (Nhdr.n_namesz.toNat - 1) (NameSize Nhdr).toNat := by
  rw [name_length]
  by_cases zero : Nhdr.n_namesz = 0
  · rw [if_neg (not_not.mpr zero), zero]
    rfl
  · rw [if_pos zero]

section Round
variable {Pos : Nat} (room : Pos + 12 ≤ heap.Segment.length)
include room

theorem sizes_inside :
    NameSize (header heap Pos) = to_int (rounded (field heap.big heap.Segment Pos 4)) ∧
      DescSize (header heap Pos) = to_int (rounded (field heap.big heap.Segment (Pos + 4) 4)) := by
  have namesz := @word_inside heap Pos (by omega)
  have descsz := @word_inside heap (Pos + 4) (by omega)
  rw [NameSize, DescSize, align4_toNat, align4_toNat]
  simp only [header]
  rw [namesz, show ((Pos : Int) + 4) = ((Pos + 4 : Nat) : Int) by omega, descsz]
  exact ⟨rfl, rfl⟩

variable (small : heap.Segment.length ≤ 2 ^ 20)
include small

theorem room_inside : Room heap Pos ∧ to_int ((Pos : Int) + 12) = ((Pos + 12 : Nat) : Int) := by
  have e : to_int ((Pos : Int) + 12) = Pos + 12 := to_int_eq (by omega) (by omega)
  rw [Room, e]
  exact ⟨by omega, by omega⟩

/-- The check passes for a note that ends in the segment, and for one whose end is no positive `int`. -/
theorem fits_iff : Fits heap (header heap Pos) ((Pos + 12 : Nat) : Int) ↔
    note_end heap.big heap.Segment Pos ≤ heap.Segment.length ∨ Overflows heap.big heap.Segment Pos := by
  obtain ⟨name, desc⟩ := sizes_inside room
  have n_lt := (rounded_facts _ (field_lt heap.big heap.Segment Pos)).1
  have d_lt := (rounded_facts _ (field_lt heap.big heap.Segment (Pos + 4))).1
  have sum (P n d : Int) : to_int (to_int (P + to_int n) + to_int d) = to_int (P + n + d) := by
    rw [to_int_add_right, to_int_add, add_right_comm, to_int_add_right, add_right_comm]
  rw [Fits, name, desc, sum, to_int_neg n_lt, to_int_neg d_lt, Overflows, note_end]
  generalize rounded (field heap.big heap.Segment Pos 4) = n at *
  generalize rounded (field heap.big heap.Segment (Pos + 4) 4) = d at *
  rcases Nat.lt_or_ge (Pos + 12 + n + d) (2 ^ 31) with low | high
  · rw [to_int_eq (by omega) (by omega)]
    omega
  · by_cases sizes : n < 2 ^ 31 ∧ d < 2 ^ 31
    · rw [to_int_high (by omega) (by omega)]
      omega
    · generalize to_int _ = any
      omega

theorem next_inside (ends : note_end heap.big heap.Segment Pos ≤ heap.Segment.length) :
    next heap Pos = some ((note_end heap.big heap.Segment Pos : Nat) : Int) := by
  obtain ⟨is_room, data⟩ := room_inside room small
  obtain ⟨name, desc⟩ := sizes_inside room
  have fits := (fits_iff room small).mpr (.inl ends)
  have sum (P n d : Int) : to_int (P + to_int (to_int n + to_int d)) = to_int (P + n + d) := by
    rw [to_int_add_right, ← add_assoc, to_int_add_right, add_right_comm, to_int_add_right, add_right_comm]
  simp only [next, if_pos is_room, data, if_pos fits, name, desc, sum]
  rw [note_end] at ends ⊢
  rw [to_int_eq (by omega) (by omega)]
  rfl

theorem next_outside (ends : heap.Segment.length < note_end heap.big heap.Segment Pos) (h : ¬ Overflows heap.big heap.Segment Pos) :
    next heap Pos = none := by
  obtain ⟨is_room, data⟩ := room_inside room small
  have fits := mt (fits_iff room small).mp (by rintro (inside | wraps) <;> [omega; exact h wraps])
  simp only [next, if_pos is_room, data, if_neg fits]

theorem reads_inside (positive : rounded (field heap.big heap.Segment Pos 4) < 2 ^ 31)
    (passed : note_end heap.big heap.Segment Pos ≤ heap.Segment.length ∨ Overflows heap.big heap.Segment Pos) :
    reads heap Pos = [((Pos : Int), 12),
      (((Pos + 12 : Nat) : Int), min (field heap.big heap.Segment Pos 4 - 1) (rounded (field heap.big heap.Segment Pos 4))),
      (((Pos + 12 + rounded (field heap.big heap.Segment Pos 4) : Nat) : Int),
        if 2 ^ 31 ≤ field heap.big heap.Segment (Pos + 4) 4 then
          text_length heap ((Pos + 12 + rounded (field heap.big heap.Segment Pos 4) : Nat) : Int) + 1
        else field heap.big heap.Segment (Pos + 4) 4)] := by
  obtain ⟨is_room, data⟩ := room_inside room small
  have name := (sizes_inside room).1
  have namesz := @word_inside heap Pos (by omega)
  have descsz := @word_inside heap (Pos + 4) (by omega)
  have fits := (fits_iff room small).mpr passed
  rw [to_int_eq (by omega) (by omega)] at name
  have name_is : name_length (header heap Pos) = min (field heap.big heap.Segment Pos 4 - 1) (rounded (field heap.big heap.Segment Pos 4)) := by
    rw [name_length_eq, name, Int.toNat_natCast]
    simp only [header]
    rw [namesz]
  have desc_is : (header heap Pos).n_descsz.toNat = field heap.big heap.Segment (Pos + 4) 4 := by
    simp only [header]
    rw [show ((Pos : Int) + 4) = ((Pos + 4 : Nat) : Int) by omega, descsz]
  have start : ((Pos + 12 : Nat) : Int) + rounded (field heap.big heap.Segment Pos 4) =
      ((Pos + 12 + rounded (field heap.big heap.Segment Pos 4) : Nat) : Int) := by omega
  simp only [reads, if_pos is_room, data, if_pos fits, name_is, name, desc_length, desc_is, start,
    to_int_neg (field_lt heap.big heap.Segment (Pos + 4))]
  split_ifs <;> rfl

theorem reads_bounded (ends : note_end heap.big heap.Segment Pos ≤ heap.Segment.length) (h : ¬ Unended heap.big heap.Segment Pos) :
    ∀ range ∈ reads heap Pos, 0 ≤ range.1 ∧ range.1 + range.2 ≤ heap.Segment.length := by
  have e : note_end heap.big heap.Segment Pos =
    Pos + 12 + rounded (field heap.big heap.Segment Pos 4) + rounded (field heap.big heap.Segment (Pos + 4) 4) := rfl
  rw [reads_inside room small (by omega) (.inl ends)]
  have desc_facts := rounded_facts _ (field_lt heap.big heap.Segment (Pos + 4))
  intro range member
  simp only [List.mem_cons, List.not_mem_nil, or_false] at member
  rcases member with rfl | rfl | rfl
  · simp only []
    omega
  · simp only []
    omega
  · refine ⟨Int.natCast_nonneg _, ?_⟩
    simp only []
    split_ifs with negative
    · have nul : 0 ∈ heap.Segment.drop (Pos + 12 + rounded (field heap.big heap.Segment Pos 4)) := by
        by_contra none
        exact h ⟨ends, by omega, none⟩
      have short : text_length heap ((Pos + 12 + rounded (field heap.big heap.Segment Pos 4) : Nat) : Int) <
          heap.Segment.length - (Pos + 12 + rounded (field heap.big heap.Segment Pos 4)) := by
        rw [text_length, Int.toNat_natCast, ← List.length_drop]
        refine Nat.lt_of_le_of_ne (List.takeWhile_sublist _).length_le fun same => ?_
        have all := List.takeWhile_eq_self_iff.mp ((List.takeWhile_sublist _).eq_of_length same) 0 nul
        exact absurd all (by decide)
      omega
    · omega

theorem reads_outside (h : Overflows heap.big heap.Segment Pos ∨ Unended heap.big heap.Segment Pos) :
    ∃ range ∈ reads heap Pos, (heap.Segment.length : Int) < range.1 + range.2 := by
  have e : note_end heap.big heap.Segment Pos =
    Pos + 12 + rounded (field heap.big heap.Segment Pos 4) + rounded (field heap.big heap.Segment (Pos + 4) 4) := rfl
  have name_facts := rounded_facts _ (field_lt heap.big heap.Segment Pos)
  have desc_facts := rounded_facts _ (field_lt heap.big heap.Segment (Pos + 4))
  rcases h with overflows | ⟨ends, large, endless⟩
  · obtain ⟨name, desc, low, high⟩ := id overflows
    rw [reads_inside room small name (.inr overflows)]
    -- both parts inside would end before a number that is no `int`
    by_cases first : Pos + 12 + min (field heap.big heap.Segment Pos 4 - 1) (rounded (field heap.big heap.Segment Pos 4)) ≤ heap.Segment.length
    · refine ⟨_, List.mem_cons_of_mem _ (List.mem_cons_of_mem _ List.mem_cons_self), ?_⟩
      simp only []
      rw [if_neg (by omega)]
      omega
    · refine ⟨_, List.mem_cons_of_mem _ List.mem_cons_self, ?_⟩
      simp only []
      omega
  · rw [reads_inside room small (by omega) (.inl ends)]
    refine ⟨_, List.mem_cons_of_mem _ (List.mem_cons_of_mem _ List.mem_cons_self), ?_⟩
    have whole : text_length heap ((Pos + 12 + rounded (field heap.big heap.Segment Pos 4) : Nat) : Int) =
        heap.Segment.length - (Pos + 12 + rounded (field heap.big heap.Segment Pos 4)) := by
      rw [text_length, Int.toNat_natCast, List.takeWhile_eq_self_iff.mpr, List.length_drop]
      intro byte member
      simp only [decide_eq_true_eq]
      exact fun zero => endless (zero ▸ member)
    simp only [whole]
    rw [if_pos (by omega)]
    omega

/-- A note in the segment with a descriptor of an `int`. -/
theorem note_at_inside (ends : note_end heap.big heap.Segment Pos ≤ heap.Segment.length)
    (short : field heap.big heap.Segment (Pos + 4) 4 < 2 ^ 31) : note_at heap Pos =
      ⟨slice heap.Segment (Pos + 12) (min (field heap.big heap.Segment Pos 4 - 1) (rounded (field heap.big heap.Segment Pos 4))),
        heap.word ((Pos : Int) + 8),
        slice heap.Segment (Pos + 12 + rounded (field heap.big heap.Segment Pos 4)) (field heap.big heap.Segment (Pos + 4) 4)⟩ := by
  have e : note_end heap.big heap.Segment Pos =
    Pos + 12 + rounded (field heap.big heap.Segment Pos 4) + rounded (field heap.big heap.Segment (Pos + 4) 4) := rfl
  have desc_facts := rounded_facts _ (field_lt heap.big heap.Segment (Pos + 4))
  obtain ⟨is_room, data⟩ := room_inside room small
  have name := (sizes_inside room).1
  have namesz := @word_inside heap Pos (by omega)
  have descsz := @word_inside heap (Pos + 4) (by omega)
  rw [to_int_eq (by omega) (by omega)] at name
  have name_is : name_length (header heap Pos) = min (field heap.big heap.Segment Pos 4 - 1) (rounded (field heap.big heap.Segment Pos 4)) := by
    rw [name_length_eq, name, Int.toNat_natCast]
    simp only [header]
    rw [namesz]
  have desc_is : (header heap Pos).n_descsz.toNat = field heap.big heap.Segment (Pos + 4) 4 := by
    simp only [header]
    rw [show ((Pos : Int) + 4) = ((Pos + 4 : Nat) : Int) by omega, descsz]
  have start : ((Pos + 12 : Nat) : Int) + rounded (field heap.big heap.Segment Pos 4) =
      ((Pos + 12 + rounded (field heap.big heap.Segment Pos 4) : Nat) : Int) := by omega
  have positive : ¬ to_int (field heap.big heap.Segment (Pos + 4) 4) < 0 := by
    rw [to_int_neg (by omega)]
    omega
  rw [note_at, data, name, name_is, start, desc_length, desc_is, if_neg positive, bytes_inside (by omega), bytes_inside (by omega)]
  rfl

end Round

/-! ## Whole segments -/

theorem starts_le {big : Bool} {Segment : Bytes} {Pos : Nat} (starts : Starts big Segment Pos) : Pos ≤ Segment.length := by
  cases starts with
  | first => exact Nat.zero_le _
  | later _ _ fits => exact fits

section Segments
variable (small : heap.Segment.length ≤ 2 ^ 20)
include small

theorem starts_reached {Pos : Nat} (starts : Starts heap.big heap.Segment Pos) : Reached heap Pos := by
  induction starts with
  | first => exact .first
  | later starts room fits reached => exact .later reached (next_inside room small fits)

theorem no_room {Pos : Nat} (low : Pos ≤ heap.Segment.length) (short : heap.Segment.length < Pos + 12) : ¬ Room heap Pos := by
  rw [Room, to_int_eq (by omega) (by omega)]
  omega

theorem regular_round (regular : Regular heap.big heap.Segment) {start : Nat} (starts : Starts heap.big heap.Segment start) :
    (∀ range ∈ reads heap start, 0 ≤ range.1 ∧ range.1 + range.2 ≤ heap.Segment.length) ∧
      (next heap start = none ∨ ∃ later : Nat, next heap start = some (later : Int) ∧ start + 12 ≤ later ∧ Starts heap.big heap.Segment later) := by
  by_cases room : start + 12 ≤ heap.Segment.length
  · obtain ⟨contained, ended⟩ := regular start starts room
    rcases Nat.lt_or_ge heap.Segment.length (note_end heap.big heap.Segment start) with outside | inside
    · obtain ⟨is_room, data⟩ := room_inside room small
      have unfit := mt (fits_iff room small).mp (by rintro (inside | wraps) <;> [omega; exact contained wraps])
      refine ⟨fun range member => ?_, .inl (next_outside room small outside contained)⟩
      simp only [reads, if_pos is_room, data, if_neg unfit, List.mem_singleton] at member
      subst member
      exact ⟨Int.natCast_nonneg _, by simp only []; omega⟩
    · refine ⟨reads_bounded room small inside ended, .inr ⟨_, next_inside room small inside, ?_, .later starts room inside⟩⟩
      rw [note_end]
      omega
  · have stop := no_room small (starts_le starts) (by omega)
    exact ⟨by simp [reads, stop], .inl (by simp [next, stop])⟩

theorem reached_starts (regular : Regular heap.big heap.Segment) {Pos : Int} (reached : Reached heap Pos) :
    ∃ start : Nat, Pos = start ∧ Starts heap.big heap.Segment start := by
  induction reached with
  | first => exact ⟨0, rfl, .first⟩
  | later reached step ih =>
    obtain ⟨start, rfl, starts⟩ := ih
    rcases (regular_round small regular starts).2 with stop | ⟨later, goes, -, there⟩
    · rw [stop] at step
      simp at step
    · rw [goes] at step
      exact ⟨later, (Option.some.inj step).symm, there⟩

theorem regular_ends (regular : Regular heap.big heap.Segment) (room : Nat) {start : Nat} (left : heap.Segment.length - start ≤ room)
    (starts : Starts heap.big heap.Segment start) : ∃ notes, Visits heap start notes := by
  induction room generalizing start with
  | zero =>
    have stop := no_room small (starts_le starts) (by omega)
    exact ⟨[], .done (by simp [next, stop])⟩
  | succ room ih =>
    rcases (regular_round small regular starts).2 with stop | ⟨later, goes, further, there⟩
    · exact ⟨[], .done stop⟩
    · obtain ⟨notes, visits⟩ := ih (by omega) there
      exact ⟨_, .note goes visits⟩

theorem sound_iff : Sound heap ↔ Regular heap.big heap.Segment := by
  constructor
  · intro sound Pos starts room
    rw [← not_or]
    intro wrong
    obtain ⟨range, member, outside⟩ := reads_outside room small wrong
    have inside := (sound.inside Pos (starts_reached small starts) range member).2
    omega
  · intro regular
    constructor
    · intro Pos reached
      obtain ⟨start, rfl, starts⟩ := reached_starts small regular reached
      exact (regular_round small regular starts).1
    · intro Pos later reached step
      obtain ⟨start, rfl, starts⟩ := reached_starts small regular reached
      rcases (regular_round small regular starts).2 with stop | ⟨place, goes, further, -⟩
      · rw [stop] at step
        simp at step
      · rw [goes] at step
        have := Option.some.inj step
        omega
    · exact regular_ends small regular heap.Segment.length (Nat.sub_le _ _) .first

end Segments

/-! ## Notes that were written -/

/-- The bytes of one note. -/
def note_bytes (big : Bool) (note : Note) : Bytes :=
  encode big [(4, note.Name.length + 1), (4, note.Desc.length), (4, note.n_type.toNat)] ++ (pad4 (note.Name ++ [0]) ++ pad4 note.Desc)

theorem pad4_length (bytes : Bytes) : (pad4 bytes).length = (bytes.length + 3) / 4 * 4 := by
  rw [pad4, List.length_append, List.length_replicate]
  omega

theorem pad4_append {front : Bytes} (whole : front.length % 4 = 0) (bytes : Bytes) : pad4 (front ++ bytes) = front ++ pad4 bytes := by
  rw [pad4, pad4, List.length_append, List.append_assoc, show (front.length + bytes.length) % 4 = bytes.length % 4 by omega]

theorem header_length (big : Bool) (a b c : Nat) : (encode big [(4, a), (4, b), (4, c)]).length = 12 := by
  rw [encode_length]
  rfl

theorem note_bytes_length (big : Bool) (note : Note) :
    (note_bytes big note).length = 12 + ((note.Name.length + 1 + 3) / 4 * 4 + (note.Desc.length + 3) / 4 * 4) := by
  rw [note_bytes, List.length_append, List.length_append, header_length, pad4_length, pad4_length, List.length_append]
  rfl

theorem append_note_eq {big : Bool} {bytes : Bytes} {note : Note} (whole : bytes.length % 4 = 0) (h : note.Writable) :
    append_note big bytes note.Name note.n_type.toNat note.Desc = bytes ++ note_bytes big note := by
  obtain ⟨-, -, desc⟩ := h
  have front : (bytes ++ encode big [(4, note.Name.length + 1), (4, note.Desc.length), (4, note.n_type.toNat)]).length % 4 = 0 := by
    rw [List.length_append, header_length]
    omega
  have inner : (bytes ++ encode big [(4, note.Name.length + 1), (4, note.Desc.length), (4, note.n_type.toNat)] ++
      pad4 (note.Name ++ [0])).length % 4 = 0 := by
    rw [List.length_append, pad4_length]
    omega
  rw [append_note, Nat.mod_eq_of_lt desc, List.take_length, List.append_assoc _ note.Name, pad4_append front, pad4_append inner, note_bytes]
  simp only [List.append_assoc]

theorem layout_eq (big : Bool) (notes : List Note) (h : ∀ note ∈ notes, note.Writable) : layout big notes = notes.flatMap (note_bytes big) := by
  have whole (front : Bytes) (aligned : front.length % 4 = 0) :
      notes.foldl (fun bytes note => append_note big bytes note.Name note.n_type.toNat note.Desc) front = front ++ notes.flatMap (note_bytes big) := by
    induction notes generalizing front with
    | nil => simp
    | cons note rest ih =>
      have length := note_bytes_length big note
      rw [List.foldl_cons, append_note_eq aligned (h note (by simp)), ih (fun other member => h other (by simp [member])) _ (by
        rw [List.length_append]
        omega), List.flatMap_cons, List.append_assoc]
  rw [layout, whole [] rfl, List.nil_append]

theorem written_note {front back : Bytes} {note : Note} (small : heap.Segment.length ≤ 2 ^ 20)
    (split : heap.Segment = front ++ (note_bytes heap.big note ++ back)) (h : note.Writable) :
    next heap (front.length : Nat) = some (((front ++ note_bytes heap.big note).length : Nat) : Int) ∧ note_at heap (front.length : Nat) = note := by
  obtain ⟨-, name_short, desc_short⟩ := h
  have length := note_bytes_length heap.big note
  have total : heap.Segment.length = front.length + ((note_bytes heap.big note).length + back.length) := by
    rw [split, List.length_append, List.length_append]
  -- the three words of the header
  obtain ⟨fields, is_fields⟩ : ∃ fields : Fields, fields = [(4, note.Name.length + 1), (4, note.Desc.length), (4, note.n_type.toNat)] := ⟨_, rfl⟩
  have head : Sits heap.Segment front.length (encode heap.big fields) := by
    rw [split, note_bytes, ← is_fields, List.append_assoc]
    exact sits_append _ _ _
  have word (index value : Nat) (found : fields[index]? = some (4, value)) (fits : value < 2 ^ 32) :
      field heap.big heap.Segment (front.length + span (fields.take index)) 4 = value := by
    rw [head.field found]
    exact Nat.mod_eq_of_lt (by omega)
  have namesz : field heap.big heap.Segment front.length 4 = note.Name.length + 1 := word 0 _ (by rw [is_fields]; rfl) name_short
  have descsz : field heap.big heap.Segment (front.length + 4) 4 = note.Desc.length := by
    have read := word 1 _ (by rw [is_fields]; rfl) desc_short
    rwa [is_fields] at read
  have type : heap.word ((front.length : Int) + 8) = note.n_type := by
    have read := word 2 _ (by rw [is_fields]; rfl) note.n_type.toNat_lt
    rw [is_fields] at read
    apply UInt32.toNat_inj.mp
    rw [show ((front.length : Int) + 8) = ((front.length + 8 : Nat) : Int) by omega, word_inside (by omega)]
    exact read
  have name_size : rounded (note.Name.length + 1) = (note.Name.length + 1 + 3) / 4 * 4 := by
    rw [rounded, Nat.mod_eq_of_lt (by omega)]
  have desc_size : rounded note.Desc.length = (note.Desc.length + 3) / 4 * 4 := by
    rw [rounded, Nat.mod_eq_of_lt (by omega)]
  have ends : note_end heap.big heap.Segment front.length = (front ++ note_bytes heap.big note).length := by
    rw [note_end, namesz, descsz, name_size, desc_size, List.length_append, length]
    omega
  have room : front.length + 12 ≤ heap.Segment.length := by omega
  have inside : note_end heap.big heap.Segment front.length ≤ heap.Segment.length := by
    rw [ends, List.length_append]
    omega
  refine ⟨ends ▸ next_inside room small inside, ?_⟩
  rw [note_at_inside room small inside (by omega), namesz, descsz, type, name_size]
  -- the name behind the header, the descriptor behind both
  have name : Sits heap.Segment (front.length + 12) note.Name := by
    have parts : heap.Segment = (front ++ encode heap.big fields) ++ (note.Name ++ ([0] ++
        List.replicate ((4 - (note.Name ++ [0]).length % 4) % 4) 0 ++ pad4 note.Desc ++ back)) := by
      rw [split, note_bytes, ← is_fields, pad4]
      simp only [List.append_assoc]
    have place : (front ++ encode heap.big fields).length = front.length + 12 := by
      rw [List.length_append, is_fields, header_length]
    rw [← place, parts]
    exact sits_append _ _ _
  have desc : Sits heap.Segment (front.length + 12 + (note.Name.length + 1 + 3) / 4 * 4) note.Desc := by
    have parts : heap.Segment = (front ++ encode heap.big fields ++ pad4 (note.Name ++ [0])) ++ (note.Desc ++
        (List.replicate ((4 - note.Desc.length % 4) % 4) 0 ++ back)) := by
      rw [split, note_bytes, ← is_fields, show pad4 note.Desc = note.Desc ++ List.replicate ((4 - note.Desc.length % 4) % 4) 0 from rfl]
      simp only [List.append_assoc]
    have place : (front ++ encode heap.big fields ++ pad4 (note.Name ++ [0])).length = front.length + 12 + (note.Name.length + 1 + 3) / 4 * 4 := by
      rw [List.length_append, List.length_append, is_fields, header_length, pad4_length, List.length_append]
      rfl
    rw [← place, parts]
    exact sits_append _ _ _
  rw [Sits] at name desc
  rw [Nat.add_sub_cancel, Nat.min_eq_left (by omega), name, desc]

theorem round_trip (notes : List Note) (h : ∀ note ∈ notes, note.Writable) : RoundTrip notes := by
  intro heap is_layout small
  rw [layout_eq _ _ h] at is_layout
  have from_here (front : Bytes) (split : heap.Segment = front ++ notes.flatMap (note_bytes heap.big)) : Visits heap (front.length : Nat) notes := by
    clear is_layout
    induction notes generalizing front with
    | nil =>
      have ends : heap.Segment.length = front.length := by simp [split]
      exact .done (by simp [next, no_room small (le_of_eq ends.symm) (by omega)])
    | cons note rest ih =>
      obtain ⟨goes, same⟩ := written_note small (by rw [split, List.flatMap_cons]) (h note (by simp))
      have later := ih (fun other member => h other (by simp [member])) (front ++ note_bytes heap.big note) (by
        rw [split, List.flatMap_cons, List.append_assoc])
      have visits := Visits.note goes later
      rwa [same] at visits
  exact from_here [] is_layout

/-- Exactly the segments without a wrapped end are read safely; every sequence of notes is read back. -/
theorem notes_parsed (heap : Heap) (notes : List Note) (small : heap.Segment.length ≤ 2 ^ 20) (writable : ∀ note ∈ notes, note.Writable) :
    Sound heap ∧ RoundTrip notes ↔ Regular heap.big heap.Segment := by
  rw [sound_iff small]
  exact and_iff_left (round_trip notes writable)

/-- An empty segment, and the note of a build id. -/
theorem notes_parsed_build_id : Sound ⟨false, [], fun _ => 1⟩ ∧ RoundTrip [⟨[71, 78, 85], 3, [1, 2, 3, 4, 5]⟩] :=
  (notes_parsed ⟨false, [], fun _ => 1⟩ [⟨[71, 78, 85], 3, [1, 2, 3, 4, 5]⟩] (by decide) (by
    intro note member
    rw [List.mem_singleton.mp member]
    refine ⟨by decide, by decide, by decide⟩)).mpr fun Pos _ room => absurd room (by simp)

/-- Twelve bytes: a name of 0x7FFFFFFC bytes and a descriptor of 4. -/
def wrapping : Bytes := [0xFC, 0xFF, 0xFF, 0x7F, 4, 0, 0, 0, 0, 0, 0, 0]

/-- The end of the note is no positive `int`, so the check passes and 2 GiB are read behind the segment. -/
theorem wrapped_end_read : ¬ ∀ heap : Heap, heap.Segment.length ≤ 2 ^ 20 → Sound heap := by
  intro h
  have regular := (@sound_iff ⟨false, wrapping, fun _ => 0⟩ (by decide)).mp (h _ (by decide))
  have namesz : field false wrapping 0 4 = 0x7FFFFFFC := by decide
  have descsz : field false wrapping (0 + 4) 4 = 4 := by decide
  have size : wrapping.length = 12 := rfl
  refine (regular 0 .first (by decide)).1 ?_
  simp only [Overflows, note_end, namesz, descsz, size, rounded]
  decide

end TaskExplorer.ElfNotes
