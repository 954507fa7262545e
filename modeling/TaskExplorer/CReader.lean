import TaskExplorer.VariantValue

/-!
# The reader of the C library

The reading half of `SVariant.c`. Pointers are offsets into the bytes a function
was given; an offset is 64 bits wide and does not wrap. In
`ptr += Variant_ReadSize(&ptr, ...)` the call moves `ptr` before it is added to.
-/

namespace TaskExplorer.CReader
open Codec VariantFormat VariantContainer
set_option linter.unusedSimpArgs false

/-- What reading a buffer must not come to. -/
inductive Trap where
  /-- A byte outside the buffer is read. -/
  | outside
  /-- A loop takes more turns than the buffer has bytes. -/
  | endless
deriving DecidableEq, Repr

def ULONG_MAX : Nat := 2 ^ 32 - 1

structure VARIANT where
  uType : UInt8
  uSize : Nat
  uMaxSize : Nat
  pData : Nat
deriving DecidableEq, Repr

/-! ## The model -/

def load_bytes (memory : Bytes) (ptr length : Nat) : Except Trap Bytes :=
  if ptr + length ≤ memory.length then .ok ((memory.drop ptr).take length) else .error .outside

def load (memory : Bytes) (ptr width : Nat) : Except Trap Nat := do
  let bytes ← load_bytes memory ptr width
  return leNat bytes

/-- The length, (uint32)-1 if there is none, and the pointer behind the header. -/
def variant_read_size (memory : Bytes) (ptr size : Nat) : Except Trap (Nat × Nat) := do
  let type := UInt8.ofNat (← load memory ptr 1)
  if type &&& VAR_LEN_FIELD ≠ 0 then
    if type &&& VAR_LEN_MASK = VAR_LEN8 ∧ size ≥ 1 + 1 then
      return (← load memory (ptr + 1) 1, ptr + 1 + 1)
    else if type &&& VAR_LEN_MASK = VAR_LEN16 ∧ size ≥ 1 + 2 then
      return (← load memory (ptr + 1) 2, ptr + 1 + 2)
    else if type &&& VAR_LEN_MASK = VAR_LEN32 ∧ size ≥ 1 + 4 then
      return (← load memory (ptr + 1) 4, ptr + 1 + 4)
    else return (2 ^ 32 - 1, ptr + 1)
  else if typeOf type = VAR_TYPE_EMPTY then return (0, ptr + 1)
  else if type &&& VAR_LEN_MASK = VAR_LEN8 then return (1, ptr + 1)
  else if type &&& VAR_LEN_MASK = VAR_LEN16 then return (2, ptr + 1)
  else if type &&& VAR_LEN_MASK = VAR_LEN32 then return (4, ptr + 1)
  else if type &&& VAR_LEN_MASK = VAR_LEN64 then return (8, ptr + 1)
  else return (2 ^ 32 - 1, ptr + 1)

/-- The variant and the number of bytes it takes; nothing stands for 0. -/
def variant_from_buffer (memory : Bytes) (pBuffer uSize : Nat) : Except Trap (Option (VARIANT × Nat)) := do
  if uSize < 1 ∨ uSize > ULONG_MAX then return none
  let type := UInt8.ofNat (← load memory pBuffer 1)
  let (length, pData) ← variant_read_size memory pBuffer (uSize % 2 ^ 32)
  if length = 2 ^ 32 - 1 ∨ length > pBuffer + uSize - pData then return none
  return some (⟨type &&& VAR_TYPE_MASK, length, length, pData⟩, pData - pBuffer + length)

/-- The loop of `Variant_Find`, `Variant_Get` and `Variant_At`. What they do at the
    start of an entry is `look`: leave the loop, or say whether it is the entry
    looked for and where its packet starts. -/
def walk (memory : Bytes) (look : Nat → Nat → Except Trap (Option (Bool × Nat))) : Nat → Nat → Nat → Except Trap (Option VARIANT)
  | 0, _, _ => .error .endless
  | fuel + 1, turn, ptr =>
    if ptr < memory.length then do
      match ← look turn ptr with
      | none => return none
      | some (true, ptr) =>
        let found ← variant_from_buffer memory ptr (memory.length - ptr)
        return found.map Prod.fst
      | some (false, ptr) =>
        let (length, ptr) ← variant_read_size memory ptr (memory.length - ptr)
        walk memory look fuel (turn + 1) (ptr + length)
    else return none

def look_name (memory name : Bytes) (ptr : Nat) : Except Trap (Option (Bool × Nat)) := do
  let cur_len ← load memory ptr 1
  if ptr + 1 + cur_len ≥ memory.length then return none
  if name.length = cur_len then
    let cur_name ← load_bytes memory (ptr + 1) name.length
    return some (cur_name = name, ptr + 1 + cur_len)
  return some (false, ptr + 1 + cur_len)

def look_index (memory : Bytes) (index : UInt32) (ptr : Nat) : Except Trap (Option (Bool × Nat)) := do
  if ptr + 4 ≥ memory.length then return none
  let cur_index ← load memory ptr 4
  return some (UInt32.ofNat cur_index = index, ptr + 4)

/-- `pos-- == 0`, in the `turn`th turn. -/
def look_item (pos : UInt32) (turn ptr : Nat) : Except Trap (Option (Bool × Nat)) :=
  .ok (some (UInt32.ofNat turn = pos, ptr))

/-- What the three start with. -/
def search (kind : Kind) (var : Packed) (look : Nat → Nat → Except Trap (Option (Bool × Nat))) : Except Trap (Option VARIANT) :=
  if var.payload.length = 0 ∨ var.type ≠ kind.type then .ok none
  else walk var.payload look (var.payload.length + 1) 0 0

def variant_find (var : Packed) (name : Bytes) : Except Trap (Option VARIANT) :=
  search .map var (fun _ => look_name var.payload (c_str name))

def variant_get (var : Packed) (index : UInt32) : Except Trap (Option VARIANT) :=
  search .index var (fun _ => look_index var.payload index)

/-- The position is an `int`, given by its 32 bits. -/
def variant_at (var : Packed) (pos : UInt32) : Except Trap (Option VARIANT) := search .list var (look_item pos)

structure Iterator where
  ptr : Nat
  «end» : Nat

def variant_begin (var : Packed) : Option Iterator :=
  if var.payload.length = 0 ∨ var.type ≠ VAR_TYPE_LIST then none else some ⟨0, var.payload.length⟩

def variant_next (memory : Bytes) (it : Iterator) : Except Trap (Option (VARIANT × Iterator)) := do
  match ← variant_from_buffer memory it.ptr (it.end - it.ptr) with
  | none => return none
  | some (variant, read) => return some (variant, { it with ptr := it.ptr + read })

/-- Calling `Variant_Next` until it gives nothing. -/
def iterate (memory : Bytes) : Nat → Iterator → Except Trap (List VARIANT)
  | 0, _ => .error .endless
  | fuel + 1, it => do
    match ← variant_next memory it with
    | none => return []
    | some (variant, it) =>
      let more ← iterate memory fuel it
      return variant :: more

def variant_items (var : Packed) : Except Trap (List VARIANT) :=
  match variant_begin var with
  | none => .ok []
  | some it => iterate var.payload (var.payload.length + 1) it

/-- The bytes that are written to `out`, from its start. -/
def variant_to_int (var : Packed) (size : Nat) : Option Bytes :=
  if var.payload.length = 0 ∨ (var.type ≠ VAR_TYPE_SINT ∧ var.type ≠ VAR_TYPE_UINT) then none
  else if var.payload.length > size ∧ (var.payload.drop size).any (· ≠ 0) then none
  else some (var.payload ++ List.replicate (size - var.payload.length) 0)

/-- What a variant points to. -/
def view (memory : Bytes) (variant : VARIANT) : Packed :=
  ⟨typeOf variant.uType, (memory.drop variant.pData).take variant.uSize⟩

/-! ## Headers -/

/-- A length field of the width that is not there. -/
def reserved (byte : UInt8) : Bool := byte &&& VAR_LEN_FIELD ≠ 0 ∧ byte &&& VAR_LEN_MASK = VAR_LEN64

private theorem len_mask_cases (byte : UInt8) :
    byte &&& VAR_LEN_MASK = VAR_LEN8 ∨ byte &&& VAR_LEN_MASK = VAR_LEN16 ∨
      byte &&& VAR_LEN_MASK = VAR_LEN32 ∨ byte &&& VAR_LEN_MASK = VAR_LEN64 := by
  have every : ∀ value : Fin 256, UInt8.ofFin value &&& VAR_LEN_MASK = VAR_LEN8 ∨ UInt8.ofFin value &&& VAR_LEN_MASK = VAR_LEN16 ∨
      UInt8.ofFin value &&& VAR_LEN_MASK = VAR_LEN32 ∨ UInt8.ofFin value &&& VAR_LEN_MASK = VAR_LEN64 := by decide +kernel
  exact every byte.toFin

variable {memory field payload : Bytes} {ptr : Nat} {byte : UInt8}
  {look : Nat → Nat → Except Trap (Option (Bool × Nat))} {kind : Kind}

theorem load_bytes_of_le {length : Nat} (inside : ptr + length ≤ memory.length) :
    load_bytes memory ptr length = .ok ((memory.drop ptr).take length) := if_pos inside

theorem load_of_le {width : Nat} (inside : ptr + width ≤ memory.length) :
    load memory ptr width = .ok (leNat ((memory.drop ptr).take width)) := by
  rw [load, load_bytes_of_le inside]
  rfl

private theorem drop_facts (split : memory.drop ptr = byte :: field) :
    memory.length = ptr + 1 + field.length ∧ memory.drop (ptr + 1) = field ∧ load memory ptr 1 = .ok byte.toNat := by
  have size := congrArg List.length split
  rw [List.length_drop, List.length_cons] at size
  have behind : memory.drop (ptr + 1) = field := by
    rw [← List.drop_drop, split, List.drop_one, List.tail_cons]
  refine ⟨by omega, behind, ?_⟩
  rw [load_of_le (by omega), split]
  simp [leNat]

private theorem load_field {width : Nat} (split : memory.drop ptr = byte :: field) (fits : width ≤ field.length) :
    load memory (ptr + 1) width = .ok (leNat (field.take width)) := by
  obtain ⟨size, behind, -⟩ := drop_facts split
  rw [load_of_le (by omega), behind]

/-- How many bytes a length field has, and what length a header and the bytes
    behind it announce. -/
def fieldWidth : Length → Nat
  | .fixed _ => 0
  | .field width => width

def announced : Length → Bytes → Nat
  | .fixed size, _ => size
  | .field width, bytes => leNat (bytes.take width)

private theorem headerOf_cons {type : VarType} {size : Nat} :
    HeaderOf (byte :: field) type size ↔
      typeOf byte = type ∧ field.length = fieldWidth (length_form byte) ∧ size = announced (length_form byte) field := by
  unfold HeaderOf
  constructor
  · rintro ⟨other, behind, split, typed, form⟩
    obtain ⟨rfl, rfl⟩ := List.cons.inj split
    cases known : length_form byte with
    | fixed length =>
      rw [known] at form
      exact ⟨typed, by rw [form.1]; rfl, form.2⟩
    | field width =>
      rw [known] at form
      exact ⟨typed, form.1, by rw [announced, ← form.1, List.take_length]; exact form.2⟩
  · rintro ⟨typed, wide, size⟩
    refine ⟨byte, field, rfl, typed, ?_⟩
    cases known : length_form byte with
    | fixed length =>
      rw [known] at wide size
      exact ⟨List.length_eq_zero_iff.mp wide, size⟩
    | field width =>
      rw [known] at wide size
      have whole : field.take width = field := List.take_of_length_le (le_of_eq wide)
      rw [announced, whole] at size
      exact ⟨wide, size⟩

private theorem announced_take (form : Length) (bytes : Bytes) : announced form (bytes.take (fieldWidth form)) = announced form bytes := by
  cases form with
  | fixed size => rfl
  | field width => simp [announced, fieldWidth, List.take_take]

private theorem from_packet_cons_iff {packed : Packed} {after : Cursor} :
    from_packet ⟨byte :: field, 0⟩ = .ok (packed, after) ↔
      fieldWidth (length_form byte) + announced (length_form byte) field ≤ field.length ∧
      packed = ⟨typeOf byte, (field.drop (fieldWidth (length_form byte))).take (announced (length_form byte) field)⟩ ∧
      after = ⟨field.drop (fieldWidth (length_form byte) + announced (length_form byte) field),
        1 + fieldWidth (length_form byte) + announced (length_form byte) field⟩ := by
  rw [from_packet_ok_iff]
  constructor
  · rintro ⟨header, valid, split, position⟩
    obtain ⟨first, behind, rfl, -⟩ := id valid
    obtain ⟨typed, wide, size⟩ := headerOf_cons.mp valid
    simp only [List.cons_append, List.cons.injEq] at split
    obtain ⟨rfl, rfl⟩ := split
    have length : announced (length_form byte) (behind ++ packed.payload ++ after.left) = packed.payload.length := by
      rw [size, ← announced_take, List.append_assoc, ← wide, List.take_left]
    rw [length, ← wide]
    refine ⟨by simp only [List.length_append]; omega, ?_, ?_⟩
    · rw [List.append_assoc, List.drop_left, List.take_left, typed]
    · obtain ⟨left, moved⟩ := after
      simp only [List.length_cons] at position
      simp only [Cursor.mk.injEq]
      constructor
      · rw [← List.length_append, List.drop_left]
      · omega
  · rintro ⟨fits, rfl, rfl⟩
    have size : ((field.drop (fieldWidth (length_form byte))).take (announced (length_form byte) field)).length =
        announced (length_form byte) field := by
      rw [List.length_take, List.length_drop]
      omega
    have wide : (field.take (fieldWidth (length_form byte))).length = fieldWidth (length_form byte) := by
      rw [List.length_take]
      omega
    refine ⟨byte :: field.take (fieldWidth (length_form byte)), ?_, ?_, ?_⟩
    · exact headerOf_cons.mpr ⟨rfl, wide, by rw [size, announced_take]⟩
    · simp only [List.cons_append, List.append_assoc, List.cons.injEq, true_and]
      rw [← List.drop_drop, List.take_append_drop, List.take_append_drop]
    · simp only [List.length_cons, size, wide]
      omega

/-- What `Variant_ReadSize` makes of a header, if it may read to the end of memory. -/
theorem variant_read_size_eq (split : memory.drop ptr = byte :: field) :
    variant_read_size memory ptr (memory.length - ptr) = .ok (
      if reserved byte then (2 ^ 32 - 1, ptr + 1)
      else if fieldWidth (length_form byte) ≤ field.length then
        (announced (length_form byte) field, ptr + 1 + fieldWidth (length_form byte))
      else (2 ^ 32 - 1, ptr + 1)) := by
  obtain ⟨size, behind, first⟩ := drop_facts split
  have room (width : Nat) : memory.length - ptr ≥ 1 + width ↔ width ≤ field.length := by omega
  have apart : VAR_LEN8 ≠ VAR_LEN16 ∧ VAR_LEN8 ≠ VAR_LEN32 ∧ VAR_LEN8 ≠ VAR_LEN64 ∧ VAR_LEN16 ≠ VAR_LEN32 ∧
      VAR_LEN16 ≠ VAR_LEN64 ∧ VAR_LEN32 ≠ VAR_LEN64 := by decide
  obtain ⟨apart1, apart2, apart3, apart4, apart5, apart6⟩ := apart
  simp only [variant_read_size, first, bind, Except.bind, UInt8.ofNat_toNat, room]
  by_cases long : byte &&& VAR_LEN_FIELD ≠ 0
  · have field (width : Nat) (form : length_form byte = .field width) (known : reserved byte = false) :
        (if width ≤ field.length then (load memory (ptr + 1) width).map (fun length => (length, ptr + 1 + width))
          else .ok (2 ^ 32 - 1, ptr + 1)) = .ok (
          if reserved byte then (2 ^ 32 - 1, ptr + 1)
          else if fieldWidth (length_form byte) ≤ field.length then
            (announced (length_form byte) field, ptr + 1 + fieldWidth (length_form byte))
          else (2 ^ 32 - 1, ptr + 1)) := by
      rw [form, known]
      by_cases fits : width ≤ field.length
      · simp [fits, load_field split fits, Except.map, fieldWidth, announced]
      · simp [fits, fieldWidth]
    rcases len_mask_cases byte with mask | mask | mask | mask
    · have form : length_form byte = .field 1 := by simp [length_form, long, mask]
      rw [← field 1 form (by simp [reserved, mask, apart3])]
      simp only [long, mask, apart1, apart2, pure, Except.pure, if_true, true_and, false_and, if_false, ne_eq, not_false_eq_true]
      rfl
    · have form : length_form byte = .field 2 := by simp [length_form, long, mask, apart1.symm]
      rw [← field 2 form (by simp [reserved, mask, apart5])]
      simp only [long, mask, apart1.symm, apart4, pure, Except.pure, if_true, true_and, false_and, if_false, ne_eq, not_false_eq_true]
      rfl
    · have form : length_form byte = .field 4 := by simp [length_form, long, mask, apart2.symm, apart4.symm]
      rw [← field 4 form (by simp [reserved, mask, apart6])]
      simp only [long, mask, apart2.symm, apart4.symm, pure, Except.pure, if_true, true_and, false_and, if_false, ne_eq,
        not_false_eq_true]
      rfl
    · have known : reserved byte = true := by simp [reserved, mask, long]
      simp [long, mask, known, apart3.symm, apart5.symm, apart6.symm, pure, Except.pure]
  · have known : reserved byte = false := by simp [reserved, not_not.mp long]
    by_cases empty : typeOf byte = VAR_TYPE_EMPTY
    · simp [long, known, length_form, empty, fieldWidth, announced, pure, Except.pure]
    · rcases len_mask_cases byte with mask | mask | mask | mask <;>
        simp [long, known, length_form, empty, mask, apart1.symm, apart2.symm, apart3.symm, apart4.symm, apart5.symm, apart6.symm,
          fieldWidth, announced, pure, Except.pure]

private theorem variant_read_size_total (inside : ptr < memory.length) :
    ∃ length next, variant_read_size memory ptr (memory.length - ptr) = .ok (length, next) ∧ ptr < next ∧ next ≤ memory.length := by
  obtain ⟨byte, field, split⟩ : ∃ byte field, memory.drop ptr = byte :: field :=
    List.exists_cons_of_ne_nil (by simpa using inside)
  obtain ⟨size, -, -⟩ := drop_facts split
  rw [variant_read_size_eq split]
  split_ifs with known fits
  · exact ⟨_, _, rfl, by omega, by omega⟩
  · exact ⟨_, _, rfl, by omega, by omega⟩
  · exact ⟨_, _, rfl, by omega, by omega⟩

/-- `Variant_FromBuffer` reads what `FromPacket` reads, except behind a reserved
    header. -/
theorem variant_from_buffer_eq (split : memory.drop ptr = byte :: field) (small : memory.length - ptr ≤ ULONG_MAX) :
    variant_from_buffer memory ptr (memory.length - ptr) = .ok (
      if reserved byte then none
      else
        match from_packet ⟨byte :: field, 0⟩ with
        | .error _ => none
        | .ok (packed, after) =>
          some (⟨byte &&& VAR_TYPE_MASK, packed.payload.length, packed.payload.length, ptr + (after.position - packed.payload.length)⟩,
            after.position)) := by
  obtain ⟨size, behind, first⟩ := drop_facts split
  have fits : ¬ (memory.length - ptr < 1 ∨ memory.length - ptr > ULONG_MAX) := by omega
  unfold ULONG_MAX at small
  have whole : (memory.length - ptr) % 2 ^ 32 = memory.length - ptr := Nat.mod_eq_of_lt (by omega)
  simp only [variant_from_buffer, if_neg fits, first, whole, variant_read_size_eq split, bind, Except.bind, UInt8.ofNat_toNat, pure,
    Except.pure]
  cases known : reserved byte with
  | true => simp
  | false =>
    simp only [Bool.false_eq_true, if_false]
    by_cases complete : fieldWidth (length_form byte) + announced (length_form byte) field ≤ field.length
    · have packet := from_packet_cons_iff.mpr ⟨complete, rfl, rfl⟩
      have length : ((field.drop (fieldWidth (length_form byte))).take (announced (length_form byte) field)).length =
          announced (length_form byte) field := by
        rw [List.length_take, List.length_drop]
        omega
      have wide : fieldWidth (length_form byte) ≤ field.length := by omega
      simp only [packet, if_pos wide, length]
      rw [if_neg (by omega)]
      simp only [Except.ok.injEq, Option.some.injEq, Prod.mk.injEq, VARIANT.mk.injEq, true_and]
      omega
    · have refused : ∃ raised, from_packet ⟨byte :: field, 0⟩ = .error raised := by
        cases outcome : from_packet ⟨byte :: field, 0⟩ with
        | error raised => exact ⟨raised, rfl⟩
        | ok pair => exact absurd (from_packet_cons_iff.mp outcome).1 complete
      obtain ⟨raised, refused⟩ := refused
      rw [refused]
      by_cases wide : fieldWidth (length_form byte) ≤ field.length
      · simp only [if_pos wide]
        rw [if_pos (by omega)]
      · simp only [if_neg wide]
        rw [if_pos (Or.inl trivial)]

private theorem variant_from_buffer_total (inside : ptr < memory.length) (small : memory.length - ptr ≤ ULONG_MAX) :
    ∃ found, variant_from_buffer memory ptr (memory.length - ptr) = .ok found := by
  obtain ⟨byte, field, split⟩ : ∃ byte field, memory.drop ptr = byte :: field :=
    List.exists_cons_of_ne_nil (by simpa using inside)
  exact ⟨_, variant_from_buffer_eq split small⟩

/-! ## Walks stay inside -/

/-- Looking at an entry reads nothing outside memory and leaves a byte to read. -/
def Inside (memory : Bytes) (look : Nat → Nat → Except Trap (Option (Bool × Nat))) : Prop :=
  ∀ turn ptr, ptr < memory.length →
    look turn ptr = .ok none ∨ ∃ wanted next, look turn ptr = .ok (some (wanted, next)) ∧ ptr ≤ next ∧ next < memory.length

theorem walk_total (small : memory.length ≤ ULONG_MAX) (inside : Inside memory look) (fuel turn ptr : Nat)
    (enough : memory.length - ptr < fuel) : ∃ found, walk memory look fuel turn ptr = .ok found := by
  induction fuel generalizing turn ptr with
  | zero => omega
  | succ fuel ih =>
    rw [walk]
    by_cases before : ptr < memory.length
    · rw [if_pos before]
      rcases inside turn ptr before with left | ⟨wanted, next, looked, forth, within⟩
      · exact ⟨none, by simp [left, bind, Except.bind, pure, Except.pure]⟩
      · cases wanted with
        | true =>
          obtain ⟨found, read⟩ := variant_from_buffer_total within (by omega)
          exact ⟨found.map Prod.fst, by simp [looked, read, bind, Except.bind, pure, Except.pure]⟩
        | false =>
          obtain ⟨length, behind, read, moved, -⟩ := variant_read_size_total within
          obtain ⟨found, later⟩ := ih (turn + 1) (behind + length) (by omega)
          exact ⟨found, by simp [looked, read, later, bind, Except.bind]⟩
    · rw [if_neg before]
      exact ⟨none, rfl⟩

private theorem look_name_inside (memory name : Bytes) : Inside memory (fun _ => look_name memory name) := by
  intro turn ptr before
  simp only [look_name, load_of_le (show ptr + 1 ≤ memory.length by omega), bind, Except.bind, pure, Except.pure]
  generalize leNat ((memory.drop ptr).take 1) = length
  by_cases beyond : ptr + 1 + length ≥ memory.length
  · exact .inl (by rw [if_pos beyond])
  · refine .inr ?_
    rw [if_neg beyond]
    by_cases same : name.length = length
    · rw [if_pos same, load_bytes_of_le (by omega)]
      exact ⟨_, _, rfl, by omega, by omega⟩
    · rw [if_neg same]
      exact ⟨_, _, rfl, by omega, by omega⟩

private theorem look_index_inside (memory : Bytes) (index : UInt32) : Inside memory (fun _ => look_index memory index) := by
  intro turn ptr before
  by_cases beyond : ptr + 4 ≥ memory.length
  · exact .inl (by simp [look_index, beyond, pure, Except.pure])
  · refine .inr ⟨UInt32.ofNat (leNat ((memory.drop ptr).take 4)) = index, ptr + 4, ?_, by omega, by omega⟩
    simp only [look_index, if_neg beyond, load_of_le (show ptr + 4 ≤ memory.length by omega), bind, Except.bind, pure, Except.pure]

private theorem look_item_inside (memory : Bytes) (pos : UInt32) : Inside memory (look_item pos) := by
  intro turn ptr before
  exact .inr ⟨_, ptr, rfl, le_refl _, before⟩

private theorem search_total {var : Packed} (small : var.payload.length ≤ ULONG_MAX) (inside : Inside var.payload look) :
    ∃ found, search kind var look = .ok found := by
  unfold search
  split_ifs
  · exact ⟨none, rfl⟩
  · exact walk_total small inside _ _ _ (by omega)

/-- One call of `Variant_Next` on bytes that are left, and the calls after it. -/
private theorem iterate_cons (split : memory.drop ptr = byte :: field) (small : memory.length - ptr ≤ ULONG_MAX)
    (fuel : Nat) :
    iterate memory (fuel + 1) ⟨ptr, memory.length⟩ =
      if reserved byte then .ok []
      else
        match from_packet ⟨byte :: field, 0⟩ with
        | .error _ => .ok []
        | .ok (packed, after) => do
          let more ← iterate memory fuel ⟨ptr + after.position, memory.length⟩
          return ⟨byte &&& VAR_TYPE_MASK, packed.payload.length, packed.payload.length,
            ptr + (after.position - packed.payload.length)⟩ :: more := by
  simp only [iterate, variant_next, variant_from_buffer_eq split small, bind, Except.bind, pure, Except.pure]
  cases reserved byte with
  | true => rfl
  | false => cases from_packet ⟨byte :: field, 0⟩ <;> rfl

private theorem iterate_end (done : memory.length ≤ ptr) (fuel : Nat) :
    iterate memory (fuel + 1) ⟨ptr, memory.length⟩ = .ok [] := by
  have none : memory.length - ptr = 0 := by omega
  simp [iterate, variant_next, variant_from_buffer, none, bind, Except.bind, pure, Except.pure]

private theorem iterate_total (small : memory.length ≤ ULONG_MAX) (fuel ptr : Nat) (enough : memory.length - ptr < fuel)
    : ∃ items, iterate memory fuel ⟨ptr, memory.length⟩ = .ok items := by
  induction fuel generalizing ptr with
  | zero => omega
  | succ fuel ih =>
    by_cases before : ptr < memory.length
    · obtain ⟨byte, field, split⟩ : ∃ byte field, memory.drop ptr = byte :: field :=
        List.exists_cons_of_ne_nil (by simpa using before)
      rw [iterate_cons split (by omega)]
      split_ifs
      · exact ⟨[], rfl⟩
      · cases outcome : from_packet ⟨byte :: field, 0⟩ with
        | error raised => exact ⟨[], rfl⟩
        | ok pair =>
          obtain ⟨packed, after⟩ := pair
          have moved : 0 < after.position := by
            rw [(from_packet_cons_iff.mp outcome).2.2]
            simp only
            omega
          obtain ⟨items, later⟩ := ih (ptr + after.position) (by omega)
          simp only [later, bind, Except.bind, pure, Except.pure]
          exact ⟨_, rfl⟩
    · exact ⟨[], iterate_end (by omega) fuel⟩

/-! ## Walks find what `Find` and `At` find -/

/-- An entry with the type byte that its packet starts with. -/
def typed (kind : Kind) : Decoder CException (UInt8 × Key × Packed) := fun bytes =>
  match entry kind bytes with
  | .more => .more
  | .fail error => .fail error
  | .item pair rest => .item (bytes.getD (write_key pair.1).length 0, pair) rest

def typed_entries (kind : Kind) (payload : Bytes) : List (UInt8 × Key × Packed) := (run (typed kind) payload).1

/-- The entries in front of the first one with a reserved header. -/
def readable (kind : Kind) (payload : Bytes) : List (UInt8 × Key × Packed) :=
  (typed_entries kind payload).takeWhile (fun entry => !reserved entry.1)

private theorem typed_productive (kind : Kind) : Productive (typed kind) where
  idle := by simp [typed, (entry_productive kind).idle]
  splits bytes value rest found := by
    unfold typed at found
    cases verdict : entry kind bytes with
    | more => simp [verdict] at found
    | fail error => simp [verdict] at found
    | item pair after =>
      simp only [verdict, Step.item.injEq] at found
      obtain ⟨-, rfl⟩ := found
      exact (entry_productive kind).splits _ _ _ verdict

theorem typed_entries_raw (kind : Kind) (payload : Bytes) :
    (typed_entries kind payload).map Prod.snd = (raw_entries kind payload).1 := by
  have coarser : ∀ bytes, entry kind bytes = (typed kind bytes).map Prod.snd := by
    intro bytes
    unfold typed
    cases entry kind bytes <;> rfl
  rw [raw_entries, run_map Prod.snd (typed_productive kind) coarser payload, typed_entries]

private theorem parsed_step {rest end_ : Bytes} (nonempty : rest ≠ [])
    (parsed : (raw_entries kind rest).2 = .pending end_) :
    ∃ key byte field packed after, KeyFits kind key ∧ rest = write_key key ++ byte :: field ∧
      from_packet ⟨byte :: field, 0⟩ = .ok (packed, after) ∧
      typed_entries kind rest = (byte, key, packed) :: typed_entries kind after.left ∧
      (raw_entries kind after.left).2 = .pending end_ := by
  cases verdict : entry kind rest with
  | more =>
    unfold entry at verdict
    rw [if_neg nonempty] at verdict
    cases read : read_entry kind ⟨rest, 0⟩ <;> simp [read] at verdict
  | fail error =>
    rw [raw_entries, run_fail (entry_productive kind) verdict] at parsed
    cases parsed
  | item pair left =>
    obtain ⟨key, packed⟩ := pair
    obtain ⟨fits, header, valid, split⟩ := entry_item_iff.mp verdict
    obtain ⟨byte, field, rfl, -⟩ := id valid
    have packet : from_packet ⟨byte :: (field ++ packed.payload ++ left), 0⟩ =
        .ok (packed, ⟨left, 0 + (byte :: field).length + packed.payload.length⟩) :=
      from_packet_ok_iff.mpr ⟨byte :: field, valid, rfl, rfl⟩
    refine ⟨key, byte, field ++ packed.payload ++ left, packed, _, fits, by simpa using split, packet, ?_, ?_⟩
    · have finer : typed kind rest = .item (byte, key, packed) left := by
        rw [typed, verdict, split]
        simp
      rw [typed_entries, run_item (typed_productive kind) finer, typed_entries]
    · rw [raw_entries, run_item (entry_productive kind) verdict] at parsed
      exact parsed

/-- What looking at the start of an entry says, by the entry's turn and key. -/
def Looks (kind : Kind) (memory : Bytes) (wanted : Nat → Key → Bool) (look : Nat → Nat → Except Trap (Option (Bool × Nat))) : Prop :=
  ∀ turn ptr key byte field, KeyFits kind key → memory.drop ptr = write_key key ++ byte :: field →
    look turn ptr = .ok (some (wanted turn key, ptr + (write_key key).length))

/-- The first entry that is wanted in its turn. -/
def seek (wanted : Nat → Key → Bool) : Nat → List (UInt8 × Key × Packed) → Option Packed
  | _, [] => none
  | turn, (_, key, packed) :: rest => if wanted turn key then some packed else seek wanted (turn + 1) rest

private theorem typeOf_masked (byte : UInt8) : typeOf (byte &&& VAR_TYPE_MASK) = typeOf byte := by
  simp [typeOf, UInt8.and_assoc]

/-- What a variant read behind `ptr` shows. -/
private theorem view_read {packed : Packed} {after : Cursor} (split : memory.drop ptr = byte :: field)
    (read : from_packet ⟨byte :: field, 0⟩ = .ok (packed, after)) :
    view memory ⟨byte &&& VAR_TYPE_MASK, packed.payload.length, packed.payload.length,
      ptr + (after.position - packed.payload.length)⟩ = packed ∧ memory.drop (ptr + after.position) = after.left := by
  obtain ⟨header, valid, whole, position⟩ := from_packet_ok_iff.mp read
  simp only [Nat.zero_add] at whole position
  have front : after.position - packed.payload.length = header.length := by omega
  have typed : packed.type = typeOf byte := by
    obtain ⟨first, behind, rfl, known, -⟩ := valid
    simp only [List.cons_append, List.cons.injEq] at whole
    rw [whole.1, known]
  constructor
  · rw [view, typeOf_masked, front, ← List.drop_drop, split, whole, List.append_assoc, List.drop_left, List.take_left, ← typed]
  · rw [← List.drop_drop, split, whole, position, ← List.length_append, List.drop_left]

theorem walk_parsed {wanted : Nat → Key → Bool} (small : memory.length ≤ ULONG_MAX)
    (looks : Looks kind memory wanted look) {end_ : Bytes} (fuel turn ptr : Nat) (enough : memory.length - ptr < fuel)
    (parsed : (raw_entries kind (memory.drop ptr)).2 = .pending end_) :
    ∃ found, walk memory look fuel turn ptr = .ok found ∧
      found.map (view memory) = seek wanted turn (readable kind (memory.drop ptr)) := by
  induction fuel generalizing turn ptr with
  | zero => omega
  | succ fuel ih =>
    rw [walk]
    by_cases before : ptr < memory.length
    · obtain ⟨key, byte, field, packed, after, fits, split, read, entries, later⟩ := parsed_step (by simpa using before) parsed
      have looked := looks turn ptr key byte field fits split
      have moved : memory.drop (ptr + (write_key key).length) = byte :: field := by
        rw [← List.drop_drop, split, List.drop_left]
      obtain ⟨size, -, -⟩ := drop_facts moved
      obtain ⟨shown, rest⟩ := view_read moved read
      obtain ⟨complete, -, position⟩ := from_packet_cons_iff.mp read
      rw [if_pos before, looked, readable, entries, List.takeWhile_cons]
      cases wants : wanted turn key with
      | true =>
        simp only [bind, Except.bind, variant_from_buffer_eq moved (by omega), pure, Except.pure, Except.ok.injEq, exists_eq_left']
        cases known : reserved byte with
        | true => simp [known, seek]
        | false => simp [known, seek, wants, read, shown]
      | false =>
        simp only [bind, Except.bind, variant_read_size_eq moved]
        cases known : reserved byte with
        | true =>
          -- The walk is sent behind the end of the payload.
          have beyond : ¬ ptr + (write_key key).length + 1 + (2 ^ 32 - 1) < memory.length := by
            unfold ULONG_MAX at small
            omega
          obtain ⟨left, rfl⟩ : ∃ left, fuel = left + 1 := ⟨fuel - 1, by omega⟩
          refine ⟨none, ?_, ?_⟩
          · simp only [if_true, walk, if_neg beyond]
            rfl
          · simp [known, seek]
        | false =>
          have next : ptr + (write_key key).length + 1 + fieldWidth (length_form byte) + announced (length_form byte) field =
              ptr + (write_key key).length + after.position := by
            rw [position]
            simp only
            omega
          have positive : 0 < after.position := by
            rw [position]
            simp only
            omega
          obtain ⟨found, walked, same⟩ := ih (turn + 1) (ptr + (write_key key).length + after.position) (by omega) (by rw [rest]; exact later)
          refine ⟨found, ?_, ?_⟩
          · simp only [Bool.false_eq_true, if_false, if_pos (show fieldWidth (length_form byte) ≤ field.length by omega), next]
            exact walked
          · rw [same, rest, readable]
            simp [known, seek, wants]
    · rw [if_neg before]
      have done : memory.drop ptr = [] := by simpa using before
      refine ⟨none, rfl, ?_⟩
      rw [done, readable, typed_entries, run_more (typed_productive kind).idle]
      rfl

/-- `Variant_Next` yields the entries of a list up to the first reserved header. -/
private theorem iterate_parsed (small : memory.length ≤ ULONG_MAX) {end_ : Bytes} (fuel ptr : Nat)
    (enough : memory.length - ptr < fuel) (parsed : (raw_entries .list (memory.drop ptr)).2 = .pending end_) :
    ∃ items, iterate memory fuel ⟨ptr, memory.length⟩ = .ok items ∧
      items.map (view memory) = (readable .list (memory.drop ptr)).map (fun entry => entry.2.2) := by
  induction fuel generalizing ptr with
  | zero => omega
  | succ fuel ih =>
    by_cases before : ptr < memory.length
    · obtain ⟨key, byte, field, packed, after, fits, split, read, entries, later⟩ := parsed_step (by simpa using before) parsed
      have bare : write_key key = [] := by
        cases key with
        | item => rfl
        | name text => exact fits.elim
        | id value => exact fits.elim
      rw [bare, List.nil_append] at split
      obtain ⟨shown, rest⟩ := view_read split read
      have positive : 0 < after.position := by
        rw [(from_packet_cons_iff.mp read).2.2]
        simp only
        omega
      rw [iterate_cons split (by omega), readable, entries, List.takeWhile_cons]
      cases known : reserved byte with
      | true => exact ⟨[], by simp, by simp⟩
      | false =>
        obtain ⟨items, walked, same⟩ := ih (ptr + after.position) (by omega) (by rw [rest]; exact later)
        rw [rest] at same
        simp only [Bool.false_eq_true, if_false, read, walked, bind, Except.bind, pure, Except.pure, Except.ok.injEq, exists_eq_left',
          List.map_cons, shown, same, readable]
        simp
    · have done : memory.drop ptr = [] := by simpa using before
      refine ⟨[], iterate_end (by omega) fuel, ?_⟩
      rw [done, readable, typed_entries, run_more (typed_productive .list).idle]
      rfl

private theorem look_name_looks (memory name : Bytes) : Looks .map memory (fun _ key => key = .name name) (fun _ => look_name memory name) := by
  intro turn ptr key byte field fits split
  cases key with
  | item => exact fits.elim
  | id value => exact fits.elim
  | name text =>
    have short : text.length < 256 := fits
    have spelled : write_key (.name text) = UInt8.ofNat text.length :: text := by
      rw [write_key, Nat.mod_eq_of_lt short, List.take_length]
    rw [spelled, List.cons_append] at split
    obtain ⟨size, behind, first⟩ := drop_facts split
    have length : (UInt8.ofNat text.length).toNat = text.length := by simp [Nat.mod_eq_of_lt short]
    rw [length] at first
    rw [List.length_append, List.length_cons] at size
    rw [spelled, List.length_cons]
    simp only [look_name, first, bind, Except.bind, pure, Except.pure, if_neg (show ¬ ptr + 1 + text.length ≥ memory.length by omega),
      Key.name.injEq]
    by_cases same : name.length = text.length
    · rw [if_pos same, load_bytes_of_le (by omega), behind, same, List.take_left]
      simp only [Except.ok.injEq, Option.some.injEq, Prod.mk.injEq, true_and]
      omega
    · have other : text ≠ name := fun equal => same (by rw [equal])
      rw [if_neg same]
      simp only [other, decide_false, Except.ok.injEq, Option.some.injEq, Prod.mk.injEq, true_and]
      omega

private theorem look_index_looks (memory : Bytes) (index : UInt32) :
    Looks .index memory (fun _ key => key = .id index) (fun _ => look_index memory index) := by
  intro turn ptr key byte field fits split
  cases key with
  | item => exact fits.elim
  | name text => exact fits.elim
  | id value =>
    have size := congrArg List.length split
    rw [List.length_drop, List.length_append, write_key, leBytes_length, List.length_cons] at size
    have read : leNat ((memory.drop ptr).take 4) = value.toNat := by
      rw [split, write_key, List.take_left' (leBytes_length 4 _)]
      exact leNat_leBytes_of_lt value.toNat_lt
    simp only [look_index, if_neg (show ¬ ptr + 4 ≥ memory.length by omega), load_of_le (show ptr + 4 ≤ memory.length by omega), read,
      bind, Except.bind, pure, Except.pure, UInt32.ofNat_toNat, write_key, leBytes_length, Key.id.injEq]

private theorem look_item_looks (memory : Bytes) (pos : UInt32) :
    Looks .list memory (fun turn _ => UInt32.ofNat turn = pos) (look_item pos) := by
  intro turn ptr key byte field fits split
  cases key with
  | item => rfl
  | name text => exact fits.elim
  | id value => exact fits.elim

private theorem seek_key (key : Key) (turn : Nat) (entries : List (UInt8 × Key × Packed)) :
    seek (fun _ other => other = key) turn entries = (entries.find? (fun entry => entry.2.1 = key)).map (fun entry => entry.2.2) := by
  induction entries generalizing turn with
  | nil => rfl
  | cons entry rest ih =>
    obtain ⟨byte, other, packed⟩ := entry
    rw [seek, List.find?_cons, ih]
    by_cases same : other = key
    · simp [same]
    · simp [same]

private theorem seek_item (pos : UInt32) (turn : Nat) (entries : List (UInt8 × Key × Packed)) (reached : turn ≤ pos.toNat)
    (few : turn + entries.length ≤ 2 ^ 32) :
    seek (fun turn _ => UInt32.ofNat turn = pos) turn entries = (entries[pos.toNat - turn]?).map (fun entry => entry.2.2) := by
  induction entries generalizing turn with
  | nil => rfl
  | cons entry rest ih =>
    obtain ⟨byte, key, packed⟩ := entry
    rw [List.length_cons] at few
    have value : (UInt32.ofNat turn).toNat = turn := UInt32.toNat_ofNat_of_lt' (show turn < 2 ^ 32 by omega)
    rw [seek]
    by_cases here : UInt32.ofNat turn = pos
    · have none : pos.toNat - turn = 0 := by rw [← here, value]; omega
      simp [here, none]
    · have later : turn ≠ pos.toNat := fun equal => here (by rw [equal, UInt32.ofNat_toNat])
      have shifted : pos.toNat - turn = pos.toNat - (turn + 1) + 1 := by omega
      rw [ih (turn + 1) (by omega) (by omega), shifted]
      simp [here]

/-! ## Where the two readers agree -/

section Front
variable {α β : Type} {front whole : List α}

private theorem find_front_iff (starts : front <+: whole) (sought : α → Bool) (label : α → β) :
    (front.find? sought).map label = (whole.find? sought).map label ↔
      (∃ entry ∈ front, sought entry) ∨ ∀ entry ∈ whole, ¬ sought entry := by
  obtain ⟨rest, rfl⟩ := starts
  rw [List.find?_append]
  cases found : front.find? sought with
  | some entry =>
    have present : ∃ entry ∈ front, sought entry := ⟨entry, List.mem_of_find?_eq_some found, List.find?_some found⟩
    simp [present]
  | none =>
    have absent : ¬ ∃ entry ∈ front, sought entry := by simpa using List.find?_eq_none.mp found
    have missing := List.find?_eq_none.mp found
    simp only [absent, false_or, Option.none_or, Option.map_none]
    cases behind : rest.find? sought with
    | some entry =>
      simp only [Option.map_some, reduceCtorEq, false_iff]
      intro nowhere
      exact nowhere entry (List.mem_append_right _ (List.mem_of_find?_eq_some behind)) (List.find?_some behind)
    | none =>
      simp only [Option.map_none, true_iff]
      intro entry member
      rcases List.mem_append.mp member with first | second
      · exact missing entry first
      · exact List.find?_eq_none.mp behind entry second

private theorem item_front_iff (starts : front <+: whole) (place : Nat) (label : α → β) :
    (front[place]?).map label = (whole[place]?).map label ↔ place < front.length ∨ whole.length ≤ place := by
  obtain ⟨rest, rfl⟩ := starts
  by_cases inside : place < front.length
  · simp [inside, List.getElem?_append_left inside]
  · rw [List.getElem?_eq_none (by omega), List.length_append]
    by_cases beyond : front.length + rest.length ≤ place
    · simp [beyond]
    · rw [List.getElem?_eq_getElem (by rw [List.length_append]; omega)]
      simp [inside, beyond]

end Front

/-- `CVariant` reads the payload to its end. -/
def Parses (kind : Kind) (payload : Bytes) : Prop := ∃ end_, (raw_entries kind payload).2 = .pending end_

/-- An entry under the key stands in front of the first reserved header, or no
    entry is under it. -/
def Reachable (kind : Kind) (payload : Bytes) (key : Key) : Prop :=
  (∃ entry ∈ readable kind payload, entry.2.1 = key) ∨ ∀ entry ∈ typed_entries kind payload, entry.2.1 ≠ key

private theorem find_raw_parsed (parses : Parses kind payload) (key : Key) :
    find_raw kind payload key = .ok (((typed_entries kind payload).find? (fun entry => entry.2.1 = key)).map (fun entry => entry.2.2)) := by
  obtain ⟨end_, parsed⟩ := parses
  rw [find_raw, ← typed_entries_raw, parsed, List.find?_map]
  have same : (fun pair : Key × Packed => decide (pair.1 = key)) ∘ Prod.snd = fun entry : UInt8 × Key × Packed => decide (entry.2.1 = key) := rfl
  rw [same]
  cases (typed_entries kind payload).find? (fun entry => entry.2.1 = key) <;> rfl

private theorem typed_entries_nil (kind : Kind) : typed_entries kind [] = [] := by
  rw [typed_entries, run_more (typed_productive kind).idle]

private theorem search_parsed {wanted : Nat → Key → Bool} (small : payload.length < 2 ^ 32)
    (parses : Parses kind payload) (looks : Looks kind payload wanted look) :
    ∃ found, search kind ⟨kind.type, payload⟩ look = .ok found ∧ found.map (view payload) = seek wanted 0 (readable kind payload) := by
  obtain ⟨end_, parsed⟩ := parses
  unfold search
  by_cases none : payload.length = 0
  · have empty : payload = [] := List.length_eq_zero_iff.mp none
    exact ⟨Option.none, if_pos (Or.inl none), by simp [empty, readable, typed_entries_nil, seek]⟩
  · rw [if_neg (by simp [none])]
    exact walk_parsed (by unfold ULONG_MAX; omega) looks (payload.length + 1) 0 0 (by omega) parsed

private theorem search_agrees_iff {key : Key} (small : payload.length < 2 ^ 32) (parses : Parses kind payload)
    (looks : Looks kind payload (fun _ other => other = key) look) :
    (∃ found, search kind ⟨kind.type, payload⟩ look = .ok found ∧ find_raw kind payload key = .ok (found.map (view payload))) ↔
      Reachable kind payload key := by
  have starts : readable kind payload <+: typed_entries kind payload := List.takeWhile_prefix _
  have agrees := find_front_iff starts (fun entry => entry.2.1 = key) (fun entry => entry.2.2)
  simp only [decide_eq_true_eq] at agrees
  obtain ⟨found, searched, shown⟩ := search_parsed small parses looks
  rw [seek_key] at shown
  rw [Reachable, ← agrees, find_raw_parsed parses, searched, ← shown]
  simp only [Except.ok.injEq, exists_eq_left']
  exact eq_comm

private theorem load_parsed (parses : Parses kind payload) :
    VariantValue.load kind payload = .ok (collect kind (raw_entries kind payload).1) :=
  VariantValue.load_ok_iff.mpr ⟨parses, rfl⟩

private theorem load_list (parses : Parses .list payload) :
    VariantValue.load .list payload = .ok ((typed_entries .list payload).map Prod.snd) := by
  have arranged : Arranged .list (raw_entries .list payload).1 := by
    refine ⟨fun pair member => ?_, fun ordered => absurd rfl ordered⟩
    have fits := (raw_entries_fit .list payload pair member).1
    refine ⟨fits, ?_⟩
    cases named : pair.1 with
    | item => rfl
    | name text => rw [named] at fits; exact fits.elim
    | id value => rw [named] at fits; exact fits.elim
  rw [load_parsed parses, collect_of_arranged arranged, typed_entries_raw]

/-- `At` on a map in memory finds what `Find` finds in its payload, if no name
    has a NUL in it. -/
private theorem find_loaded {key : Key} (keyed : kind ≠ .list) (parses : Parses kind payload)
    (plain : ∀ pair ∈ (raw_entries kind payload).1, pair.1.stored = pair.1) :
    ∃ entries, VariantValue.load kind payload = .ok entries ∧ find_raw kind payload key = .ok (OrderedMap.find key entries) :=
  ⟨_, load_parsed parses, VariantValue.find_raw_loaded keyed (load_parsed parses) plain key⟩

private theorem typed_entries_few (kind : Kind) (payload : Bytes) : (typed_entries kind payload).length ≤ payload.length := by
  have paid := run_cost (typed_productive kind) (fun _ => 1) (fun bytes value rest found => by
    have shorter := (typed_productive kind).shrinks _ _ _ found
    omega) payload
  simpa [typed_entries] using paid

private theorem at_agrees_iff (small : payload.length < 2 ^ 32) (parses : Parses .list payload) (pos : UInt32) :
    (∃ found entries, variant_at ⟨VAR_TYPE_LIST, payload⟩ pos = .ok found ∧ VariantValue.load .list payload = .ok entries ∧
        (entries[pos.toNat]?).map Prod.snd = found.map (view payload)) ↔
      pos.toNat < (readable .list payload).length ∨ (typed_entries .list payload).length ≤ pos.toNat := by
  have starts : readable .list payload <+: typed_entries .list payload := List.takeWhile_prefix _
  have few : 0 + (readable .list payload).length ≤ 2 ^ 32 := by
    have bound := starts.length_le
    have total := typed_entries_few .list payload
    omega
  obtain ⟨found, searched, shown⟩ := search_parsed small parses (look_item_looks payload pos)
  rw [seek_item pos 0 _ (Nat.zero_le _) few] at shown
  have called : variant_at ⟨VAR_TYPE_LIST, payload⟩ pos = .ok found := searched
  rw [← item_front_iff starts pos.toNat (fun entry => entry.2.2), called, load_list parses]
  constructor
  · rintro ⟨other, entries, same, loaded, equal⟩
    cases same
    cases loaded
    rw [shown] at equal
    simpa [List.getElem?_map, Function.comp_def] using equal.symm
  · intro equal
    refine ⟨found, _, rfl, rfl, ?_⟩
    rw [shown]
    simpa [List.getElem?_map, Function.comp_def] using equal.symm

private theorem items_agree_iff (small : payload.length < 2 ^ 32) (parses : Parses .list payload) :
    (∃ items entries, variant_items ⟨VAR_TYPE_LIST, payload⟩ = .ok items ∧ VariantValue.load .list payload = .ok entries ∧
        items.map (view payload) = entries.map Prod.snd) ↔
      ∀ entry ∈ typed_entries .list payload, reserved entry.1 = false := by
  obtain ⟨items, called, shown⟩ : ∃ items, variant_items ⟨VAR_TYPE_LIST, payload⟩ = .ok items ∧
      items.map (view payload) = (readable .list payload).map (fun entry => entry.2.2) := by
    obtain ⟨end_, parsed⟩ := parses
    unfold variant_items variant_begin
    by_cases none : payload.length = 0
    · have empty : payload = [] := List.length_eq_zero_iff.mp none
      exact ⟨[], by simp [empty], by simp [empty, readable, typed_entries_nil]⟩
    · simp only [if_neg (show ¬ (payload.length = 0 ∨ VAR_TYPE_LIST ≠ VAR_TYPE_LIST) by simp [none])]
      exact iterate_parsed (by unfold ULONG_MAX; omega) (payload.length + 1) 0 (by omega) parsed
  rw [called, load_list parses]
  constructor
  · rintro ⟨others, entries, same, loaded, equal⟩
    cases same
    cases loaded
    rw [shown, List.map_map] at equal
    have lengths := congrArg List.length equal
    rw [List.length_map, List.length_map] at lengths
    have whole : readable .list payload = typed_entries .list payload := (List.takeWhile_prefix _).eq_of_length lengths
    intro entry member
    simpa using List.takeWhile_eq_self_iff.mp whole entry member
  · intro plain
    have whole : readable .list payload = typed_entries .list payload :=
      List.takeWhile_eq_self_iff.mpr (fun entry member => by simp [plain entry member])
    refine ⟨items, _, rfl, rfl, ?_⟩
    rw [shown, whole, List.map_map]
    rfl

/-- `Variant_FromBuffer` succeeds exactly when `FromPacket` does, with the same
    type, payload and number of bytes. -/
def SamePacket (bytes : Bytes) : Prop :=
  ∃ found, variant_from_buffer bytes 0 bytes.length = .ok found ∧ ∀ packed consumed,
    (∃ variant, found = some (variant, consumed) ∧ view bytes variant = packed) ↔
      ∃ left, from_packet ⟨bytes, 0⟩ = .ok (packed, ⟨left, consumed⟩)

theorem samePacket_iff (bytes : Bytes) :
    SamePacket bytes ↔ ∀ header type payload rest, HeaderOf header type (List.length payload) → bytes = header ++ payload ++ rest →
      bytes.length < 2 ^ 32 ∧ reserved (header.headD 0) = false := by
  constructor
  · rintro ⟨found, called, agrees⟩ header type payload rest valid split
    have read : from_packet ⟨bytes, 0⟩ = .ok (⟨type, payload⟩, ⟨rest, 0 + header.length + payload.length⟩) :=
      from_packet_ok_iff.mpr ⟨header, valid, split, rfl⟩
    obtain ⟨variant, rfl, -⟩ := (agrees ⟨type, payload⟩ _).mpr ⟨rest, read⟩
    obtain ⟨byte, field, rfl, -⟩ := valid
    have start : bytes.drop 0 = byte :: (field ++ payload ++ rest) := by simpa using split
    by_cases small : bytes.length < 2 ^ 32
    · have equal := variant_from_buffer_eq start (by unfold ULONG_MAX; omega)
      rw [Nat.sub_zero, called] at equal
      cases known : reserved byte with
      | false => exact ⟨small, known⟩
      | true => simp [known] at equal
    · have refused : variant_from_buffer bytes 0 bytes.length = .ok none := by
        have huge : bytes.length < 1 ∨ bytes.length > ULONG_MAX := by
          unfold ULONG_MAX
          omega
        rw [variant_from_buffer, if_pos huge]
        rfl
      rw [refused] at called
      simp at called
  · intro plain
    cases bytes with
    | nil =>
      refine ⟨none, rfl, fun packed consumed => ⟨fun some => by simp at some, ?_⟩⟩
      rintro ⟨left, read⟩
      obtain ⟨header, ⟨byte, field, rfl, -⟩, split, -⟩ := from_packet_ok_iff.mp read
      simp at split
    | cons byte field =>
      have start : (byte :: field).drop 0 = byte :: field := rfl
      cases read : from_packet ⟨byte :: field, 0⟩ with
      | error raised =>
        have refused : variant_from_buffer (byte :: field) 0 (byte :: field).length = .ok none := by
          by_cases small : (byte :: field).length ≤ ULONG_MAX
          · have equal := variant_from_buffer_eq start (Nat.le_trans (Nat.sub_le _ _) small)
            rw [Nat.sub_zero, read] at equal
            simpa using equal
          · rw [variant_from_buffer, if_pos (Or.inr (Nat.lt_of_not_le small))]
            rfl
        exact ⟨none, refused, fun packed consumed => by simp [read]⟩
      | ok pair =>
        obtain ⟨packed, after⟩ := pair
        obtain ⟨header, valid, split, -⟩ := from_packet_ok_iff.mp read
        obtain ⟨small, known⟩ := plain header packed.type packed.payload after.left valid split
        obtain ⟨first, behind, rfl, -⟩ := valid
        simp only [List.cons_append, List.cons.injEq] at split
        obtain ⟨rfl, -⟩ := split
        have equal := variant_from_buffer_eq start (show (byte :: field).length - 0 ≤ ULONG_MAX by unfold ULONG_MAX; omega)
        obtain ⟨shown, -⟩ := view_read start read
        simp only [List.headD_cons] at known
        rw [Nat.sub_zero, known, read] at equal
        refine ⟨_, equal, fun other consumed => ⟨?_, ?_⟩⟩
        · rintro ⟨variant, same, viewed⟩
          simp only [Bool.false_eq_true, if_false, Option.some.injEq, Prod.mk.injEq] at same
          obtain ⟨rfl, rfl⟩ := same
          rw [← viewed, shown]
          exact ⟨after.left, read⟩
        · rintro ⟨left, same⟩
          cases read.symm.trans same
          exact ⟨_, rfl, shown⟩

private theorem variant_to_int_bounded_iff (var : Packed) (size : Nat) :
    (∀ written, variant_to_int var size = some written → written.length ≤ size) ↔
      (var.type = VAR_TYPE_SINT ∨ var.type = VAR_TYPE_UINT → size < var.payload.length → ∃ byte ∈ var.payload.drop size, byte ≠ 0) := by
  constructor
  · intro bounded integer long
    by_contra zeros
    have none : (var.payload.drop size).any (· ≠ 0) = false := by simpa using zeros
    have accepted : variant_to_int var size = some (var.payload ++ List.replicate (size - var.payload.length) 0) := by
      rw [variant_to_int, if_neg, if_neg]
      · rintro ⟨-, set⟩
        rw [none] at set
        cases set
      · rintro (empty | ⟨notSint, notUint⟩)
        · omega
        · rcases integer with sint | uint
          · exact notSint sint
          · exact notUint uint
    have short := bounded _ accepted
    rw [List.length_append] at short
    omega
  · intro nonzero written called
    unfold variant_to_int at called
    split_ifs at called with refused long
    cases called
    rw [List.length_append, List.length_replicate]
    by_contra tooLong
    have integer : var.type = VAR_TYPE_SINT ∨ var.type = VAR_TYPE_UINT := by
      by_contra other
      exact refused (Or.inr (not_or.mp other))
    obtain ⟨byte, member, set⟩ := nonzero integer (by omega)
    refine long ⟨by omega, ?_⟩
    rw [List.any_eq_true]
    exact ⟨byte, member, by simpa using set⟩

/-- Exactly where the two readers of the format agree. A packet that `FromPacket`
    finds has fewer than 2^32 bytes in its buffer and no reserved header; an entry
    is searched for in front of the first reserved header; and an integer that is
    too long for its place is not zero from there on. No payload is read outside
    its bounds, and no loop is endless. -/
theorem readers_agree_iff (bytes : Bytes) :
    (SamePacket bytes ↔
      ∀ header type payload rest, HeaderOf header type (List.length payload) → bytes = header ++ payload ++ rest →
        bytes.length < 2 ^ 32 ∧ reserved (header.headD 0) = false) ∧
    (∀ var : Packed, var.payload.length < 2 ^ 32 →
      (∀ name, ∃ found, variant_find var name = .ok found) ∧ (∀ index, ∃ found, variant_get var index = .ok found) ∧
      (∀ pos, ∃ found, variant_at var pos = .ok found) ∧ ∃ items, variant_items var = .ok items) ∧
    (∀ (payload name : Bytes), payload.length < 2 ^ 32 → Parses .map payload →
      ((∃ found, variant_find ⟨VAR_TYPE_MAP, payload⟩ name = .ok found ∧
          find_raw .map payload (.name (c_str name)) = .ok (found.map (view payload))) ↔
        Reachable .map payload (.name (c_str name)))) ∧
    (∀ (payload : Bytes) (index : UInt32), payload.length < 2 ^ 32 → Parses .index payload →
      ((∃ found, variant_get ⟨VAR_TYPE_INDEX, payload⟩ index = .ok found ∧
          find_raw .index payload (.id index) = .ok (found.map (view payload))) ↔
        Reachable .index payload (.id index))) ∧
    (∀ (kind : Kind) (payload : Bytes) (key : Key), kind ≠ .list → Parses kind payload →
      (∀ pair ∈ (raw_entries kind payload).1, pair.1.stored = pair.1) →
      ∃ entries, VariantValue.load kind payload = .ok entries ∧ find_raw kind payload key = .ok (OrderedMap.find key entries)) ∧
    (∀ (payload : Bytes) (pos : UInt32), payload.length < 2 ^ 32 → Parses .list payload →
      ((∃ found entries, variant_at ⟨VAR_TYPE_LIST, payload⟩ pos = .ok found ∧ VariantValue.load .list payload = .ok entries ∧
          (entries[pos.toNat]?).map Prod.snd = found.map (view payload)) ↔
        pos.toNat < (readable .list payload).length ∨ (typed_entries .list payload).length ≤ pos.toNat)) ∧
    (∀ payload : Bytes, payload.length < 2 ^ 32 → Parses .list payload →
      ((∃ items entries, variant_items ⟨VAR_TYPE_LIST, payload⟩ = .ok items ∧ VariantValue.load .list payload = .ok entries ∧
          items.map (view payload) = entries.map Prod.snd) ↔
        ∀ entry ∈ typed_entries .list payload, reserved entry.1 = false)) ∧
    (∀ (var : Packed) (size : Nat), (∀ written, variant_to_int var size = some written → written.length ≤ size) ↔
      (var.type = VAR_TYPE_SINT ∨ var.type = VAR_TYPE_UINT → size < var.payload.length → ∃ byte ∈ var.payload.drop size, byte ≠ 0)) := by
  refine ⟨samePacket_iff bytes, ?_, ?_, ?_, ?_, ?_, ?_, variant_to_int_bounded_iff⟩
  · intro var short
    have small : var.payload.length ≤ ULONG_MAX := by
      unfold ULONG_MAX
      omega
    refine ⟨?_, ?_, ?_, ?_⟩
    · intro name
      exact search_total small (look_name_inside var.payload (c_str name))
    · intro index
      exact search_total small (look_index_inside var.payload index)
    · intro pos
      exact search_total small (look_item_inside var.payload pos)
    · unfold variant_items variant_begin
      split_ifs
      · exact ⟨[], rfl⟩
      · exact iterate_total small _ _ (by omega)
  · intro payload name small parses
    exact search_agrees_iff small parses (look_name_looks payload (c_str name))
  · intro payload index small parses
    exact search_agrees_iff small parses (look_index_looks payload index)
  · intro kind payload key keyed parses plain
    exact find_loaded keyed parses plain
  · intro payload pos small parses
    exact at_agrees_iff small parses pos
  · intro payload small parses
    exact items_agree_iff small parses

/-- A map of two names, read by both. -/
theorem readers_agree_name :
    let payload : Bytes := [1, 97, 12, 7, 1, 98, 0x27, 3, 1, 2, 3]
    Parses .map payload ∧ Reachable .map payload (.name [98]) ∧
      ∃ found, variant_find ⟨VAR_TYPE_MAP, payload⟩ [98] = .ok found ∧
        find_raw .map payload (.name (c_str [98])) = .ok (found.map (view payload)) := by
  intro payload
  have parses : Parses .map payload := ⟨[], by decide⟩
  have reachable : Reachable .map payload (.name [98]) := .inl ⟨(0x27, .name [98], ⟨VAR_TYPE_BYTES, [1, 2, 3]⟩), by decide, rfl⟩
  exact ⟨parses, reachable, ((readers_agree_iff payload).2.2.1 payload [98] (by decide) parses).mpr reachable⟩

/-- A reserved header that only `FromPacket` reads, and an integer of eight bytes
    that is written to a place of one. -/
theorem readers_disagree :
    from_packet ⟨[0xE7, 1, 0, 0, 0, 0xAA], 0⟩ = .ok (⟨VAR_TYPE_BYTES, [0xAA]⟩, ⟨[], 6⟩) ∧
    variant_from_buffer [0xE7, 1, 0, 0, 0, 0xAA] 0 6 = .ok none ∧ ¬ SamePacket [0xE7, 1, 0, 0, 0, 0xAA] ∧
    variant_to_int ⟨VAR_TYPE_UINT, [1, 0, 0, 0, 0, 0, 0, 0]⟩ 1 = some [1, 0, 0, 0, 0, 0, 0, 0] := by
  refine ⟨by decide, by decide, ?_, by decide⟩
  rintro ⟨found, called, agrees⟩
  have refused : variant_from_buffer [0xE7, 1, 0, 0, 0, 0xAA] 0 6 = .ok none := by decide
  have read : from_packet ⟨[0xE7, 1, 0, 0, 0, 0xAA], 0⟩ = .ok (⟨VAR_TYPE_BYTES, [0xAA]⟩, ⟨[], 6⟩) := by decide
  obtain ⟨variant, rfl, -⟩ := (agrees _ _).mpr ⟨_, read⟩
  cases refused.symm.trans called

end TaskExplorer.CReader
