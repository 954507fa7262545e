import TaskExplorer.Buffer

/-!
# A buffer is a list of bytes with a cursor

Every operation is compared with the one on lists. All of them agree, except that
`RemoveData` moves more bytes than there are behind the gap, does not take the
position along, and takes -1 for the whole buffer; `ReplaceData` removes before it
knows whether it can insert; and `InsertData` does not look whether its offset is
in the buffer.
-/

namespace TaskExplorer.Buffer
open TaskExplorer.Memory Transition
set_option linter.unusedSimpArgs false

/-! ## Sizes -/

theorem plus_small {left right : Nat} (small : left + right < SIZE) : plus left right = left + right := Nat.mod_eq_of_lt small

theorem minus_small {left right : Nat} (small : left < SIZE) (ordered : right ≤ left) : minus left right = left - right := by
  have shifted : left + SIZE - right = left - right + SIZE := by omega
  rw [minus, shifted, Nat.add_mod_right, Nat.mod_eq_of_lt (by omega)]

theorem minus_wraps {left right : Nat} (small : right < SIZE) (ordered : left < right) : minus left right = left + SIZE - right := by
  rw [minus, Nat.mod_eq_of_lt (by omega)]

theorem times_small {left right : Nat} (small : left * right < SIZE) : times left right = left * right := Nat.mod_eq_of_lt small

@[simp] theorem length_garbage (fresh : Nat → Byte) (count : Nat) : (garbage fresh count).length = count := by
  simp [garbage]

variable {buffer : CBuffer} {offset : Nat} {source : Source}

theorem Bounded.length_contents (bounded : Bounded buffer) : buffer.contents.length = buffer.size := by
  rw [CBuffer.contents, List.length_take]
  exact Nat.min_eq_left bounded.size

/-! ## Room for a write -/

/-- A write up to `last` is not refused. -/
def Accepts (buffer : CBuffer) (last : Nat) : Prop :=
  buffer.readOnly = false ∧ (buffer.type = .normal ∨ last ≤ buffer.length ∧ buffer.null = false)

instance (buffer : CBuffer) (last : Nat) : Decidable (Accepts buffer last) := inferInstanceAs (Decidable (_ ∧ _))

/-- The buffer was grown, if need be, to hold a write up to `last`. -/
structure Prepared (buffer : CBuffer) (last : Nat) (later : CBuffer) : Prop where
  memory : ∃ extra, later.memory = buffer.memory ++ extra
  size : later.size = max buffer.size last
  room : last ≤ later.length
  position : later.position = if buffer.length < last ∨ buffer.null = true then min buffer.position last else buffer.position
  type : later.type = buffer.type
  readOnly : later.readOnly = buffer.readOnly
  null : later.null = false
  length : later.length < SIZE

variable {fresh : Nat → Byte} {later : CBuffer}

theorem prepare_write_refused {length : Nat} (small : offset + length < SIZE)
    (refuses : ¬ Accepts buffer (offset + length)) : prepare_write buffer offset length fresh = (false, buffer) := by
  rw [prepare_write, plus_small small]
  by_cases readOnly : buffer.readOnly = true
  · rw [if_pos readOnly]
  · have refused : buffer.type ≠ .normal ∧ (buffer.length < offset + length ∨ buffer.null = true) := by
      simp only [Accepts, not_and, not_or] at refuses
      have refused := refuses (by simpa using readOnly)
      refine ⟨refused.1, ?_⟩
      by_contra neither
      simp only [not_or, Nat.not_lt, Bool.not_eq_true] at neither
      exact refused.2 neither.1 neither.2
    rw [if_neg readOnly, if_pos refused.2, if_pos refused.1]

theorem prepare_write_accepted {length : Nat} (fresh : Nat → Byte) (sized : buffer.size ≤ buffer.length)
    (bounded : buffer.length < SIZE) (nothing : buffer.null = true → buffer.memory = [])
    (room : Room buffer offset length) (accepts : Accepts buffer (offset + length)) :
    ∃ later, prepare_write buffer offset length fresh = (true, later) ∧ Prepared buffer (offset + length) later := by
  obtain ⟨readOnly, kind⟩ := accepts
  have small : offset + length < SIZE := by
    unfold Room at room
    omega
  have doubled : times length 2 = length * 2 := times_small (by unfold Room at room; omega)
  simp only [prepare_write, plus_small small, readOnly, Bool.false_eq_true, if_false, doubled]
  by_cases grows : buffer.length < offset + length ∨ buffer.null = true
  · have normal : buffer.type = .normal := by
      rcases kind with normal | ⟨fits, there⟩
      · exact normal
      · rcases grows with beyond | absent
        · omega
        · rw [there] at absent
          cases absent
    have total : plus (offset + length) (max (max (length * 2) buffer.size) 16) =
        offset + length + max (max (length * 2) buffer.size) 16 := plus_small room
    have larger : buffer.length < offset + length + max (max (length * 2) buffer.size) 16 := by
      rcases grows with beyond | absent
      · omega
      · have none_ : buffer.length = 0 := by rw [CBuffer.length, nothing absent, List.length_nil]
        omega
    have outgrown : buffer.size ≤ offset + length := by
      rcases grows with beyond | absent
      · omega
      · have none_ : buffer.length = 0 := by rw [CBuffer.length, nothing absent, List.length_nil]
        omega
    have different : (buffer.type == .derived) = false := by
      rw [normal]
      rfl
    refine ⟨_, by simp only [if_pos grows, normal, ne_eq, not_true_eq_false, if_false, set_size, total, if_pos larger, different,
      readOnly, Bool.not_true, Bool.or_self, Bool.false_eq_true]; rfl, ?_⟩
    constructor
    · exact ⟨_, rfl⟩
    · simp only
      omega
    · simp only [CBuffer.length, List.length_append, length_garbage]
      omega
    · simp only [if_pos grows]
      split <;> omega
    · exact normal.symm
    · exact readOnly.symm
    · rfl
    · simp only [CBuffer.length, List.length_append, length_garbage]
      unfold CBuffer.length at larger
      unfold Room at room
      omega
  · simp only [if_neg grows]
    simp only [not_or, Nat.not_lt, Bool.not_eq_true] at grows
    split
    · refine ⟨_, rfl, ⟨⟨[], by simp⟩, ?_, grows.1, ?_, rfl, readOnly.symm, grows.2, bounded⟩⟩
      · simp only
        omega
      · simp [grows.2]
        omega
    · refine ⟨_, rfl, ⟨⟨[], by simp⟩, ?_, grows.1, ?_, rfl, rfl, grows.2, bounded⟩⟩
      · omega
      · simp [grows.2]
        omega

theorem Prepared.front {last : Nat} (prepared : Prepared buffer last later) (sized : buffer.size ≤ buffer.length) :
    later.memory.take buffer.size = buffer.contents := by
  obtain ⟨extra, memory⟩ := prepared.memory
  rw [memory, CBuffer.contents]
  exact List.take_append_of_le_length sized

theorem Prepared.fits {last : Nat} (prepared : Prepared buffer last later) (sized : buffer.size ≤ buffer.length) :
    later.size ≤ later.length := by
  obtain ⟨extra, memory⟩ := prepared.memory
  have grown : buffer.length ≤ later.length := by
    rw [CBuffer.length, CBuffer.length, memory, List.length_append]
    omega
  rw [prepared.size]
  have room := prepared.room
  omega

theorem Prepared.position_kept {last : Nat} (prepared : Prepared buffer last later) (bounded : Bounded buffer) :
    later.position = buffer.position := by
  rw [prepared.position]
  split
  · rename_i grows
    have position := bounded.position
    have size := bounded.size
    rcases grows with beyond | absent
    · omega
    · have none_ : buffer.length = 0 := by rw [CBuffer.length, bounded.null absent, List.length_nil]
      omega
  · rfl

theorem Prepared.written {buffer later : CBuffer} {offset : Nat} {bytes : List Byte}
    (prepared : Prepared buffer (offset + bytes.length) later) (sized : buffer.size ≤ buffer.length) (inside : offset ≤ buffer.size) :
    (overwrite later.memory offset bytes).take later.size = overwrite buffer.contents offset bytes := by
  have fits : buffer.size ≤ later.memory.length := by
    have within := prepared.fits sized
    rw [prepared.size] at within
    exact Nat.le_trans (Nat.le_max_left _ _) within
  rw [prepared.size, take_overwrite inside fits, prepared.front sized]

theorem Source.Gives.length {bytes : List Byte} (gives : source.Gives bytes) : bytes.length = source.length := by
  cases source with
  | data given =>
    cases gives
    rfl
  | null length => exact gives

theorem copy_in_inside (buffer : CBuffer) (inside : offset + source.length ≤ buffer.length) :
    ∃ bytes, source.Gives bytes ∧
      copy_in buffer offset source = some { buffer with memory := overwrite buffer.memory offset bytes } := by
  cases source with
  | data bytes =>
    refine ⟨bytes, rfl, ?_⟩
    rw [copy_in, store_inside inside, Option.map_some]
  | null length =>
    -- nothing is written: the bytes are those that were there
    refine ⟨(buffer.memory.drop offset).take length, ?_, ?_⟩
    · have within : offset + length ≤ buffer.memory.length := inside
      simp only [Source.Gives, List.length_take, List.length_drop]
      omega
    · rw [copy_in, overwrite_same (show offset + length ≤ buffer.memory.length from inside)]

theorem Prepared.bounded {last : Nat} {bytes : List Byte} (prepared : Prepared buffer last later)
    (sized : buffer.size ≤ buffer.length) (inside : offset + bytes.length ≤ later.length) {position : Nat}
    (positioned : position ≤ later.size) :
    Bounded { later with memory := overwrite later.memory offset bytes, position := position } where
  position := positioned
  size := by
    rw [CBuffer.length, length_overwrite inside]
    exact prepared.fits sized
  length := by
    rw [CBuffer.length, length_overwrite inside]
    exact prepared.length
  null null := by
    have impossible : false = true := prepared.null.symm.trans null
    cases impossible

/-! ## Operations that are as meant -/

theorem correct_refused (bounded : Bounded buffer) {operation : Operation}
    (refused : perform buffer operation = some (.refused, buffer)) : Correct buffer operation :=
  ⟨.refused, buffer, refused, bounded, fun _ => rfl, fun done => absurd rfl done⟩

theorem correct_done {after : CBuffer} {operation : Operation}
    (performed : perform buffer operation = some (.done, after)) (bounded : Bounded after)
    (intended : Intended buffer.contents buffer.position after.contents after.position .done operation) :
    Correct buffer operation :=
  ⟨.done, after, performed, bounded, fun refused => (by cases refused), fun _ => intended⟩

theorem correct_allocBuffer {length : Nat} (used fixed empty : Bool) (fresh : Nat → Byte) (small : length < SIZE) :
    Correct buffer (.allocBuffer length used fixed empty fresh) := by
  have sized : (alloc_buffer buffer length used fixed empty fresh).size ≤ length := by
    simp only [alloc_buffer]
    split <;> omega
  refine correct_done rfl ⟨Nat.zero_le _, ?_, ?_, ?_⟩ ⟨?_, rfl⟩
  · simpa [CBuffer.length, alloc_buffer] using sized
  · simpa [CBuffer.length, alloc_buffer] using small
  · intro null
    have nothing : length = 0 := by
      simp only [alloc_buffer, decide_eq_true_eq] at null
      exact null.1
    simp [alloc_buffer, garbage, nothing]
  · cases used <;> simp [CBuffer.contents, alloc_buffer]

theorem correct_setSize (bounded : Bounded buffer) {size preAlloc : Nat} (expend : Bool) (fresh : Nat → Byte)
    (small : size + preAlloc < SIZE) : Correct buffer (.setSize size expend preAlloc fresh) := by
  have position := bounded.position
  have inUse := bounded.size
  by_cases grows : buffer.length < size + preAlloc
  · by_cases refuses : (!expend || buffer.type == .derived || buffer.readOnly) = true
    · apply correct_refused bounded
      simp only [perform, set_size, plus_small small, if_pos grows, if_pos refuses]
    · refine correct_done (by simp only [perform, set_size, plus_small small, if_pos grows, if_neg refuses]; rfl) ?_ ⟨?_, ?_, ?_⟩
      · refine ⟨?_, ?_, ?_, fun null => by cases null⟩
        · simp only
          split <;> omega
        · simp only [CBuffer.length, List.length_append, length_garbage]
          unfold CBuffer.length at grows
          omega
        · simp only [CBuffer.length, List.length_append, length_garbage]
          unfold CBuffer.length at grows
          omega
      · simp only [CBuffer.contents, CBuffer.length, List.length_take, List.length_append, length_garbage]
        unfold CBuffer.length at grows
        omega
      · simp only [CBuffer.contents]
        rw [List.take_take, List.take_take, List.length_take, List.take_append_of_le_length (by omega)]
        congr 1
        unfold CBuffer.length at inUse
        omega
      · simp only
        split <;> omega
  · refine correct_done (by simp only [perform, set_size, plus_small small, if_neg grows]; rfl) ?_ ⟨?_, ?_, ?_⟩
    · refine ⟨?_, ?_, bounded.length, bounded.null⟩
      · simp only
        split <;> omega
      · unfold CBuffer.length at grows ⊢
        simp only
        omega
    · simp only [CBuffer.contents, List.length_take]
      unfold CBuffer.length at grows
      omega
    · simp only [CBuffer.contents]
      rw [List.take_take, List.take_take, List.length_take]
      congr 1
      unfold CBuffer.length at inUse
      omega
    · simp only
      split <;> omega

theorem correct_setPosition (bounded : Bounded buffer) (position : Nat) : Correct buffer (.setPosition position) := by
  by_cases whole : position = MINUS_ONE
  · have performed : perform buffer (.setPosition position) = some (.done, { buffer with position := buffer.size }) := by
      rw [perform, set_position, if_pos whole]
    refine correct_done performed ⟨Nat.le_refl _, bounded.size, bounded.length, bounded.null⟩ ⟨rfl, ?_⟩
    rw [if_pos whole, bounded.length_contents]
  · by_cases beyond : position > buffer.size
    · apply correct_refused bounded
      rw [perform, set_position, if_neg whole, if_pos beyond]
    · have performed : perform buffer (.setPosition position) = some (.done, { buffer with position := position }) := by
        rw [perform, set_position, if_neg whole, if_neg beyond]
      refine correct_done performed ⟨Nat.not_lt.mp beyond, bounded.size, bounded.length, bounded.null⟩ ⟨rfl, ?_⟩
      rw [if_neg whole]

theorem drop_take_contents {length : Nat} (inside : offset + length ≤ buffer.size) :
    (buffer.contents.drop offset).take length = (buffer.memory.drop offset).take length := by
  rw [CBuffer.contents, List.drop_take, List.take_take]
  congr 1
  omega

theorem get_data_correct (bounded : Bounded buffer) {length : Nat}
    (small : length = MINUS_ONE ∨ buffer.position + length < SIZE) :
    ∃ result after, get_data buffer length = some (result, after) ∧ Bounded after ∧ (result = .refused → after = buffer) ∧
      (result ≠ .refused → Intended buffer.contents buffer.position after.contents after.position result (.getData length)) := by
  have position := bounded.position
  have inUse := bounded.size
  have whole := bounded.length
  have left : get_size_left buffer = buffer.size - buffer.position := minus_small (by omega) position
  generalize counted : (if length = MINUS_ONE then get_size_left buffer else length) = count
  have meant : (if length = MINUS_ONE then buffer.contents.length - buffer.position else length) = count := by
    rw [← counted, left, bounded.length_contents]
  have sum : buffer.position + count < SIZE := by
    rw [← counted]
    split
    · omega
    · rename_i different
      exact small.resolve_left different
  simp only [get_data, counted, plus_small sum]
  by_cases beyond : buffer.position + count > buffer.size
  · rw [if_pos beyond]
    exact ⟨.refused, buffer, rfl, bounded, fun _ => rfl, fun done => absurd rfl done⟩
  · rw [if_neg beyond, load_inside (by unfold CBuffer.length at inUse; omega), Option.map_some]
    refine ⟨_, _, rfl, ⟨Nat.not_lt.mp beyond, bounded.size, bounded.length, bounded.null⟩, ?_, ?_⟩
    · intro refused
      -- only the read of nothing from no memory gives a null pointer here
      have null : buffer.null = true := by
        by_contra there
        rw [if_neg there] at refused
        cases refused
      have none_ : buffer.length = 0 := by rw [CBuffer.length, bounded.null null, List.length_nil]
      have zero : buffer.position + count = buffer.position := by omega
      rw [zero]
    · intro done
      have there : ¬ buffer.null = true := by
        intro null
        rw [if_pos null] at done
        exact done rfl
      refine ⟨rfl, by rw [meant], ?_⟩
      rw [meant, if_neg there, drop_take_contents (Nat.not_lt.mp beyond)]

theorem correct_getData (bounded : Bounded buffer) {length : Nat}
    (small : length = MINUS_ONE ∨ buffer.position + length < SIZE) : Correct buffer (.getData length) :=
  get_data_correct bounded small

theorem correct_readData (bounded : Bounded buffer) {length : Nat}
    (small : length = MINUS_ONE ∨ buffer.position + length < SIZE) : Correct buffer (.readData length) :=
  get_data_correct bounded small

theorem correct_getDataAt (bounded : Bounded buffer) {length : Nat} (small : offset + length < SIZE) :
    Correct buffer (.getDataAt offset length) := by
  have inUse := bounded.size
  by_cases beyond : offset + length > buffer.size
  · apply correct_refused bounded
    rw [perform, get_data_at, plus_small small, if_pos beyond]
  · refine ⟨if buffer.null then .refused else .bytes ((buffer.memory.drop offset).take length), buffer, ?_, bounded, fun _ => rfl, ?_⟩
    · rw [perform, get_data_at, plus_small small, if_neg beyond, load_inside (by unfold CBuffer.length at inUse; omega), Option.map_some]
    · intro done
      refine ⟨rfl, rfl, ?_⟩
      have there : ¬ buffer.null = true := by
        intro null
        rw [if_pos null] at done
        exact done rfl
      rw [if_neg there, drop_take_contents (Nat.not_lt.mp beyond)]

theorem Room.small {length : Nat} (room : Room buffer offset length) : offset + length < SIZE := by
  unfold Room at room
  omega

theorem Bounded.prepare (bounded : Bounded buffer) {length : Nat} (fresh : Nat → Byte)
    (room : Room buffer offset length) (accepts : Accepts buffer (offset + length)) :
    ∃ later, prepare_write buffer offset length fresh = (true, later) ∧ Prepared buffer (offset + length) later :=
  prepare_write_accepted fresh bounded.size bounded.length bounded.null room accepts

theorem copies_in {after : CBuffer} (copies : copy_in later offset source = some after) :
    (copy_in later offset source).map (fun buffer => (Result.done, buffer)) = some (.done, after) := by
  rw [copies, Option.map_some]

/-- Bytes written from within the bytes in use on, as `SetData` and `AppendData` do. -/
theorem write_correct (bounded : Bounded buffer) (source : Source) (fresh : Nat → Byte) (inside : offset ≤ buffer.size)
    (room : Room buffer offset source.length) (accepts : Accepts buffer (offset + source.length)) :
    ∃ later bytes, prepare_write buffer offset source.length fresh = (true, later) ∧ source.Gives bytes ∧
      copy_in later offset source = some { later with memory := overwrite later.memory offset bytes } ∧
      later.position = buffer.position ∧ later.position + source.length < SIZE ∧
      (overwrite later.memory offset bytes).take later.size = overwrite buffer.contents offset bytes ∧
      ∀ position, position ≤ max buffer.size (offset + source.length) →
        Bounded { later with memory := overwrite later.memory offset bytes, position := position } := by
  obtain ⟨later, prepares, prepared⟩ := bounded.prepare fresh room accepts
  obtain ⟨bytes, gives, copies⟩ := copy_in_inside later prepared.room
  have same : later.position = buffer.position := prepared.position_kept bounded
  rw [← gives.length] at prepared
  refine ⟨later, bytes, prepares, gives, copies, same, ?_, prepared.written bounded.size inside, ?_⟩
  · have position := bounded.position
    unfold Room at room
    omega
  · intro position positioned
    apply prepared.bounded bounded.size prepared.room
    rw [prepared.size, gives.length]
    exact positioned

theorem set_data_correct (bounded : Bounded buffer) (source : Source) (fresh : Nat → Byte)
    (room : Room buffer buffer.position source.length) :
    ∃ result after, set_data buffer source fresh = some (result, after) ∧ Bounded after ∧ (result = .refused → after = buffer) ∧
      (result ≠ .refused → Intended buffer.contents buffer.position after.contents after.position result (.setData source fresh)) := by
  by_cases accepts : Accepts buffer (buffer.position + source.length)
  · obtain ⟨later, bytes, prepares, gives, copies, same, small, written, inBounds⟩ :=
      write_correct bounded source fresh bounded.position room accepts
    have performed : set_data buffer source fresh = some (.done, { later with
        memory := overwrite later.memory buffer.position bytes
        position := buffer.position + source.length }) := by
      simp only [set_data, prepares, same, copies, Option.map_some, plus_small (same ▸ small)]
    refine ⟨.done, _, performed, ?_, fun refused => (by cases refused), fun _ => ⟨rfl, bytes, gives, written⟩⟩
    exact inBounds _ (Nat.le_max_right _ _)
  · refine ⟨.refused, buffer, ?_, bounded, fun _ => rfl, fun done => absurd rfl done⟩
    rw [set_data, prepare_write_refused room.small accepts]

theorem correct_setData (bounded : Bounded buffer) (fresh : Nat → Byte)
    (room : Room buffer buffer.position source.length) : Correct buffer (.setData source fresh) :=
  set_data_correct bounded source fresh room

theorem correct_writeData (bounded : Bounded buffer) (fresh : Nat → Byte)
    (room : Room buffer buffer.position source.length) : Correct buffer (.writeData source fresh) :=
  set_data_correct bounded source fresh room

theorem Source.length_zeroed (source : Source) : source.zeroed.length = source.length := by
  cases source with
  | data bytes => rfl
  | null length => exact List.length_replicate

theorem correct_setDataAt (bounded : Bounded buffer) (fresh : Nat → Byte)
    (small : (offset = MINUS_ONE ∧ Room buffer buffer.size source.length) ∨ offset ≤ buffer.size ∧ Room buffer offset source.length)
    : Correct buffer (.setDataAt offset source fresh) := by
  generalize placed : (if offset = MINUS_ONE then buffer.size else offset) = place
  have inside : place ≤ buffer.size := by
    rw [← placed]
    split <;> omega
  have room : Room buffer place source.length := by
    rw [← placed]
    rcases small with ⟨whole, room⟩ | ⟨within, room⟩
    · rw [if_pos whole]
      exact room
    · split
      · rename_i whole
        have atEnd : buffer.size = offset := by
          have length := bounded.length
          have size := bounded.size
          unfold MINUS_ONE at whole
          omega
        rw [atEnd]
        exact room
      · exact room
  have meant : (if offset = MINUS_ONE then buffer.contents.length else offset) = place := by
    rw [← placed, bounded.length_contents]
  by_cases accepts : Accepts buffer (place + source.length)
  · rw [← source.length_zeroed] at room accepts
    obtain ⟨later, bytes, prepares, gives, copies, same, -, written, inBounds⟩ :=
      write_correct bounded (.data source.zeroed) fresh inside room accepts
    cases gives
    have performed : perform buffer (.setDataAt offset source fresh) =
        some (.done, { later with memory := overwrite later.memory place source.zeroed }) := by
      have prepares : prepare_write buffer place source.length fresh = (true, later) := by
        rw [← source.length_zeroed]
        exact prepares
      rw [perform, set_data_at]
      simp only [placed]
      cases source with
      | data given =>
        rw [prepares]
        exact copies_in copies
      | null length =>
        rw [prepares]
        exact copies_in copies
    refine correct_done performed ?_ ⟨same, ?_⟩
    · have kept := inBounds buffer.position (Nat.le_trans bounded.position (Nat.le_max_left _ _))
      rw [← same] at kept
      exact kept
    · rw [meant]
      exact written
  · apply correct_refused bounded
    simp only [perform, set_data_at, placed, prepare_write_refused room.small accepts]

theorem overwrite_end (cells data : List Byte) : overwrite cells cells.length data = cells ++ data := by
  simp [overwrite]

theorem correct_appendData (bounded : Bounded buffer) {bytes : List Byte} (fresh : Nat → Byte)
    (room : Room buffer buffer.size bytes.length) : Correct buffer (.appendData bytes fresh) := by
  by_cases accepts : Accepts buffer (buffer.size + bytes.length)
  · obtain ⟨later, given, prepares, gives, copies, same, -, written, inBounds⟩ :=
      write_correct bounded (.data bytes) fresh (Nat.le_refl _) room accepts
    cases gives
    have performed : perform buffer (.appendData bytes fresh) =
        some (.done, { later with memory := overwrite later.memory buffer.size bytes }) := by
      simp only [Source.length] at prepares
      simp only [perform, append_data, prepares, copies, Option.map_some]
    refine correct_done performed ?_ ⟨same, ?_⟩
    · have kept := inBounds buffer.position (Nat.le_trans bounded.position (Nat.le_max_left _ _))
      rw [← same] at kept
      exact kept
    · rw [← overwrite_end, bounded.length_contents]
      exact written
  · apply correct_refused bounded
    rw [perform, append_data, prepare_write_refused room.small accepts]

theorem correct_shiftData (bounded : Bounded buffer) (offset : Nat) : Correct buffer (.shiftData offset) := by
  have position := bounded.position
  have inUse := bounded.size
  have whole := bounded.length
  by_cases beyond : offset > buffer.size
  · apply correct_refused bounded
    rw [perform, shift_data, if_pos beyond]
  · have within : offset ≤ buffer.size := Nat.not_lt.mp beyond
    have size : minus buffer.size offset = buffer.size - offset := minus_small (by omega) within
    have readable : offset + (buffer.size - offset) ≤ buffer.memory.length := by
      unfold CBuffer.length at inUse
      omega
    have writable : 0 + (buffer.size - offset) ≤ buffer.memory.length := by
      unfold CBuffer.length at inUse
      omega
    have moved : ((buffer.memory.drop offset).take (buffer.size - offset)).length = buffer.size - offset := by
      rw [List.length_take, List.length_drop]
      omega
    have cursor : (if buffer.position > offset then minus buffer.position offset else 0) = buffer.position - offset := by
      split
      · exact minus_small (by omega) (by omega)
      · omega
    have performed : perform buffer (.shiftData offset) = some (.done, { buffer with
        memory := overwrite buffer.memory 0 ((buffer.memory.drop offset).take (buffer.size - offset))
        size := buffer.size - offset
        position := buffer.position - offset }) := by
      rw [perform, shift_data, if_neg beyond]
      simp only [size, move_inside readable writable, Option.map_some, cursor]
    have kept : (overwrite buffer.memory 0 ((buffer.memory.drop offset).take (buffer.size - offset))).length = buffer.length :=
      length_overwrite (by rw [moved]; exact writable)
    refine correct_done performed ⟨?_, ?_, ?_, ?_⟩ ⟨rfl, take_shift within inUse⟩
    · simp only
      omega
    · rw [CBuffer.length, kept]
      simp only
      omega
    · rw [CBuffer.length, kept]
      exact whole
    · intro null
      simp [bounded.null null, overwrite]

/-! ## Inserting -/

theorem insert_data_refused (fresh : Nat → Byte) (room : Room buffer buffer.size source.length)
    (refuses : ¬ Accepts buffer (buffer.size + source.length)) :
    insert_data buffer offset source fresh = some (.refused, buffer) := by
  rw [insert_data, prepare_write_refused room.small refuses]

/-- The position need not be in bounds: `ReplaceData` inserts right after it removed. -/
theorem insert_data_inside (sized : buffer.size ≤ buffer.length) (bounded : buffer.length < SIZE)
    (nothing : buffer.null = true → buffer.memory = []) (fresh : Nat → Byte)
    (room : Room buffer buffer.size source.length) (accepts : Accepts buffer (buffer.size + source.length))
    (inside : offset ≤ buffer.size) :
    ∃ later memory bytes, Prepared buffer (buffer.size + source.length) later ∧ source.Gives bytes ∧
      insert_data buffer offset source fresh = some (.done, { later with memory := memory }) ∧
      memory.length = later.length ∧ memory.take later.size = buffer.contents.take offset ++ bytes ++ buffer.contents.drop offset := by
  obtain ⟨later, prepares, prepared⟩ := prepare_write_accepted fresh sized bounded nothing room accepts
  have within : buffer.size + source.length ≤ later.memory.length := prepared.room
  have count : minus buffer.size offset = buffer.size - offset := minus_small (by omega) inside
  have tail : ((later.memory.drop offset).take (buffer.size - offset)).length = buffer.size - offset := by
    rw [List.length_take, List.length_drop]
    omega
  obtain ⟨shifted, shifts⟩ : ∃ shifted, shifted =
    overwrite later.memory (offset + source.length) ((later.memory.drop offset).take (buffer.size - offset)) := ⟨_, rfl⟩
  have moves : move later.memory (offset + source.length) offset (buffer.size - offset) = some shifted := by
    rw [shifts]
    exact move_inside (by omega) (by omega)
  have moved : shifted.length = later.memory.length := by
    rw [shifts]
    exact length_overwrite (by rw [tail]; omega)
  have fits : offset + source.length ≤ shifted.length := by
    rw [moved]
    omega
  obtain ⟨bytes, gives, copies⟩ := copy_in_inside { later with memory := shifted } fits
  refine ⟨later, overwrite shifted offset bytes, bytes, prepared, gives, ?_, ?_, ?_⟩
  · simp only [insert_data, prepares, count, moves, Option.bind_some]
    exact copies_in copies
  · rw [length_overwrite (by rw [gives.length]; exact fits), moved]
    rfl
  · have size : later.size = buffer.size + bytes.length := by
      rw [prepared.size, gives.length]
      omega
    rw [size, shifts, ← gives.length, take_insert inside (by rw [gives.length]; exact within), prepared.front sized]

theorem insert_data_outside (sized : buffer.size ≤ buffer.length) (bounded : buffer.length < SIZE)
    (nothing : buffer.null = true → buffer.memory = []) (fresh : Nat → Byte)
    (room : Room buffer buffer.size source.length) (accepts : Accepts buffer (buffer.size + source.length))
    (small : offset < SIZE) (outside : buffer.size < offset) : insert_data buffer offset source fresh = none := by
  obtain ⟨later, prepares, prepared⟩ := prepare_write_accepted fresh sized bounded nothing room accepts
  have length : later.memory.length < SIZE := prepared.length
  simp only [insert_data, prepares, minus_wraps small outside]
  rw [move_outside (by omega) (by omega), Option.bind_none]

theorem insertData_correct_iff (bounded : Bounded buffer) (room : Room buffer buffer.size source.length)
    (small : offset < SIZE) :
    Correct buffer (.insertData offset source fresh) ↔ (Accepts buffer (buffer.size + source.length) → offset ≤ buffer.size) := by
  by_cases accepts : Accepts buffer (buffer.size + source.length)
  · simp only [accepts, forall_const]
    constructor
    · rintro ⟨result, after, performed, -⟩
      by_contra outside
      rw [perform, insert_data_outside bounded.size bounded.length bounded.null fresh room accepts small (by omega)] at performed
      cases performed
    · intro inside
      obtain ⟨later, memory, bytes, prepared, gives, inserted, length, contents⟩ :=
        insert_data_inside bounded.size bounded.length bounded.null fresh room accepts inside
      have same := prepared.position_kept bounded
      refine correct_done inserted ⟨?_, ?_, ?_, ?_⟩ ⟨same, bytes, gives, contents⟩
      · simp only [same, prepared.size]
        exact Nat.le_trans bounded.position (Nat.le_max_left _ _)
      · rw [CBuffer.length, length]
        exact prepared.fits bounded.size
      · rw [CBuffer.length, length]
        exact prepared.length
      · intro null
        have impossible : false = true := prepared.null.symm.trans null
        cases impossible
  · refine iff_of_true ?_ (fun accepted => absurd accepted accepts)
    exact correct_refused bounded (insert_data_refused fresh room accepts)

/-! ## Removing -/

theorem remove_data_inside (bounded : Bounded buffer) {length : Nat} (writable : buffer.readOnly = false)
    (given : length ≠ MINUS_ONE) (inside : offset + length ≤ buffer.size)
    (readable : offset + buffer.size ≤ buffer.length) :
    ∃ memory, remove_data buffer offset length = some (.done, { buffer with memory := memory, size := buffer.size - length }) ∧
      memory.length = buffer.length ∧
      memory.take (buffer.size - length) = buffer.contents.take offset ++ buffer.contents.drop (offset + length) ∧
      (length = 0 → memory = buffer.memory) := by
  have whole := bounded.length
  have inUse := bounded.size
  have within : offset + buffer.size ≤ buffer.memory.length := readable
  have sum : plus offset length = offset + length := plus_small (by omega)
  have count : minus buffer.size length = buffer.size - length := minus_small (by omega) (by omega)
  have moves : move buffer.memory offset (offset + length) (buffer.size - length) =
      some (overwrite buffer.memory offset ((buffer.memory.drop (offset + length)).take (buffer.size - length))) :=
    move_inside (by omega) (by omega)
  refine ⟨_, ?_, ?_, take_remove inside within, ?_⟩
  · have accepted : ¬ (length ≠ MINUS_ONE ∧ offset + length > buffer.size) := by omega
    simp only [remove_data, writable, Bool.false_eq_true, if_false, sum, if_neg accepted, if_neg given, count, moves, Option.map_some]
  · apply length_overwrite
    rw [List.length_take, List.length_drop]
    omega
  · rintro rfl
    exact overwrite_same within

theorem remove_data_outside (bounded : Bounded buffer) {length : Nat} (writable : buffer.readOnly = false)
    (given : length ≠ MINUS_ONE) (inside : offset + length ≤ buffer.size)
    (unreadable : buffer.length < offset + buffer.size) : remove_data buffer offset length = none := by
  have whole := bounded.length
  have inUse := bounded.size
  have beyond : buffer.memory.length < offset + buffer.size := unreadable
  have sum : plus offset length = offset + length := plus_small (by omega)
  have count : minus buffer.size length = buffer.size - length := minus_small (by omega) (by omega)
  have accepted : ¬ (length ≠ MINUS_ONE ∧ offset + length > buffer.size) := by omega
  simp only [remove_data, writable, Bool.false_eq_true, if_false, sum, if_neg accepted, if_neg given, count]
  rw [move_outside (by omega) (by omega), Option.map_none]

theorem remove_data_whole (bounded : Bounded buffer) (offset : Nat) (writable : buffer.readOnly = false) :
    remove_data buffer offset MINUS_ONE = some (.done, { buffer with size := 0 }) := by
  have whole := bounded.length
  have inUse := bounded.size
  have count : minus buffer.size buffer.size = 0 := by
    rw [minus_small (by omega) (Nat.le_refl _), Nat.sub_self]
  simp [remove_data, writable, count]

theorem remove_data_readOnly (offset length : Nat) (readOnly : buffer.readOnly = true) :
    remove_data buffer offset length = some (.refused, buffer) := by
  simp [remove_data, readOnly]

theorem remove_data_beyond {length : Nat} (small : offset + length < SIZE) (given : length ≠ MINUS_ONE)
    (beyond : buffer.size < offset + length) : remove_data buffer offset length = some (.refused, buffer) := by
  by_cases readOnly : buffer.readOnly = true
  · exact remove_data_readOnly offset length readOnly
  · rw [remove_data, if_neg readOnly, plus_small small, if_pos ⟨given, beyond⟩]

/-- There is as much room behind the bytes as the offset, and the position is not
    among the last bytes; or all is removed and the position is at the start. -/
def Removes (buffer : CBuffer) (offset length : Nat) : Prop :=
  if length = MINUS_ONE then (offset = 0 ∨ buffer.size = 0) ∧ buffer.position = 0
  else offset + length ≤ buffer.size → offset + buffer.size ≤ buffer.length ∧ buffer.position ≤ buffer.size - length

instance Removes.decide (buffer : CBuffer) (offset length : Nat) : Decidable (Removes buffer offset length) :=
  if whole : length = MINUS_ONE then
    decidable_of_iff ((offset = 0 ∨ buffer.size = 0) ∧ buffer.position = 0) (by rw [Removes, if_pos whole])
  else
    decidable_of_iff (offset + length ≤ buffer.size → offset + buffer.size ≤ buffer.length ∧ buffer.position ≤ buffer.size - length)
      (by rw [Removes, if_neg whole])

theorem removeData_correct_iff (bounded : Bounded buffer) {length : Nat}
    (small : length = MINUS_ONE ∨ offset + length < SIZE) :
    Correct buffer (.removeData offset length) ↔ (buffer.readOnly = false → Removes buffer offset length) := by
  cases readOnly : buffer.readOnly with
  | true =>
    refine iff_of_true ?_ (fun impossible => by cases impossible)
    exact correct_refused bounded (remove_data_readOnly offset length readOnly)
  | false =>
    simp only [forall_const, Removes]
    by_cases whole : length = MINUS_ONE
    · subst whole
      rw [if_pos rfl]
      have removed := remove_data_whole bounded offset readOnly
      constructor
      · rintro ⟨result, after, performed, bounds, -, intended⟩
        rw [perform, removed] at performed
        cases performed
        have contents := intended (by intro refused; cases refused)
        have position : buffer.position ≤ 0 := bounds.position
        refine ⟨?_, by omega⟩
        simp only [Intended, behind, if_true, List.append_nil, CBuffer.contents, List.take_zero] at contents
        have none_ := congrArg List.length contents
        have size := bounded.size
        simp only [List.length_nil, List.length_take] at none_
        unfold CBuffer.length at size
        omega
      · rintro ⟨either, position⟩
        refine correct_done removed ⟨?_, Nat.zero_le _, bounded.length, bounded.null⟩ ?_
        · simp [position]
        · rcases either with rfl | none_
          · simp [Intended, behind, CBuffer.contents]
          · simp [Intended, behind, CBuffer.contents, none_]
    · rw [if_neg whole]
      have fits := small.resolve_left whole
      by_cases inside : offset + length ≤ buffer.size
      · simp only [inside, forall_const]
        by_cases readable : offset + buffer.size ≤ buffer.length
        · obtain ⟨memory, removed, kept, contents, -⟩ := remove_data_inside bounded readOnly whole inside readable
          simp only [readable, true_and]
          constructor
          · rintro ⟨result, after, performed, bounds, -⟩
            rw [perform, removed] at performed
            cases performed
            exact bounds.position
          · intro position
            refine correct_done removed ⟨position, ?_, ?_, ?_⟩ ?_
            · rw [CBuffer.length, kept]
              exact Nat.le_trans (Nat.sub_le _ _) bounded.size
            · rw [CBuffer.length, kept]
              exact bounded.length
            · intro null
              apply List.eq_nil_of_length_eq_zero
              rw [kept, CBuffer.length, bounded.null null, List.length_nil]
            · rw [Intended, behind, if_neg whole]
              exact contents
        · refine iff_of_false ?_ (fun both => readable both.1)
          rintro ⟨result, after, performed, -⟩
          rw [perform, remove_data_outside bounded readOnly whole inside (by omega)] at performed
          cases performed
      · refine iff_of_true ?_ (fun within => absurd within inside)
        exact correct_refused bounded (remove_data_beyond fits whole (by omega))

/-! ## Replacing -/

/-- The bytes that are left after the first half of `ReplaceData`, and the half that
    is still to come. -/
structure Halfway (buffer : CBuffer) (offset oldLength : Nat) (memory : List Byte) (size : Nat) : Prop where
  removed : remove_data buffer offset oldLength = some (.done, { buffer with memory := memory, size := size })
  length : memory.length = buffer.length
  smaller : size ≤ buffer.size
  contents : offset ≤ size → (memory.take size).take offset = buffer.contents.take offset ∧
    (memory.take size).drop offset = behind buffer.contents offset oldLength

theorem Halfway.correct_iff (bounded : Bounded buffer) {oldLength size : Nat} {memory : List Byte}
    (half : Halfway buffer offset oldLength memory size) (room : Room buffer buffer.size source.length)
    (small : offset < SIZE) :
    Correct buffer (.replaceData offset oldLength source fresh) ↔
      if Accepts buffer (size + source.length) then
        offset ≤ size ∧ (buffer.length < size + source.length ∨ buffer.position ≤ size + source.length)
      else { buffer with memory := memory, size := size } = buffer := by
  obtain ⟨left, isLeft⟩ : ∃ left : CBuffer, left = { buffer with memory := memory, size := size } := ⟨_, rfl⟩
  have performed : perform buffer (.replaceData offset oldLength source fresh) = insert_data left offset source fresh := by
    rw [perform, replace_data, half.removed, isLeft]
  have length : left.length = buffer.length := by
    rw [isLeft]
    exact half.length
  have leftSize : left.size = size := by rw [isLeft]
  have leftPosition : left.position = buffer.position := by rw [isLeft]
  have leftContents : left.contents = memory.take size := by rw [isLeft, CBuffer.contents]
  have leftNull : left.null = buffer.null := by rw [isLeft]
  have sized : left.size ≤ left.length := by
    rw [leftSize, length]
    exact Nat.le_trans half.smaller bounded.size
  have nothing : left.null = true → left.memory = [] := by
    intro null
    apply List.eq_nil_of_length_eq_zero
    rw [leftNull] at null
    rw [show left.memory.length = buffer.length from length, CBuffer.length, bounded.null null, List.length_nil]
  have leftRoom : Room left left.size source.length := by
    have smaller := half.smaller
    rw [Room, leftSize]
    unfold Room at room
    omega
  have leftAccepts : Accepts left (left.size + source.length) ↔ Accepts buffer (size + source.length) := by
    rw [Accepts, Accepts, length, leftSize, leftNull, isLeft]
  rw [← isLeft]
  by_cases accepts : Accepts buffer (size + source.length)
  · rw [if_pos accepts]
    have whole : left.length < SIZE := by
      rw [length]
      exact bounded.length
    have accepted := leftAccepts.mpr accepts
    by_cases inside : offset ≤ size
    · have fits : offset ≤ left.size := by
        rw [leftSize]
        exact inside
      obtain ⟨later, after, bytes, prepared, gives, inserted, afterLength, contents⟩ :=
        insert_data_inside sized whole nothing fresh leftRoom accepted fits
      have position : later.position ≤ later.size ↔
          buffer.length < size + source.length ∨ buffer.position ≤ size + source.length := by
        rw [prepared.position, prepared.size, length, leftSize, leftPosition, leftNull]
        split
        · rename_i grows
          rcases grows with beyond | null
          · simp only [beyond, true_or, iff_true]
            omega
          · have start : buffer.position = 0 := by
              have none_ : buffer.length = 0 := by rw [CBuffer.length, bounded.null null, List.length_nil]
              have inUse := bounded.size
              have cursor := bounded.position
              omega
            simp [start]
        · rename_i stays
          simp only [not_or] at stays
          simp only [stays.1, false_or]
          omega
      simp only [inside, true_and]
      rw [← position]
      constructor
      · rintro ⟨result, final, done, bounds, -⟩
        rw [performed, inserted] at done
        cases done
        exact bounds.position
      · intro positioned
        refine correct_done (performed.trans inserted) ⟨positioned, ?_, ?_, ?_⟩ ⟨bytes, gives, ?_⟩
        · rw [CBuffer.length, afterLength]
          exact prepared.fits sized
        · rw [CBuffer.length, afterLength]
          exact prepared.length
        · intro null
          have impossible : false = true := prepared.null.symm.trans null
          cases impossible
        · obtain ⟨front, back⟩ := half.contents inside
          rw [← front, ← back, ← leftContents]
          exact contents
    · refine iff_of_false ?_ (fun both => inside both.1)
      rintro ⟨result, final, done, -⟩
      rw [performed, insert_data_outside sized whole nothing fresh leftRoom accepted small (by rw [leftSize]; omega)] at done
      cases done
  · rw [if_neg accepts]
    have refused := performed.trans (insert_data_refused fresh leftRoom (fun accepted => accepts (leftAccepts.mp accepted)))
    constructor
    · rintro ⟨result, final, done, -, same, -⟩
      rw [refused] at done
      cases done
      exact same rfl
    · intro same
      rw [same] at refused
      exact correct_refused bounded refused

/-- The old bytes can be removed, and then the new ones fit in or there was nothing
    to remove; and the position is still in the buffer. -/
def Replaces (buffer : CBuffer) (offset oldLength length : Nat) : Prop :=
  if oldLength = MINUS_ONE then
    if Accepts buffer length then offset = 0 ∧ (buffer.length < length ∨ buffer.position ≤ length) else buffer.size = 0
  else
    offset + oldLength ≤ buffer.size → offset + buffer.size ≤ buffer.length ∧
      if Accepts buffer (buffer.size - oldLength + length) then
        buffer.length < buffer.size - oldLength + length ∨ buffer.position ≤ buffer.size - oldLength + length
      else oldLength = 0

instance Replaces.decide (buffer : CBuffer) (offset oldLength length : Nat) : Decidable (Replaces buffer offset oldLength length) :=
  if whole : oldLength = MINUS_ONE then
    decidable_of_iff
      (if Accepts buffer length then offset = 0 ∧ (buffer.length < length ∨ buffer.position ≤ length) else buffer.size = 0)
      (by rw [Replaces, if_pos whole])
  else
    decidable_of_iff
      (offset + oldLength ≤ buffer.size → offset + buffer.size ≤ buffer.length ∧
        if Accepts buffer (buffer.size - oldLength + length) then
          buffer.length < buffer.size - oldLength + length ∨ buffer.position ≤ buffer.size - oldLength + length
        else oldLength = 0)
      (by rw [Replaces, if_neg whole])

theorem halfway_whole (bounded : Bounded buffer) (offset : Nat) (writable : buffer.readOnly = false) :
    Halfway buffer offset MINUS_ONE buffer.memory 0 where
  removed := remove_data_whole bounded offset writable
  length := rfl
  smaller := Nat.zero_le _
  contents start := by
    obtain rfl : offset = 0 := by omega
    simp [behind]

theorem replaceData_correct_iff (bounded : Bounded buffer) {oldLength : Nat}
    (room : Room buffer buffer.size source.length) (small : offset < SIZE)
    (fits : oldLength = MINUS_ONE ∨ offset + oldLength < SIZE) :
    Correct buffer (.replaceData offset oldLength source fresh) ↔
      (buffer.readOnly = false → Replaces buffer offset oldLength source.length) := by
  cases readOnly : buffer.readOnly with
  | true =>
    refine iff_of_true ?_ (fun impossible => by cases impossible)
    apply correct_refused bounded
    rw [perform, replace_data, remove_data_readOnly offset oldLength readOnly]
  | false =>
    simp only [forall_const, Replaces]
    by_cases whole : oldLength = MINUS_ONE
    · subst whole
      rw [if_pos rfl, (halfway_whole bounded offset readOnly).correct_iff bounded room small, Nat.zero_add]
      split
      · rw [Nat.le_zero]
      · constructor
        · intro same
          rw [← same]
        · intro none_
          rw [← none_]
    · rw [if_neg whole]
      by_cases inside : offset + oldLength ≤ buffer.size
      · simp only [inside, forall_const]
        by_cases readable : offset + buffer.size ≤ buffer.length
        · obtain ⟨memory, removed, kept, contents, same⟩ := remove_data_inside bounded readOnly whole inside readable
          have front : (buffer.contents.take offset).length = offset := by
            rw [List.length_take, bounded.length_contents]
            omega
          have half : Halfway buffer offset oldLength memory (buffer.size - oldLength) := by
            refine ⟨removed, kept, Nat.sub_le _ _, ?_⟩
            intro _
            rw [contents, behind, if_neg whole]
            exact ⟨List.take_left' front, List.drop_left' front⟩
          have within : offset ≤ buffer.size - oldLength := by omega
          simp only [half.correct_iff bounded room small, readable, within, true_and]
          split
          · rfl
          · constructor
            · intro equal
              have size : buffer.size - oldLength = buffer.size := congrArg CBuffer.size equal
              omega
            · intro nothing
              rw [same nothing, nothing, Nat.sub_zero]
        · refine iff_of_false ?_ (fun both => readable both.1)
          rintro ⟨result, after, performed, -⟩
          rw [perform, replace_data, remove_data_outside bounded readOnly whole inside (by omega)] at performed
          cases performed
      · refine iff_of_true ?_ (fun fitting => absurd fitting inside)
        apply correct_refused bounded
        rw [perform, replace_data, remove_data_beyond (fits.resolve_left whole) whole (by omega)]

/-! ## Every run -/

/-- The bytes that `RemoveData` and `ReplaceData` move are there and the position
    does not fall behind the end; and `InsertData` inserts inside. -/
def Fits (buffer : CBuffer) : Operation → Prop
  | .insertData offset source _ => Accepts buffer (buffer.size + source.length) → offset ≤ buffer.size
  | .removeData offset length => buffer.readOnly = false → Removes buffer offset length
  | .replaceData offset oldLength source _ => buffer.readOnly = false → Replaces buffer offset oldLength source.length
  | _ => True

instance Fits.decide (buffer : CBuffer) : (operation : Operation) → Decidable (Fits buffer operation)
  | .insertData offset source _ => inferInstanceAs (Decidable (Accepts buffer (buffer.size + source.length) → offset ≤ buffer.size))
  | .removeData offset length => inferInstanceAs (Decidable (buffer.readOnly = false → Removes buffer offset length))
  | .replaceData offset oldLength source _ =>
    inferInstanceAs (Decidable (buffer.readOnly = false → Replaces buffer offset oldLength source.length))
  | .allocBuffer _ _ _ _ _ | .setSize _ _ _ _ | .setPosition _ | .getData _ | .readData _ | .getDataAt _ _ | .setData _ _
  | .writeData _ _ | .setDataAt _ _ _ | .appendData _ _ | .shiftData _ => inferInstanceAs (Decidable True)

theorem correct_iff (bounded : Bounded buffer) {operation : Operation} (small : Small buffer operation) :
    Correct buffer operation ↔ Fits buffer operation := by
  cases operation with
  | allocBuffer length used fixed empty fresh => exact iff_of_true (correct_allocBuffer used fixed empty fresh small) trivial
  | setSize size expend preAlloc fresh => exact iff_of_true (correct_setSize bounded expend fresh small) trivial
  | setPosition position => exact iff_of_true (correct_setPosition bounded position) trivial
  | getData length => exact iff_of_true (correct_getData bounded small) trivial
  | readData length => exact iff_of_true (correct_readData bounded small) trivial
  | getDataAt offset length => exact iff_of_true (correct_getDataAt bounded small) trivial
  | setData source fresh => exact iff_of_true (correct_setData bounded fresh small) trivial
  | writeData source fresh => exact iff_of_true (correct_writeData bounded fresh small) trivial
  | setDataAt offset source fresh => exact iff_of_true (correct_setDataAt bounded fresh small) trivial
  | appendData bytes fresh => exact iff_of_true (correct_appendData bounded fresh small) trivial
  | insertData offset source fresh => exact insertData_correct_iff bounded small.1 small.2
  | replaceData offset oldLength source fresh => exact replaceData_correct_iff bounded small.1 small.2.1 small.2.2
  | shiftData offset => exact iff_of_true (correct_shiftData bounded offset) trivial
  | removeData offset length => exact removeData_correct_iff bounded small

/-- A buffer as the constructors make it: empty, or full of the bytes it was given. -/
def Constructed (buffer : CBuffer) : Prop :=
  buffer = {} ∨ buffer.null = false ∧ buffer.size = buffer.length ∧ buffer.position = 0 ∧ buffer.length < SIZE

theorem buffer_is_byte_list {first buffer : CBuffer} (constructed : Constructed first)
    (run : Run step (fun buffer operation => Small buffer operation ∧ Fits buffer operation) first buffer) :
    Bounded buffer ∧ ∀ operation, Small buffer operation → (Correct buffer operation ↔ Fits buffer operation) := by
  have bounded : Bounded buffer := by
    apply run.invariant Bounded
    · rcases constructed with rfl | ⟨there, full, start, small⟩
      · exact ⟨Nat.le_refl _, Nat.le_refl _, by decide, fun _ => rfl⟩
      · refine ⟨by omega, by omega, small, ?_⟩
        intro null
        rw [there] at null
        cases null
    · intro state operation later bounded meets moved
      obtain ⟨result, after, performed, bounds, -⟩ := (correct_iff bounded meets.1).mpr meets.2
      rw [step, performed, Option.map_some] at moved
      cases moved
      exact bounds
  exact ⟨bounded, fun operation small => correct_iff bounded small⟩

/-- A growing buffer that is written, cut and read. -/
def writtenRun : List Operation :=
  [.allocBuffer 0 false false true (fun _ => 0), .appendData [1, 2, 3, 4] (fun _ => 9), .removeData 1 2, .setPosition MINUS_ONE,
    .setData (.data [5]) (fun _ => 9), .setPosition 0]

theorem buffer_is_byte_list_written : ∃ buffer, runs step {} writtenRun = some buffer ∧ buffer.contents = [1, 4, 5] ∧
    Correct buffer (.removeData 0 MINUS_ONE) ∧ ¬ Correct buffer (.removeData 1 MINUS_ONE) := by
  have meets : Meets step (fun buffer operation => Small buffer operation ∧ Fits buffer operation) {} writtenRun := by decide
  obtain ⟨-, as_meant⟩ := buffer_is_byte_list (.inl rfl) (Run.of_runs .start meets rfl)
  refine ⟨_, rfl, rfl, (as_meant (.removeData 0 MINUS_ONE) (by decide)).mpr (by decide), ?_⟩
  rw [as_meant (.removeData 1 MINUS_ONE) (by decide)]
  decide

/-- Bytes are taken out of the middle of a full buffer. -/
theorem buffer_read_beyond : ¬ ∀ {first buffer : CBuffer}, Constructed first → Run step Small first buffer →
    Bounded buffer ∧ ∀ operation, Small buffer operation → Correct buffer operation := by
  intro always
  have full : Constructed { memory := [1, 2, 3], null := false, size := 3, type := .fixed } := .inr (by decide)
  obtain ⟨result, after, performed, -⟩ := (always full .start).2 (.removeData 1 1) (.inr (by decide))
  cases performed

end TaskExplorer.Buffer
