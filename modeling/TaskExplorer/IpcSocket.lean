import TaskExplorer.VariantContainer

/-!
# Messages through a socket

`CIPCSocket` puts a length in front of every message and takes the messages out
of the stream again, whatever pieces it arrives in. The socket itself is left
out: what was written on one side is the stream, `OnReadyRead` is given the next
piece of it, and after `Fail` there is no further piece.
-/

namespace TaskExplorer.IpcSocket
open Codec VariantFormat VariantContainer

inductive EMessageType where
  | request
  | response
  | event
deriving DecidableEq, Repr

def EMessageType.toByte : EMessageType → UInt8
  | .request => 1
  | .response => 2
  | .event => 3

def messageType (byte : Nat) : Option EMessageType :=
  if byte = 1 then some .request
  else if byte = 2 then some .response
  else if byte = 3 then some .event
  else none

def eFieldType : UInt32 := 0x6D747970
def eFieldNumber : UInt32 := 0x6D6E756D
def eFieldCommand : UInt32 := 0x6D636D64
def eFieldData : UInt32 := 0x6D646174

def c_LengthSize : Nat := 4

/-- What is sent and what is emitted. The payload is kept as its type and the
    bytes `MkPayload` gives. -/
structure Message where
  type : EMessageType
  command : UInt32
  number : UInt64
  data : Packed
deriving DecidableEq, Repr

def is_valid (variant : Packed) : Bool := variant.type ≠ VAR_TYPE_EMPTY

/-! ## Sending -/

def envelope (message : Message) : List (Key × Packed) :=
  [(.id eFieldType, ⟨VAR_TYPE_UINT, [message.type.toByte]⟩),
    (.id eFieldNumber, ⟨VAR_TYPE_UINT, leBytes 8 message.number.toNat⟩),
    (.id eFieldCommand, ⟨VAR_TYPE_UINT, leBytes 4 message.command.toNat⟩)] ++
    if is_valid message.data then [(.id eFieldData, message.data)] else []

/-- `BeginIMap`, the writes, and `Finish`, which keeps the low 32 bits of the
    size. -/
def packet (message : Message) : Bytes :=
  let buffer := (envelope message).flatMap write_entry
  to_packet ⟨VAR_TYPE_INDEX, buffer.take (buffer.length % 2 ^ 32)⟩

/-- `QByteArray::append` with a length that was cast to `int`: a negative one
    stands for the length of a C string. -/
def append_int (bytes : Bytes) (length : Nat) : Bytes :=
  if length % 2 ^ 32 < 2 ^ 31 then bytes.take (length % 2 ^ 32) else c_str bytes

/-- The frame that is written to a connected socket, or nothing. -/
def send (maxFrameSize : Nat) (message : Message) : Option Bytes :=
  let size := (packet message).length
  if size % 2 ^ 32 > maxFrameSize then none
  else some (leBytes c_LengthSize (size % 2 ^ 32) ++ append_int (packet message) size)

/-! ## Receiving -/

/-- `GetInt`. -/
def get_int (size : Nat) (variant : Packed) : Except CException Nat :=
  if variant.type = VAR_TYPE_EMPTY then .ok 0
  else if variant.type ≠ VAR_TYPE_SINT ∧ variant.type ≠ VAR_TYPE_UINT then
    .error { line := "Int Value can not be pulled form a incomatible type" }
  else if (variant.payload.drop size).any (· ≠ 0) then
    .error { line := "Int Value pulled is shorter than int value present" }
  else .ok (leNat (variant.payload.take size))

/-- `CVariant::Find(Index)`, with the variant it returns when there is none. -/
def find (message : Packed) (index : UInt32) : Except CException Packed :=
  if message.type ≠ VAR_TYPE_INDEX then .ok ⟨VAR_TYPE_EMPTY, []⟩
  else do
    let found ← find_raw .index message.payload (.id index)
    return found.getD ⟨VAR_TYPE_EMPTY, []⟩

/-- What the body of a frame is taken for, before its type is looked at. -/
structure Parsed where
  type : Nat
  command : UInt32
  number : UInt64
  data : Packed

/-- The `try` block: the fields, and a copy of the payload through the packet
    format. -/
def parse_message (body : Bytes) : Except CException Parsed := do
  let (message, _) ← from_packet ⟨body, 0⟩
  let type ← get_int 1 (← find message eFieldType)
  let number ← get_int 8 (← find message eFieldNumber)
  let command ← get_int 4 (← find message eFieldCommand)
  let payload ← find message eFieldData
  let data ← if is_valid payload then do
      let (copy, _) ← from_packet ⟨to_packet payload, 0⟩
      pure copy
    else pure ⟨VAR_TYPE_EMPTY, []⟩
  return ⟨type, UInt32.ofNat command, UInt64.ofNat number, data⟩

/-- The reasons given to `Fail`. -/
inductive Failure where
  | exceedsLimit (length : Nat)
  | malformed
  | unknownType (type : Nat)
deriving DecidableEq, Repr

/-- What is made of a body that has all arrived. -/
def accept (body rest : Bytes) : Step Failure Message :=
  match parse_message body with
  | .error _ => .fail .malformed
  | .ok parsed =>
    match messageType parsed.type with
    | none => .fail (.unknownType parsed.type)
    | some type => .item ⟨type, parsed.command, parsed.number, parsed.data⟩ rest

/-- One turn of the loop, if the buffer's size is `size`. -/
def turn (maxFrameSize size : Nat) (buffer : Bytes) : Step Failure Message :=
  if size < c_LengthSize then .more
  else
    let length := leNat (buffer.take c_LengthSize)
    if length > maxFrameSize then .fail (.exceedsLimit length)
    else if size < (c_LengthSize + length) % 2 ^ 32 then .more
    else accept ((buffer.drop c_LengthSize).take length) (buffer.drop (c_LengthSize + length))

/-- The size is compared as `quint32`. -/
def frame (maxFrameSize : Nat) : Decoder Failure Message := fun buffer => turn maxFrameSize (buffer.length % 2 ^ 32) buffer

inductive Signal where
  | message (message : Message)
  | failed (reason : Failure)
deriving DecidableEq, Repr

structure Socket where
  readBuffer : Bytes := []
  aborted : Bool := false

def on_ready_read (maxFrameSize : Nat) (socket : Socket) (chunk : Bytes) : Socket × List Signal :=
  if socket.aborted then (socket, [])
  else
    match run (frame maxFrameSize) (socket.readBuffer ++ chunk) with
    | (messages, .pending rest) => ({ socket with readBuffer := rest }, messages.map .message)
    | (messages, .failed reason) => ({ readBuffer := [], aborted := true }, messages.map .message ++ [.failed reason])

def receive (maxFrameSize : Nat) : Socket → List Bytes → Socket × List Signal
  | socket, [] => (socket, [])
  | socket, chunk :: rest =>
    let (socket, signals) := on_ready_read maxFrameSize socket chunk
    let (socket, more) := receive maxFrameSize socket rest
    (socket, signals ++ more)

/-! ## The frames of a stream -/

/-- The loop's turn when sizes are compared as they are. -/
def wholeFrame (maxFrameSize : Nat) : Decoder Failure Message := fun buffer => turn maxFrameSize buffer.length buffer

/-- What the messages of a stream are, whatever pieces it comes in. -/
def signals (maxFrameSize : Nat) (stream : Bytes) : List Signal :=
  match run (wholeFrame maxFrameSize) stream with
  | (messages, .pending _) => messages.map .message
  | (messages, .failed reason) => messages.map .message ++ [.failed reason]

def remaining (maxFrameSize : Nat) (stream : Bytes) : Socket :=
  match run (wholeFrame maxFrameSize) stream with
  | (_, .pending rest) => { readBuffer := rest }
  | (_, .failed _) => { aborted := true }

/-- No more than 2^32 - 1 bytes are in the buffer at any time. -/
def Bounded (maxFrameSize : Nat) : Socket → List Bytes → Prop
  | _, [] => True
  | socket, chunk :: rest =>
    (socket.aborted = false → socket.readBuffer.length + chunk.length < 2 ^ 32) ∧
      Bounded maxFrameSize (on_ready_read maxFrameSize socket chunk).1 rest

private theorem accept_item {body rest after : Bytes} {message : Message} (accepted : accept body rest = .item message after) :
    after = rest ∧ ∀ other, accept body other = .item message other := by
  unfold accept at accepted
  cases parsed : parse_message body with
  | error raised => simp [parsed] at accepted
  | ok fields =>
    cases known : messageType fields.type with
    | none => simp [parsed, known] at accepted
    | some type =>
      simp only [parsed, known, Step.item.injEq] at accepted
      obtain ⟨rfl, rfl⟩ := accepted
      exact ⟨rfl, fun other => by simp [accept, parsed, known]⟩

private theorem accept_fail {body rest : Bytes} {reason : Failure} (refused : accept body rest = .fail reason) :
    ∀ other, accept body other = .fail reason := by
  intro other
  unfold accept at refused ⊢
  cases parsed : parse_message body with
  | error raised => simpa [parsed] using refused
  | ok fields =>
    cases known : messageType fields.type with
    | none => simpa [parsed, known] using refused
    | some type => simp [parsed, known] at refused

private theorem turn_item {maxFrameSize size : Nat} {buffer rest : Bytes} {message : Message} (fits : size ≤ buffer.length)
    (found : turn maxFrameSize size buffer = .item message rest) :
    c_LengthSize ≤ buffer.length ∧ ∃ length, rest = buffer.drop (c_LengthSize + length) := by
  unfold turn at found
  split_ifs at found with short
  · simp only at found
    split_ifs at found
    exact ⟨by omega, _, (accept_item found).1⟩

private theorem turn_productive {maxFrameSize : Nat} {size : Bytes → Nat} (fits : ∀ buffer, size buffer ≤ buffer.length) :
    Productive (fun buffer => turn maxFrameSize (size buffer) buffer) where
  idle := by
    have none : size [] = 0 := Nat.le_zero.mp (fits [])
    simp [turn, none, c_LengthSize]
  splits buffer message rest found := by
    obtain ⟨long, length, rfl⟩ := turn_item (fits buffer) found
    refine ⟨buffer.take (c_LengthSize + length), ?_, (List.take_append_drop _ _).symm⟩
    intro empty
    have lengths := congrArg List.length empty
    simp only [List.length_take, List.length_nil, c_LengthSize] at lengths long
    omega

theorem frame_productive (maxFrameSize : Nat) : Productive (frame maxFrameSize) :=
  turn_productive (fun _ => Nat.mod_le _ _)

theorem wholeFrame_productive (maxFrameSize : Nat) : Productive (wholeFrame maxFrameSize) :=
  turn_productive (fun _ => le_refl _)

private theorem receive_aborted (maxFrameSize : Nat) (buffer : Bytes) (chunks : List Bytes) :
    receive maxFrameSize { readBuffer := buffer, aborted := true } chunks = ({ readBuffer := buffer, aborted := true }, []) := by
  induction chunks with
  | nil => rfl
  | cons chunk rest ih => simp [receive, on_ready_read, ih]

section Limit
variable {maxFrameSize : Nat} (limit : maxFrameSize < 2 ^ 32 - 4)
include limit

theorem wholeFrame_eq {buffer : Bytes} (long : c_LengthSize ≤ buffer.length) :
    wholeFrame maxFrameSize buffer =
      if leNat (buffer.take c_LengthSize) > maxFrameSize then .fail (.exceedsLimit (leNat (buffer.take c_LengthSize)))
      else if buffer.length < c_LengthSize + leNat (buffer.take c_LengthSize) then .more
      else accept ((buffer.drop c_LengthSize).take (leNat (buffer.take c_LengthSize)))
        (buffer.drop (c_LengthSize + leNat (buffer.take c_LengthSize))) := by
  simp only [wholeFrame, turn, if_neg (Nat.not_lt.mpr long)]
  by_cases exceeds : leNat (buffer.take c_LengthSize) > maxFrameSize
  · rw [if_pos exceeds, if_pos exceeds]
  · have whole : (c_LengthSize + leNat (buffer.take c_LengthSize)) % 2 ^ 32 = c_LengthSize + leNat (buffer.take c_LengthSize) := by
      apply Nat.mod_eq_of_lt
      simp only [c_LengthSize] at exceeds ⊢
      omega
    rw [whole]

theorem wholeFrame_stable : Stable (wholeFrame maxFrameSize) := by
  have extended {buffer more : Bytes} (long : c_LengthSize ≤ buffer.length) :
      (buffer ++ more).take c_LengthSize = buffer.take c_LengthSize := List.take_append_of_le_length long
  have decided {buffer : Bytes} (verdict : wholeFrame maxFrameSize buffer ≠ .more) : c_LengthSize ≤ buffer.length := by
    by_contra short
    exact verdict (by simp [wholeFrame, turn, Nat.lt_of_not_le short])
  constructor
  · intro buffer message rest more found
    have long := decided (by rw [found]; simp)
    have longer : c_LengthSize ≤ (buffer ++ more).length := by rw [List.length_append]; omega
    rw [wholeFrame_eq limit long] at found
    rw [wholeFrame_eq limit longer, extended long]
    split_ifs at found with exceeds short
    · obtain ⟨rfl, same⟩ := accept_item found
      have inside : ¬ (buffer ++ more).length < c_LengthSize + leNat (buffer.take c_LengthSize) := by
        rw [List.length_append]
        omega
      have body : ((buffer ++ more).drop c_LengthSize).take (leNat (buffer.take c_LengthSize)) =
          (buffer.drop c_LengthSize).take (leNat (buffer.take c_LengthSize)) := by
        rw [List.drop_append_of_le_length long, List.take_append_of_le_length]
        rw [List.length_drop]
        omega
      rw [if_neg exceeds, if_neg inside, body, List.drop_append_of_le_length (by omega)]
      exact same _
  · intro buffer reason more found
    have long := decided (by rw [found]; simp)
    have longer : c_LengthSize ≤ (buffer ++ more).length := by rw [List.length_append]; omega
    rw [wholeFrame_eq limit long] at found
    rw [wholeFrame_eq limit longer, extended long]
    split_ifs at found with exceeds short
    · rw [if_pos exceeds]
      exact found
    · have inside : ¬ (buffer ++ more).length < c_LengthSize + leNat (buffer.take c_LengthSize) := by
        rw [List.length_append]
        omega
      have body : ((buffer ++ more).drop c_LengthSize).take (leNat (buffer.take c_LengthSize)) =
          (buffer.drop c_LengthSize).take (leNat (buffer.take c_LengthSize)) := by
        rw [List.drop_append_of_le_length long, List.take_append_of_le_length]
        rw [List.length_drop]
        omega
      rw [if_neg exceeds, if_neg inside, body]
      exact accept_fail found _

theorem receive_eq {buffer : Bytes} (waiting : wholeFrame maxFrameSize buffer = .more) {chunks : List Bytes}
    (bounded : Bounded maxFrameSize { readBuffer := buffer } chunks) :
    receive maxFrameSize { readBuffer := buffer } chunks =
      (remaining maxFrameSize (buffer ++ chunks.flatten), signals maxFrameSize (buffer ++ chunks.flatten)) := by
  induction chunks generalizing buffer with
  | nil => simp [receive, remaining, signals, run_more waiting]
  | cons chunk rest ih =>
    obtain ⟨fits, later⟩ := bounded
    have same : run (frame maxFrameSize) (buffer ++ chunk) = run (wholeFrame maxFrameSize) (buffer ++ chunk) := by
      refine run_congr (frame_productive _) (wholeFrame_productive _) ?_ _ (List.length_append ▸ fits rfl)
      intro bytes short
      rw [frame, wholeFrame, Nat.mod_eq_of_lt short]
    have joined := run_append (wholeFrame_productive maxFrameSize) (wholeFrame_stable limit) (buffer ++ chunk) rest.flatten
    have regrouped : buffer ++ (chunk :: rest).flatten = buffer ++ chunk ++ rest.flatten := by simp
    rw [receive, regrouped]
    cases read : run (wholeFrame maxFrameSize) (buffer ++ chunk) with
    | mk messages tail =>
      rw [read] at same joined
      cases tail with
      | failed reason =>
        have called : on_ready_read maxFrameSize { readBuffer := buffer } chunk =
            ({ aborted := true }, messages.map .message ++ [.failed reason]) := by simp [on_ready_read, same]
        simp only [called, receive_aborted, remaining, signals, joined, List.append_nil]
      | pending left =>
        have stopped : wholeFrame maxFrameSize left = .more := run_pending (wholeFrame_productive _) (buffer ++ chunk) left (by rw [read])
        have called : on_ready_read maxFrameSize { readBuffer := buffer } chunk =
            ({ readBuffer := left }, messages.map .message) := by simp [on_ready_read, same]
        rw [called] at later ⊢
        simp only [ih stopped later, remaining, signals, joined]
        cases again : run (wholeFrame maxFrameSize) (left ++ rest.flatten) with
        | mk more ended =>
          cases ended with
          | failed reason => simp
          | pending final => simp

end Limit

/-! ## What `Send` accepts -/

theorem get_int_le (size value : Nat) (fits : value < 256 ^ size) :
    get_int size ⟨VAR_TYPE_UINT, leBytes size value⟩ = .ok value := by
  have integer : VAR_TYPE_UINT ≠ VAR_TYPE_EMPTY := by decide
  have none : (leBytes size value).drop size = [] := List.drop_eq_nil_of_le (by simp)
  have all : (leBytes size value).take size = leBytes size value := List.take_of_length_le (by simp)
  simp only [get_int, if_neg integer, none, all, leNat_leBytes_of_lt fits]
  rfl

private theorem parse_message_fields {body : Bytes} {whole type number command data : Packed} {after : Cursor}
    {typeValue numberValue commandValue : Nat} (read : from_packet ⟨body, 0⟩ = .ok (whole, after))
    (typeField : find whole eFieldType = .ok type) (typeRead : get_int 1 type = .ok typeValue)
    (numberField : find whole eFieldNumber = .ok number) (numberRead : get_int 8 number = .ok numberValue)
    (commandField : find whole eFieldCommand = .ok command) (commandRead : get_int 4 command = .ok commandValue)
    (dataField : find whole eFieldData = .ok data)
    (copied : is_valid data = true → ∃ behind, from_packet ⟨to_packet data, 0⟩ = .ok (data, behind))
    (bare : is_valid data = false → data = ⟨VAR_TYPE_EMPTY, []⟩) :
    parse_message body = .ok ⟨typeValue, UInt32.ofNat commandValue, UInt64.ofNat numberValue, data⟩ := by
  simp only [parse_message, bind, Except.bind, read, typeField, typeRead, numberField, numberRead, commandField, commandRead,
    dataField, pure, Except.pure]
  cases valid : is_valid data with
  | true =>
    obtain ⟨behind, copy⟩ := copied valid
    simp [copy]
  | false => simp [bare valid]

/-- A payload that is not EMPTY with bytes, in a message that is encoded in no
    more than the limit and in less than 2^31 bytes. -/
structure Sendable (maxFrameSize : Nat) (message : Message) : Prop where
  bare : message.data.type = VAR_TYPE_EMPTY → message.data.payload = []
  allowed : (to_packet ⟨VAR_TYPE_INDEX, (envelope message).flatMap write_entry⟩).length ≤ maxFrameSize
  positive : (to_packet ⟨VAR_TYPE_INDEX, (envelope message).flatMap write_entry⟩).length < 2 ^ 31

section Sent
variable {maxFrameSize : Nat} {message : Message} (sendable : Sendable maxFrameSize message)
include sendable

private theorem envelope_short : ((envelope message).flatMap write_entry).length < 2 ^ 31 := by
  have whole := sendable.positive
  simp only [to_packet, List.length_append] at whole
  omega

private theorem packet_whole : packet message = to_packet ⟨VAR_TYPE_INDEX, (envelope message).flatMap write_entry⟩ := by
  have short := envelope_short sendable
  rw [packet, Nat.mod_eq_of_lt (by omega), List.take_length]

private theorem envelope_encodable : ∀ pair ∈ envelope message, KeyFits .index pair.1 ∧ Encodable pair.2 := by
  intro pair member
  have short : (write_entry pair).length ≤ ((envelope message).flatMap write_entry).length := by
    rw [List.length_flatMap]
    exact List.single_le_sum (fun _ _ => Nat.zero_le _) _ (List.mem_map.mpr ⟨pair, member, rfl⟩)
  have small := envelope_short sendable
  have fits : pair.2.payload.length < 2 ^ 32 := by
    simp only [write_entry, to_packet, List.length_append] at short
    omega
  have integer : VAR_TYPE_UINT ≠ VAR_TYPE_EMPTY := by decide
  simp only [envelope, List.mem_append, List.mem_cons, List.not_mem_nil, or_false] at member
  rcases member with (rfl | rfl | rfl) | last
  · exact ⟨trivial, fun empty => absurd empty integer, fits⟩
  · exact ⟨trivial, fun empty => absurd empty integer, fits⟩
  · exact ⟨trivial, fun empty => absurd empty integer, fits⟩
  · split_ifs at last with valid
    · cases List.mem_singleton.mp last
      exact ⟨trivial, fun empty => absurd empty (by simpa [is_valid] using valid), fits⟩
    · simp at last

private theorem find_envelope (index : UInt32) :
    find ⟨VAR_TYPE_INDEX, (envelope message).flatMap write_entry⟩ index =
      .ok ((((envelope message).find? (fun pair => pair.1 = .id index)).map Prod.snd).getD ⟨VAR_TYPE_EMPTY, []⟩) := by
  have walked := raw_entries_written .index (envelope message) (envelope_encodable sendable)
  simp only [find, find_raw, walked, ne_eq, not_true_eq_false, if_false]
  cases (envelope message).find? (fun pair => pair.1 = .id index) <;> rfl

/-- The four fields are found where `Send` put them. -/
private theorem find_fields :
    let written : Packed := ⟨VAR_TYPE_INDEX, (envelope message).flatMap write_entry⟩
    find written eFieldType = .ok ⟨VAR_TYPE_UINT, [message.type.toByte]⟩ ∧
      find written eFieldNumber = .ok ⟨VAR_TYPE_UINT, leBytes 8 message.number.toNat⟩ ∧
      find written eFieldCommand = .ok ⟨VAR_TYPE_UINT, leBytes 4 message.command.toNat⟩ ∧
      find written eFieldData = .ok message.data := by
  have apart : eFieldType ≠ eFieldNumber ∧ eFieldType ≠ eFieldCommand ∧ eFieldNumber ≠ eFieldCommand ∧
      eFieldType ≠ eFieldData ∧ eFieldNumber ≠ eFieldData ∧ eFieldCommand ≠ eFieldData := by decide
  obtain ⟨typeNumber, typeCommand, numberCommand, typeData, numberData, commandData⟩ := apart
  simp only [find_envelope sendable]
  refine ⟨?_, ?_, ?_, ?_⟩
  · simp [envelope]
  · simp [envelope, typeNumber]
  · simp [envelope, typeCommand, numberCommand]
  · by_cases valid : is_valid message.data
    · simp [envelope, valid, typeData, numberData, commandData]
    · have kind : message.data.type = VAR_TYPE_EMPTY := by simpa [is_valid] using valid
      have payload := sendable.bare kind
      have empty : message.data = ⟨VAR_TYPE_EMPTY, []⟩ := by rw [← kind, ← payload]
      simp only [envelope, if_neg valid, List.append_nil]
      rw [empty]
      simp [typeData, numberData, commandData]

theorem parse_message_packet : parse_message (packet message) =
    .ok ⟨message.type.toByte.toNat, message.command, message.number, message.data⟩ := by
  have bounded := envelope_short sendable
  have whole : Encodable ⟨VAR_TYPE_INDEX, (envelope message).flatMap write_entry⟩ :=
    ⟨fun empty => absurd empty (kind_type_ne_empty .index), by simp only; omega⟩
  have read := from_packet_to_packet _ whole [] 0
  have type : get_int 1 ⟨VAR_TYPE_UINT, [message.type.toByte]⟩ = .ok message.type.toByte.toNat := by
    cases message.type <;> rfl
  have number := get_int_le 8 message.number.toNat (by simpa using message.number.toNat_lt)
  have command := get_int_le 4 message.command.toNat (by simpa using message.command.toNat_lt)
  obtain ⟨typeField, numberField, commandField, dataField⟩ := find_fields sendable
  rw [List.append_nil, ← packet_whole sendable] at read
  have parsed := parse_message_fields read typeField type numberField number commandField command dataField
  rw [UInt32.ofNat_toNat, UInt64.ofNat_toNat] at parsed
  apply parsed
  · intro valid
    have member : (.id eFieldData, message.data) ∈ envelope message := by simp [envelope, valid]
    have copied := from_packet_to_packet _ (envelope_encodable sendable _ member).2 [] 0
    rw [List.append_nil] at copied
    exact ⟨_, copied⟩
  · intro invalid
    have kind : message.data.type = VAR_TYPE_EMPTY := by simpa [is_valid] using invalid
    have payload := sendable.bare kind
    rw [← kind, ← payload]

theorem send_accepts : send maxFrameSize message =
    some (leBytes c_LengthSize (packet message).length ++ packet message) := by
  have positive := sendable.positive
  have allowed := sendable.allowed
  rw [← packet_whole sendable] at positive allowed
  have same : (packet message).length % 2 ^ 32 = (packet message).length := Nat.mod_eq_of_lt (by omega)
  simp only [send, append_int, same, if_neg (Nat.not_lt.mpr allowed), if_pos positive, List.take_length]

private theorem wholeFrame_sent (limit : maxFrameSize < 2 ^ 32 - 4) (rest : Bytes) :
    wholeFrame maxFrameSize (leBytes c_LengthSize (packet message).length ++ packet message ++ rest) = .item message rest := by
  have positive := sendable.positive
  have allowed := sendable.allowed
  rw [← packet_whole sendable] at positive allowed
  have start : (leBytes c_LengthSize (packet message).length ++ packet message ++ rest).take c_LengthSize =
      leBytes c_LengthSize (packet message).length := by
    rw [List.append_assoc, List.take_left' (leBytes_length _ _)]
  have body : ((leBytes c_LengthSize (packet message).length ++ packet message ++ rest).drop c_LengthSize).take
      (packet message).length = packet message := by
    rw [List.append_assoc, List.drop_left' (leBytes_length _ _), List.take_left]
  have behind : (leBytes c_LengthSize (packet message).length ++ packet message ++ rest).drop
      (c_LengthSize + (packet message).length) = rest := by
    rw [List.drop_left']
    rw [List.length_append, leBytes_length]
  have length : leNat (leBytes c_LengthSize (packet message).length) = (packet message).length := by
    apply leNat_leBytes_of_lt
    simp only [c_LengthSize]
    omega
  have known : messageType message.type.toByte.toNat = some message.type := by cases message.type <;> rfl
  rw [wholeFrame_eq limit (by simp only [List.length_append, leBytes_length]; omega), start, length, body, behind,
    if_neg (Nat.not_lt.mpr allowed), if_neg (by simp only [List.length_append, leBytes_length]; omega)]
  simp only [accept, parse_message_packet sendable, known]

private theorem wholeFrame_waits (limit : maxFrameSize < 2 ^ 32 - 4) {part missing : Bytes} (cut : part ++ missing =
    leBytes c_LengthSize (packet message).length ++ packet message) (lacks : missing ≠ []) :
    wholeFrame maxFrameSize part = .more := by
  by_cases long : c_LengthSize ≤ part.length
  · have positive := sendable.positive
    have allowed := sendable.allowed
    rw [← packet_whole sendable] at positive allowed
    have start : part.take c_LengthSize = leBytes c_LengthSize (packet message).length := by
      have front := congrArg (List.take c_LengthSize) cut
      rwa [List.take_append_of_le_length long, List.take_left' (leBytes_length _ _)] at front
    have length : leNat (leBytes c_LengthSize (packet message).length) = (packet message).length := by
      apply leNat_leBytes_of_lt
      simp only [c_LengthSize]
      omega
    have short : part.length < c_LengthSize + (packet message).length := by
      have total := congrArg List.length cut
      have some := List.length_pos_iff.mpr lacks
      simp only [List.length_append, leBytes_length] at total
      omega
    rw [wholeFrame_eq limit long, start, length, if_neg (Nat.not_lt.mpr allowed), if_pos short]
  · simp [wholeFrame, turn, Nat.lt_of_not_le long]

end Sent

/-! ## Delivery -/

/-- What a sequence of calls of `Send` puts on the wire. -/
def written (maxFrameSize : Nat) (messages : List Message) : Bytes :=
  messages.flatMap (fun message => (send maxFrameSize message).getD [])

/-- Messages, and then at most one `Fail`. -/
def EndsAtFail (signals : List Signal) : Prop :=
  ∃ (messages : List Message) (failure : Option Failure), signals = messages.map .message ++ failure.toList.map .failed

private theorem receive_endsAtFail (maxFrameSize : Nat) (socket : Socket) (chunks : List Bytes) :
    EndsAtFail (receive maxFrameSize socket chunks).2 := by
  induction chunks generalizing socket with
  | nil => exact ⟨[], none, rfl⟩
  | cons chunk rest ih =>
    cases dead : socket.aborted with
    | true =>
      have silent : on_ready_read maxFrameSize socket chunk = (socket, []) := by simp [on_ready_read, dead]
      simp only [receive, silent, List.nil_append]
      exact ih socket
    | false =>
      cases read : run (frame maxFrameSize) (socket.readBuffer ++ chunk) with
      | mk messages tail =>
        cases tail with
        | pending left =>
          have called : on_ready_read maxFrameSize socket chunk = ({ socket with readBuffer := left }, messages.map .message) := by
            simp [on_ready_read, dead, read]
          obtain ⟨more, failure, later⟩ := ih { socket with readBuffer := left }
          refine ⟨messages ++ more, failure, ?_⟩
          simp only [receive, called, later, List.map_append, List.append_assoc]
        | failed reason =>
          have called : on_ready_read maxFrameSize socket chunk =
              ({ aborted := true }, messages.map .message ++ [.failed reason]) := by simp [on_ready_read, dead, read]
          refine ⟨messages, some reason, ?_⟩
          simp only [receive, called, receive_aborted, List.append_nil]
          rfl

/-- Whatever the pieces, the messages whose frames have all arrived are emitted
    in order and the start of the next frame is kept. Whatever the stream, what is
    emitted depends on its bytes alone and ends at the first `Fail`. -/
theorem messages_delivered {maxFrameSize : Nat} (limit : maxFrameSize < 2 ^ 32 - 4) :
    (∀ (messages : List Message) (chunks : List Bytes) (unread : Bytes), (∀ message ∈ messages, Sendable maxFrameSize message) →
      chunks.flatten ++ unread = written maxFrameSize messages → Bounded maxFrameSize {} chunks →
      ∃ delivered undelivered buffer, messages = delivered ++ undelivered ∧
        receive maxFrameSize {} chunks = ({ readBuffer := buffer }, delivered.map .message) ∧
        chunks.flatten = written maxFrameSize delivered ++ buffer ∧ buffer ++ unread = written maxFrameSize undelivered ∧
        ∀ next ∈ undelivered.head?, buffer.length < (written maxFrameSize [next]).length) ∧
    (∀ chunks others : List Bytes, chunks.flatten = others.flatten → Bounded maxFrameSize {} chunks →
      Bounded maxFrameSize {} others → receive maxFrameSize {} chunks = receive maxFrameSize {} others) ∧
    ∀ chunks : List Bytes, EndsAtFail (receive maxFrameSize {} chunks).2 := by
  have idle : wholeFrame maxFrameSize [] = .more := (wholeFrame_productive maxFrameSize).idle
  refine ⟨?_, ?_, receive_endsAtFail maxFrameSize {}⟩
  · intro messages chunks unread sendable stream bounded
    have encoded (message : Message) (member : message ∈ messages) := send_accepts (sendable message member)
    obtain ⟨delivered, undelivered, buffer, split, ran, front, back, next⟩ :=
      run_encoded_cut (wholeFrame_productive maxFrameSize) (fun message => (send maxFrameSize message).getD []) messages
        (fun message member rest => by
          simp only [encoded message member, Option.getD_some]
          exact wholeFrame_sent (sendable message member) limit rest)
        (fun message member part missing cut lacks => by
          simp only [encoded message member, Option.getD_some] at cut
          exact wholeFrame_waits (sendable message member) limit cut lacks)
        chunks.flatten unread stream
    refine ⟨delivered, undelivered, buffer, split, ?_, front, back, ?_⟩
    · rw [receive_eq limit idle bounded, List.nil_append, remaining, signals, ran]
    · intro message first
      simpa [written] using next message first
  · intro chunks others same bounded otherBounded
    rw [receive_eq limit idle bounded, receive_eq limit idle otherBounded, same]

/-- Two messages, cut inside the first length and inside the second body. -/
theorem messages_delivered_cut :
    let first : Message := ⟨.request, 7, 1, ⟨VAR_TYPE_BYTES, [1, 2]⟩⟩
    let second : Message := ⟨.event, 9, 2, ⟨VAR_TYPE_EMPTY, []⟩⟩
    let stream := written 64 [first, second]
    ∃ delivered undelivered buffer, [first, second] = delivered ++ undelivered ∧
      receive 64 {} [stream.take 2, [], (stream.drop 2).take 60] = ({ readBuffer := buffer }, delivered.map .message) ∧
      buffer ++ stream.drop 62 = written 64 undelivered := by
  intro first second stream
  obtain ⟨delivered, undelivered, buffer, split, received, _, kept, _⟩ :=
    (messages_delivered (by decide : 64 < 2 ^ 32 - 4)).1 [first, second] [stream.take 2, [], (stream.drop 2).take 60] (stream.drop 62)
      (by
        intro message member
        rcases List.mem_pair.mp member with rfl | rfl
        · exact ⟨by decide, by decide, by decide⟩
        · exact ⟨by decide, by decide, by decide⟩)
      (by decide) ⟨fun _ => by decide, fun _ => by decide, fun _ => by decide, trivial⟩
  exact ⟨delivered, undelivered, buffer, split, received, kept⟩

/-- An EMPTY payload loses its bytes, and 2^32 bytes that come at once are not
    seen at all. -/
theorem messages_not_delivered :
    (send 64 ⟨.event, 9, 1, ⟨VAR_TYPE_EMPTY, [0xAA]⟩⟩).isSome ∧
    (receive 64 {} [written 64 [⟨.event, 9, 1, ⟨VAR_TYPE_EMPTY, [0xAA]⟩⟩]]).2 ≠ [.message ⟨.event, 9, 1, ⟨VAR_TYPE_EMPTY, [0xAA]⟩⟩] ∧
    [[0, 0, 0, 0], List.replicate (2 ^ 32 - 4) (0 : UInt8)].flatten = [List.replicate (2 ^ 32) 0].flatten ∧
    (receive 64 {} [[0, 0, 0, 0], List.replicate (2 ^ 32 - 4) 0]).2 = [.failed .malformed] ∧
    (receive 64 {} [List.replicate (2 ^ 32) 0]).2 = [] := by
  have refused : on_ready_read 64 {} [0, 0, 0, 0] = ({ aborted := true }, [.failed .malformed]) := by rfl
  have failed (rest : List Bytes) : (receive 64 {} ([0, 0, 0, 0] :: rest)).2 = [.failed .malformed] := by
    rw [receive, refused]
    simp only [receive_aborted, List.append_nil]
  have unseen (bytes : Bytes) (wraps : bytes.length % 2 ^ 32 = 0) : (receive 64 {} [bytes]).2 = [] := by
    have waiting : frame 64 bytes = .more := by
      rw [frame, wraps]
      rfl
    simp [receive, on_ready_read, run_more waiting]
  have joined (size whole : Nat) (more : whole = size + 4) :
      [[0, 0, 0, 0], List.replicate size (0 : UInt8)].flatten = [List.replicate whole 0].flatten := by
    simp [more, List.replicate_succ]
  refine ⟨by decide, by decide, joined _ _ (by norm_num), failed _, unseen _ ?_⟩
  rw [List.length_replicate, Nat.mod_self]

/-! ## What a peer can make it keep -/

section Hostile
variable {maxFrameSize : Nat} (limit : maxFrameSize < 2 ^ 32 - 4)
include limit

private theorem waiting_short {buffer : Bytes} (waiting : wholeFrame maxFrameSize buffer = .more) :
    buffer.length < c_LengthSize + maxFrameSize := by
  by_cases long : c_LengthSize ≤ buffer.length
  · rw [wholeFrame_eq limit long] at waiting
    split_ifs at waiting with exceeds short
    · omega
    · unfold accept at waiting
      split at waiting
      · cases waiting
      · split at waiting <;> cases waiting
  · omega

private theorem remaining_short (stream : Bytes) :
    (remaining maxFrameSize stream).readBuffer.length < c_LengthSize + maxFrameSize := by
  unfold remaining
  split
  · rename_i messages rest ran
    exact waiting_short limit (run_pending (wholeFrame_productive _) stream rest (by rw [ran]))
  · exact Nat.add_pos_left (by decide) _

private theorem small_bounded {buffer : Bytes} (waiting : wholeFrame maxFrameSize buffer = .more) {chunks : List Bytes}
    (small : ∀ chunk ∈ chunks, c_LengthSize + maxFrameSize + chunk.length ≤ 2 ^ 32) :
    Bounded maxFrameSize { readBuffer := buffer } chunks := by
  induction chunks generalizing buffer with
  | nil => trivial
  | cons chunk rest ih =>
    have kept := waiting_short limit waiting
    have fits := small chunk List.mem_cons_self
    have total : buffer.length + chunk.length < 2 ^ 32 := by omega
    refine ⟨fun _ => total, ?_⟩
    have read := @receive_eq _ limit _ waiting [chunk] ⟨fun _ => total, trivial⟩
    have called : (on_ready_read maxFrameSize { readBuffer := buffer } chunk).1 = remaining maxFrameSize (buffer ++ chunk) := by
      simpa [receive] using congrArg Prod.fst read
    rw [called, remaining]
    split
    · rename_i messages left ran
      exact ih (run_pending (wholeFrame_productive _) _ left (by rw [ran])) (fun other member => small other (List.mem_cons_of_mem _ member))
    · clear small ih
      induction rest with
      | nil => trivial
      | cons next rest ih => exact ⟨fun alive => (by cases alive), ih⟩

/-- Whatever a peer sends in whatever pieces, fewer bytes are kept than a length and the longest body take, and the
    comparisons as `quint32` decide as those of the sizes themselves would. -/
theorem buffer_bounded (chunks : List Bytes) (small : ∀ chunk ∈ chunks, c_LengthSize + maxFrameSize + chunk.length ≤ 2 ^ 32) :
    (receive maxFrameSize {} chunks).1.readBuffer.length < c_LengthSize + maxFrameSize ∧
      receive maxFrameSize {} chunks = (remaining maxFrameSize chunks.flatten, signals maxFrameSize chunks.flatten) := by
  have idle := (wholeFrame_productive maxFrameSize).idle
  have read := receive_eq limit idle (small_bounded limit idle small)
  rw [List.nil_append] at read
  exact ⟨read ▸ remaining_short limit _, read⟩

end Hostile

/-- A header that asks for the whole limit, and one byte too few of the body. -/
theorem buffer_bounded_waiting : (receive 8 {} [[8, 0], [0, 0, 1, 2, 3], [4, 5, 6, 7]]).1.readBuffer.length = 11 ∧
    (receive 8 {} [[8, 0], [0, 0, 1, 2, 3], [4, 5, 6, 7]]).1.readBuffer.length < c_LengthSize + 8 :=
  ⟨rfl, (buffer_bounded (by decide) _ (by decide)).1⟩

end TaskExplorer.IpcSocket
