import TaskExplorer.AlignedRecords
import TaskExplorer.ProcNet

/-!
# Sockets as messages

The kernel answers a dump with messages, a socket in each with attributes behind it, split
into datagrams. `Enumerate` walks through them.
-/

namespace TaskExplorer.SockDiag
open ByteText Records AlignedRecords
open Codec (leNat)
open ProcNet hiding TcpStateToMib inet_connection unix_connection

/-! ## What the kernel sends -/

def NLMSG_ERROR : Nat := 2
def NLMSG_DONE : Nat := 3
def SOCK_DIAG_BY_FAMILY : Nat := 20
def INET_DIAG_INFO : Nat := 2
def UNIX_DIAG_NAME : Nat := 0
def UNIX_DIAG_PEER : Nat := 2

/-- A message begins with its length. -/
def nlmsghdr : Framing where
  head := 16
  size bytes := field false bytes 0 4

def rtattr : Framing where
  head := 4
  size bytes := field false bytes 0 2

def nlmsg_type (header : Bytes) : Nat := field false header 4 2

def rta_type (header : Bytes) : Nat := field false header 2 2

structure Header where
  flags : UInt16
  seq : UInt32
  pid : UInt32

def message (type : Nat) (header : Header) (body : Bytes) : Bytes × Bytes :=
  (encode false [(4, 16 + body.length), (2, type), (2, header.flags.toNat), (4, header.seq.toNat), (4, header.pid.toNat)], body)

structure Attribute where
  type : UInt16
  payload : Bytes
  fits : 4 + payload.length < 2 ^ 16

def attr_record (attr : Attribute) : Bytes × Bytes := (encode false [(2, 4 + attr.payload.length), (2, attr.type.toNat)], attr.payload)

def attributes (attrs : List Attribute) : Bytes := (attrs.map attr_record).flatMap padded

/-- What a message has besides the socket. -/
structure InetMessage where
  header : Header
  timer : UInt8
  retrans : UInt8
  interface : UInt32
  cookie : UInt64
  expires : UInt32
  rqueue : UInt32
  wqueue : UInt32
  attrs : List Attribute

/-- An address is always four words long. -/
def four_words (bytes : Bytes) : Bytes := bytes ++ List.replicate (16 - bytes.length) 0

def inet_parts {bIPv6 : Bool} (socket : InetSocket bIPv6) (line : InetMessage) : List Bytes :=
  [encode false [(1, if bIPv6 then 10 else 2), (1, socket.state.toNat), (1, line.timer.toNat), (1, line.retrans.toNat)],
    encode true [(2, socket.sport.toNat), (2, socket.dport.toNat)],
    four_words socket.src.val,
    four_words socket.dst.val,
    encode false [(4, line.interface.toNat), (8, line.cookie.toNat), (4, line.expires.toNat), (4, line.rqueue.toNat), (4, line.wqueue.toNat),
      (4, socket.uid.toNat), (4, socket.inode.toNat)]]

def inet_message {bIPv6 : Bool} (row : InetSocket bIPv6 × InetMessage) : Bytes × Bytes :=
  message SOCK_DIAG_BY_FAMILY row.2.header ((inet_parts row.1 row.2).flatten ++ attributes row.2.attrs)

/-- What a message of a unix socket has besides; the name stands among the attributes. -/
structure UnixMessage where
  header : Header
  cookie : UInt64
  before : List Attribute
  behind : List Attribute
  other : ∀ attr ∈ before ++ behind, attr.type ≠ 0

theorem path_fits (name : { s : List Char // s ≠ [] ∧ '\x00' ∉ s ∧ (toUtf8 s).length ≤ 108 }) :
    4 + (toUtf8 name.val ++ [0]).length < 2 ^ 16 := by
  have := name.2.2.2
  simp
  omega

theorem abstract_fits (name : { s : List Char // (toUtf8 s).length < 108 }) : 4 + (0 :: toUtf8 name.val).length < 2 ^ 16 := by
  have := name.2
  simp
  omega

/-- The name as the kernel keeps it: a path with its zero byte, or one in front. -/
def name_attribute : UnixName → List Attribute
  | .anonymous => []
  | .path name => [{ type := 0, payload := toUtf8 name.val ++ [0], fits := path_fits name }]
  | .abstract name => [{ type := 0, payload := 0 :: toUtf8 name.val, fits := abstract_fits name }]

def unix_diag_msg (socket : UnixSocket) (cookie : UInt64) : Fields :=
  [(1, 1), (1, socket.type.toNat), (1, socket.state.toNat), (1, 0), (4, socket.inode.toNat), (8, cookie.toNat)]

def unix_message (row : UnixSocket × UnixMessage) : Bytes × Bytes :=
  message SOCK_DIAG_BY_FAMILY row.2.header
    (encode false (unix_diag_msg row.1 row.2.cookie) ++ attributes (row.2.before ++ (name_attribute row.1.name ++ row.2.behind)))

/-- How much is received at once; the kernel makes no datagram of a dump longer. -/
def room : Nat := 32 * 1024

def datagram (messages : List (Bytes × Bytes)) : Bytes := messages.flatMap padded

/-! ## What is read -/

def TcpStateToMib (LinuxState : Nat) : Nat :=
  match LinuxState with
  | 1 => 5
  | 2 => 3
  | 3 => 4
  | 4 => 6
  | 5 => 7
  | 6 => 11
  | 7 => 1
  | 8 => 8
  | 9 => 10
  | 10 => 2
  | 11 => 9
  | _ => 0

def ToAddress (Raw : Bytes) (bIPv6 : Bool) : QHostAddress := if !bIPv6 then .ipv4 (field true Raw 0 4) else .ipv6 (Raw.take 16)

/-- The counters, as far as the payload has them. -/
def tcp_info (Conn : SNetConnection) (Payload : Bytes) : SNetConnection :=
  let Conn := if 128 + 8 ≤ Payload.length then
      { Conn with BytesSent := field false Payload 120 8, BytesReceived := field false Payload 128 8, bHaveCounters := true }
    else Conn
  if 140 + 4 ≤ Payload.length then
    { Conn with SegmentsSent := field false Payload 136 4, SegmentsReceived := field false Payload 140 4 }
  else Conn

/-- A message of `DumpOne`. -/
def inet_diag (bIPv6 bTcp : Bool) (pMsg : Bytes) : SNetConnection :=
  let Conn : SNetConnection := {
    ProtocolType := (if bIPv6 then NET_IPV6 else NET_IPV4) ||| (if bTcp then NET_TCP else NET_UDP)
    LocalAddress := ToAddress (pMsg.drop 8) bIPv6
    LocalPort := field true pMsg 4 2
    RemoteAddress := ToAddress (pMsg.drop 24) bIPv6
    RemotePort := field true pMsg 6 2
    State := if bTcp then TcpStateToMib (field false pMsg 1 1) else 5
    Inode := field false pMsg 68 4
    Uid := field false pMsg 64 4
    TxQueue := field false pMsg 60 4
    RxQueue := field false pMsg 56 4 }
  match (records rtattr (pMsg.drop 72)).find? fun pAttr => rta_type pAttr.1 == INET_DIAG_INFO with
  | some pAttr => tcp_info Conn pAttr.2
  | none => Conn

/-- A zero byte in front of a name becomes an `@`; those at the end are chopped. -/
def local_name (pName : Bytes) : List Char :=
  let LocalName := if pName.head? = some 0 then '@' :: fromUtf8 (pName.drop 1) else fromUtf8 pName
  LocalName.rdropWhile (· = '\x00')

def unix_attribute (Conn : SNetConnection) (pAttr : Bytes × Bytes) : SNetConnection :=
  if rta_type pAttr.1 = UNIX_DIAG_NAME then { Conn with LocalName := local_name pAttr.2 }
  else if rta_type pAttr.1 = UNIX_DIAG_PEER ∧ 4 ≤ pAttr.2.length then { Conn with PeerInode := field false pAttr.2 0 4 }
  else Conn

/-- A message of `DumpUnix`. -/
def unix_diag (pMsg : Bytes) : SNetConnection :=
  let udiag_state := field false pMsg 2 1
  let Conn : SNetConnection := {
    ProtocolType := unix_protocol (field false pMsg 1 1)
    State := if udiag_state = TCP_LISTEN then UNIX_LISTEN else if udiag_state = TCP_ESTABLISHED then UNIX_CONNECTED else UNIX_UNCONNECTED
    Inode := field false pMsg 4 4 }
  (records rtattr (pMsg.drop 16)).foldl unix_attribute Conn

/-- The messages of a datagram, and how the dump ends if it does. -/
def read_messages (connection : Bytes → SNetConnection) : List (Bytes × Bytes) → List SNetConnection × Option Bool
  | [] => ([], none)
  | pHeader :: rest =>
    if nlmsg_type pHeader.1 = NLMSG_DONE then ([], some true)
    else if nlmsg_type pHeader.1 = NLMSG_ERROR then ([], some false)
    else (connection pHeader.2 :: (read_messages connection rest).1, (read_messages connection rest).2)

/-- What comes of a request: no socket, or datagrams until receiving fails. -/
inductive Answer where
  | refused
  | answered (datagrams : List Bytes) (errno : Nat)

def receive (connection : Bytes → SNetConnection) (errno : Nat) : List Bytes → List SNetConnection × Bool
  | [] => ([], errno == 0)
  | Buffer :: rest =>
    if Buffer.isEmpty then ([], errno == 0)
    else
      let Received := read_messages connection (records nlmsghdr (Buffer.take room))
      match Received.2 with
      | some bOk => (Received.1, bOk)
      | none => (Received.1 ++ (receive connection errno rest).1, (receive connection errno rest).2)

def Dump (connection : Bytes → SNetConnection) : Answer → List SNetConnection × Bool
  | .refused => ([], false)
  | .answered datagrams errno => receive connection errno datagrams

def DumpOne (bIPv6 bTcp : Bool) : Answer → List SNetConnection × Bool := Dump (inet_diag bIPv6 bTcp)

def DumpUnix : Answer → List SNetConnection × Bool := Dump unix_diag

/-- The name of the last socket with this inode that has one. -/
def ByInode (Unix : List SNetConnection) (Inode : Nat) : List Char :=
  ((Unix.filter fun Conn => !Conn.LocalName.isEmpty && Conn.Inode == Inode).getLast?.map SNetConnection.LocalName).getD []

def name_peer (Unix : List SNetConnection) (Conn : SNetConnection) : SNetConnection :=
  if Conn.PeerInode ≠ 0 then { Conn with RemoteName := ByInode Unix Conn.PeerInode } else Conn

structure Answers where
  tcp : Answer
  tcp6 : Answer
  udp : Answer
  udp6 : Answer
  unix : Answer

def Enumerate (answers : Answers) : List SNetConnection :=
  let Tcp := DumpOne false true answers.tcp
  let Tcp6 := DumpOne true true answers.tcp6
  let Udp := DumpOne false false answers.udp
  let Udp6 := DumpOne true false answers.udp6
  let Unix := (DumpUnix answers.unix).1
  if Tcp.2 || Tcp6.2 || Udp.2 || Udp6.2 then Tcp.1 ++ Tcp6.1 ++ Udp.1 ++ Udp6.1 ++ Unix.map (name_peer Unix) else []

/-! ## Messages and attributes are found -/

theorem field_at (big : Bool) (front : Bytes) (fields : Fields) (back : Bytes) (index : Nat) {width value offset : Nat} (found : fields[index]? = some (width, value))
    (place : front.length + span (fields.take index) = offset) (fits : value < 256 ^ width) :
    field big (front ++ (encode big fields ++ back)) offset width = value := by
  rw [← place, (sits_append front (encode big fields) back).field found, Nat.mod_eq_of_lt fits]

theorem message_framed {type : Nat} {header : Header} {body : Bytes} (fits : 16 + body.length < 2 ^ 32) : Framed nlmsghdr (message type header body) := by
  refine ⟨by simp [message, span, nlmsghdr], fun rest => ?_⟩
  exact field_at false [] [(4, 16 + body.length), (2, type), (2, header.flags.toNat), (4, header.seq.toNat), (4, header.pid.toNat)] rest 0 rfl rfl fits

theorem attribute_framed (attr : Attribute) : Framed rtattr (attr_record attr) := by
  refine ⟨by simp [attr_record, span, rtattr], fun rest => ?_⟩
  exact field_at false [] [(2, 4 + attr.payload.length), (2, attr.type.toNat)] rest 0 rfl rfl attr.fits

theorem records_attributes (attrs : List Attribute) : records rtattr (attributes attrs) = attrs.map attr_record := by
  refine records_flatMap _ (fun record member => ?_) (by decide)
  obtain ⟨attr, -, rfl⟩ := List.mem_map.mp member
  exact attribute_framed attr

theorem message_type (type : UInt16) (header : Header) (body : Bytes) : nlmsg_type (message type.toNat header body).1 = type.toNat := by
  have read := field_at false [] [(4, 16 + body.length), (2, type.toNat), (2, header.flags.toNat), (4, header.seq.toNat), (4, header.pid.toNat)] []
    1 rfl rfl type.toNat_lt
  rwa [List.nil_append, List.append_nil] at read

theorem attribute_type (attr : Attribute) : rta_type (attr_record attr).1 = attr.type.toNat := by
  have read := field_at false [] [(2, 4 + attr.payload.length), (2, attr.type.toNat)] [] 1 rfl rfl attr.type.toNat_lt
  rwa [List.nil_append, List.append_nil] at read

/-! ## What a message says -/

/-- What is read of a message of an internet socket, its counters apart. -/
def inet_connection (bTcp : Bool) {bIPv6 : Bool} (row : InetSocket bIPv6 × InetMessage) : SNetConnection where
  ProtocolType := (if bIPv6 then NET_IPV6 else NET_IPV4) ||| (if bTcp then NET_TCP else NET_UDP)
  LocalAddress := address bIPv6 row.1.src.val
  LocalPort := row.1.sport.toNat
  RemoteAddress := address bIPv6 row.1.dst.val
  RemotePort := row.1.dport.toNat
  State := if bTcp then TcpStateToMib row.1.state.toNat else 5
  Inode := row.1.inode.toNat
  Uid := row.1.uid.toNat
  TxQueue := row.2.wqueue.toNat
  RxQueue := row.2.rqueue.toNat

theorem to_address {bIPv6 : Bool} (bytes : Address bIPv6) (rest : Bytes) : ToAddress (four_words bytes.val ++ rest) bIPv6 = address bIPv6 bytes.val := by
  obtain ⟨bytes, length⟩ := bytes
  cases bIPv6 with
  | false =>
    have four : bytes.length = 4 := length
    have front : slice (four_words bytes ++ rest) 0 4 = bytes := by
      rw [slice, List.drop_zero, four_words, List.append_assoc, List.take_left' four]
    simp only [ToAddress, Bool.not_false, if_true, address, Bool.false_eq_true, if_false, field, front, value_of, cond_true]
  | true =>
    have sixteen : bytes.length = 16 := length
    have whole : four_words bytes = bytes := by rw [four_words, sixteen, Nat.sub_self, List.replicate_zero, List.append_nil]
    simp only [ToAddress, Bool.not_true, Bool.false_eq_true, if_false, address, if_true, whole, List.take_left' sixteen]

@[simp] theorem four_words_length {bIPv6 : Bool} (bytes : Address bIPv6) : (four_words bytes.val).length = 16 := by
  have length := bytes.2
  rw [four_words, List.length_append, List.length_replicate]
  split_ifs at length <;> omega

theorem read_inet_message (bTcp : Bool) {bIPv6 : Bool} (row : InetSocket bIPv6 × InetMessage) :
    inet_diag bIPv6 bTcp (inet_message row).2 =
      match row.2.attrs.find? fun attr => attr.type.toNat == INET_DIAG_INFO with
      | some attr => tcp_info (inet_connection bTcp row) attr.payload
      | none => inet_connection bTcp row := by
  obtain ⟨socket, line⟩ := row
  obtain ⟨first, is_first⟩ : ∃ first, first = encode false [(1, if bIPv6 then 10 else 2), (1, socket.state.toNat), (1, line.timer.toNat),
    (1, line.retrans.toNat)] := ⟨_, rfl⟩
  obtain ⟨ports, is_ports⟩ : ∃ ports, ports = encode true [(2, socket.sport.toNat), (2, socket.dport.toNat)] := ⟨_, rfl⟩
  obtain ⟨last, is_last⟩ : ∃ last, last = encode false [(4, line.interface.toNat), (8, line.cookie.toNat), (4, line.expires.toNat),
    (4, line.rqueue.toNat), (4, line.wqueue.toNat), (4, socket.uid.toNat), (4, socket.inode.toNat)] := ⟨_, rfl⟩
  have l1 : first.length = 4 := by rw [is_first, encode_length]; rfl
  have l2 : ports.length = 4 := by rw [is_ports, encode_length]; rfl
  have l5 : last.length = 32 := by rw [is_last, encode_length]; rfl
  have l3 := four_words_length socket.src
  have l4 := four_words_length socket.dst
  have body : (inet_message (socket, line)).2 =
      first ++ (ports ++ (four_words socket.src.val ++ (four_words socket.dst.val ++ (last ++ attributes line.attrs)))) := by
    simp only [inet_message, message, inet_parts, is_first, is_ports, is_last, List.flatten_cons, List.flatten_nil, List.append_assoc, List.append_nil]
  have source : (inet_message (socket, line)).2.drop 8 = four_words socket.src.val ++ (four_words socket.dst.val ++ (last ++ attributes line.attrs)) := by
    rw [body, ← List.append_assoc, List.drop_left' (by simp [l1, l2])]
  have target : (inet_message (socket, line)).2.drop 24 = four_words socket.dst.val ++ (last ++ attributes line.attrs) := by
    rw [body, ← List.append_assoc, ← List.append_assoc, List.drop_left' (by simp [l1, l2, l3])]
  have behind : (inet_message (socket, line)).2.drop 72 = attributes line.attrs := by
    rw [body, ← List.append_assoc, ← List.append_assoc, ← List.append_assoc, ← List.append_assoc, List.drop_left' (by simp [l1, l2, l3, l4, l5])]
  have state : field false (inet_message (socket, line)).2 1 1 = socket.state.toNat := by
    rw [body, is_first]
    exact field_at false [] [(1, if bIPv6 then 10 else 2), (1, socket.state.toNat), (1, line.timer.toNat), (1, line.retrans.toNat)] _ 1 rfl rfl
      socket.state.toNat_lt
  have sport : field true (inet_message (socket, line)).2 4 2 = socket.sport.toNat := by
    rw [body, is_ports]
    exact field_at true first _ _ 0 rfl (by simp [l1, span]) socket.sport.toNat_lt
  have dport : field true (inet_message (socket, line)).2 6 2 = socket.dport.toNat := by
    rw [body, is_ports]
    exact field_at true first _ _ 1 rfl (by simp [l1, span]) socket.dport.toNat_lt
  have front : (first ++ (ports ++ (four_words socket.src.val ++ four_words socket.dst.val))).length = 40 := by simp [l1, l2, l3, l4]
  have numbers : (inet_message (socket, line)).2 =
      (first ++ (ports ++ (four_words socket.src.val ++ four_words socket.dst.val))) ++ (last ++ attributes line.attrs) := by
    simp only [body, List.append_assoc]
  have number (index : Nat) (value : UInt32) (offset : Nat)
      (found : [(4, line.interface.toNat), (8, line.cookie.toNat), (4, line.expires.toNat), (4, line.rqueue.toNat), (4, line.wqueue.toNat),
        (4, socket.uid.toNat), (4, socket.inode.toNat)][index]? = some (4, value.toNat))
      (place : 40 + span ([(4, line.interface.toNat), (8, line.cookie.toNat), (4, line.expires.toNat), (4, line.rqueue.toNat), (4, line.wqueue.toNat),
        (4, socket.uid.toNat), (4, socket.inode.toNat)].take index) = offset) : field false (inet_message (socket, line)).2 offset 4 = value.toNat := by
    rw [numbers, is_last]
    exact field_at false _ _ _ index found (by rw [front, place]) value.toNat_lt
  have rqueue := number 3 line.rqueue 56 rfl rfl
  have wqueue := number 4 line.wqueue 60 rfl rfl
  have uid := number 5 socket.uid 64 rfl rfl
  have inode := number 6 socket.inode 68 rfl rfl
  have attrs : (line.attrs.map attr_record).find? (fun pAttr => rta_type pAttr.1 == INET_DIAG_INFO) =
      (line.attrs.find? fun attr => attr.type.toNat == INET_DIAG_INFO).map attr_record := by
    rw [List.find?_map]
    congr 2
    funext attr
    rw [Function.comp_apply, attribute_type]
  rw [inet_diag, source, target, behind, state, sport, dport, rqueue, wqueue, uid, inode, to_address, to_address, records_attributes, attrs]
  cases line.attrs.find? fun attr => attr.type.toNat == INET_DIAG_INFO <;> rfl

/-- What is read of a name. -/
def name_read : UnixName → List Char
  | .anonymous => []
  | .path name => local_name (toUtf8 name.val ++ [0])
  | .abstract name => local_name (0 :: toUtf8 name.val)

/-- What is read of a message of a unix socket, its peer apart. -/
def unix_connection (socket : UnixSocket) : SNetConnection where
  ProtocolType := unix_protocol socket.type.toNat
  State :=
    if socket.state.toNat = TCP_LISTEN then UNIX_LISTEN
    else if socket.state.toNat = TCP_ESTABLISHED then UNIX_CONNECTED
    else UNIX_UNCONNECTED
  Inode := socket.inode.toNat
  LocalName := name_read socket.name

theorem other_attributes (attrs : List Attribute) (other : ∀ attr ∈ attrs, attr.type ≠ 0) (Conn : SNetConnection) :
    ∃ PeerInode, (attrs.map attr_record).foldl unix_attribute Conn = { Conn with PeerInode } := by
  induction attrs generalizing Conn with
  | nil => exact ⟨Conn.PeerInode, rfl⟩
  | cons attr rest ih =>
    have unnamed : rta_type (attr_record attr).1 ≠ UNIX_DIAG_NAME := by
      rw [attribute_type]
      exact fun zero => other attr (by simp) (UInt16.toNat_inj.mp zero)
    have step : ∃ PeerInode, unix_attribute Conn (attr_record attr) = { Conn with PeerInode } := by
      rw [unix_attribute, if_neg unnamed]
      split_ifs
      · exact ⟨_, rfl⟩
      · exact ⟨Conn.PeerInode, rfl⟩
    obtain ⟨first, same⟩ := step
    obtain ⟨PeerInode, read⟩ := ih (fun attr member => other attr (by simp [member])) { Conn with PeerInode := first }
    exact ⟨PeerInode, by rw [List.map_cons, List.foldl_cons, same, read]⟩

theorem name_set (name : UnixName) (Conn : SNetConnection) (unnamed : Conn.LocalName = []) :
    ((name_attribute name).map attr_record).foldl unix_attribute Conn = { Conn with LocalName := name_read name } := by
  have named : ∀ attr : Attribute, attr.type = 0 → unix_attribute Conn (attr_record attr) = { Conn with LocalName := local_name attr.payload } := by
    intro attr zero
    rw [unix_attribute, if_pos (by rw [attribute_type, zero]; rfl)]
    rfl
  cases name with
  | anonymous =>
    rw [name_attribute, List.map_nil, List.foldl_nil, name_read, ← unnamed]
  | path name =>
    rw [name_attribute, List.map_singleton, List.foldl_cons, List.foldl_nil]
    exact named _ rfl
  | abstract name =>
    rw [name_attribute, List.map_singleton, List.foldl_cons, List.foldl_nil]
    exact named _ rfl

theorem read_unix_message (row : UnixSocket × UnixMessage) : ∃ PeerInode, unix_diag (unix_message row).2 = { unix_connection row.1 with PeerInode } := by
  obtain ⟨socket, line⟩ := row
  obtain ⟨attrs, is_attrs⟩ : ∃ attrs, attrs = line.before ++ (name_attribute socket.name ++ line.behind) := ⟨_, rfl⟩
  have body : (unix_message (socket, line)).2 = encode false (unix_diag_msg socket line.cookie) ++ attributes attrs := by rw [is_attrs]; rfl
  have behind : (unix_message (socket, line)).2.drop 16 = attributes attrs := by
    rw [body, List.drop_left' (by rw [encode_length]; rfl)]
  have type : field false (unix_message (socket, line)).2 1 1 = socket.type.toNat := by
    rw [body]
    exact field_at false [] (unix_diag_msg socket line.cookie) _ 1 rfl rfl socket.type.toNat_lt
  have state : field false (unix_message (socket, line)).2 2 1 = socket.state.toNat := by
    rw [body]
    exact field_at false [] (unix_diag_msg socket line.cookie) _ 2 rfl rfl socket.state.toNat_lt
  have inode : field false (unix_message (socket, line)).2 4 4 = socket.inode.toNat := by
    rw [body]
    exact field_at false [] (unix_diag_msg socket line.cookie) _ 4 rfl rfl socket.inode.toNat_lt
  rw [unix_diag, behind, type, state, inode, records_attributes, is_attrs, List.map_append, List.map_append, List.foldl_append, List.foldl_append]
  obtain ⟨first, before⟩ := other_attributes line.before (fun attr member => line.other attr (by simp [member])) {
    ProtocolType := unix_protocol socket.type.toNat
    State :=
      if socket.state.toNat = TCP_LISTEN then UNIX_LISTEN
      else if socket.state.toNat = TCP_ESTABLISHED then UNIX_CONNECTED
      else UNIX_UNCONNECTED
    Inode := socket.inode.toNat }
  obtain ⟨PeerInode, last⟩ := other_attributes line.behind (fun attr member => line.other attr (by simp [member]))
    { unix_connection socket with PeerInode := first }
  rw [before, name_set _ _ rfl]
  exact ⟨PeerInode, last⟩

/-! ## A whole dump -/

/-- The answer to a request for these sockets: a message for each in some order and the one that ends the dump, split into datagrams. -/
structure Dumped {Socket Message : Type} (render : Socket × Message → Bytes × Bytes) (sockets : List Socket) where
  rows : List (Socket × Message)
  each : (rows.map Prod.fst).Perm sockets
  header : Header
  code : Bytes
  datagrams : List (List (Bytes × Bytes))
  split : datagrams.flatten = rows.map render ++ [message NLMSG_DONE header code]
  some_ : ∀ messages ∈ datagrams, messages ≠ []
  fits : ∀ messages ∈ datagrams, (datagram messages).length ≤ room
  errno : Nat

def Dumped.answer {Socket Message : Type} {render : Socket × Message → Bytes × Bytes} {sockets : List Socket} (dumped : Dumped render sockets) : Answer :=
  .answered (dumped.datagrams.map datagram) dumped.errno

section Dumps
variable {Socket Message : Type} {render : Socket × Message → Bytes × Bytes} {sockets : List Socket} (connection : Bytes → SNetConnection)

/-- Messages that carry a socket. -/
def Carries (messages : List (Bytes × Bytes)) : Prop := ∀ pHeader ∈ messages, nlmsg_type pHeader.1 = SOCK_DIAG_BY_FAMILY

variable {messages : List (Bytes × Bytes)}

theorem read_carried (carries : Carries messages) (rest : List (Bytes × Bytes)) :
    read_messages connection (messages ++ rest) =
      (messages.map (fun pHeader => connection pHeader.2) ++ (read_messages connection rest).1, (read_messages connection rest).2) := by
  induction messages with
  | nil => rfl
  | cons first others ih =>
    have type : nlmsg_type first.1 = SOCK_DIAG_BY_FAMILY := carries first (by simp)
    have not_done : nlmsg_type first.1 ≠ NLMSG_DONE := by rw [type]; decide
    have not_error : nlmsg_type first.1 ≠ NLMSG_ERROR := by rw [type]; decide
    rw [List.cons_append, read_messages, if_neg not_done, if_neg not_error, ih fun other member => carries other (by simp [member])]
    rfl

theorem datagram_ne_nil (framed : ∀ pHeader ∈ messages, Framed nlmsghdr pHeader) (some_ : messages ≠ []) :
    (datagram messages).isEmpty = false := by
  obtain ⟨first, rest, rfl⟩ := List.exists_cons_of_ne_nil some_
  have head : first.1.length = 16 := (framed first (by simp)).1
  have bound := le_align (first.1.length + first.2.length)
  have length : 0 < (datagram (first :: rest)).length := by
    rw [datagram, List.flatMap_cons, List.length_append, padded_length]
    omega
  rw [List.isEmpty_eq_false_iff]
  exact List.ne_nil_of_length_pos length

theorem receive_datagrams {datagrams : List (List (Bytes × Bytes))} {last : Bytes × Bytes} (errno : Nat)
    (split : datagrams.flatten = messages ++ [last]) (carries : Carries messages)
    (ends : nlmsg_type last.1 = NLMSG_DONE) (framed : ∀ group ∈ datagrams, ∀ pHeader ∈ group, Framed nlmsghdr pHeader)
    (some_ : ∀ group ∈ datagrams, group ≠ []) (fits : ∀ group ∈ datagrams, (datagram group).length ≤ room) :
    receive connection errno (datagrams.map datagram) = (messages.map (fun pHeader => connection pHeader.2), true) := by
  induction datagrams generalizing messages with
  | nil => simp at split
  | cons group groups ih =>
    have later (others : List (Bytes × Bytes)) (rest : groups.flatten = others ++ [last]) (carries : Carries others) :=
      ih rest carries (fun other member => framed other (by simp [member])) (fun other member => some_ other (by simp [member]))
        (fun other member => fits other (by simp [member]))
    have read : records nlmsghdr ((datagram group).take room) = group := by
      rw [List.take_of_length_le (fits group (by simp))]
      exact records_flatMap group (framed group (by simp)) (by decide)
    rw [List.map_cons, receive, datagram_ne_nil (framed group (by simp)) (some_ group (by simp)), read]
    rw [List.flatten_cons, List.append_eq_append_iff] at split
    obtain ⟨others, whole, rest⟩ | ⟨others, whole, rest⟩ := split
    · subst whole
      have plain : Carries group := fun pHeader member => carries pHeader (by simp [member])
      have carried := read_carried connection plain []
      rw [List.append_nil, read_messages, List.append_nil] at carried
      rw [carried, later others rest fun pHeader member => carries pHeader (by simp [member]), List.map_append]
      rfl
    · subst whole
      rw [read_carried connection carries]
      cases others with
      | nil =>
        rw [List.nil_append] at rest
        rw [read_messages, later [] (by rw [← rest]; rfl) fun _ member => absurd member List.not_mem_nil]
        simp
      | cons first others =>
        obtain ⟨rfl, -⟩ := List.cons.inj rest
        rw [read_messages, if_pos ends]
        simp

theorem length_le_datagram {pHeader : Bytes × Bytes} (member : pHeader ∈ messages) :
    pHeader.1.length + pHeader.2.length ≤ (datagram messages).length := by
  have bound := le_align (pHeader.1.length + pHeader.2.length)
  obtain ⟨front, back, rfl⟩ := List.append_of_mem member
  rw [datagram, List.flatMap_append, List.flatMap_cons, List.length_append, List.length_append, padded_length]
  omega

theorem Dumped.read (dumped : Dumped render sockets) (rendered : ∀ row, ∃ header body, render row = message SOCK_DIAG_BY_FAMILY header body) :
    Dump connection dumped.answer = (dumped.rows.map fun row => connection (render row).2, true) := by
  have is_message : ∀ messages ∈ dumped.datagrams, ∀ pHeader ∈ messages, ∃ type header body, pHeader = message type header body := by
    intro messages among pHeader member
    have sent : pHeader ∈ dumped.datagrams.flatten := List.mem_flatten.mpr ⟨messages, among, member⟩
    rw [dumped.split, List.mem_append, List.mem_map, List.mem_singleton] at sent
    rcases sent with ⟨row, -, rfl⟩ | rfl
    · obtain ⟨header, body, same⟩ := rendered row
      exact ⟨_, header, body, same⟩
    · exact ⟨_, _, _, rfl⟩
  have framed : ∀ messages ∈ dumped.datagrams, ∀ pHeader ∈ messages, Framed nlmsghdr pHeader := by
    intro messages among pHeader member
    have length := length_le_datagram member
    have fits := dumped.fits messages among
    obtain ⟨type, header, body, rfl⟩ := is_message messages among pHeader member
    refine message_framed ?_
    simp only [message, encode_length, room] at length fits
    omega
  have carries : Carries (dumped.rows.map render) := by
    intro pHeader member
    obtain ⟨row, -, rfl⟩ := List.mem_map.mp member
    obtain ⟨header, body, same⟩ := rendered row
    rw [same]
    exact message_type 20 header body
  rw [Dumped.answer, Dump, receive_datagrams connection dumped.errno dumped.split carries (message_type 3 _ _) framed dumped.some_ dumped.fits, List.map_map]
  rfl

end Dumps

end TaskExplorer.SockDiag
