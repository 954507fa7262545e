import TaskExplorer.Codec
import TaskExplorer.ProcFs

/-!
# Sockets as text

The kernel lists its sockets in `/proc/net`: a line for each, numbers in columns, and the name
of a unix socket behind them. `ReadNetConnections` splits the lines at white space.
-/

namespace TaskExplorer.ProcNet
open ByteText ProcFs
open Codec (leNat leBytes leBytes_length leNat_leBytes_of_lt leBytes_leNat leNat_lt)

/-! ## Connections -/

inductive QHostAddress where
  | null
  | ipv4 (address : Nat)
  | ipv6 (bytes : Bytes)
deriving DecidableEq, Repr

structure SNetConnection where
  ProtocolType : Nat := 0
  LocalAddress : QHostAddress := .null
  LocalPort : Nat := 0
  RemoteAddress : QHostAddress := .null
  RemotePort : Nat := 0
  State : Nat := 0
  Inode : Nat := 0
  Uid : Nat := 0
  LocalName : List Char := []
  RemoteName : List Char := []
  PeerInode : Nat := 0
  TxQueue : Nat := 0
  RxQueue : Nat := 0
  BytesSent : Nat := 0
  BytesReceived : Nat := 0
  SegmentsSent : Nat := 0
  SegmentsReceived : Nat := 0
  bHaveCounters : Bool := false
deriving DecidableEq, Repr

def NET_IPV4 : Nat := 0x1
def NET_IPV6 : Nat := 0x2
def NET_UNIX : Nat := 0x4
def NET_TCP : Nat := 0x10
def NET_UDP : Nat := 0x20
def NET_OTHER : Nat := 0x80

def UNIX_UNCONNECTED : Nat := 1
def UNIX_CONNECTING : Nat := 2
def UNIX_CONNECTED : Nat := 3
def UNIX_DISCONNECTING : Nat := 4
def UNIX_LISTEN : Nat := 5

/-! ## The sockets of the kernel -/

/-- An address in network byte order. -/
abbrev Address (bIPv6 : Bool) := { bytes : Bytes // bytes.length = if bIPv6 then 16 else 4 }

structure InetSocket (bIPv6 : Bool) where
  src : Address bIPv6
  sport : UInt16
  dst : Address bIPv6
  dport : UInt16
  state : UInt8
  uid : UInt32
  inode : UInt32
deriving DecidableEq

/-- The name of a unix socket: a path, or behind a zero byte whatever is well-formed. -/
inductive UnixName where
  | anonymous
  | path (name : { s : List Char // s ≠ [] ∧ '\x00' ∉ s ∧ (toUtf8 s).length ≤ 108 })
  | abstract (name : { s : List Char // (toUtf8 s).length < 108 })

structure UnixSocket where
  type : UInt8
  state : UInt8
  inode : UInt32
  name : UnixName
  open_ : inode ≠ 0

/-! ## Lines of the kernel -/

def upper (c : UInt8) : UInt8 := if 97 ≤ c then c - 32 else c

/-- A number in hexadecimal digits, with zeros in front. -/
def hex (width n : Nat) : Bytes := (padded 16 width n).map upper

/-- A word in a column of this width. -/
def column (width : Nat) (word : Bytes) : Bytes := List.replicate (width - word.length) 32 ++ word

def columns (words : List (Nat × Bytes)) : Bytes := [32].intercalate (words.map fun word => column word.1 word.2)

/-- Four bytes as the number that a little-endian machine takes them for. -/
def word_at (bytes : Bytes) (i : Nat) : Nat := leNat ((bytes.drop (4 * i)).take 4)

def address_text (bIPv6 : Bool) (bytes : Bytes) : Bytes := (List.range (if bIPv6 then 4 else 1)).flatMap fun i => hex 8 (word_at bytes i)

/-- What a line has besides. -/
structure InetLine where
  sl : Nat
  tx : UInt32
  rx : UInt32
  timer : UInt8
  expires : UInt64
  retransmits : UInt32
  timeout : Nat
  rest : Bytes
  behind : rest = [] ∨ rest.head? = some 32
  one_line : (10 : UInt8) ∉ rest

/-- The columns of a line; the first is one wider for UDP. -/
def inet_words (bTcp : Bool) {bIPv6 : Bool} (socket : InetSocket bIPv6) (line : InetLine) : List (Nat × Bytes) :=
  [(if bTcp then 5 else 6, text 10 line.sl ++ [58]),
    (0, address_text bIPv6 socket.src.val ++ 58 :: hex 4 socket.sport.toNat),
    (0, address_text bIPv6 socket.dst.val ++ 58 :: hex 4 socket.dport.toNat),
    (0, hex 2 socket.state.toNat),
    (0, hex 8 line.tx.toNat ++ 58 :: hex 8 line.rx.toNat),
    (0, hex 2 line.timer.toNat ++ 58 :: hex 8 line.expires.toNat),
    (0, hex 8 line.retransmits.toNat),
    (5, text 10 socket.uid.toNat),
    (8, text 10 line.timeout),
    (0, text 10 socket.inode.toNat)]

def inet_line (bTcp : Bool) {bIPv6 : Bool} (row : InetSocket bIPv6 × InetLine) : Bytes := columns (inet_words bTcp row.1 row.2) ++ row.2.rest

structure UnixLine where
  num : Bytes
  word : Word is_space num
  refcount : UInt32

/-- Characters as the kernel puts a name out: a zero byte is an `@`. -/
def put_char (c : Char) : Char := if c = '\x00' then '@' else c

def name_text : UnixName → List Char
  | .anonymous => []
  | .path name => name.val
  | .abstract name => '@' :: name.val.map put_char

def SS_UNCONNECTED : Nat := 1
def SS_CONNECTED : Nat := 3
def TCP_ESTABLISHED : Nat := 1
def TCP_LISTEN : Nat := 10
def SO_ACCEPTCON : Nat := 0x10000

/-- The columns of a unix socket that is open, as one with an inode is. -/
def unix_words (socket : UnixSocket) (line : UnixLine) : List (Nat × Bytes) :=
  [(0, line.num ++ [58]),
    (0, hex 8 line.refcount.toNat),
    (0, hex 8 0),
    (0, hex 8 (if socket.state.toNat = TCP_LISTEN then SO_ACCEPTCON else 0)),
    (0, hex 4 socket.type.toNat),
    (0, hex 2 (if socket.state.toNat = TCP_ESTABLISHED then SS_CONNECTED else SS_UNCONNECTED)),
    (5, text 10 socket.inode.toNat)]

def unix_line (row : UnixSocket × UnixLine) : Bytes :=
  columns (unix_words row.1 row.2) ++
    match row.1.name with
    | .anonymous => []
    | name => 32 :: toUtf8 (name_text name)

/-- A file: the line with the titles, and one for each socket. -/
def table_text (header : Bytes) (lines : List Bytes) : Bytes := header ++ 10 :: lines.flatMap fun line => line ++ [10]

/-! ## What is read -/

/-- The bytes of a number the other way round, as between a big-endian and a little-endian machine. -/
def byte_swap (n : Nat) : Nat := leNat (leBytes 4 n).reverse

def ParseNetAddress (Hex : Bytes) (bIPv6 : Bool) : QHostAddress :=
  let word i := to_unsigned (2 ^ 32) 16 ((Hex.drop (i * 8)).take 8)
  let address_bytes Raw :=
    let Swapped := byte_swap Raw
    [UInt8.ofNat (Swapped / 2 ^ 24), UInt8.ofNat (Swapped / 2 ^ 16), UInt8.ofNat (Swapped / 2 ^ 8), UInt8.ofNat Swapped]
  if !bIPv6 then
    if Hex.length < 8 then .null else (word 0).elim .null fun Raw => .ipv4 (byte_swap Raw)
  else if Hex.length < 32 then .null
  else ((List.range 4).mapM word).elim .null fun Words => .ipv6 (Words.flatMap address_bytes)

def TcpStateToMib (LinuxState : Nat) : Nat :=
  match LinuxState with
  | 1 => 5
  | 2 => 3
  | 3 => 4
  | 4 => 6
  | 5 => 7
  | 6 => 11
  | 7 => 1
  | 8 => 8
  | 9 => 10
  | 10 => 2
  | 11 => 9
  | _ => 0

def unsigned (limit base : Nat) (Field : Bytes) : Nat := (to_unsigned limit base Field).getD 0

/-- A line of `ReadNetTable`. -/
def net_connection (ProtocolType : Nat) (bIPv6 bTcp : Bool) (Line : Bytes) : Option SNetConnection :=
  if Line.isEmpty then none
  else
    let F := (simplified is_space 32 Line).splitOn 32
    if F.length < 10 then none
    else
      let Local := (F.getD 1 []).splitOn 58
      let Remote := (F.getD 2 []).splitOn 58
      if Local.length < 2 ∨ Remote.length < 2 then none
      else
        let Queues := (F.getD 4 []).splitOn 58
        some {
          ProtocolType
          LocalAddress := ParseNetAddress (Local.getD 0 []) bIPv6
          LocalPort := unsigned (2 ^ 16) 16 (Local.getD 1 [])
          RemoteAddress := ParseNetAddress (Remote.getD 0 []) bIPv6
          RemotePort := unsigned (2 ^ 16) 16 (Remote.getD 1 [])
          State := if bTcp then TcpStateToMib (unsigned (2 ^ 32) 16 (F.getD 3 [])) else 5
          TxQueue := if Queues.length < 2 then 0 else unsigned (2 ^ 64) 16 (Queues.getD 0 [])
          RxQueue := if Queues.length < 2 then 0 else unsigned (2 ^ 64) 16 (Queues.getD 1 [])
          Uid := unsigned (2 ^ 32) 10 (F.getD 7 [])
          Inode := unsigned (2 ^ 64) 10 (F.getD 9 []) }

def ReadNetTable (Data : Bytes) (ProtocolType : Nat) (bIPv6 bTcp : Bool) : List SNetConnection :=
  ((Data.splitOn 10).drop 1).filterMap (net_connection ProtocolType bIPv6 bTcp)

/-- `SOCK_DGRAM`, `SOCK_SEQPACKET` and whatever else. -/
def unix_protocol (type : Nat) : Nat :=
  if type = 2 then NET_UNIX ||| NET_UDP else if type = 5 then NET_UNIX ||| NET_OTHER else NET_UNIX ||| NET_TCP

/-- A line of `/proc/net/unix`. -/
def unix_connection (Line : Bytes) : Option SNetConnection :=
  let Fields := (simplified is_space 32 Line).splitOn 32
  if Fields.length < 7 then none
  else
    let Flags := unsigned (2 ^ 32) 16 (Fields.getD 3 [])
    let type := unsigned (2 ^ 32) 16 (Fields.getD 4 [])
    let State := unsigned (2 ^ 32) 16 (Fields.getD 5 [])
    let Inode := unsigned (2 ^ 64) 10 (Fields.getD 6 [])
    if Inode = 0 then none
    else
      some {
        ProtocolType := unix_protocol type
        State :=
          if Flags &&& 0x10000 ≠ 0 then UNIX_LISTEN
          else if State = 2 then UNIX_CONNECTING
          else if State = 3 then UNIX_CONNECTED
          else if State = 4 then UNIX_DISCONNECTING
          else UNIX_UNCONNECTED
        Inode
        LocalName := if Fields.length > 7 then fromUtf8 (Fields.getD 7 []) else [] }

/-- The files of `/proc/net`. -/
structure Files where
  tcp : Bytes
  tcp6 : Bytes
  udp : Bytes
  udp6 : Bytes
  unix : Bytes

def ReadNetConnections (files : Files) : List SNetConnection :=
  ReadNetTable files.tcp (NET_IPV4 ||| NET_TCP) false true ++ ReadNetTable files.tcp6 (NET_IPV6 ||| NET_TCP) true true ++
    ReadNetTable files.udp (NET_IPV4 ||| NET_UDP) false false ++ ReadNetTable files.udp6 (NET_IPV6 ||| NET_UDP) true false ++
    ((files.unix.splitOn 10).drop 1).filterMap unix_connection

/-! ## Columns -/

theorem upper_facts : ∀ d : Fin 16, digit 16 (upper (digit_char d)) = some d.val ∧ is_space (upper (digit_char d)) = false ∧
    upper (digit_char d) ≠ 58 ∧ upper (digit_char d) ≠ 43 := by decide

theorem hex_digits (width n : Nat) : ∃ digits : List Nat, hex width n = digits.map (fun d => upper (digit_char d)) ∧ digits ≠ [] ∧
    (∀ d ∈ digits, d < 16) ∧ Nat.ofDigits 16 digits.reverse = n := by
  obtain ⟨digits, written, nonempty, small, value⟩ := padded_eq (.inr rfl) width n
  exact ⟨digits, by rw [hex, written, List.map_map]; rfl, nonempty, small, value⟩

theorem to_unsigned_hex {limit n : Nat} (width : Nat) (fits : n < limit) : to_unsigned limit 16 (hex width n) = some n := by
  obtain ⟨digits, written, nonempty, small, value⟩ := hex_digits width n
  have facts : ∀ d ∈ digits, digit 16 (upper (digit_char d)) = some d ∧ upper (digit_char d) ≠ 43 := by
    intro d member
    obtain ⟨read, -, -, unsigned⟩ := upper_facts ⟨d, small d member⟩
    exact ⟨read, unsigned⟩
  have unsigned : (hex width n).head? ≠ some 43 := by
    intro first
    have member := List.mem_of_mem_head? first
    rw [written] at member
    obtain ⟨d, inside, same⟩ := List.mem_map.mp member
    exact (facts d inside).2 same
  have read : (hex width n).mapM (digit 16) = some digits := by
    rw [written]
    clear written nonempty small value unsigned
    induction digits with
    | nil => rfl
    | cons d rest ih =>
      rw [List.map_cons, List.mapM_cons, (facts d (by simp)).1, ih fun e member => facts e (by simp [member])]
      rfl
  have text : hex width n ≠ [] := by
    rw [written]
    simpa using nonempty
  rw [to_unsigned, if_neg unsigned, number, if_neg text, read, Option.map_some, value]
  simp [fits]

theorem hex_word (width n : Nat) : Word is_space (hex width n) ∧ (58 : UInt8) ∉ hex width n := by
  obtain ⟨digits, written, nonempty, small, -⟩ := hex_digits width n
  have facts : ∀ c ∈ hex width n, is_space c = false ∧ c ≠ 58 := by
    intro c member
    rw [written] at member
    obtain ⟨d, inside, rfl⟩ := List.mem_map.mp member
    obtain ⟨-, text, colon, -⟩ := upper_facts ⟨d, small d inside⟩
    exact ⟨text, colon⟩
  refine ⟨⟨?_, fun c member => (facts c member).1⟩, fun member => (facts 58 member).2 rfl⟩
  rw [written]
  simpa using nonempty

theorem hex_length {n : Nat} (fits : n < 2 ^ 32) : (hex 8 n).length = 8 := by
  have few : (text 16 n).length ≤ 8 := by
    rw [text]
    split_ifs with zero
    · simp
    · rw [List.length_map, List.length_reverse]
      exact Nat.digits_length_le_iff (by norm_num) n |>.mpr (by norm_num; exact fits)
  rw [hex, List.length_map, padded, List.length_append, List.length_replicate]
  omega

theorem text_word (n : Nat) : Word is_space (text 10 n) := by
  rw [text_eq_padded]
  exact padded_word (.inl rfl) 0 n

theorem unsigned_text {limit n : Nat} (fits : n < limit) : unsigned limit 10 (text 10 n) = n := by
  rw [unsigned, text_eq_padded, to_unsigned_padded (.inl rfl) 0 fits, Option.getD_some]

theorem unsigned_hex {limit n : Nat} (width : Nat) (fits : n < limit) : unsigned limit 16 (hex width n) = n := by
  rw [unsigned, to_unsigned_hex width fits, Option.getD_some]

theorem word_colon {left right : Bytes} (first : Word is_space left) (second : ∀ c ∈ right, is_space c = false) : Word is_space (left ++ 58 :: right) := by
  refine ⟨by simp, fun c member => ?_⟩
  rcases List.mem_append.mp member with front | back
  · exact first.2 c front
  · rcases List.mem_cons.mp back with rfl | back
    · decide
    · exact second c back

theorem words_columns (cols : List (Nat × Bytes)) (words_ : ∀ col ∈ cols, Word is_space col.2) {rest : Bytes}
    (behind : rest = [] ∨ rest.head? = some 32) : words is_space (columns cols ++ rest) = cols.map Prod.snd ++ words is_space rest := by
  have rest_words : ∀ word : Bytes, Word is_space word → words is_space (word ++ rest) = word :: words is_space rest := by
    intro word isWord
    rcases behind with rfl | blank
    · rw [List.append_nil, words_word isWord, words_nil]
    · obtain ⟨more, rfl⟩ : ∃ more, rest = 32 :: more := by
        cases rest with
        | nil => simp at blank
        | cons c more => exact ⟨more, by simpa using blank⟩
      rw [words_word_append isWord more (by decide), words_cons more (by decide)]
  induction cols with
  | nil => rfl
  | cons col cols ih =>
    have isWord := words_ col (by simp)
    cases cols with
    | nil =>
      rw [columns, List.map_singleton, List.intercalate, List.intersperse_singleton, List.flatten_singleton, column, List.append_assoc,
        words_blanks _ _ (by decide), rest_words col.2 isWord]
      rfl
    | cons next cols =>
      have later := ih fun other member => words_ other (by simp [member])
      have parts : columns (col :: next :: cols) ++ rest =
          List.replicate (col.1 - col.2.length) 32 ++ (col.2 ++ 32 :: (columns (next :: cols) ++ rest)) := by
        simp only [columns, List.map_cons, List.intercalate_cons_cons, column, List.append_assoc, List.cons_append, List.nil_append]
      rw [parts, words_blanks _ _ (by decide), words_word_append isWord _ (by decide), later]
      rfl

theorem columns_one_line {cols : List (Nat × Bytes)} (words_ : ∀ col ∈ cols, Word is_space col.2) : (10 : UInt8) ∉ columns cols := by
  intro member
  rcases mem_intercalate member with blank | ⟨word, there, inside⟩
  · exact absurd blank (by decide)
  · obtain ⟨col, among, rfl⟩ := List.mem_map.mp there
    rcases List.mem_append.mp inside with blank | text
    · exact absurd (List.eq_of_mem_replicate blank) (by decide)
    · exact not_space_mem (words_ col among) text

theorem splitOn_table {header : Bytes} {lines : List Bytes} (title : (10 : UInt8) ∉ header) (one_line : ∀ line ∈ lines, (10 : UInt8) ∉ line) :
    (table_text header lines).splitOn 10 = header :: lines ++ [[]] := by
  have row : ∀ {line : Bytes} (rest : Bytes), (10 : UInt8) ∉ line → (line ++ 10 :: rest).splitOn 10 = line :: rest.splitOn 10 :=
    fun rest clean => List.splitOn_append_cons_self_of_not_mem clean rest
  rw [table_text, row _ title]
  congr 1
  induction lines with
  | nil => rfl
  | cons line rest ih =>
    rw [List.flatMap_cons, List.append_assoc, List.singleton_append, row _ (one_line line (by simp)),
      ih fun other member => one_line other (by simp [member])]
    rfl

/-! ## Addresses -/

/-- The address that the bytes are. -/
def address (bIPv6 : Bool) (bytes : Bytes) : QHostAddress := if bIPv6 then .ipv6 bytes else .ipv4 (leNat bytes.reverse)

variable {bytes : Bytes}

theorem byte_swap_leNat (four : bytes.length = 4) : byte_swap (leNat bytes) = leNat bytes.reverse := by
  rw [byte_swap, ← four, leBytes_leNat]

theorem bytes_of_swapped (four : bytes.length = 4) :
    [UInt8.ofNat (leNat bytes.reverse / 2 ^ 24), UInt8.ofNat (leNat bytes.reverse / 2 ^ 16), UInt8.ofNat (leNat bytes.reverse / 2 ^ 8),
      UInt8.ofNat (leNat bytes.reverse)] = bytes := by
  match bytes, four with
  | [a, b, c, d], _ =>
    have ha := a.toNat_lt
    have hb := b.toNat_lt
    have hc := c.toNat_lt
    have hd := d.toNat_lt
    have value : leNat [a, b, c, d].reverse = d.toNat + 256 * (c.toNat + 256 * (b.toNat + 256 * a.toNat)) := by simp [leNat]
    rw [value]
    simp only [List.cons.injEq, and_true, ← UInt8.toNat_inj, UInt8.toNat_ofNat']
    omega

theorem block_lt (four : bytes.length = 4) : leNat bytes < 2 ^ 32 := by
  have bound := leNat_lt bytes
  rw [four] at bound
  exact bound

theorem parse_ipv4 (four : bytes.length = 4) :
    ParseNetAddress (address_text false bytes) false = address false bytes := by
  have text : address_text false bytes = hex 8 (leNat bytes) := by
    simp only [address_text, Bool.false_eq_true, if_false, List.range_one, List.flatMap_singleton, word_at, Nat.mul_zero, List.drop_zero]
    rw [List.take_of_length_le (by omega)]
  have length := hex_length (block_lt four)
  have read : (((hex 8 (leNat bytes)).drop (0 * 8)).take 8) = hex 8 (leNat bytes) := by
    rw [Nat.zero_mul, List.drop_zero, List.take_of_length_le (by omega)]
  rw [text, ParseNetAddress]
  simp only [Bool.not_false, if_true, length, Nat.lt_irrefl, if_false, read, to_unsigned_hex 8 (block_lt four), Option.elim_some, address,
    Bool.false_eq_true, byte_swap_leNat four]

theorem part_at {front part : Bytes} {start length : Nat} (before : front.length = start) (long : part.length = length) (rest : Bytes) :
    ((front ++ (part ++ rest)).drop start).take length = part := by
  rw [List.drop_left' before, List.take_left' long]

theorem four_parts {one two three four : Bytes} {length : Nat} (h1 : one.length = length) (h2 : two.length = length) (h3 : three.length = length)
    (h4 : four.length = length) : ∀ i part, [one, two, three, four][i]? = some part →
      (((one ++ (two ++ (three ++ four))).drop (length * i)).take length) = part := by
  intro i part found
  match i, found with
  | 0, found =>
    cases found
    exact @part_at [] one (length * 0) length (by simp) h1 _
  | 1, found =>
    cases found
    exact part_at (by omega) h2 _
  | 2, found =>
    cases found
    rw [← List.append_assoc]
    exact part_at (by simp; omega) h3 _
  | 3, found =>
    cases found
    have last := @part_at (one ++ two ++ three) four (length * 3) length (by simp; omega) h4 []
    simpa using last

theorem parse_ipv6 (sixteen : bytes.length = 16) :
    ParseNetAddress (address_text true bytes) true = address true bytes := by
  obtain ⟨one, two, three, four, rfl, h1, h2, h3, h4⟩ : ∃ one two three four : Bytes, bytes = one ++ (two ++ (three ++ four)) ∧ one.length = 4 ∧
      two.length = 4 ∧ three.length = 4 ∧ four.length = 4 := by
    refine ⟨bytes.take 4, (bytes.drop 4).take 4, (bytes.drop 8).take 4, bytes.drop 12, ?_, ?_, ?_, ?_, ?_⟩
    · have second := List.take_append_drop 4 bytes
      have third := List.take_append_drop 4 (bytes.drop 4)
      have fourth := List.take_append_drop 4 (bytes.drop 8)
      rw [List.drop_drop] at third fourth
      rw [fourth, third, second]
    all_goals simp [sixteen]
  have blocks := four_parts h1 h2 h3 h4
  have text : address_text true (one ++ (two ++ (three ++ four))) =
      hex 8 (leNat one) ++ (hex 8 (leNat two) ++ (hex 8 (leNat three) ++ hex 8 (leNat four))) := by
    simp only [address_text, if_true, word_at, List.range_succ, List.range_zero, List.nil_append, List.flatMap_append, List.flatMap_singleton,
      blocks 0 one rfl, blocks 1 two rfl, blocks 2 three rfl, blocks 3 four rfl, List.append_assoc]
  have l1 := hex_length (block_lt h1)
  have l2 := hex_length (block_lt h2)
  have l3 := hex_length (block_lt h3)
  have l4 := hex_length (block_lt h4)
  have words := four_parts l1 l2 l3 l4
  have long : ¬ (hex 8 (leNat one) ++ (hex 8 (leNat two) ++ (hex 8 (leNat three) ++ hex 8 (leNat four)))).length < 32 := by
    simp only [List.length_append]
    omega
  have swapped : ∀ {block : Bytes}, block.length = 4 → [UInt8.ofNat (byte_swap (leNat block) / 2 ^ 24), UInt8.ofNat (byte_swap (leNat block) / 2 ^ 16),
      UInt8.ofNat (byte_swap (leNat block) / 2 ^ 8), UInt8.ofNat (byte_swap (leNat block))] = block := by
    intro block h
    rw [byte_swap_leNat h, bytes_of_swapped h]
  have read : (List.range 4).mapM (fun i => to_unsigned (2 ^ 32) 16
      (((hex 8 (leNat one) ++ (hex 8 (leNat two) ++ (hex 8 (leNat three) ++ hex 8 (leNat four)))).drop (i * 8)).take 8)) =
      some [leNat one, leNat two, leNat three, leNat four] := by
    simp only [List.range_succ, List.range_zero, List.nil_append, List.cons_append, Nat.mul_comm _ 8, List.mapM_cons, List.mapM_nil,
      words 0 _ rfl, words 1 _ rfl, words 2 _ rfl, words 3 _ rfl, to_unsigned_hex 8 (block_lt h1), to_unsigned_hex 8 (block_lt h2),
      to_unsigned_hex 8 (block_lt h3), to_unsigned_hex 8 (block_lt h4)]
    rfl
  rw [text, ParseNetAddress]
  simp only [Bool.not_true, Bool.false_eq_true, if_false, long, read, Option.elim_some, address, if_true, List.flatMap_cons, List.flatMap_nil,
    swapped h1, swapped h2, swapped h3, swapped h4, List.append_nil]

theorem parse_address (bIPv6 : Bool) (bytes : Address bIPv6) : ParseNetAddress (address_text bIPv6 bytes.val) bIPv6 = address bIPv6 bytes.val := by
  cases bIPv6 with
  | false => exact parse_ipv4 bytes.2
  | true => exact parse_ipv6 bytes.2

theorem address_text_word (bIPv6 : Bool) (bytes : Bytes) : Word is_space (address_text bIPv6 bytes) ∧ (58 : UInt8) ∉ address_text bIPv6 bytes := by
  have each : ∀ c ∈ address_text bIPv6 bytes, is_space c = false ∧ c ≠ 58 := by
    intro c member
    obtain ⟨i, -, inside⟩ := List.mem_flatMap.mp member
    obtain ⟨word, colon⟩ := hex_word 8 (word_at bytes i)
    exact ⟨word.2 c inside, fun same => colon (same ▸ inside)⟩
  refine ⟨⟨?_, fun c member => (each c member).1⟩, fun member => (each 58 member).2 rfl⟩
  have first := (hex_word 8 (word_at bytes 0)).1.1
  cases bIPv6 <;> simp [address_text, List.range_succ, first]

/-! ## Lines of internet sockets -/

theorem split_colon {left right : Bytes} (first : (58 : UInt8) ∉ left) (second : (58 : UInt8) ∉ right) :
    (left ++ 58 :: right).splitOn 58 = [left, right] := by
  rw [List.splitOn_append_cons_self_of_not_mem first, List.splitOn_eq_singleton second]

/-- What is read of a line of an internet socket. -/
def inet_connection (ProtocolType : Nat) (bTcp : Bool) {bIPv6 : Bool} (row : InetSocket bIPv6 × InetLine) : SNetConnection where
  ProtocolType := ProtocolType
  LocalAddress := address bIPv6 row.1.src.val
  LocalPort := row.1.sport.toNat
  RemoteAddress := address bIPv6 row.1.dst.val
  RemotePort := row.1.dport.toNat
  State := if bTcp then TcpStateToMib row.1.state.toNat else 5
  TxQueue := row.2.tx.toNat
  RxQueue := row.2.rx.toNat
  Uid := row.1.uid.toNat
  Inode := row.1.inode.toNat

section Inet
variable (ProtocolType : Nat) (bTcp : Bool) {bIPv6 : Bool}

theorem inet_words_plain (socket : InetSocket bIPv6) (line : InetLine) : ∀ col ∈ inet_words bTcp socket line, Word is_space col.2 := by
  have hexes (width n : Nat) : Word is_space (hex width n) := (hex_word width n).1
  have joined (left : Bytes) (first : Word is_space left) (width n : Nat) : Word is_space (left ++ 58 :: hex width n) :=
    word_colon first (hexes width n).2
  have number : Word is_space (text 10 line.sl ++ [58]) := word_colon (text_word _) (by simp)
  simp only [inet_words, List.forall_mem_cons, List.not_mem_nil, false_imp_iff, implies_true, and_true]
  exact ⟨number, joined _ (address_text_word bIPv6 _).1 4 _, joined _ (address_text_word bIPv6 _).1 4 _, hexes 2 _, joined _ (hexes 8 _) 8 _,
    joined _ (hexes 2 _) 8 _, hexes 8 _, text_word _, text_word _, text_word _⟩

theorem inet_line_one_line (row : InetSocket bIPv6 × InetLine) : (10 : UInt8) ∉ inet_line bTcp row := by
  rw [inet_line, List.mem_append, not_or]
  exact ⟨columns_one_line (inet_words_plain bTcp row.1 row.2), row.2.one_line⟩

theorem fields_of_columns {cols : List (Nat × Bytes)} (words_ : ∀ col ∈ cols, Word is_space col.2) (some_ : cols ≠ []) {rest : Bytes}
    (behind : rest = [] ∨ rest.head? = some 32) :
    (simplified is_space 32 (columns cols ++ rest)).splitOn 32 = cols.map Prod.snd ++ words is_space rest := by
  have read := words_columns cols words_ behind
  rw [simplified_split (by decide) (by rw [read]; simp [some_]), read]

theorem read_inet_line (row : InetSocket bIPv6 × InetLine) :
    net_connection ProtocolType bIPv6 bTcp (inet_line bTcp row) = some (inet_connection ProtocolType bTcp row) := by
  obtain ⟨socket, line⟩ := row
  have fields : (simplified is_space 32 (inet_line bTcp (socket, line))).splitOn 32 =
      (inet_words bTcp socket line).map Prod.snd ++ words is_space line.rest :=
    fields_of_columns (inet_words_plain bTcp socket line) (by simp [inet_words]) line.behind
  have text : (inet_line bTcp (socket, line)).isEmpty = false := by
    cases same : inet_line bTcp (socket, line) with
    | nil =>
      rw [same] at fields
      simp [inet_words, simplified, words_nil] at fields
    | cons c rest => rfl
  have ports : ∀ (bytes : Bytes) (port : UInt16), (address_text bIPv6 bytes ++ 58 :: hex 4 port.toNat).splitOn 58 =
      [address_text bIPv6 bytes, hex 4 port.toNat] := fun bytes port => split_colon (address_text_word bIPv6 bytes).2 (hex_word 4 _).2
  have queues : (hex 8 line.tx.toNat ++ 58 :: hex 8 line.rx.toNat).splitOn 58 = [hex 8 line.tx.toNat, hex 8 line.rx.toNat] :=
    split_colon (hex_word 8 _).2 (hex_word 8 _).2
  have port (value : UInt16) : unsigned (2 ^ 16) 16 (hex 4 value.toNat) = value.toNat := unsigned_hex 4 value.toNat_lt
  have state : unsigned (2 ^ 32) 16 (hex 2 socket.state.toNat) = socket.state.toNat := unsigned_hex 2 (by have := socket.state.toNat_lt; omega)
  have queue (value : UInt32) : unsigned (2 ^ 64) 16 (hex 8 value.toNat) = value.toNat := unsigned_hex 8 (by have := value.toNat_lt; omega)
  have uid : unsigned (2 ^ 32) 10 (ByteText.text 10 socket.uid.toNat) = socket.uid.toNat := unsigned_text socket.uid.toNat_lt
  have inode : unsigned (2 ^ 64) 10 (ByteText.text 10 socket.inode.toNat) = socket.inode.toNat :=
    unsigned_text (by have := socket.inode.toNat_lt; omega)
  rw [net_connection, text, fields]
  simp only [inet_words, List.map_cons, List.map_nil, List.cons_append, List.nil_append, List.length_cons, List.getD_cons_zero, List.getD_cons_succ,
    ports, queues, port, state, queue, uid, inode, parse_address, inet_connection]
  simp

theorem read_inet_table (header : Bytes) (title : (10 : UInt8) ∉ header) (rows : List (InetSocket bIPv6 × InetLine)) :
    ReadNetTable (table_text header (rows.map (inet_line bTcp))) ProtocolType bIPv6 bTcp = rows.map (inet_connection ProtocolType bTcp) := by
  have one_line : ∀ line ∈ rows.map (inet_line bTcp), (10 : UInt8) ∉ line := by
    intro line member
    obtain ⟨row, -, rfl⟩ := List.mem_map.mp member
    exact inet_line_one_line bTcp row
  have last : net_connection ProtocolType bIPv6 bTcp [] = none := by simp [net_connection]
  rw [ReadNetTable, splitOn_table title one_line, List.cons_append, List.drop_succ_cons, List.drop_zero, List.filterMap_append, List.filterMap_map]
  simp [last, read_inet_line]

end Inet

/-! ## Lines of unix sockets -/

/-- What is read of a line of a unix socket whose name has no blank. -/
def unix_text_connection (socket : UnixSocket) : SNetConnection where
  ProtocolType := unix_protocol socket.type.toNat
  State :=
    if socket.state.toNat = TCP_LISTEN then UNIX_LISTEN
    else if socket.state.toNat = TCP_ESTABLISHED then UNIX_CONNECTED
    else UNIX_UNCONNECTED
  Inode := socket.inode.toNat
  LocalName := fromUtf8 (toUtf8 (name_text socket.name))

theorem unix_words_plain (socket : UnixSocket) (line : UnixLine) : ∀ col ∈ unix_words socket line, Word is_space col.2 := by
  have hexes (width n : Nat) : Word is_space (hex width n) := (hex_word width n).1
  simp only [unix_words, List.forall_mem_cons, List.not_mem_nil, false_imp_iff, implies_true, and_true]
  exact ⟨word_colon line.word (by simp), hexes 8 _, hexes 8 _, hexes 8 _, hexes 4 _, hexes 2 _, text_word _⟩

theorem unix_line_eq (row : UnixSocket × UnixLine) : ∃ rest, unix_line row = columns (unix_words row.1 row.2) ++ rest ∧
    (rest = [] ∨ rest.head? = some 32) ∧ words is_space rest = words is_space (toUtf8 (name_text row.1.name)) ∧
    ('\n' ∉ name_text row.1.name → (10 : UInt8) ∉ rest) := by
  cases name : row.1.name with
  | anonymous => exact ⟨[], by rw [unix_line, name], .inl rfl, rfl, by simp⟩
  | path s =>
    refine ⟨32 :: toUtf8 (name_text (.path s)), by rw [unix_line, name], .inr rfl, words_cons _ (by decide), fun clean => ?_⟩
    rw [List.mem_cons, not_or]
    exact ⟨by decide, not_mem_toUtf8 clean⟩
  | abstract s =>
    refine ⟨32 :: toUtf8 (name_text (.abstract s)), by rw [unix_line, name], .inr rfl, words_cons _ (by decide), fun clean => ?_⟩
    rw [List.mem_cons, not_or]
    exact ⟨by decide, not_mem_toUtf8 clean⟩

theorem words_of_word {s : List Char} (text : ∀ c ∈ s, space_char c = false) : words is_space (toUtf8 s) = if s = [] then [] else [toUtf8 s] := by
  rw [words_toUtf8]
  split_ifs with empty
  · rw [empty, words_nil]
    rfl
  · rw [words_word ⟨empty, text⟩]
    rfl

theorem read_unix_line (row : UnixSocket × UnixLine) (text : ∀ c ∈ name_text row.1.name, space_char c = false) :
    unix_connection (unix_line row) = some (unix_text_connection row.1) := by
  obtain ⟨socket, line⟩ := row
  obtain ⟨rest, is_line, behind, name, -⟩ := unix_line_eq (socket, line)
  have fields : (simplified is_space 32 (unix_line (socket, line))).splitOn 32 =
      (unix_words socket line).map Prod.snd ++ if name_text socket.name = [] then [] else [toUtf8 (name_text socket.name)] := by
    rw [is_line, fields_of_columns (unix_words_plain socket line) (by simp [unix_words]) behind, name, words_of_word text]
  have flags : unsigned (2 ^ 32) 16 (hex 8 (if socket.state.toNat = TCP_LISTEN then SO_ACCEPTCON else 0)) =
      if socket.state.toNat = TCP_LISTEN then SO_ACCEPTCON else 0 := unsigned_hex 8 (by split_ifs <;> decide)
  have type : unsigned (2 ^ 32) 16 (hex 4 socket.type.toNat) = socket.type.toNat := unsigned_hex 4 (by have := socket.type.toNat_lt; omega)
  have state : unsigned (2 ^ 32) 16 (hex 2 (if socket.state.toNat = TCP_ESTABLISHED then SS_CONNECTED else SS_UNCONNECTED)) =
      if socket.state.toNat = TCP_ESTABLISHED then SS_CONNECTED else SS_UNCONNECTED := unsigned_hex 2 (by split_ifs <;> decide)
  have inode : unsigned (2 ^ 64) 10 (ByteText.text 10 socket.inode.toNat) = socket.inode.toNat :=
    unsigned_text (by have := socket.inode.toNat_lt; omega)
  have used : socket.inode.toNat ≠ 0 := fun zero => socket.open_ (UInt32.toNat_inj.mp zero)
  rw [unix_connection, fields]
  simp only [unix_words, List.map_cons, List.map_nil, List.cons_append, List.nil_append, List.length_cons, List.getD_cons_zero, List.getD_cons_succ,
    flags, type, state, inode, used, if_false, unix_text_connection]
  have listening : (if socket.state.toNat = TCP_LISTEN then SO_ACCEPTCON else 0) &&& 0x10000 ≠ 0 ↔ socket.state.toNat = TCP_LISTEN := by
    split_ifs with listens
    · exact iff_of_true (by decide) listens
    · exact iff_of_false (by decide) listens
  have established : (if socket.state.toNat = TCP_ESTABLISHED then SS_CONNECTED else SS_UNCONNECTED) = 3 ↔ socket.state.toNat = TCP_ESTABLISHED := by
    split_ifs with connected
    · exact iff_of_true rfl connected
    · exact iff_of_false (by decide) connected
  have plain : ∀ other, other = 2 ∨ other = 4 →
      (if socket.state.toNat = TCP_ESTABLISHED then SS_CONNECTED else SS_UNCONNECTED) ≠ other := by
    rintro other (rfl | rfl) <;> split_ifs <;> decide
  simp only [listening, established, plain 2 (.inl rfl), plain 4 (.inr rfl), if_false]
  by_cases empty : name_text socket.name = []
  · have nothing : fromUtf8 (toUtf8 []) = [] := by decide
    simp [empty, nothing]
  · simp [empty]

theorem read_unix_table {header : Bytes} (title : (10 : UInt8) ∉ header) (rows : List (UnixSocket × UnixLine))
    (text : ∀ row ∈ rows, ∀ c ∈ name_text row.1.name, space_char c = false) :
    (((table_text header (rows.map unix_line)).splitOn 10).drop 1).filterMap unix_connection = rows.map fun row => unix_text_connection row.1 := by
  have one_line : ∀ line ∈ rows.map unix_line, (10 : UInt8) ∉ line := by
    intro line member
    obtain ⟨row, inside, rfl⟩ := List.mem_map.mp member
    obtain ⟨rest, is_line, -, -, clean⟩ := unix_line_eq row
    have no_break : '\n' ∉ name_text row.1.name := fun there => absurd (text row inside '\n' there) (by decide)
    rw [is_line, List.mem_append, not_or]
    exact ⟨columns_one_line (unix_words_plain row.1 row.2), clean no_break⟩
  have last : unix_connection [] = none := by simp [unix_connection, simplified, words_nil, List.intercalate, List.splitOn_nil]
  rw [splitOn_table title one_line, List.cons_append, List.drop_succ_cons, List.drop_zero, List.filterMap_append, List.filterMap_map]
  have read : rows.filterMap (unix_connection ∘ unix_line) = rows.filterMap fun row => some (unix_text_connection row.1) := by
    refine List.filterMap_congr fun row inside => ?_
    rw [Function.comp_apply, read_unix_line row (text row inside)]
  rw [List.filterMap_cons_none last, List.filterMap_nil, List.append_nil, read, List.filterMap_eq_map']

theorem read_name_text {Line : Bytes} {connection : SNetConnection} (read : unix_connection Line = some connection) :
    (∃ type, connection.ProtocolType = unix_protocol type) ∧ ∀ c ∈ connection.LocalName, space_char c = false := by
  obtain ⟨Fields, is_fields⟩ : ∃ Fields, Fields = (simplified is_space 32 Line).splitOn 32 := ⟨_, rfl⟩
  rw [unix_connection, ← is_fields] at read
  by_cases few : Fields.length < 7
  · rw [if_pos few] at read
    cases read
  by_cases unused : unsigned (2 ^ 64) 10 (Fields.getD 6 []) = 0
  · rw [if_neg few, if_pos unused] at read
    cases read
  rw [if_neg few, if_neg unused] at read
  cases read
  refine ⟨⟨_, rfl⟩, ?_⟩
  dsimp only
  split_ifs with named
  · apply fromUtf8_no_space
    have words_ : words is_space Line ≠ [] := by
      intro nothing
      rw [is_fields, simplified, nothing] at named
      simp [List.intercalate, List.splitOn_nil] at named
    rw [is_fields, simplified_split (by decide) words_] at named ⊢
    rw [List.getD_eq_getElem _ _ named]
    exact (mem_words (List.getElem_mem named)).2
  · simp

end TaskExplorer.ProcNet
