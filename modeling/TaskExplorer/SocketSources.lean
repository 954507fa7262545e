import TaskExplorer.SockDiag

/-!
# One socket table read in two ways

The sockets of the kernel as the text of `/proc/net` and as the messages of `sock_diag`. Both
are read as the same connections exactly when the name of every unix socket is plain.
-/

namespace TaskExplorer.SocketSources
open ByteText ProcNet
open SockDiag (Dumped Answers Enumerate DumpOne DumpUnix inet_message unix_message name_read local_name name_peer)

/-! ## The table and its renderings -/

structure SocketTable where
  tcp : List (InetSocket false)
  tcp6 : List (InetSocket true)
  udp : List (InetSocket false)
  udp6 : List (InetSocket true)
  unix : List UnixSocket

/-- A line for each of the sockets in some order. -/
structure Listed (Line : Type) {Socket : Type} (sockets : List Socket) where
  header : Bytes
  title : (10 : UInt8) ∉ header
  rows : List (Socket × Line)
  each : (rows.map Prod.fst).Perm sockets

structure AsText (table : SocketTable) where
  tcp : Listed InetLine table.tcp
  tcp6 : Listed InetLine table.tcp6
  udp : Listed InetLine table.udp
  udp6 : Listed InetLine table.udp6
  unix : Listed UnixLine table.unix

def AsText.files {table : SocketTable} (text : AsText table) : Files where
  tcp := table_text text.tcp.header (text.tcp.rows.map (inet_line true))
  tcp6 := table_text text.tcp6.header (text.tcp6.rows.map (inet_line true))
  udp := table_text text.udp.header (text.udp.rows.map (inet_line false))
  udp6 := table_text text.udp6.header (text.udp6.rows.map (inet_line false))
  unix := table_text text.unix.header (text.unix.rows.map unix_line)

structure AsMessages (table : SocketTable) where
  tcp : Dumped inet_message table.tcp
  tcp6 : Dumped inet_message table.tcp6
  udp : Dumped inet_message table.udp
  udp6 : Dumped inet_message table.udp6
  unix : Dumped unix_message table.unix

def AsMessages.answers {table : SocketTable} (messages : AsMessages table) : Answers where
  tcp := messages.tcp.answer
  tcp6 := messages.tcp6.answer
  udp := messages.udp.answer
  udp6 := messages.udp6.answer
  unix := messages.unix.answer

/-! ## What is compared -/

/-- What both sources say of a socket; a unix socket has neither addresses nor an owner in either. -/
structure View where
  ProtocolType : Nat
  LocalAddress : QHostAddress
  LocalPort : Nat
  RemoteAddress : QHostAddress
  RemotePort : Nat
  State : Nat
  Inode : Nat
  Uid : Nat
  LocalName : List Char
deriving DecidableEq

def view (Conn : SNetConnection) : View where
  ProtocolType := Conn.ProtocolType
  LocalAddress := Conn.LocalAddress
  LocalPort := Conn.LocalPort
  RemoteAddress := Conn.RemoteAddress
  RemotePort := Conn.RemotePort
  State := Conn.State
  Inode := Conn.Inode
  Uid := Conn.Uid
  LocalName := Conn.LocalName

/-- The connections of the two sources. -/
def text_views {table : SocketTable} (text : AsText table) : List View := (ReadNetConnections text.files).map view

def message_views {table : SocketTable} (messages : AsMessages table) : List View := (Enumerate messages.answers).map view

/-- A name that the text of `/proc/net/unix` can hold: no white space, and in an abstract name neither a zero nor a byte order mark in front. -/
def Plain : UnixName → Prop
  | .anonymous => True
  | .path name => ∀ c ∈ name.val, space_char c = false
  | .abstract name => (∀ c ∈ name.val, space_char c = false) ∧ '\x00' ∉ name.val ∧ name.val.head? ≠ some bom

instance : DecidablePred Plain
  | .anonymous => inferInstanceAs (Decidable True)
  | .path name => inferInstanceAs (Decidable (∀ c ∈ name.val, space_char c = false))
  | .abstract name => inferInstanceAs (Decidable ((∀ c ∈ name.val, space_char c = false) ∧ '\x00' ∉ name.val ∧ name.val.head? ≠ some bom))

/-! ## Names -/

/-- A name as it is read from the text. -/
def text_read (name : UnixName) : List Char := fromUtf8 (toUtf8 (name_text name))

def Spaceless (s : List Char) : Prop := ∀ c ∈ s, space_char c = false

/-- Without a byte order mark in front. -/
def unmarked (s : List Char) : List Char := if s.head? = some bom then s.tail else s

theorem unmarked_sublist (s : List Char) : (unmarked s).Sublist s := by
  rw [unmarked]
  split_ifs
  · exact List.tail_sublist s
  · exact List.Sublist.refl s

theorem first_byte {s : List Char} (zero : (toUtf8 s).head? = some 0) : s.head? = some '\x00' := by
  refine (encode_prefix_iff '\x00' s).mp ?_
  obtain ⟨more, bytes⟩ := List.head?_eq_some_iff.mp zero
  exact ⟨more, bytes.symm⟩

theorem path_read (name : { s : List Char // s ≠ [] ∧ '\x00' ∉ s ∧ (toUtf8 s).length ≤ 108 }) :
    name_read (.path name) = unmarked name.val ∧ text_read (.path name) = unmarked name.val := by
  obtain ⟨s, some_, clean, fits⟩ := name
  refine ⟨?_, fromUtf8_toUtf8 s⟩
  have first : (toUtf8 s ++ [0]).head? ≠ some 0 := by
    intro zero
    have bytes : toUtf8 s ≠ [] := by
      obtain ⟨c, rest, rfl⟩ := List.exists_cons_of_ne_nil some_
      rw [toUtf8, List.flatMap_cons]
      simp [String.utf8EncodeChar_ne_nil]
    rw [List.head?_append_of_ne_nil _ bytes] at zero
    exact clean (List.mem_of_mem_head? (first_byte zero))
  have zero_text : toUtf8 s ++ [0] = toUtf8 (s ++ ['\x00']) := by
    rw [toUtf8, toUtf8, List.flatMap_append]
    rfl
  have marked : unmarked (s ++ ['\x00']) = unmarked s ++ ['\x00'] := by
    rw [unmarked, unmarked, List.head?_append_of_ne_nil _ some_]
    split_ifs
    · rw [List.tail_append_of_ne_nil some_]
    · rfl
  have kept : (unmarked s).rdropWhile (· = '\x00') = unmarked s := by
    rw [List.rdropWhile_eq_self_iff]
    intro nonempty zero
    have last := List.getLast_mem nonempty
    rw [of_decide_eq_true zero] at last
    exact clean ((unmarked_sublist s).subset last)
  have read : fromUtf8 (toUtf8 s ++ [0]) = unmarked s ++ ['\x00'] := by
    rw [zero_text, fromUtf8_toUtf8, ← marked]
    rfl
  simp only [name_read, local_name, first, if_false, read]
  rw [List.rdropWhile_concat_pos _ _ _ (by simp), kept]

theorem abstract_read (name : { s : List Char // (toUtf8 s).length < 108 }) :
    name_read (.abstract name) = '@' :: (unmarked name.val).rdropWhile (· = '\x00') ∧ text_read (.abstract name) = '@' :: name.val.map put_char := by
  constructor
  · have at_kept : ∀ s : List Char, ('@' :: s).rdropWhile (· = '\x00') = '@' :: s.rdropWhile (· = '\x00') := by
      intro s
      induction s using List.reverseRecOn with
      | nil => rfl
      | append_singleton s c ih =>
        rw [← List.cons_append, List.rdropWhile_concat, List.rdropWhile_concat, ih]
        split_ifs <;> rfl
    rw [name_read, local_name, if_pos (by rfl), List.drop_succ_cons, List.drop_zero, fromUtf8_toUtf8]
    exact at_kept _
  · rw [text_read, name_text, fromUtf8_toUtf8, if_neg (by simp [bom])]

theorem put_char_ne (c : Char) : put_char c ≠ '\x00' := by
  rw [put_char]
  split_ifs with zero
  · decide
  · exact zero

theorem map_put_char {s : List Char} (clean : '\x00' ∉ s) : s.map put_char = s := by
  refine (List.map_congr_left fun c member => ?_).trans (List.map_id s)
  have other : c ≠ '\x00' := fun zero => clean (zero ▸ member)
  rw [put_char, if_neg other, id]

theorem put_char_spaceless {s : List Char} : Spaceless (s.map put_char) ↔ Spaceless s := by
  have same (c : Char) : space_char (put_char c) = space_char c := by
    rw [put_char]
    split_ifs with zero
    · rw [zero]
      decide
    · rfl
  simp only [Spaceless, List.forall_mem_map, same]

theorem text_read_clean (name : UnixName) : '\x00' ∉ text_read name := by
  cases name with
  | anonymous => decide
  | path name =>
    rw [(path_read name).2]
    exact fun zero => name.2.2.1 ((unmarked_sublist name.val).subset zero)
  | abstract name =>
    rw [(abstract_read name).2, List.mem_cons, List.mem_map]
    rintro (zero | ⟨c, -, zero⟩)
    · exact absurd zero (by decide)
    · exact put_char_ne c zero

theorem anonymous_read : name_read .anonymous = [] ∧ text_read .anonymous = [] := ⟨rfl, by decide⟩

theorem spaceless_of_read {name : UnixName} (read : Spaceless (name_read name)) : Spaceless (name_text name) := by
  have kept : ∀ s : List Char, Spaceless (unmarked s) → Spaceless s := by
    intro s clean c member
    by_cases first : s.head? = some bom
    · obtain ⟨rest, rfl⟩ := List.head?_eq_some_iff.mp first
      rcases List.mem_cons.mp member with rfl | inside
      · decide
      · exact clean c (by simpa [unmarked] using inside)
    · rw [unmarked, if_neg first] at clean
      exact clean c member
  cases name with
  | anonymous => exact read
  | path name =>
    rw [(path_read name).1] at read
    exact kept _ read
  | abstract name =>
    rw [(abstract_read name).1] at read
    have chopped : Spaceless (unmarked name.val) := by
      intro c member
      rw [← @List.rdropWhile_append_rtakeWhile _ (fun c => c = '\x00') (unmarked name.val), List.mem_append] at member
      rcases member with front | zeros
      · exact read c (List.mem_cons_of_mem _ front)
      · have zero : c = '\x00' := by simpa using List.mem_rtakeWhile_imp zeros
        rw [zero]
        decide
    intro c member
    rcases List.mem_cons.mp member with rfl | inside
    · decide
    · exact put_char_spaceless.mpr (kept _ chopped) c inside

theorem read_compare {name : UnixName} (text : Spaceless (name_text name)) :
    (Plain name → name_read name = text_read name) ∧ (name_read name).length ≤ (text_read name).length ∧
      (¬ Plain name → '\x00' ∈ name_read name ∨ (name_read name).length < (text_read name).length) := by
  cases name with
  | anonymous =>
    refine ⟨fun _ => anonymous_read.1.trans anonymous_read.2.symm, by rw [anonymous_read.1, anonymous_read.2], fun hidden => absurd trivial hidden⟩
  | path name =>
    obtain ⟨message, line⟩ := path_read name
    rw [message, line]
    exact ⟨fun _ => rfl, le_refl _, fun hidden => absurd text hidden⟩
  | abstract name =>
    obtain ⟨message, line⟩ := abstract_read name
    have clean : Spaceless name.val := put_char_spaceless.mp fun c member => text c (List.mem_cons_of_mem _ member)
    have shorter := (List.rdropWhile_prefix (fun c => c = '\x00') (l := unmarked name.val)).sublist
    have whole := unmarked_sublist name.val
    rw [message, line, List.length_cons, List.length_cons, List.length_map]
    refine ⟨fun plain => ?_, by have := shorter.length_le; have := whole.length_le; omega, fun hidden => ?_⟩
    · obtain ⟨-, no_zero, no_mark⟩ := plain
      have kept : name.val.rdropWhile (· = '\x00') = name.val := by
        rw [List.rdropWhile_eq_self_iff]
        intro nonempty zero
        exact no_zero (of_decide_eq_true zero ▸ List.getLast_mem nonempty)
      rw [unmarked, if_neg no_mark, kept, map_put_char no_zero]
    · by_contra neither
      rw [not_or, not_lt] at neither
      -- nothing was left out, so the name itself stands there
      have same := (shorter.trans whole).eq_of_length_le (by omega)
      have first : unmarked name.val = name.val := whole.eq_of_length_le (by have := shorter.length_le; omega)
      refine hidden ⟨clean, fun zero => neither.1 (List.mem_cons_of_mem _ (by rwa [same])), fun mark => ?_⟩
      obtain ⟨rest, is_name⟩ := List.head?_eq_some_iff.mp mark
      rw [unmarked, if_pos mark, is_name, List.tail_cons] at first
      exact absurd (congrArg List.length first) (by simp)

/-! ## The views of a table -/

theorem mib_states : SockDiag.TcpStateToMib = TcpStateToMib := by
  funext LinuxState
  rfl

/-- What either source says of an internet socket. -/
def inet_view (bTcp : Bool) {bIPv6 : Bool} (socket : InetSocket bIPv6) : View where
  ProtocolType := (if bIPv6 then NET_IPV6 else NET_IPV4) ||| (if bTcp then NET_TCP else NET_UDP)
  LocalAddress := address bIPv6 socket.src.val
  LocalPort := socket.sport.toNat
  RemoteAddress := address bIPv6 socket.dst.val
  RemotePort := socket.dport.toNat
  State := if bTcp then TcpStateToMib socket.state.toNat else 5
  Inode := socket.inode.toNat
  Uid := socket.uid.toNat
  LocalName := []

/-- What a source says of a unix socket that reads names like this. -/
def unix_view (read : UnixName → List Char) (socket : UnixSocket) : View where
  ProtocolType := unix_protocol socket.type.toNat
  LocalAddress := .null
  LocalPort := 0
  RemoteAddress := .null
  RemotePort := 0
  State :=
    if socket.state.toNat = TCP_LISTEN then UNIX_LISTEN
    else if socket.state.toNat = TCP_ESTABLISHED then UNIX_CONNECTED
    else UNIX_UNCONNECTED
  Inode := socket.inode.toNat
  Uid := 0
  LocalName := read socket.name

def inet_views (table : SocketTable) : List View :=
  table.tcp.map (inet_view true) ++ table.tcp6.map (inet_view true) ++ table.udp.map (inet_view false) ++ table.udp6.map (inet_view false)

/-- The protocol of a view tells unix sockets from others. -/
def is_unix (v : View) : Bool := v.ProtocolType &&& NET_UNIX != 0

theorem inet_not_unix {table : SocketTable} {v : View} (member : v ∈ inet_views table) : is_unix v = false := by
  have protocols : ∀ bIPv6 bTcp : Bool, (((if bIPv6 then NET_IPV6 else NET_IPV4) ||| (if bTcp then NET_TCP else NET_UDP)) &&& NET_UNIX != 0) = false := by
    decide
  have each (bTcp : Bool) {bIPv6 : Bool} (socket : InetSocket bIPv6) : is_unix (inet_view bTcp socket) = false := protocols bIPv6 bTcp
  simp only [inet_views, List.mem_append, List.mem_map] at member
  rcases member with ((⟨socket, -, rfl⟩ | ⟨socket, -, rfl⟩) | ⟨socket, -, rfl⟩) | ⟨socket, -, rfl⟩ <;> exact each _ socket

theorem unix_protocol_unix (type : Nat) : unix_protocol type &&& NET_UNIX ≠ 0 := by
  rw [unix_protocol]
  split_ifs <;> decide

theorem unix_is_unix (read : UnixName → List Char) (socket : UnixSocket) : is_unix (unix_view read socket) = true :=
  bne_iff_ne.mpr (unix_protocol_unix _)

section Readings
variable {table : SocketTable} (text : AsText table) (messages : AsMessages table)

/-! ## What the text says -/

theorem Listed.views {bIPv6 : Bool} {sockets : List (InetSocket bIPv6)} (listed : Listed InetLine sockets) (bTcp : Bool) :
    ((ReadNetTable (table_text listed.header (listed.rows.map (inet_line bTcp)))
      ((if bIPv6 then NET_IPV6 else NET_IPV4) ||| (if bTcp then NET_TCP else NET_UDP)) bIPv6 bTcp).map view).Perm (sockets.map (inet_view bTcp)) := by
  have read := (listed.each.map (inet_view bTcp))
  rw [read_inet_table _ bTcp _ listed.title, List.map_map]
  rwa [List.map_map] at read

/-- The unix sockets of the text. -/
def text_unix : List View := (((text.files.unix.splitOn 10).drop 1).filterMap unix_connection).map view

theorem text_views_split : ∃ front, text_views text = front ++ text_unix text ∧ front.Perm (inet_views table) := by
  have inet := ((text.tcp.views true).append (text.tcp6.views true)).append (text.udp.views false) |>.append (text.udp6.views false)
  refine ⟨_, ?_, inet⟩
  simp only [text_views, ReadNetConnections, List.map_append]
  rfl

theorem text_unix_facts {v : View} (member : v ∈ text_unix text) : is_unix v = true ∧ Spaceless v.LocalName := by
  obtain ⟨Conn, inside, rfl⟩ := List.mem_map.mp member
  obtain ⟨Line, -, read⟩ := List.mem_filterMap.mp inside
  obtain ⟨⟨type, protocol⟩, name⟩ := read_name_text read
  exact ⟨bne_iff_ne.mpr (by rw [view, protocol]; exact unix_protocol_unix type), name⟩

theorem text_unix_spaceless (spaceless : ∀ socket ∈ table.unix, Spaceless (name_text socket.name)) :
    (text_unix text).Perm (table.unix.map (unix_view text_read)) := by
  have read := text.unix.each.map (unix_view text_read)
  have rows : ∀ row ∈ text.unix.rows, Spaceless (name_text row.1.name) :=
    fun row member => spaceless row.1 (text.unix.each.subset (List.mem_map_of_mem member))
  rw [text_unix, AsText.files, read_unix_table text.unix.title text.unix.rows rows, List.map_map]
  rwa [List.map_map] at read

/-! ## What the messages say -/

theorem view_tcp_info (Conn : SNetConnection) (Payload : Bytes) : view (SockDiag.tcp_info Conn Payload) = view Conn := by
  rw [SockDiag.tcp_info]
  split_ifs <;> rfl

theorem inet_dumped {bIPv6 : Bool} {sockets : List (InetSocket bIPv6)} (dumped : Dumped inet_message sockets) (bTcp : Bool) :
    (DumpOne bIPv6 bTcp dumped.answer).2 = true ∧ ((DumpOne bIPv6 bTcp dumped.answer).1.map view).Perm (sockets.map (inet_view bTcp)) := by
  have read := dumped.each.map (inet_view bTcp)
  have shown (row : InetSocket bIPv6 × SockDiag.InetMessage) : view (SockDiag.inet_diag bIPv6 bTcp (inet_message row).2) = inet_view bTcp row.1 := by
    have plain : view (SockDiag.inet_connection bTcp row) = inet_view bTcp row.1 := by
      rw [SockDiag.inet_connection, mib_states]
      rfl
    rw [SockDiag.read_inet_message]
    split
    · rw [view_tcp_info, plain]
    · exact plain
  have same : (view ∘ fun row => SockDiag.inet_diag bIPv6 bTcp (inet_message row).2) = inet_view bTcp ∘ Prod.fst := funext shown
  rw [DumpOne, dumped.read _ fun row => ⟨_, _, rfl⟩]
  refine ⟨rfl, ?_⟩
  rw [List.map_map] at read ⊢
  rwa [same]

theorem unix_dumped {sockets : List UnixSocket} (dumped : Dumped unix_message sockets) :
    ((DumpUnix dumped.answer).1.map view).Perm (sockets.map (unix_view name_read)) := by
  have read := dumped.each.map (unix_view name_read)
  have shown (row : UnixSocket × SockDiag.UnixMessage) : view (SockDiag.unix_diag (unix_message row).2) = unix_view name_read row.1 := by
    obtain ⟨PeerInode, same⟩ := SockDiag.read_unix_message row
    rw [same]
    rfl
  have same : (view ∘ fun row => SockDiag.unix_diag (unix_message row).2) = unix_view name_read ∘ Prod.fst := funext shown
  rw [DumpUnix, dumped.read _ fun row => ⟨_, _, rfl⟩]
  rw [List.map_map] at read ⊢
  rwa [same]

theorem message_views_split : ∃ front back, message_views messages = front ++ back ∧ front.Perm (inet_views table) ∧
    back.Perm (table.unix.map (unix_view name_read)) := by
  have tcp := inet_dumped messages.tcp true
  have tcp6 := inet_dumped messages.tcp6 true
  have udp := inet_dumped messages.udp false
  have udp6 := inet_dumped messages.udp6 false
  have unnamed (Unix : List SNetConnection) : view ∘ name_peer Unix = view := by
    funext Conn
    rw [Function.comp_apply, name_peer]
    split_ifs <;> rfl
  refine ⟨_, _, ?_, ((tcp.2.append tcp6.2).append udp.2).append udp6.2, unix_dumped messages.unix⟩
  simp only [message_views, Enumerate, AsMessages.answers, tcp.1, Bool.true_or, if_true, List.map_append, List.map_map, unnamed]

/-! ## When the sources agree -/

theorem views_of_plain (plain : ∀ socket ∈ table.unix, Plain socket.name) : (text_views text).Perm (message_views messages) := by
  have spaceless : ∀ socket ∈ table.unix, Spaceless (name_text socket.name) := by
    intro socket member
    have clean := plain socket member
    cases name : socket.name with
    | anonymous =>
      exact fun c inside => absurd inside List.not_mem_nil
    | path s =>
      rw [name] at clean
      exact clean
    | abstract s =>
      rw [name] at clean
      intro c inside
      rcases List.mem_cons.mp inside with rfl | inside
      · decide
      · exact put_char_spaceless.mpr clean.1 c inside
  have same : table.unix.map (unix_view text_read) = table.unix.map (unix_view name_read) := by
    refine List.map_congr_left fun socket member => ?_
    rw [unix_view, unix_view, (read_compare (spaceless socket member)).1 (plain socket member)]
  obtain ⟨front, is_text, inet⟩ := text_views_split text
  obtain ⟨front', back, is_messages, inet', unix⟩ := message_views_split messages
  rw [is_text, is_messages]
  exact (inet.trans inet'.symm).append (((text_unix_spaceless text spaceless).trans (by rw [same])).trans unix.symm)

theorem spaceless_of_same (same : ∀ v ∈ table.unix.map (unix_view name_read), v ∈ text_unix text) :
    ∀ socket ∈ table.unix, Spaceless (name_text socket.name) := by
  intro socket member
  exact spaceless_of_read (text_unix_facts text (same _ (List.mem_map_of_mem member))).2

theorem plain_of_unix (same : (text_unix text).Perm (table.unix.map (unix_view name_read))) : ∀ socket ∈ table.unix, Plain socket.name := by
  have spaceless := spaceless_of_same text fun v member => same.symm.subset member
  have both := same.symm.trans (text_unix_spaceless text spaceless)
  have names := both.map View.LocalName
  rw [List.map_map, List.map_map] at names
  have lengths := (names.map List.length).sum_eq
  rw [List.map_map, List.map_map] at lengths
  intro socket member
  by_contra hidden
  rcases (read_compare (spaceless socket member)).2.2 hidden with zero | shorter
  · -- no text gives a zero, but then some text would
    obtain ⟨other, -, is_other⟩ := List.mem_map.mp (names.subset (List.mem_map_of_mem member))
    have there : '\x00' ∈ text_read other.name := by
      have said : text_read other.name = name_read socket.name := is_other
      rwa [said]
    exact text_read_clean other.name there
  · -- no name is longer in a message than in a text, so none may be shorter
    refine absurd lengths (ne_of_lt ?_)
    refine List.sum_lt_sum _ _ (fun other inside => ?_) ⟨socket, member, shorter⟩
    exact (read_compare (spaceless other inside)).2.1

theorem unix_of_perm (same : (text_views text).Perm (message_views messages)) : (text_unix text).Perm (table.unix.map (unix_view name_read)) := by
  obtain ⟨front, is_text, inet⟩ := text_views_split text
  obtain ⟨front', back, is_messages, inet', unix⟩ := message_views_split messages
  have none_of {views : List View} (perm : views.Perm (inet_views table)) : views.filter is_unix = [] :=
    List.filter_eq_nil_iff.mpr fun v member => by simp [inet_not_unix (perm.subset member)]
  have all_text : (text_unix text).filter is_unix = text_unix text := List.filter_eq_self.mpr fun v member => (text_unix_facts text member).1
  have all_messages : back.filter is_unix = back := by
    refine List.filter_eq_self.mpr fun v member => ?_
    obtain ⟨socket, -, rfl⟩ := List.mem_map.mp (unix.subset member)
    exact unix_is_unix _ socket
  have filtered := same.filter is_unix
  rw [is_text, is_messages, List.filter_append, List.filter_append, none_of inet, none_of inet', all_text, all_messages] at filtered
  exact filtered.trans unix

theorem perm_iff : (text_views text).Perm (message_views messages) ↔ ∀ socket ∈ table.unix, Plain socket.name :=
  ⟨fun same => plain_of_unix text (unix_of_perm text messages same), views_of_plain text messages⟩

theorem mem_iff (own : (table.unix.map UnixSocket.inode).Nodup) :
    (∀ v, v ∈ text_views text ↔ v ∈ message_views messages) ↔ ∀ socket ∈ table.unix, Plain socket.name := by
  refine ⟨fun same => ?_, fun plain v => (views_of_plain text messages plain).mem_iff⟩
  have nodup (read : UnixName → List Char) : (table.unix.map (unix_view read)).Nodup := by
    refine List.Nodup.of_map (fun v : View => UInt32.ofNat v.Inode) ?_
    rw [List.map_map]
    have inode : (fun v : View => UInt32.ofNat v.Inode) ∘ unix_view read = UnixSocket.inode := by
      funext socket
      exact UInt32.ofNat_toNat
    rwa [inode]
  obtain ⟨front, is_text, inet⟩ := text_views_split text
  obtain ⟨front', back, is_messages, inet', unix⟩ := message_views_split messages
  have unix_same : ∀ v, v ∈ text_unix text ↔ v ∈ table.unix.map (unix_view name_read) := by
    intro v
    have both := same v
    rw [is_text, is_messages, List.mem_append, List.mem_append, inet.mem_iff, inet'.mem_iff, unix.mem_iff] at both
    constructor
    · intro member
      rcases both.mp (.inr member) with inside | inside
      · exact absurd (text_unix_facts text member).1 (by simp [inet_not_unix inside])
      · exact inside
    · intro member
      rcases both.mpr (.inr member) with inside | inside
      · obtain ⟨socket, -, rfl⟩ := List.mem_map.mp member
        exact absurd (unix_is_unix name_read socket) (by simp [inet_not_unix inside])
      · exact inside
  have spaceless := spaceless_of_same text fun v member => (unix_same v).mpr member
  have read := text_unix_spaceless text spaceless
  exact plain_of_unix text ((List.perm_ext_iff_of_nodup (read.nodup_iff.mpr (nodup _)) (nodup _)).mpr unix_same)

/-- Both sources give the same connections, each as often, exactly when the name of every unix socket is plain. Where each unix socket has an inode of its
own, they give the same set exactly then. -/
theorem sources_agree : ((text_views text).Perm (message_views messages) ↔ ∀ socket ∈ table.unix, Plain socket.name) ∧
    ((table.unix.map UnixSocket.inode).Nodup →
      ((∀ v, v ∈ text_views text ↔ v ∈ message_views messages) ↔ ∀ socket ∈ table.unix, Plain socket.name)) :=
  ⟨perm_iff text messages, mem_iff text messages⟩

end Readings

/-! ## A socket whose path has a blank -/

/-- A table of this unix socket alone. -/
def alone (socket : UnixSocket) : SocketTable := { tcp := [], tcp6 := [], udp := [], udp6 := [], unix := [socket] }

def no_lines (Line Socket : Type) : Listed Line ([] : List Socket) := { header := [], title := List.not_mem_nil, rows := [], each := .refl _ }

def alone_text (socket : UnixSocket) : AsText (alone socket) where
  tcp := no_lines _ _
  tcp6 := no_lines _ _
  udp := no_lines _ _
  udp6 := no_lines _ _
  unix := {
    header := []
    title := List.not_mem_nil
    rows := [(socket, { num := [48], word := ⟨by simp, by simp [is_space]⟩, refcount := 2 })]
    each := .refl _ }

def no_header : SockDiag.Header := { flags := 2, seq := 1, pid := 0 }

def no_messages {Socket Message : Type} (render : Socket × Message → Bytes × Bytes) : Dumped render ([] : List Socket) where
  rows := []
  each := .refl _
  header := no_header
  code := []
  datagrams := [[SockDiag.message SockDiag.NLMSG_DONE no_header []]]
  split := rfl
  some_ := by simp
  fits := by simp [SockDiag.datagram, SockDiag.message, SockDiag.room, AlignedRecords.align, Records.span]
  errno := 0

def blank_socket : UnixSocket where
  type := 1
  state := 10
  inode := 12345
  name := .path ⟨['/', 't', 'm', 'p', '/', 'a', ' ', 'b'], by decide⟩
  open_ := by decide

def blank_message : SockDiag.UnixMessage := { header := no_header, cookie := 1, before := [], behind := [], other := by simp }

def blank_messages : AsMessages (alone blank_socket) where
  tcp := no_messages _
  tcp6 := no_messages _
  udp := no_messages _
  udp6 := no_messages _
  unix := {
    rows := [(blank_socket, blank_message)]
    each := .refl _
    header := no_header
    code := []
    datagrams := [[unix_message (blank_socket, blank_message)], [SockDiag.message SockDiag.NLMSG_DONE no_header []]]
    split := rfl
    some_ := by simp
    fits := by decide
    errno := 0 }

theorem not_plain : ¬ ∀ socket ∈ (alone blank_socket).unix, Plain socket.name := by
  intro plain
  have text := plain blank_socket (List.mem_singleton_self _) ' ' (by simp)
  exact absurd text (by decide)

theorem own_inode : ((alone blank_socket).unix.map UnixSocket.inode).Nodup := List.nodup_singleton _

theorem blank_unseen : ¬ ∀ v, v ∈ text_views (alone_text blank_socket) ↔ v ∈ message_views blank_messages :=
  fun same => not_plain ((mem_iff _ _ own_inode).mp same)

theorem sources_agree_blank : (alone blank_socket).unix.length = 1 ∧
    ¬ ∀ v, v ∈ text_views (alone_text blank_socket) ↔ v ∈ message_views blank_messages :=
  ⟨rfl, fun same => not_plain (((sources_agree (alone_text blank_socket) blank_messages).2 own_inode).mp same)⟩

/-! ## What is read whatever the names -/

end TaskExplorer.SocketSources
