import TaskExplorer.SocketList
import TaskExplorer.Transition

/-!
# Sockets under traffic

On Windows the socket list has two writers. A refresh compares a copy of it with the
connection table, and every network event looks its socket up and adds one when there
is none. The look-up and the insertion are two sections under the lock. Names, services,
scopes and rates are left out.
-/

namespace TaskExplorer.NetworkSockets
open OrderedMap
open Lingering
open Transition
open SocketList (Connection mk_hash protocolTcp protocolUdp)

/-- What a socket is found by; an address is its bytes, and none for no address. -/
structure Tuple where
  processId : Nat
  protocolType : Nat
  localAddress : List Nat
  localPort : Fin (2 ^ 16)
  remoteAddress : List Nat
  remotePort : Fin (2 ^ 16)
deriving DecidableEq, Repr

def Tuple.connection (tuple : Tuple) : Connection :=
  ⟨tuple.processId, tuple.protocolType, tuple.localAddress, tuple.localPort, tuple.remoteAddress, tuple.remotePort, 0, 0⟩

def Tuple.has (tuple : Tuple) (bits : Nat) : Bool := tuple.connection.has bits

/-- `m_HashID`. -/
def Tuple.hash (tuple : Tuple) : Nat := mk_hash tuple.connection

inductive EMatchMode where
  | eFuzzy
  | eStrict
deriving DecidableEq, Repr

def anyIPv4 : List Nat := [0, 0, 0, 0]

/-- `CSocketInfo::Match`; the socket comes first. -/
def Match (socket tuple : Tuple) (mode : EMatchMode) : Bool :=
  decide (socket.processId = tuple.processId) && decide (socket.protocolType = tuple.protocolType) &&
    (!socket.has (protocolTcp ||| protocolUdp) || decide (socket.localPort = tuple.localPort)) &&
    ((decide (mode ≠ .eStrict) && decide (socket.localAddress = anyIPv4)) || decide (socket.localAddress = tuple.localAddress)) &&
    ((decide (mode ≠ .eStrict) && !socket.has protocolTcp) ||
      ((!socket.has (protocolTcp ||| protocolUdp) || decide (socket.remotePort = tuple.remotePort)) &&
        decide (socket.remoteAddress = tuple.remoteAddress)))

structure CWinSocket where
  tuple : Tuple
  /-- `m_pProcess`. -/
  process : Option Nat
  state : Nat
  removeTimeStamp : Nat
  lastActivity : Nat
  receiveRaw : Nat
  sendRaw : Nat
deriving DecidableEq, Repr

inductive EventType where
  | receive
  | send
  | firewallBlocked
  | firewallAllowed
deriving DecidableEq, Repr

structure NetworkEvent where
  type : EventType
  tuple : Tuple
  transferSize : Nat
  /-- `Options/UseUDPPseudoConnectins`. -/
  pseudo : Bool
deriving DecidableEq, Repr

def NetworkEvent.mode (event : NetworkEvent) : EMatchMode := if event.tuple.has protocolUdp && event.pseudo then .eStrict else .eFuzzy

/-- A row of the connection table. -/
structure SSocket where
  tuple : Tuple
  state : Nat
deriving DecidableEq, Repr

structure Table where
  rows : List SSocket
  distinct : (rows.map SSocket.tuple).Nodup

/-- A refresh between two of its sections. -/
structure Refresh where
  table : List SSocket
  /-- The rows that it has not come to yet. -/
  left : List SSocket
  /-- `OldSockets`. -/
  old : List (Nat × Nat)
  swept : Bool

structure CWindowsAPI where
  sockets : Nat → CWinSocket
  next : Nat
  /-- In the order of the keys, and the newest first under each. -/
  socketList : List (Nat × Nat)
  /-- The sockets of each process, under their addresses. -/
  own : Nat → OrdMap Nat Nat
  /-- The events that found no socket and are about to add one. -/
  threads : Nat → Option NetworkEvent
  refresh : Option Refresh
  /-- The events that are over. -/
  events : List NetworkEvent

def started : CWindowsAPI := ⟨fun _ => ⟨⟨0, 0, [], 0, [], 0⟩, none, 0, 0, 0, 0, 0⟩, 0, [], fun _ => .empty, fun _ => none, none, []⟩

/-! ## Sections -/

def FindSocketEntry (sockets : Nat → CWinSocket) (list : List (Nat × Nat)) (tuple : Tuple) (mode : EMatchMode) : Option (Nat × Nat) :=
  list.find? (fun entry => decide (entry.1 = tuple.hash) && Match (sockets entry.2).tuple tuple mode)

/-- `QMultiMap::insertMulti`. -/
def insertMulti (key object : Nat) (list : List (Nat × Nat)) : List (Nat × Nat) :=
  list.takeWhile (fun entry => decide (entry.1 < key)) ++ (key, object) :: list.dropWhile (fun entry => decide (entry.1 < key))

def AddNetworkIO (now : Nat) (event : NetworkEvent) (socket : CWinSocket) : CWinSocket :=
  let active := { socket with lastActivity := now, removeTimeStamp := 0 }
  match event.type with
  | .receive => { active with receiveRaw := (socket.receiveRaw + event.transferSize) % 2 ^ 64 }
  | .send => { active with sendRaw := (socket.sendRaw + event.transferSize) % 2 ^ 64 }
  | .firewallBlocked => active
  | .firewallAllowed => active

/-- `InitStaticData`, `LinkProcess` and `AddSocket`, and the insertion; there is no process 0. -/
def add_socket (api : CWindowsAPI) (tuple : Tuple) (process state now : Nat) : CWindowsAPI :=
  { api with
    sockets := Function.update api.sockets api.next ⟨tuple, if tuple.processId = 0 then none else some process, state, 0, now, 0, 0⟩
    next := api.next + 1
    socketList := insertMulti tuple.hash api.next api.socketList
    own := if tuple.processId = 0 then api.own else Function.update api.own process ((api.own process).insert api.next api.next) }

def count_event (api : CWindowsAPI) (object now : Nat) (event : NetworkEvent) : CWindowsAPI :=
  { api with
    sockets := Function.update api.sockets object ( AddNetworkIO now event (api.sockets object))
    events := event :: api.events }

/-- The first section of `OnNetworkEvent`. -/
def look (api : CWindowsAPI) (thread : Nat) (event : NetworkEvent) (now : Nat) : CWindowsAPI :=
  match FindSocketEntry api.sockets api.socketList event.tuple event.mode with
  | some entry => count_event api entry.2 now event
  | none => { api with threads := Function.update api.threads thread (some event) }

/-- The second section, with the process that `GetProcessByID` has given. -/
def add_missing (api : CWindowsAPI) (thread process : Nat) (event : NetworkEvent) (now : Nat) : CWindowsAPI :=
  let added := add_socket api event.tuple process (if event.type = .firewallBlocked then 2 ^ 32 - 1 else 0) now
  { count_event added api.next now event with threads := Function.update api.threads thread none }

/-- A row of the connection table. -/
def take_row (api : CWindowsAPI) (refresh : Refresh) (row : SSocket) (left : List SSocket) (process now : Nat) : CWindowsAPI :=
  match FindSocketEntry api.sockets refresh.old row.tuple .eStrict with
  | some entry =>
    { api with
      sockets := Function.update api.sockets entry.2 { api.sockets entry.2 with state := row.state }
      refresh := some { refresh with left := left, old := refresh.old.erase entry } }
  | none => { add_socket api row.tuple process row.state now with refresh := some { refresh with left := left } }

/-- A UDP pseudo connection that is active. -/
def is_active (udpPersistence now : Nat) (socket : CWinSocket) : Bool :=
  socket.tuple.has protocolUdp && decide (socket.tuple.remotePort ≠ 0) &&
    decide ((now + 2 ^ 64 - socket.lastActivity) % 2 ^ 64 < udpPersistence)

/-- A state of -1 stays. -/
def SetClosed (socket : CWinSocket) : CWinSocket :=
  if socket.state = 2 ^ 32 - 1 then socket else { socket with state := 1 }

/-- The loop over the sockets that the table does not have. -/
def sweep (api : CWindowsAPI) (refresh : Refresh) (udpPersistence now : Nat) : CWindowsAPI :=
  let closed := refresh.old.filter (fun entry => !is_active udpPersistence now (api.sockets entry.2))
  { api with
    sockets := closed.foldl (fun sockets entry => Function.update sockets entry.2 (SetClosed (sockets entry.2))) api.sockets
    refresh := some { refresh with old := closed, swept := true } }

def purge_one (persistence now : Nat) (api : CWindowsAPI) (entry : Nat × Nat) : CWindowsAPI :=
  let socket := api.sockets entry.2
  if can_be_removed persistence now socket.removeTimeStamp then
    { api with
      own :=
        match socket.process with
        | some process => Function.update api.own process ((api.own process).erase entry.2)
        | none => api.own
      socketList := api.socketList.filter (fun other => decide (other ≠ entry)) }
  else if socket.removeTimeStamp = 0 then
    { api with sockets := Function.update api.sockets entry.2 { socket with removeTimeStamp := now } }
  else api

def purge (api : CWindowsAPI) (refresh : Refresh) (persistence now : Nat) : CWindowsAPI :=
  refresh.old.foldl (purge_one persistence now) { api with refresh := none }

inductive Section where
  | look (thread : Nat) (event : NetworkEvent) (now : Nat)
  | add (thread process now : Nat)
  | copy (table : Table)
  | row (process now : Nat)
  | sweep (udpPersistence now : Nat)
  | purge (persistence now : Nat)

/-- One refresh is under way at a time, and one event in each thread. -/
def step (api : CWindowsAPI) : Section → Option CWindowsAPI
  | .look thread event now => if api.threads thread = none then some (look api thread event now) else none
  | .add thread process now => (api.threads thread).map (fun event => add_missing api thread process event now)
  | .copy table =>
    match api.refresh with
    | none => some { api with refresh := some ⟨table.rows, table.rows, api.socketList, false⟩ }
    | some _ => none
  | .row process now =>
    match api.refresh with
    | some refresh =>
      match refresh.left with
      | row :: left => some (take_row api refresh row left process now)
      | [] => none
    | none => none
  | .sweep udpPersistence now =>
    match api.refresh with
    | some refresh => if refresh.left = [] ∧ refresh.swept = false then some (sweep api refresh udpPersistence now) else none
    | none => none
  | .purge persistence now =>
    match api.refresh with
    | some refresh => if refresh.swept then some (purge api refresh persistence now) else none
    | none => none

/-- What each section can do. -/
inductive Moves (api : CWindowsAPI) : Section → CWindowsAPI → Prop where
  | look {thread now : Nat} {event : NetworkEvent} (free : api.threads thread = none) :
    Moves api (.look thread event now) (look api thread event now)
  | add {thread process now : Nat} {event : NetworkEvent} (pending : api.threads thread = some event) :
    Moves api (.add thread process now) (add_missing api thread process event now)
  | copy {table : Table} (idle : api.refresh = none) :
    Moves api (.copy table) { api with refresh := some ⟨table.rows, table.rows, api.socketList, false⟩ }
  | row {process now : Nat} {refresh : Refresh} {row : SSocket} {left : List SSocket} (under : api.refresh = some refresh)
    (rows : refresh.left = row :: left) : Moves api (.row process now) (take_row api refresh row left process now)
  | sweep {udpPersistence now : Nat} {refresh : Refresh} (under : api.refresh = some refresh) (all : refresh.left = []) :
    Moves api (.sweep udpPersistence now) (sweep api refresh udpPersistence now)
  | purge {persistence now : Nat} {refresh : Refresh} (under : api.refresh = some refresh) (swept : refresh.swept = true) :
    Moves api (.purge persistence now) (purge api refresh persistence now)

theorem step_moves {api later : CWindowsAPI} {part : Section} (moved : step api part = some later) : Moves api part later := by
  cases part with
  | look thread event now =>
    rw [step] at moved
    split_ifs at moved with free
    cases moved
    exact .look free
  | add thread process now =>
    obtain ⟨event, pending, rfl⟩ := Option.map_eq_some_iff.mp moved
    exact .add pending
  | copy table =>
    rw [step] at moved
    cases idle : api.refresh with
    | some refresh =>
      rw [idle] at moved
      cases moved
    | none =>
      rw [idle] at moved
      cases moved
      exact .copy idle
  | row process now =>
    rw [step] at moved
    cases under : api.refresh with
    | none =>
      rw [under] at moved
      cases moved
    | some refresh =>
      rw [under] at moved
      dsimp only at moved
      cases rows : refresh.left with
      | nil =>
        rw [rows] at moved
        cases moved
      | cons row left =>
        rw [rows] at moved
        cases moved
        exact .row under rows
  | sweep udpPersistence now =>
    rw [step] at moved
    cases under : api.refresh with
    | none =>
      rw [under] at moved
      cases moved
    | some refresh =>
      rw [under] at moved
      dsimp only at moved
      split_ifs at moved with done
      cases moved
      exact .sweep under done.1
  | purge persistence now =>
    rw [step] at moved
    cases under : api.refresh with
    | none =>
      rw [under] at moved
      cases moved
    | some refresh =>
      rw [under] at moved
      dsimp only at moved
      split_ifs at moved with swept
      cases moved
      exact .purge under swept

/-! ## The property -/

def tuple_of (api : CWindowsAPI) (entry : Nat × Nat) : Tuple := (api.sockets entry.2).tuple

/-- What all sockets have counted, in 64 bits. -/
def counted (api : CWindowsAPI) (raw : CWinSocket → Nat) : Nat := (∑ object ∈ Finset.range api.next, raw (api.sockets object)) % 2 ^ 64

def transferred (type : EventType) (events : List NetworkEvent) : Nat :=
  ((events.filter (fun event => decide (event.type = type))).map NetworkEvent.transferSize).sum % 2 ^ 64

/-- Each socket is listed once, under its process too, and each byte is counted once. -/
structure Attributed (api : CWindowsAPI) : Prop where
  listed : ((api.socketList.filter (fun entry => decide ((api.sockets entry.2).removeTimeStamp = 0))).map (tuple_of api)).Nodup
  owned : ∀ entry ∈ api.socketList, ∀ process, (api.sockets entry.2).process = some process →
    ((api.own process).entries.map Prod.snd).count entry.2 = 1
  received : counted api CWinSocket.receiveRaw = transferred .receive api.events
  sent : counted api CWinSocket.sendRaw = transferred .send api.events

/-- The entries that the table has stay listed and have no mark. -/
def Spared (refresh : Refresh) (api later : CWindowsAPI) : Prop :=
  ∀ entry ∈ api.socketList, tuple_of api entry ∈ refresh.table.map SSocket.tuple →
    entry ∈ later.socketList ∧ (later.sockets entry.2).removeTimeStamp = 0

/-- No other party has looked for the tuple in vain, and no mark is left from an earlier refresh. -/
def Alone (api : CWindowsAPI) : Section → Prop
  | .add thread _ _ => ∀ event, api.threads thread = some event →
    (∀ other rival, other ≠ thread → api.threads other = some rival → rival.tuple ≠ event.tuple) ∧
      ∀ refresh, api.refresh = some refresh → event.tuple ∉ refresh.left.map SSocket.tuple
  | .row _ _ => ∀ refresh row left, api.refresh = some refresh → refresh.left = row :: left →
    ∀ thread event, api.threads thread = some event → event.tuple ≠ row.tuple
  | .purge _ _ => ∀ refresh, api.refresh = some refresh → ∀ entry ∈ api.socketList, entry ∉ refresh.old →
    tuple_of api entry ∈ refresh.table.map SSocket.tuple → (api.sockets entry.2).removeTimeStamp = 0
  | _ => True

/-! ## Looking up -/

theorem Match.self (tuple : Tuple) (mode : EMatchMode) : Match tuple tuple mode = true := by
  simp [Match]

theorem hash_local (tuple : Tuple) : tuple.hash % 2 ^ 16 = tuple.localPort := by
  have above (number : Nat) : (number <<< 32) % 2 ^ 16 = 0 := by
    rw [Nat.shiftLeft_eq]
    omega
  have beside (number : Nat) : (number <<< 16) % 2 ^ 16 = 0 := by
    rw [Nat.shiftLeft_eq]
    omega
  rw [Tuple.hash, mk_hash, Nat.or_mod_two_pow, Nat.or_mod_two_pow, above, beside, Nat.or_zero, Nat.or_zero]
  exact Nat.mod_eq_of_lt tuple.localPort.isLt

theorem hash_remote (tuple : Tuple) (other : tuple.has protocolUdp = false) : (tuple.hash >>> 16) % 2 ^ 16 = tuple.remotePort := by
  have above (number : Nat) : ((number <<< 32) >>> 16) % 2 ^ 16 = 0 := by
    rw [Nat.shiftLeft_eq, Nat.shiftRight_eq_div_pow]
    omega
  have below : (tuple.localPort : Nat) >>> 16 = 0 := by
    rw [Nat.shiftRight_eq_div_pow, Nat.div_eq_of_lt tuple.localPort.isLt]
  have other : tuple.connection.has protocolUdp = false := other
  rw [Tuple.hash, mk_hash, other]
  dsimp only [Tuple.connection]
  rw [if_neg Bool.false_ne_true, Nat.shiftRight_or_distrib, Nat.shiftRight_or_distrib, Nat.or_mod_two_pow, Nat.or_mod_two_pow, below,
    Nat.shiftLeft_shiftRight, above, Nat.or_zero, Nat.zero_mod, Nat.zero_or]
  exact Nat.mod_eq_of_lt tuple.remotePort.isLt

theorem strict_iff (socket tuple : Tuple) : (decide (socket.hash = tuple.hash) && Match socket tuple .eStrict) = true ↔ socket = tuple := by
  constructor
  · intro both
    simp only [Match, ne_eq, not_true_eq_false, decide_false, Bool.false_and, Bool.false_or, Bool.and_eq_true, decide_eq_true_eq,
      Bool.or_eq_true, Bool.not_eq_true'] at both
    obtain ⟨hash, ⟨⟨⟨isProcess, isType⟩, isLocal⟩, isLocalAddress⟩, isRemote, isRemoteAddress⟩ := both
    have localPort : socket.localPort = tuple.localPort := Fin.ext (by rw [← hash_local, ← hash_local, hash])
    have remotePort : socket.remotePort = tuple.remotePort := by
      rcases isRemote with neither | same
      · have udp : socket.has protocolUdp = false := by
          simp only [Tuple.has, Connection.has, protocolTcp, protocolUdp, bne_eq_false_iff_eq] at neither ⊢
          have split : socket.connection.protocolType &&& 32 = (socket.connection.protocolType &&& (16 ||| 32)) &&& 32 := by
            rw [Nat.and_assoc]
            rfl
          rw [split, neither, Nat.zero_and]
        have also : tuple.has protocolUdp = false := by
          rw [← udp, Tuple.has, Tuple.has, Connection.has, Connection.has, Tuple.connection, Tuple.connection, isType]
        exact Fin.ext (by rw [← hash_remote socket udp, ← hash_remote tuple also, hash])
      · exact same
    cases socket
    cases tuple
    simp_all
  · rintro rfl
    simp [Match.self]

section
variable {sockets : Nat → CWinSocket} {list : List (Nat × Nat)} {tuple : Tuple} {mode : EMatchMode}
  (keys : ∀ entry ∈ list, entry.1 = (sockets entry.2).tuple.hash)
include keys

theorem find_none (missing : FindSocketEntry sockets list tuple mode = none) : ∀ entry ∈ list, (sockets entry.2).tuple ≠ tuple := by
  rintro entry member rfl
  have rejected := List.find?_eq_none.mp missing entry member
  rw [keys entry member, Match.self] at rejected
  simp at rejected

theorem find_strict {entry : Nat × Nat} (found : FindSocketEntry sockets list tuple .eStrict = some entry) :
    entry ∈ list ∧ (sockets entry.2).tuple = tuple := by
  have member := List.mem_of_find?_eq_some found
  have accepted := List.find?_some found
  rw [keys entry member] at accepted
  exact ⟨member, (strict_iff _ _).mp accepted⟩

end

theorem insertMulti_perm (key object : Nat) (list : List (Nat × Nat)) : (insertMulti key object list).Perm ((key, object) :: list) := by
  rw [insertMulti]
  refine List.perm_middle.trans (List.Perm.cons _ ?_)
  rw [List.takeWhile_append_dropWhile]

/-! ## Counting -/

section
variable {raw : CWinSocket → Nat}

theorem counted_same {api later : CWindowsAPI} (next : later.next = api.next)
    (same : ∀ object, raw (later.sockets object) = raw (api.sockets object)) : counted later raw = counted api raw := by
  rw [counted, counted, next]
  exact congrArg (· % 2 ^ 64) (Finset.sum_congr rfl (fun object _ => same object))

theorem counted_add (api : CWindowsAPI) (tuple : Tuple) (process state now : Nat)
    (zero : ∀ socket : CWinSocket, socket.receiveRaw = 0 → socket.sendRaw = 0 → raw socket = 0) :
    counted (add_socket api tuple process state now) raw = counted api raw := by
  rw [counted, counted]
  dsimp only [add_socket]
  rw [Finset.sum_range_succ, Function.update_self, zero _ rfl rfl, Nat.add_zero]
  refine congrArg (· % 2 ^ 64) (Finset.sum_congr rfl ?_)
  intro object member
  rw [Function.update_of_ne (Nat.ne_of_lt (Finset.mem_range.mp member))]

theorem counted_event {api : CWindowsAPI} {object : Nat} (made : object < api.next) (now : Nat) (event : NetworkEvent) (type : EventType)
    (adds : ∀ socket, raw ( AddNetworkIO now event socket) % 2 ^ 64 = (raw socket + if event.type = type then event.transferSize else 0) % 2 ^ 64)
    (balanced : counted api raw = transferred type api.events) :
    counted (count_event api object now event) raw = transferred type (event :: api.events) := by
  have whole := Finset.sum_eq_add_sum_sdiff_singleton_of_mem (Finset.mem_range.mpr made) (fun object => raw (api.sockets object))
  have after : ∑ other ∈ Finset.range api.next, raw (Function.update api.sockets object ( AddNetworkIO now event (api.sockets object)) other) =
      raw ( AddNetworkIO now event (api.sockets object)) + ∑ other ∈ Finset.range api.next \ {object}, raw (api.sockets other) := by
    rw [Finset.sum_eq_add_sum_sdiff_singleton_of_mem (Finset.mem_range.mpr made), Function.update_self]
    refine congrArg _ (Finset.sum_congr rfl ?_)
    intro other member
    rw [Finset.mem_sdiff, Finset.mem_singleton] at member
    rw [Function.update_of_ne member.2]
  have added := adds (api.sockets object)
  rw [counted, transferred] at balanced
  rw [counted, transferred]
  dsimp only [count_event]
  rw [after, List.filter_cons]
  rw [whole] at balanced
  by_cases isType : event.type = type
  · rw [if_pos (by simpa using isType), List.map_cons, List.sum_cons]
    rw [if_pos isType] at added
    omega
  · rw [if_neg (by simpa using isType)]
    rw [if_neg isType] at added
    omega

end

/-! ## What every run keeps -/

/-- Each entry is under its own hash and with its process, and each byte is counted. -/
structure Filed (api : CWindowsAPI) : Prop where
  made : ∀ entry ∈ api.socketList, entry.2 < api.next
  keys : ∀ entry ∈ api.socketList, entry.1 = (api.sockets entry.2).tuple.hash
  objects : (api.socketList.map Prod.snd).Nodup
  own : ∀ process object value, (api.own process).get object = some value → value = object
  owned : ∀ entry ∈ api.socketList, ∀ process, (api.sockets entry.2).process = some process → (api.own process).get entry.2 = some entry.2
  old : ∀ refresh, api.refresh = some refresh → (∀ entry ∈ refresh.old, entry ∈ api.socketList) ∧ refresh.old.Nodup
  received : counted api CWinSocket.receiveRaw = transferred .receive api.events
  sent : counted api CWinSocket.sendRaw = transferred .send api.events

theorem filed_started : Filed started where
  made entry member := by cases member
  keys entry member := by cases member
  objects := List.nodup_nil
  own process object value found := by cases found
  owned entry member := by cases member
  old refresh none := by cases none
  received := rfl
  sent := rfl

/-- The sockets differ at most in their state, their mark and their activity. -/
structure SameSocket (socket other : CWinSocket) : Prop where
  tuple : socket.tuple = other.tuple
  process : socket.process = other.process
  received : socket.receiveRaw = other.receiveRaw
  sent : socket.sendRaw = other.sendRaw

theorem SameSocket.refl (socket : CWinSocket) : SameSocket socket socket := ⟨rfl, rfl, rfl, rfl⟩

theorem SameSocket.trans {socket other third : CWinSocket} (same : SameSocket socket other) (also : SameSocket other third) :
    SameSocket socket third :=
  ⟨same.tuple.trans also.tuple, same.process.trans also.process, same.received.trans also.received, same.sent.trans also.sent⟩

theorem same_update {sockets : Nat → CWinSocket} {object : Nat} {socket : CWinSocket} (same : SameSocket socket (sockets object)) (other : Nat) :
    SameSocket (Function.update sockets object socket other) (sockets other) := by
  by_cases here : other = object
  · subst here
    rw [Function.update_self]
    exact same
  · rw [Function.update_of_ne here]
    exact SameSocket.refl _

theorem objects_inj {api : CWindowsAPI} (objects : (api.socketList.map Prod.snd).Nodup) {entry other : Nat × Nat} (member : entry ∈ api.socketList)
    (also : other ∈ api.socketList) (same : entry.2 = other.2) : entry = other :=
  List.inj_on_of_nodup_map objects member also same

section
variable {api : CWindowsAPI} (filed : Filed api)
include filed

theorem Filed.change {later : CWindowsAPI} (same : ∀ object, SameSocket (later.sockets object) (api.sockets object)) (next : later.next = api.next)
    (list : later.socketList = api.socketList) (own : later.own = api.own) (events : later.events = api.events)
    (old : ∀ refresh, later.refresh = some refresh → (∀ entry ∈ refresh.old, entry ∈ api.socketList) ∧ refresh.old.Nodup) : Filed later where
  made := by
    rw [list, next]
    exact filed.made
  keys entry member := by
    rw [list] at member
    rw [(same entry.2).tuple]
    exact filed.keys entry member
  objects := by
    rw [list]
    exact filed.objects
  own := by
    rw [own]
    exact filed.own
  owned entry member process linked := by
    rw [list] at member
    rw [(same entry.2).process] at linked
    rw [own]
    exact filed.owned entry member process linked
  old := by
    rw [list]
    exact old
  received := by
    rw [counted_same next (fun object => (same object).received), events]
    exact filed.received
  sent := by
    rw [counted_same next (fun object => (same object).sent), events]
    exact filed.sent

theorem Filed.add (tuple : Tuple) (process state now : Nat) : Filed (add_socket api tuple process state now) where
  made entry member := by
    rcases List.mem_cons.mp ((insertMulti_perm _ _ _).mem_iff.mp member) with rfl | before
    · exact Nat.lt_succ_self _
    · exact Nat.lt_succ_of_lt (filed.made entry before)
  keys entry member := by
    rcases List.mem_cons.mp ((insertMulti_perm _ _ _).mem_iff.mp member) with rfl | before
    · simp only [add_socket, Function.update_self]
    · simp only [add_socket]
      rw [Function.update_of_ne (Nat.ne_of_lt (filed.made entry before))]
      exact filed.keys entry before
  objects := by
    refine (((insertMulti_perm _ _ _).map Prod.snd).nodup_iff).mpr (List.nodup_cons.mpr ⟨?_, filed.objects⟩)
    intro member
    obtain ⟨entry, before, same⟩ := List.mem_map.mp member
    exact Nat.ne_of_lt (filed.made entry before) same
  own other object value found := by
    dsimp only [add_socket] at found
    split_ifs at found with none
    · exact filed.own other object value found
    · by_cases here : other = process
      · rw [here, Function.update_self, OrdMap.get_insert] at found
        split_ifs at found with itself
        · exact (Option.some.inj found).symm.trans itself
        · exact filed.own process object value found
      · rw [Function.update_of_ne here] at found
        exact filed.own other object value found
  owned entry member other linked := by
    dsimp only [add_socket] at linked ⊢
    rcases List.mem_cons.mp ((insertMulti_perm _ _ _).mem_iff.mp member) with rfl | before
    · rw [Function.update_self] at linked
      dsimp only at linked
      split_ifs at linked with none
      cases linked
      rw [if_neg none, Function.update_self, OrdMap.get_insert, if_pos rfl]
    · rw [Function.update_of_ne (Nat.ne_of_lt (filed.made entry before))] at linked
      have there := filed.owned entry before other linked
      split_ifs with none
      · exact there
      · by_cases here : other = process
        · rw [here, Function.update_self, OrdMap.get_insert, if_neg (Nat.ne_of_gt (filed.made entry before)), ← here]
          exact there
        · rw [Function.update_of_ne here]
          exact there
  old refresh under := by
    obtain ⟨within, distinct⟩ := filed.old refresh under
    exact ⟨fun entry member => (insertMulti_perm _ _ _).mem_iff.mpr (List.mem_cons_of_mem _ (within entry member)), distinct⟩
  received := (counted_add api tuple process state now (fun _ zero _ => zero)).trans filed.received
  sent := (counted_add api tuple process state now (fun _ _ zero => zero)).trans filed.sent

omit filed in
theorem add_network_io (now : Nat) (event : NetworkEvent) (socket : CWinSocket) :
    ( AddNetworkIO now event socket).tuple = socket.tuple ∧ ( AddNetworkIO now event socket).process = socket.process := by
  rw [ AddNetworkIO]
  cases event.type <;> exact ⟨rfl, rfl⟩

omit filed in
theorem event_same (api : CWindowsAPI) (object now : Nat) (event : NetworkEvent) (other : Nat) :
    ((count_event api object now event).sockets other).tuple = (api.sockets other).tuple ∧
      ((count_event api object now event).sockets other).process = (api.sockets other).process := by
  dsimp only [count_event]
  by_cases here : other = object
  · subst here
    rw [Function.update_self]
    exact add_network_io now event _
  · rw [Function.update_of_ne here]
    exact ⟨rfl, rfl⟩

theorem Filed.event {object : Nat} (made : object < api.next) (now : Nat) (event : NetworkEvent) : Filed (count_event api object now event) where
  made := filed.made
  keys entry member := by
    rw [(event_same api object now event entry.2).1]
    exact filed.keys entry member
  objects := filed.objects
  own := filed.own
  owned entry member process linked := by
    rw [(event_same api object now event entry.2).2] at linked
    exact filed.owned entry member process linked
  old := filed.old
  received := by
    refine counted_event made now event .receive ?_ filed.received
    intro socket
    rw [ AddNetworkIO]
    cases event.type <;> simp
  sent := by
    refine counted_event made now event .send ?_ filed.sent
    intro socket
    rw [ AddNetworkIO]
    cases event.type <;> simp

theorem Filed.threads (threads : Nat → Option NetworkEvent) : Filed { api with threads := threads } :=
  ⟨filed.made, filed.keys, filed.objects, filed.own, filed.owned, filed.old, filed.received, filed.sent⟩

theorem Filed.refreshing (refresh : Option Refresh)
    (old : ∀ now, refresh = some now → (∀ entry ∈ now.old, entry ∈ api.socketList) ∧ now.old.Nodup) : Filed { api with refresh := refresh } :=
  ⟨filed.made, filed.keys, filed.objects, filed.own, filed.owned, old, filed.received, filed.sent⟩

end

theorem closed_same (closed : List (Nat × Nat)) (sockets : Nat → CWinSocket) (object : Nat) :
    SameSocket (closed.foldl (fun sockets entry => Function.update sockets entry.2 (SetClosed (sockets entry.2))) sockets object) (sockets object) := by
  induction closed generalizing sockets with
  | nil => exact SameSocket.refl _
  | cons entry rest ih =>
    refine (ih _).trans (same_update ?_ object)
    rw [SetClosed]
    split_ifs
    · exact SameSocket.refl _
    · exact ⟨rfl, rfl, rfl, rfl⟩

/-- What the purge of some entries leaves. -/
structure Purged (api : CWindowsAPI) (old : List (Nat × Nat)) (later : CWindowsAPI) : Prop where
  filed : Filed later
  refresh : later.refresh = none
  threads : later.threads = api.threads
  fewer : later.socketList.Sublist api.socketList
  tuples : ∀ object, (later.sockets object).tuple = (api.sockets object).tuple
  kept : ∀ entry ∈ api.socketList, entry ∉ old →
    entry ∈ later.socketList ∧ later.sockets entry.2 = api.sockets entry.2

theorem purge_one_purged {persistence now : Nat} {api : CWindowsAPI} (filed : Filed api) (none : api.refresh = none) {entry : Nat × Nat}
    (listed : entry ∈ api.socketList) : Purged api [entry] (purge_one persistence now api entry) := by
  rw [purge_one]
  split_ifs with old unmarked
  · have distinct {other : Nat × Nat} (member : other ∈ api.socketList) (differs : other ≠ entry) : other.2 ≠ entry.2 :=
      fun same => differs (objects_inj filed.objects member listed same)
    have remains {other : Nat × Nat} (member : other ∈ api.socketList.filter (fun other => decide (other ≠ entry))) :
        other ∈ api.socketList ∧ other ≠ entry := by
      rw [List.mem_filter, decide_eq_true_eq] at member
      exact member
    refine ⟨⟨?_, ?_, ?_, ?_, ?_, ?_, filed.received, filed.sent⟩, none, rfl, List.filter_sublist, fun object => rfl, ?_⟩
    · exact fun other member => filed.made other (remains member).1
    · exact fun other member => filed.keys other (remains member).1
    · exact filed.objects.sublist (List.filter_sublist.map _)
    · intro process object value found
      dsimp only at found
      cases linked : (api.sockets entry.2).process with
      | none =>
        rw [linked] at found
        exact filed.own process object value found
      | some holder =>
        rw [linked] at found
        dsimp only at found
        by_cases here : process = holder
        · rw [here, Function.update_self, OrdMap.get_erase] at found
          split_ifs at found
          exact filed.own holder object value found
        · rw [Function.update_of_ne here] at found
          exact filed.own process object value found
    · intro other member process linked
      obtain ⟨among, differs⟩ := remains member
      have there := filed.owned other among process linked
      dsimp only
      cases holds : (api.sockets entry.2).process with
      | none => exact there
      | some holder =>
        dsimp only
        by_cases here : process = holder
        · rw [here, Function.update_self, OrdMap.get_erase, if_neg (distinct among differs).symm, ← here]
          exact there
        · rw [Function.update_of_ne here]
          exact there
    · intro refresh under
      cases none.symm.trans under
    · intro other member apart
      refine ⟨List.mem_filter.mpr ⟨member, decide_eq_true ?_⟩, rfl⟩
      exact fun same => apart (by rw [same]; exact List.mem_singleton_self _)
  · have same (object : Nat) : SameSocket (Function.update api.sockets entry.2 { api.sockets entry.2 with removeTimeStamp := now } object)
        (api.sockets object) := by
      apply same_update
      exact ⟨rfl, rfl, rfl, rfl⟩
    refine ⟨filed.change same rfl rfl rfl rfl ?_, none, rfl, List.Sublist.refl _, fun object => (same object).tuple, ?_⟩
    · intro refresh under
      cases none.symm.trans under
    · intro other member apart
      refine ⟨member, Function.update_of_ne ?_ _ _⟩
      intro clash
      exact apart (by rw [objects_inj filed.objects member listed clash]; exact List.mem_singleton_self _)
  · exact ⟨filed, none, rfl, List.Sublist.refl _, fun object => rfl, fun other member _ => ⟨member, rfl⟩⟩

theorem purge_all_purged {persistence now : Nat} {api : CWindowsAPI} (filed : Filed api) (none : api.refresh = none) {old : List (Nat × Nat)}
    (distinct : old.Nodup) (within : ∀ entry ∈ old, entry ∈ api.socketList) : Purged api old (old.foldl (purge_one persistence now) api) := by
  induction old generalizing api with
  | nil => exact ⟨filed, none, rfl, List.Sublist.refl _, fun object => rfl, fun other member _ => ⟨member, rfl⟩⟩
  | cons entry rest ih =>
    obtain ⟨apart, distinct⟩ := List.nodup_cons.mp distinct
    have first := @purge_one_purged persistence now api filed none entry (within entry (List.mem_cons_self))
    have rested := ih first.filed first.refresh distinct (fun other member => by
      refine (first.kept other (within other (List.mem_cons_of_mem _ member)) ?_).1
      intro here
      rw [List.mem_singleton.mp here] at member
      exact apart member)
    refine ⟨rested.filed, rested.refresh, rested.threads.trans first.threads, rested.fewer.trans first.fewer,
      fun object => (rested.tuples object).trans (first.tuples object), ?_⟩
    intro other member notOld
    rw [List.mem_cons, not_or] at notOld
    obtain ⟨stays, same⟩ := first.kept other member (fun here => notOld.1 (List.mem_singleton.mp here))
    obtain ⟨staysToo, sameToo⟩ := rested.kept other stays notOld.2
    exact ⟨staysToo, sameToo.trans same⟩

section
variable {api : CWindowsAPI} (filed : Filed api)
include filed

theorem Filed.purged {refresh : Refresh} (under : api.refresh = some refresh) (persistence now : Nat) :
    Purged api refresh.old (purge api refresh persistence now) := by
  obtain ⟨within, distinct⟩ := filed.old refresh under
  have still : Filed { api with refresh := none } := filed.refreshing none (fun now impossible => by cases impossible)
  have purged := @purge_all_purged persistence now _ still rfl refresh.old distinct within
  exact ⟨purged.filed, purged.refresh, purged.threads, purged.fewer, purged.tuples, purged.kept⟩

theorem Filed.sweep {refresh : Refresh} (under : api.refresh = some refresh) (udpPersistence now : Nat) :
    Filed (sweep api refresh udpPersistence now) := by
  obtain ⟨within, distinct⟩ := filed.old refresh under
  refine filed.change (closed_same _ api.sockets) rfl rfl rfl rfl ?_
  intro other isOther
  cases isOther
  exact ⟨fun entry member => within entry (List.mem_of_mem_filter member), distinct.filter _⟩

theorem Filed.find_old {refresh : Refresh} (under : api.refresh = some refresh) :
    ∀ entry ∈ refresh.old, entry.1 = (api.sockets entry.2).tuple.hash :=
  fun entry member => filed.keys entry ((filed.old refresh under).1 entry member)

theorem Filed.take_row {refresh : Refresh} (under : api.refresh = some refresh) (row : SSocket) (left : List SSocket) (process now : Nat) :
    Filed (take_row api refresh row left process now) := by
  obtain ⟨within, distinct⟩ := filed.old refresh under
  rw [NetworkSockets.take_row]
  cases found : FindSocketEntry api.sockets refresh.old row.tuple .eStrict with
  | some entry =>
    refine filed.change (same_update ⟨rfl, rfl, rfl, rfl⟩) rfl rfl rfl rfl ?_
    intro other isOther
    cases isOther
    exact ⟨fun another member => within another (List.mem_of_mem_erase member), distinct.erase entry⟩
  | none =>
    have added := filed.add row.tuple process row.state now
    refine added.refreshing _ ?_
    intro other isOther
    cases isOther
    exact added.old refresh under

theorem Filed.look (thread : Nat) (event : NetworkEvent) (now : Nat) : Filed (look api thread event now) := by
  rw [NetworkSockets.look]
  cases found : FindSocketEntry api.sockets api.socketList event.tuple event.mode with
  | some entry => exact filed.event (filed.made entry (List.mem_of_find?_eq_some found)) now event
  | none => exact filed.threads _

theorem Filed.add_missing (thread process : Nat) (event : NetworkEvent) (now : Nat) : Filed (add_missing api thread process event now) :=
  ((filed.add event.tuple process _ now).event (Nat.lt_succ_self _) now event).threads _

theorem Filed.step {later : CWindowsAPI} {part : Section} (moves : Moves api part later) : Filed later := by
  cases moves with
  | look free => exact filed.look _ _ _
  | add pending => exact filed.add_missing _ _ _ _
  | copy idle =>
    refine filed.refreshing _ ?_
    intro refresh isRefresh
    cases isRefresh
    exact ⟨fun entry member => member, List.Nodup.of_map _ filed.objects⟩
  | row under rows => exact filed.take_row under _ _ _ _
  | sweep under all => exact filed.sweep under _ _
  | purge under swept => exact (filed.purged under _ _).filed

end

/-! ## What runs without overtaken look-ups keep -/

/-- The rows to come have only the sockets of the copy, and the others one outside it. -/
structure Copied (api : CWindowsAPI) (refresh : Refresh) : Prop where
  distinct : (refresh.left.map SSocket.tuple).Nodup
  taken : ∀ row ∈ refresh.table, row ∈ refresh.left ∨ ∃ entry ∈ api.socketList, entry ∉ refresh.old ∧ tuple_of api entry = row.tuple
  waiting : ∀ row ∈ refresh.left, ∀ entry ∈ api.socketList, tuple_of api entry = row.tuple → entry ∈ refresh.old
  swept : refresh.swept = true → refresh.left = []

structure Sound (api : CWindowsAPI) : Prop where
  filed : Filed api
  distinct : (api.socketList.map (tuple_of api)).Nodup
  missing : ∀ thread event, api.threads thread = some event → ∀ entry ∈ api.socketList, tuple_of api entry ≠ event.tuple
  copied : ∀ refresh, api.refresh = some refresh → Copied api refresh

theorem sound_started : Sound started where
  filed := filed_started
  distinct := List.nodup_nil
  missing thread event impossible := by cases impossible
  copied refresh impossible := by cases impossible

section
variable {api : CWindowsAPI}

theorem Copied.change {later : CWindowsAPI} {refresh : Refresh} (copied : Copied api refresh) (list : later.socketList = api.socketList)
    (tuples : ∀ object, (later.sockets object).tuple = (api.sockets object).tuple) : Copied later refresh where
  distinct := copied.distinct
  taken row member := by
    rcases copied.taken row member with waits | ⟨entry, listed, apart, same⟩
    · exact .inl waits
    · exact .inr ⟨entry, by rw [list]; exact listed, apart, (tuples entry.2).trans same⟩
  waiting row member entry listed same := by
    rw [list] at listed
    exact copied.waiting row member entry listed ((tuples entry.2).symm.trans same)
  swept := copied.swept

theorem Sound.change (sound : Sound api) {later : CWindowsAPI} (filed : Filed later) (list : later.socketList = api.socketList)
    (tuples : ∀ object, (later.sockets object).tuple = (api.sockets object).tuple)
    (missing : ∀ thread event, later.threads thread = some event → ∀ entry ∈ api.socketList, tuple_of api entry ≠ event.tuple)
    (copied : ∀ refresh, later.refresh = some refresh → Copied api refresh) : Sound later where
  filed := filed
  distinct := by
    have same : tuple_of later = tuple_of api := funext (fun entry => tuples entry.2)
    rw [list, same]
    exact sound.distinct
  missing thread event pending entry listed := by
    rw [list] at listed
    rw [tuple_of, tuples]
    exact missing thread event pending entry listed
  copied refresh under := (copied refresh under).change list tuples

theorem added_listed {tuple : Tuple} {process state now : Nat} {entry : Nat × Nat} :
    entry ∈ (add_socket api tuple process state now).socketList ↔ entry = (tuple.hash, api.next) ∨ entry ∈ api.socketList := by
  dsimp only [add_socket]
  rw [(insertMulti_perm _ _ _).mem_iff, List.mem_cons]

theorem added_tuple (filed : Filed api) (tuple : Tuple) (process state now : Nat) {entry : Nat × Nat} (listed : entry ∈ api.socketList) :
    tuple_of (add_socket api tuple process state now) entry = tuple_of api entry := by
  dsimp only [tuple_of, add_socket]
  rw [Function.update_of_ne (Nat.ne_of_lt (filed.made entry listed))]

theorem added_new (tuple : Tuple) (process state now : Nat) :
    tuple_of (add_socket api tuple process state now) (tuple.hash, api.next) = tuple := by
  dsimp only [tuple_of, add_socket]
  rw [Function.update_self]

section
variable (filed : Filed api) (tuple : Tuple) (process state now : Nat)
include filed

theorem stays_taken {row : SSocket} {old : List (Nat × Nat)} (taken : ∃ entry ∈ api.socketList, entry ∉ old ∧ tuple_of api entry = row.tuple) :
    ∃ entry ∈ (add_socket api tuple process state now).socketList, entry ∉ old ∧
      tuple_of (add_socket api tuple process state now) entry = row.tuple := by
  obtain ⟨entry, listed, apart, same⟩ := taken
  exact ⟨entry, added_listed.mpr (.inr listed), apart, (added_tuple filed tuple process state now listed).trans same⟩

theorem Copied.add_other {refresh : Refresh} (copied : Copied api refresh) (unawaited : tuple ∉ refresh.left.map SSocket.tuple) :
    Copied (add_socket api tuple process state now) refresh where
  distinct := copied.distinct
  taken row member := (copied.taken row member).imp_right (stays_taken filed tuple process state now)
  waiting row member entry listed same := by
    rcases added_listed.mp listed with rfl | there
    · have isTuple := (added_new tuple process state now).symm.trans same
      exact absurd (List.mem_map.mpr ⟨row, member, isTuple.symm⟩) unawaited
    · exact copied.waiting row member entry there ((added_tuple filed tuple process state now there).symm.trans same)
  swept := copied.swept

theorem Copied.add_row {refresh : Refresh} (under : api.refresh = some refresh) (copied : Copied api refresh) {row : SSocket} {left : List SSocket}
    (rows : refresh.left = row :: left) :
    Copied (add_socket api row.tuple process state now) { refresh with left := left } := by
  have distinct := copied.distinct
  rw [rows, List.map_cons, List.nodup_cons] at distinct
  refine ⟨distinct.2, ?_, ?_, ?_⟩
  · intro other member
    rcases copied.taken other member with waits | taken
    · rw [rows] at waits
      rcases List.mem_cons.mp waits with rfl | behind
      · refine .inr ⟨(other.tuple.hash, api.next), added_listed.mpr (.inl rfl), ?_, added_new other.tuple process state now⟩
        intro clash
        exact Nat.lt_irrefl _ (filed.made _ ((filed.old refresh under).1 _ clash))
      · exact .inl behind
    · exact .inr (stays_taken filed row.tuple process state now taken)
  · intro other member entry listed same
    rcases added_listed.mp listed with rfl | there
    · have isTuple := (added_new row.tuple process state now).symm.trans same
      exact absurd (List.mem_map.mpr ⟨other, member, isTuple.symm⟩) distinct.1
    · refine copied.waiting other (by rw [rows]; exact List.mem_cons_of_mem _ member) entry there ?_
      exact (added_tuple filed row.tuple process state now there).symm.trans same
  · intro swept
    have none := copied.swept swept
    rw [rows] at none
    cases none

end

theorem Sound.add (sound : Sound api) (tuple : Tuple) (process state now : Nat) (absent : ∀ entry ∈ api.socketList, tuple_of api entry ≠ tuple)
    {later : CWindowsAPI} (filed : Filed later) (list : later.socketList = (add_socket api tuple process state now).socketList)
    (tuples : ∀ object, (later.sockets object).tuple = ((add_socket api tuple process state now).sockets object).tuple)
    (pending : ∀ thread event, later.threads thread = some event → api.threads thread = some event ∧ event.tuple ≠ tuple)
    (copied : ∀ refresh, later.refresh = some refresh → Copied (add_socket api tuple process state now) refresh) : Sound later where
  filed := filed
  distinct := by
    have same : tuple_of later = tuple_of (add_socket api tuple process state now) := funext (fun entry => tuples entry.2)
    rw [list, same]
    refine (((insertMulti_perm _ _ _).map _).nodup_iff).mpr (List.nodup_cons.mpr ⟨?_, ?_⟩)
    · rw [added_new]
      intro member
      obtain ⟨entry, listed, same⟩ := List.mem_map.mp member
      rw [added_tuple sound.filed tuple process state now listed] at same
      exact absent entry listed same
    · rw [List.map_congr_left (fun entry listed => added_tuple sound.filed tuple process state now listed)]
      exact sound.distinct
  missing thread event isPending entry listed := by
    rw [list] at listed
    rw [tuple_of, tuples]
    change tuple_of (add_socket api tuple process state now) entry ≠ event.tuple
    obtain ⟨before, differs⟩ := pending thread event isPending
    rcases added_listed.mp listed with rfl | there
    · rw [added_new]
      exact differs.symm
    · rw [added_tuple sound.filed tuple process state now there]
      exact sound.missing thread event before entry there
  copied refresh under := (copied refresh under).change list tuples

section
variable (sound : Sound api)
include sound

theorem Sound.look {thread : Nat} (event : NetworkEvent) (now : Nat) : Sound (look api thread event now) := by
  have filed := sound.filed.look thread event now
  rw [NetworkSockets.look] at filed ⊢
  cases found : FindSocketEntry api.sockets api.socketList event.tuple event.mode with
  | some entry =>
    rw [found] at filed
    exact sound.change filed rfl (fun object => (event_same api entry.2 now event object).1) sound.missing sound.copied
  | none =>
    rw [found] at filed
    refine sound.change filed rfl (fun object => rfl) ?_ sound.copied
    intro other missed pending
    dsimp only at pending
    by_cases here : other = thread
    · rw [here, Function.update_self, Option.some.injEq] at pending
      subst pending
      exact find_none sound.filed.keys found
    · rw [Function.update_of_ne here] at pending
      exact sound.missing other missed pending

theorem Sound.add_missing {thread process now : Nat} {event : NetworkEvent} (pending : api.threads thread = some event)
    (alone : Alone api (.add thread process now)) : Sound (add_missing api thread process event now) := by
  obtain ⟨rivals, unawaited⟩ := alone event pending
  refine sound.add event.tuple process (if event.type = .firewallBlocked then 2 ^ 32 - 1 else 0) now (sound.missing thread event pending)
    (sound.filed.add_missing thread process event now) rfl (fun object => (event_same _ api.next now event object).1) ?_ ?_
  · intro other rival isPending
    dsimp only [NetworkSockets.add_missing] at isPending
    by_cases here : other = thread
    · rw [here, Function.update_self] at isPending
      cases isPending
    · rw [Function.update_of_ne here] at isPending
      exact ⟨isPending, rivals other rival here isPending⟩
  · intro refresh under
    exact (sound.copied refresh under).add_other sound.filed event.tuple process _ now (unawaited refresh under)

theorem Sound.take_row {refresh : Refresh} (under : api.refresh = some refresh) {row : SSocket} {left : List SSocket}
    (rows : refresh.left = row :: left) {process now : Nat} (alone : Alone api (.row process now)) :
    Sound (take_row api refresh row left process now) := by
  have filed := sound.filed.take_row under row left process now
  have copied := sound.copied refresh under
  have distinct := copied.distinct
  rw [rows, List.map_cons, List.nodup_cons] at distinct
  rw [NetworkSockets.take_row] at filed ⊢
  cases found : FindSocketEntry api.sockets refresh.old row.tuple .eStrict with
  | some entry =>
    rw [found] at filed
    obtain ⟨member, isTuple⟩ := find_strict (sound.filed.find_old under) found
    refine sound.change filed rfl ?_ sound.missing ?_
    · intro object
      have same : SameSocket { api.sockets entry.2 with state := row.state } (api.sockets entry.2) := ⟨rfl, rfl, rfl, rfl⟩
      exact (same_update same object).tuple
    · intro later isLater
      cases isLater
      refine ⟨distinct.2, ?_, ?_, ?_⟩
      · intro other among
        rcases copied.taken other among with waits | ⟨another, listed, apart, same⟩
        · rw [rows] at waits
          rcases List.mem_cons.mp waits with rfl | behind
          · exact .inr ⟨entry, (sound.filed.old refresh under).1 entry member, (sound.filed.old refresh under).2.not_mem_erase, isTuple⟩
          · exact .inl behind
        · exact .inr ⟨another, listed, fun still => apart (List.mem_of_mem_erase still), same⟩
      · intro other among another listed same
        have waits := copied.waiting other (by rw [rows]; exact List.mem_cons_of_mem _ among) another listed same
        refine (List.mem_erase_of_ne ?_).mpr waits
        rintro rfl
        exact distinct.1 (List.mem_map.mpr ⟨other, among, same.symm.trans isTuple⟩)
      · intro swept
        have none := copied.swept swept
        rw [rows] at none
        cases none
  | none =>
    rw [found] at filed
    refine sound.add row.tuple process row.state now ?_ filed rfl (fun object => rfl) ?_ ?_
    · intro entry listed same
      have waits := copied.waiting row (by rw [rows]; exact List.mem_cons_self) entry listed same
      exact find_none (sound.filed.find_old under) found entry waits same
    · intro thread event pending
      exact ⟨pending, alone refresh row left under rows thread event pending⟩
    · intro later isLater
      cases isLater
      exact copied.add_row sound.filed process row.state now under rows

theorem Sound.sweep {refresh : Refresh} (under : api.refresh = some refresh) (all : refresh.left = []) (udpPersistence now : Nat) :
    Sound (sweep api refresh udpPersistence now) := by
  refine sound.change (sound.filed.sweep under udpPersistence now) rfl (fun object => (closed_same _ api.sockets object).tuple) sound.missing ?_
  intro later isLater
  cases isLater
  have copied := sound.copied refresh under
  refine ⟨copied.distinct, ?_, ?_, fun _ => all⟩
  · intro row member
    rcases copied.taken row member with waits | ⟨entry, listed, apart, same⟩
    · exact .inl waits
    · exact .inr ⟨entry, listed, fun still => apart (List.mem_of_mem_filter still), same⟩
  · intro row member
    dsimp only at member
    rw [all] at member
    cases member

theorem Sound.purge {refresh : Refresh} (under : api.refresh = some refresh) (persistence now : Nat) :
    Sound (purge api refresh persistence now) := by
  have purged := sound.filed.purged under persistence now
  have same : tuple_of (NetworkSockets.purge api refresh persistence now) = tuple_of api := funext (fun entry => purged.tuples entry.2)
  refine ⟨purged.filed, ?_, ?_, ?_⟩
  · rw [same]
    exact sound.distinct.sublist (purged.fewer.map _)
  · intro thread event pending entry listed
    rw [purged.threads] at pending
    rw [same]
    exact sound.missing thread event pending entry (purged.fewer.subset listed)
  · intro later isLater
    cases purged.refresh.symm.trans isLater

theorem Sound.step {later : CWindowsAPI} {part : Section} (alone : Alone api part) (moves : Moves api part later) : Sound later := by
  cases moves with
  | look free => exact sound.look _ _
  | add pending => exact sound.add_missing pending alone
  | @copy table idle =>
    refine sound.change (sound.filed.step (.copy idle)) rfl (fun object => rfl) sound.missing ?_
    intro refresh isRefresh
    cases isRefresh
    exact ⟨table.distinct, fun row member => .inl member, fun row member entry listed same => listed, fun impossible => by cases impossible⟩
  | row under rows => exact sound.take_row under rows alone
  | sweep under all => exact sound.sweep under all _ _
  | purge under swept => exact sound.purge under _ _

theorem Sound.attributed : Attributed api where
  listed := sound.distinct.sublist (List.filter_sublist.map _)
  owned entry listed process linked := by
    have there := sound.filed.owned entry listed process linked
    have own : (api.own process).entries.map Prod.snd = (api.own process).entries.map Prod.fst := by
      refine List.map_congr_left (fun pair member => ?_)
      exact sound.filed.own process pair.1 pair.2 (OrdMap.mem_entries.mp member)
    rw [own]
    exact List.count_eq_one_of_mem (OrdMap.keys_nodup _) (List.mem_map.mpr ⟨(entry.2, entry.2), OrdMap.mem_entries.mpr there, rfl⟩)
  received := sound.filed.received
  sent := sound.filed.sent

theorem Sound.spared {refresh : Refresh} (under : api.refresh = some refresh) (swept : refresh.swept = true) {persistence now : Nat}
    (alone : Alone api (.purge persistence now)) : Spared refresh api (NetworkSockets.purge api refresh persistence now) := by
  intro entry listed inTable
  have copied := sound.copied refresh under
  have apart : entry ∉ refresh.old := by
    obtain ⟨row, member, same⟩ := List.mem_map.mp inTable
    rcases copied.taken row member with waits | ⟨other, listedToo, apart, sameToo⟩
    · rw [copied.swept swept] at waits
      cases waits
    · rw [List.inj_on_of_nodup_map sound.distinct listed listedToo (same.symm.trans sameToo.symm)]
      exact apart
  obtain ⟨stays, socket⟩ := (sound.filed.purged under persistence now).kept entry listed apart
  exact ⟨stays, by rw [socket]; exact alone refresh under entry listed apart inTable⟩

end

end

namespace Demo

def web : Tuple := ⟨4, 0x11, [10, 0, 0, 1], 50000, [10, 0, 0, 2], 443⟩

def table : Table := ⟨[⟨web, 5⟩], by decide⟩

def copied : CWindowsAPI := { started with refresh := some ⟨table.rows, table.rows, [], false⟩ }

def listed : CWindowsAPI := take_row copied ⟨table.rows, table.rows, [], false⟩ ⟨web, 5⟩ [] 7 1000

def swept : CWindowsAPI := sweep listed ⟨table.rows, [], [], false⟩ 3000 1000

end Demo

namespace Demo

def event : NetworkEvent := ⟨.send, web, 100, false⟩

def missed : CWindowsAPI := look (look started 1 event 1000) 2 event 1000

def twice : CWindowsAPI := add_missing (add_missing missed 1 7 event 1000) 2 7 event 1000

end Demo

theorem always_filed {api : CWindowsAPI} (run : Run step Always started api) : Filed api := by
  refine run.invariant Filed filed_started ?_
  intro state part later filed _ moved
  exact filed.step (step_moves moved)

theorem always_filed_twice : Filed Demo.twice :=
  have ran : runs step started [.look 1 Demo.event 1000, .look 2 Demo.event 1000, .add 1 7 1000, .add 2 7 1000] = some Demo.twice := rfl
  always_filed (.of_runs .start (meets_always _ _) ran)

end TaskExplorer.NetworkSockets
