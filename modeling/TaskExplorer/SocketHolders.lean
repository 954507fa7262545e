import TaskExplorer.SocketList
import TaskExplorer.Transition

/-!
# Sockets and who holds them

A refresh of the socket list takes the connections of the kernel and looks for their owners in the descriptor tables of all
processes. Every owner has an entry of its own, which is found again by its tuple, and is in the list of its process.
Rates are left out.
-/

namespace TaskExplorer.SocketHolders
open SocketList Lingering Transition

structure SNetConnection where
  ProtocolType : Nat
  LocalAddress : List Nat
  LocalPort : Nat
  RemoteAddress : List Nat
  RemotePort : Nat
  State : Nat
  Inode : Nat
  Uid : Nat
  LocalName : String
  RemoteName : String
  PeerInode : Nat
  BytesSent : Nat
  BytesReceived : Nat
  SegmentsSent : Nat
  SegmentsReceived : Nat
  bHaveCounters : Bool
deriving DecidableEq, Repr

/-! ## Descriptors -/

/-- `QString::toULongLong`, of digits. -/
def toULongLong (text : List Char) : Nat :=
  if text ≠ [] ∧ text.all Char.isDigit then
    let value := text.foldl (fun value digit => 10 * value + (digit.toNat - '0'.toNat)) 0
    if value < 2 ^ 64 then value else 0
  else 0

def socketPrefix : List Char := "socket:[".toList

/-- The inode that the target of a descriptor names; 0 for none. -/
def socket_inode (target : List Char) : Nat :=
  if socketPrefix.isPrefixOf target then
    let close := target.length - 1 - target.reverse.idxOf ']'
    if ']' ∉ target ∨ close < 8 then 0 else toULongLong ((target.drop 8).take (close - 8))
  else 0

/-- The processes with the targets of their descriptors. -/
abbrev Descriptors := List (Nat × List (List Char))

/-- A multimap, the newest pair first. -/
def BuildSocketInodeMap (descriptors : Descriptors) : List (Nat × Nat) :=
  ((descriptors.flatMap (fun process => process.2.map (fun target => (socket_inode target, process.1)))).filter (fun pair => pair.1 ≠ 0)).reverse

def values (map : List (Nat × Nat)) (inode : Nat) : List Nat := (map.filter (fun pair => pair.1 = inode)).map Prod.snd

/-- A connection as one owner holds it, with the process at its other end. -/
structure Sample where
  ProcessId : Nat
  Conn : SNetConnection
  PeerPid : Nat
deriving DecidableEq, Repr

def peer_pid (map : List (Nat × Nat)) (connection : SNetConnection) : Nat :=
  if connection.PeerInode = 0 then 0 else (values map connection.PeerInode).headD 0

def owners (map : List (Nat × Nat)) (connection : SNetConnection) : List Nat :=
  if values map connection.Inode = [] then [0] else values map connection.Inode

def samples (map : List (Nat × Nat)) (connections : List SNetConnection) : List Sample :=
  connections.flatMap (fun connection => (owners map connection).map (fun process => ⟨process, connection, peer_pid map connection⟩))

def connection_of (sample : Sample) : Connection :=
  ⟨sample.ProcessId, sample.Conn.ProtocolType, sample.Conn.LocalAddress, sample.Conn.LocalPort, sample.Conn.RemoteAddress, sample.Conn.RemotePort,
    sample.Conn.Inode, sample.Conn.State⟩

/-! ## Entries -/

/-- A `CLinuxSocket`; `process` is the object it is linked to. -/
structure Entry where
  socket : Socket
  Uid : Nat
  LocalName : String
  RemoteName : String
  RemoteProcessId : Nat
  Received : Nat × Nat
  Sent : Nat × Nat
  process : Option Nat
deriving DecidableEq, Repr

def Entry.object (entry : Entry) : Nat := entry.socket.object

def InitStaticData (object : Nat) (sample : Sample) (process : Option Nat) : Entry :=
  ⟨⟨object, connection_of sample, 0, 0⟩, sample.Conn.Uid, sample.Conn.LocalName, sample.Conn.RemoteName, sample.PeerPid, (0, 0), (0, 0), process⟩

def UpdateDynamicData (sample : Sample) (entry : Entry) : Entry :=
  { entry with
    socket := { entry.socket with state := sample.Conn.State }
    RemoteName := sample.Conn.RemoteName
    RemoteProcessId := sample.PeerPid
    Received := bif sample.Conn.bHaveCounters then (sample.Conn.BytesReceived, sample.Conn.SegmentsReceived) else entry.Received
    Sent := bif sample.Conn.bHaveCounters then (sample.Conn.BytesSent, sample.Conn.SegmentsSent) else entry.Sent }

/-- `QMultiMap::insert`. -/
def insert_entry (entry : Entry) (list : List Entry) : List Entry :=
  list.takeWhile (fun other => decide (hash_id other.socket.connection < hash_id entry.socket.connection)) ++
    entry :: list.dropWhile (fun other => decide (hash_id other.socket.connection < hash_id entry.socket.connection))

/-- The list, the objects made, what of the list was not found yet, and the pairs of a process and a socket in its list. -/
structure Refresh where
  list : List Entry
  next : Nat
  old : List Entry
  own : List (Nat × Nat)

/-- `processOf` is `GetProcessByID`. -/
def take_entry (processOf : Nat → Option Nat) (refresh : Refresh) (sample : Sample) : Refresh :=
  match refresh.old.find? (fun entry => is_entry (connection_of sample) entry.socket.connection) with
  | some found =>
    { refresh with
      list := refresh.list.map (fun entry => if entry.object = found.object then UpdateDynamicData sample entry else entry)
      old := refresh.old.eraseP (fun entry => is_entry (connection_of sample) entry.socket.connection) }
  | none =>
    let process := if sample.ProcessId = 0 then none else processOf sample.ProcessId
    { refresh with
      list := insert_entry (UpdateDynamicData sample (InitStaticData refresh.next sample process)) refresh.list
      next := refresh.next + 1
      own := process.toList.map (fun process => (process, refresh.next)) ++ refresh.own }

structure Sockets where
  list : List Entry
  next : Nat
  own : List (Nat × Nat)

def close_entry (now : Nat) (entry : Entry) : Entry := { entry with socket := closing now entry.socket }

def purge_entry (persistence now : Nat) (sockets : Sockets) (left : Entry) : Sockets :=
  if can_be_removed persistence now left.socket.stamp then
    { sockets with
      list := sockets.list.filter (fun entry => entry.object ≠ left.object)
      own := sockets.own.filter (fun pair => some pair.1 ≠ left.process ∨ pair.2 ≠ left.object) }
  else { sockets with list := sockets.list.map (fun entry => if entry.object = left.object then close_entry now entry else entry) }

/-- What a refresh meets. -/
structure Reading where
  persistence : Nat
  now : Nat
  connections : List SNetConnection
  descriptors : Descriptors
  processOf : Nat → Option Nat

def Reading.samples (reading : Reading) : List Sample := SocketHolders.samples (BuildSocketInodeMap reading.descriptors) reading.connections

def UpdateSocketList (reading : Reading) (sockets : Sockets) : Sockets :=
  let taken := reading.samples.foldl (take_entry reading.processOf) ⟨sockets.list, sockets.next, sockets.list, sockets.own⟩
  taken.old.foldl (purge_entry reading.persistence reading.now) ⟨taken.list, taken.next, taken.own⟩

def initial : Sockets := ⟨[], 0, []⟩

def step (sockets : Sockets) (reading : Reading) : Option Sockets := some (UpdateSocketList reading sockets)

/-! ## The property -/

/-- The processes that hold a socket, each once; 0 for nobody. -/
def holders (map : List (Nat × Nat)) (connection : SNetConnection) : List Nat := (owners map connection).dedup

/-- Every socket with each of its holders. -/
def held (reading : Reading) : List Sample :=
  let map := BuildSocketInodeMap reading.descriptors
  reading.connections.flatMap (fun connection => (holders map connection).map (fun process => ⟨process, connection, peer_pid map connection⟩))

/-- The entry is for the process and the tuple, and has the state and the counters of the connection. -/
structure Shows (entry : Entry) (sample : Sample) : Prop where
  identity : entry.socket.connection.identity = (connection_of sample).identity
  state : entry.socket.state = sample.Conn.State
  remoteName : entry.RemoteName = sample.Conn.RemoteName
  remoteProcess : entry.RemoteProcessId = sample.PeerPid
  counters : sample.Conn.bHaveCounters = true →
    entry.Received = (sample.Conn.BytesReceived, sample.Conn.SegmentsReceived) ∧ entry.Sent = (sample.Conn.BytesSent, sample.Conn.SegmentsSent)

/-- One to one: each entry that is not marked shows one pair, and each pair is shown by one entry. -/
def OneToOne (entries : List Entry) (pairs : List Sample) : Prop :=
  ∃ matched : List (Entry × Sample), (matched.map Prod.fst).Perm (entries.filter (fun entry => entry.socket.stamp = 0)) ∧
    (matched.map Prod.snd).Perm pairs ∧ ∀ pair ∈ matched, Shows pair.1 pair.2

/-- An entry that is linked to a process is in its list, once. -/
def Owned (list : List Entry) (own : List (Nat × Nat)) : Prop :=
  ∀ entry ∈ list, ∀ process, entry.process = some process → own.count (process, entry.object) = 1

/-- No process holds a socket of the table by two descriptors, no entry that is found again is marked, and nothing is marked at tick 0. -/
structure Plain (sockets : Sockets) (reading : Reading) : Prop where
  single : ∀ connection ∈ reading.connections, (values (BuildSocketInodeMap reading.descriptors) connection.Inode).Nodup
  unmarked : ∀ entry ∈ sockets.list, entry.socket.stamp ≠ 0 →
    ¬ Found (reading.samples.map connection_of) ⟨sockets.list.map Entry.socket, sockets.next⟩ entry.socket
  tick : ∀ entry ∈ sockets.list, entry.socket.stamp = 0 → reading.now ≠ 0

/-! ## Taking -/

/-- Which object each sample has gone to: all of them show their samples, and what was not taken is unchanged. -/
structure Assigned (first : Sockets) (taken : List Sample) (refresh : Refresh) (assigned : List (Nat × Sample)) : Prop where
  objects : (refresh.list.map Entry.object).Nodup
  made : ∀ entry ∈ refresh.list, entry.object < refresh.next
  samples : assigned.map Prod.snd = taken
  once : (assigned.map Prod.fst).Nodup
  apart : ∀ entry ∈ refresh.old, entry.object ∉ assigned.map Prod.fst
  all : ∀ entry ∈ refresh.list, entry.object ∈ assigned.map Prod.fst ∨ entry ∈ refresh.old
  shown : ∀ pair ∈ assigned, ∃ entry ∈ refresh.list, entry.object = pair.1 ∧ Shows entry pair.2 ∧ entry.socket.stamp = 0
  old : refresh.old.Sublist first.list
  inside : ∀ entry ∈ refresh.old, entry ∈ refresh.list
  rest : ∀ identity, (refresh.old.map Entry.socket).filter (Socket.is identity) =
    ((first.list.map Entry.socket).filter (Socket.is identity)).drop ((identities (taken.map connection_of)).count identity)
  owned : Owned refresh.list refresh.own
  ownMade : ∀ pair ∈ refresh.own, pair.2 < refresh.next

/-- What holds between two refreshes. -/
structure Formed (sockets : Sockets) : Prop where
  objects : (sockets.list.map Entry.object).Nodup
  made : ∀ entry ∈ sockets.list, entry.object < sockets.next
  owned : Owned sockets.list sockets.own
  ownMade : ∀ pair ∈ sockets.own, pair.2 < sockets.next

theorem initial_formed : Formed initial := by
  constructor <;> simp [initial, Owned]

variable {sockets : Sockets}

theorem assigned_start (formed : Formed sockets) :
    Assigned sockets [] ⟨sockets.list, sockets.next, sockets.list, sockets.own⟩ [] where
  objects := formed.objects
  made := formed.made
  samples := rfl
  once := List.nodup_nil
  apart := by simp
  all entry member := .inr member
  shown := by simp
  old := List.Sublist.refl _
  inside entry member := member
  rest identity := by simp [identities]
  owned := formed.owned
  ownMade := formed.ownMade

theorem update_shows {sample : Sample} {entry : Entry} (same : entry.socket.connection.identity = (connection_of sample).identity) :
    Shows (UpdateDynamicData sample entry) sample := by
  refine ⟨same, rfl, rfl, rfl, fun counters => ?_⟩
  simp [UpdateDynamicData, counters]

theorem is_entry_eq (sample : Sample) :
    (fun entry : Entry => is_entry (connection_of sample) entry.socket.connection) = (fun entry => Socket.is (connection_of sample).identity entry.socket) := by
  funext entry
  exact congrFun (SocketList.is_entry_eq (connection_of sample)) entry.socket

section
variable {first : Sockets} {taken : List Sample} {refresh : Refresh} {assigned : List (Nat × Sample)} {sample : Sample}

theorem Assigned.rest_step (state : Assigned first taken refresh assigned) (sample : Sample) (identity : Identity) :
    ((refresh.old.eraseP (fun entry => Socket.is (connection_of sample).identity entry.socket)).map Entry.socket).filter (Socket.is identity) =
      ((first.list.map Entry.socket).filter (Socket.is identity)).drop ((identities ((taken ++ [sample]).map connection_of)).count identity) := by
  have erased : (refresh.old.eraseP (fun entry => Socket.is (connection_of sample).identity entry.socket)).map Entry.socket =
      (refresh.old.map Entry.socket).eraseP (Socket.is (connection_of sample).identity) := by
    rw [List.eraseP_map]
    rfl
  rw [erased, filter_erase, state.rest, List.drop_drop, List.map_append, List.map_singleton, count_identities]

theorem Assigned.found (state : Assigned first taken refresh assigned) {rest : List Sample} {found : Entry}
    (isFound : refresh.old.find? (fun entry => Socket.is (connection_of sample).identity entry.socket) = some found) :
    Found ((taken ++ sample :: rest).map connection_of) ⟨first.list.map Entry.socket, first.next⟩ found.socket := by
  have isSame : found.socket.connection.identity = (connection_of sample).identity := by
    have test := List.find?_some isFound
    simpa [Socket.is] using test
  have head : ((refresh.old.map Entry.socket).filter (Socket.is (connection_of sample).identity)).head? = some found.socket := by
    rw [List.head?_filter, List.find?_map]
    exact congrArg (Option.map Entry.socket) isFound
  rw [state.rest, List.head?_drop] at head
  rw [Found, isSame]
  have more : (identities (taken.map connection_of)).count (connection_of sample).identity <
      (identities ((taken ++ sample :: rest).map connection_of)).count (connection_of sample).identity := by
    simp only [identities, List.map_append, List.map_cons, List.count_append, List.count_cons_self]
    omega
  refine List.mem_of_getElem? (i := (identities (taken.map connection_of)).count (connection_of sample).identity) ?_
  rw [List.getElem?_take, if_pos more]
  exact head

theorem entry_inj {list : List Entry} (objects : (list.map Entry.object).Nodup) {entry other : Entry} (member : entry ∈ list) (also : other ∈ list)
    (same : entry.object = other.object) : entry = other := List.inj_on_of_nodup_map objects member also same

theorem insert_entry_perm (entry : Entry) (list : List Entry) : (insert_entry entry list).Perm (entry :: list) := by
  rw [insert_entry]
  refine List.perm_middle.trans ?_
  rw [List.takeWhile_append_dropWhile]

theorem eraseP_of_find {α : Type} {test : α → Bool} {list : List α} {found : α} (isFound : list.find? test = some found) :
    ∃ before after, list = before ++ found :: after ∧ list.eraseP test = before ++ after := by
  obtain ⟨passes, before, after, isSplit, none⟩ := List.find?_eq_some_iff_append.mp isFound
  refine ⟨before, after, isSplit, ?_⟩
  rw [isSplit, List.eraseP_append_right _ (fun other member => by simpa using none other member), List.eraseP_cons_of_pos passes]

theorem Assigned.known (state : Assigned first taken refresh assigned) (formed : Formed first) {found : Entry}
    (isFound : refresh.old.find? (fun entry => Socket.is (connection_of sample).identity entry.socket) = some found) (unmarked : found.socket.stamp = 0) :
    Assigned first (taken ++ [sample])
      { refresh with
        list := refresh.list.map (fun entry => if entry.object = found.object then UpdateDynamicData sample entry else entry)
        old := refresh.old.eraseP (fun entry => Socket.is (connection_of sample).identity entry.socket) }
      (assigned ++ [(found.object, sample)]) := by
  set touched : Entry → Entry := fun entry => if entry.object = found.object then UpdateDynamicData sample entry else entry with isTouched
  have object (entry : Entry) : (touched entry).object = entry.object := by
    simp only [isTouched]
    split_ifs <;> rfl
  have process (entry : Entry) : (touched entry).process = entry.process := by
    simp only [isTouched]
    split_ifs <;> rfl
  have other {entry : Entry} (differ : entry.object ≠ found.object) : touched entry = entry := by simp [isTouched, differ]
  have isSame : found.socket.connection.identity = (connection_of sample).identity := by
    have test := List.find?_some isFound
    simpa [Socket.is] using test
  have isOld : found ∈ refresh.old := List.mem_of_find?_eq_some isFound
  have oldObjects : (refresh.old.map Entry.object).Nodup := List.Nodup.sublist (state.old.map _) formed.objects
  obtain ⟨before, after, isSplit, isErased⟩ := eraseP_of_find isFound
  -- What is still old is another entry than the one that was found.
  have stillOld {entry : Entry} : entry ∈ before ++ after ↔ entry ∈ refresh.old ∧ entry.object ≠ found.object := by
    rw [isSplit, List.map_append, List.map_cons] at oldObjects
    have apart := (List.nodup_cons.mp (List.nodup_middle.mp oldObjects)).1
    rw [← List.map_append] at apart
    constructor
    · intro member
      refine ⟨?_, fun same => apart (List.mem_map.mpr ⟨entry, member, same⟩)⟩
      rw [isSplit]
      exact List.mem_append.mpr ((List.mem_append.mp member).imp_right (List.mem_cons_of_mem _))
    · rintro ⟨member, differ⟩
      rw [isSplit, List.mem_append, List.mem_cons] at member
      obtain early | rfl | late := member
      · exact List.mem_append_left _ early
      · exact absurd rfl differ
      · exact List.mem_append_right _ late
  refine ⟨?_, ?_, ?_, ?_, ?_, ?_, ?_, ?_, ?_, state.rest_step sample, ?_, state.ownMade⟩
  · have objects : (refresh.list.map touched).map Entry.object = refresh.list.map Entry.object := by
      rw [List.map_map]
      exact List.map_congr_left (fun entry _ => object entry)
    dsimp only
    rw [objects]
    exact state.objects
  · intro entry member
    obtain ⟨older, among, rfl⟩ := List.mem_map.mp member
    rw [object]
    exact state.made older among
  · rw [List.map_append, state.samples]
    rfl
  · rw [List.map_append, List.nodup_append]
    refine ⟨state.once, by simp, ?_⟩
    intro one isOne two isTwo same
    have isFoundObject : one = found.object := same.trans (List.mem_singleton.mp isTwo)
    exact state.apart found isOld (isFoundObject ▸ isOne)
  · intro entry member
    dsimp only at member
    rw [isErased] at member
    obtain ⟨inOld, differ⟩ := stillOld.mp member
    rw [List.map_append, List.mem_append, not_or]
    exact ⟨state.apart entry inOld, by simpa using differ⟩
  · intro entry member
    obtain ⟨older, among, rfl⟩ := List.mem_map.mp member
    rw [object, List.map_append, List.mem_append]
    dsimp only
    rw [isErased]
    by_cases same : older.object = found.object
    · exact .inl (.inr (by simp [same]))
    · obtain inAssigned | inOld := state.all older among
      · exact .inl (.inl inAssigned)
      · exact .inr (by rw [other same]; exact stillOld.mpr ⟨inOld, same⟩)
  · intro pair member
    obtain early | isLast := List.mem_append.mp member
    · obtain ⟨entry, among, isObject, shows, isUnmarked⟩ := state.shown pair early
      have differ : entry.object ≠ found.object := by
        intro same
        exact state.apart found isOld (List.mem_map.mpr ⟨pair, early, isObject.symm.trans same⟩)
      exact ⟨entry, List.mem_map.mpr ⟨entry, among, other differ⟩, isObject, shows, isUnmarked⟩
    · rw [List.mem_singleton.mp isLast]
      refine ⟨touched found, List.mem_map.mpr ⟨found, state.inside found isOld, rfl⟩, object found, ?_, ?_⟩
      · simp only [isTouched, if_true]
        exact update_shows isSame
      · simp only [isTouched, if_true]
        exact unmarked
  · exact List.eraseP_sublist.trans state.old
  · intro entry member
    dsimp only at member
    rw [isErased] at member
    obtain ⟨inOld, differ⟩ := stillOld.mp member
    exact List.mem_map.mpr ⟨entry, state.inside entry inOld, other differ⟩
  · intro entry member holder isHolder
    obtain ⟨older, among, rfl⟩ := List.mem_map.mp member
    rw [object]
    rw [process] at isHolder
    exact state.owned older among holder isHolder

theorem Assigned.added (state : Assigned first taken refresh assigned)
    (none : refresh.old.find? (fun entry => Socket.is (connection_of sample).identity entry.socket) = none) (process : Option Nat) :
    Assigned first (taken ++ [sample])
      { refresh with
        list := insert_entry (UpdateDynamicData sample (InitStaticData refresh.next sample process)) refresh.list
        next := refresh.next + 1
        own := process.toList.map (fun process => (process, refresh.next)) ++ refresh.own }
      (assigned ++ [(refresh.next, sample)]) := by
  set made : Entry := UpdateDynamicData sample (InitStaticData refresh.next sample process) with isMade
  have perm := insert_entry_perm made refresh.list
  have inside {entry : Entry} : entry ∈ insert_entry made refresh.list ↔ entry = made ∨ entry ∈ refresh.list := by
    rw [perm.mem_iff, List.mem_cons]
  have older {entry : Entry} (member : entry ∈ refresh.list) : entry.object ≠ refresh.next := Nat.ne_of_lt (state.made entry member)
  have erased : refresh.old.eraseP (fun entry => Socket.is (connection_of sample).identity entry.socket) = refresh.old :=
    List.eraseP_of_forall_not (List.find?_eq_none.mp none)
  have assignedOlder : ∀ pair ∈ assigned, pair.1 ≠ refresh.next := by
    intro pair member
    obtain ⟨entry, among, isObject, -⟩ := state.shown pair member
    exact isObject ▸ older among
  refine ⟨?_, ?_, ?_, ?_, ?_, ?_, ?_, state.old, ?_, ?_, ?_, ?_⟩
  · dsimp only
    rw [(perm.map Entry.object).nodup_iff, List.map_cons, List.nodup_cons]
    refine ⟨fun member => ?_, state.objects⟩
    obtain ⟨entry, among, same⟩ := List.mem_map.mp member
    exact older among same
  · intro entry member
    obtain rfl | before := inside.mp member
    · exact Nat.lt_succ_self _
    · exact Nat.lt_succ_of_lt (state.made entry before)
  · rw [List.map_append, state.samples]
    rfl
  · rw [List.map_append, List.nodup_append]
    refine ⟨state.once, by simp, ?_⟩
    intro one isOne two isTwo same
    obtain ⟨pair, member, rfl⟩ := List.mem_map.mp isOne
    rw [List.map_singleton, List.mem_singleton] at isTwo
    exact assignedOlder pair member (same.trans isTwo)
  · intro entry member
    rw [List.map_append, List.mem_append, not_or]
    exact ⟨state.apart entry member, by simpa using older (state.inside entry member)⟩
  · intro entry member
    rw [List.map_append, List.mem_append]
    obtain rfl | before := inside.mp member
    · exact .inl (.inr List.mem_cons_self)
    · obtain inAssigned | inOld := state.all entry before
      · exact .inl (.inl inAssigned)
      · exact .inr inOld
  · intro pair member
    obtain early | isLast := List.mem_append.mp member
    · obtain ⟨entry, among, rest⟩ := state.shown pair early
      exact ⟨entry, inside.mpr (.inr among), rest⟩
    · rw [List.mem_singleton.mp isLast]
      exact ⟨made, inside.mpr (.inl rfl), rfl, update_shows rfl, rfl⟩
  · intro entry member
    exact inside.mpr (.inr (state.inside entry member))
  · intro identity
    have next := state.rest_step sample identity
    rwa [erased] at next
  · intro entry member holder isHolder
    dsimp only
    rw [List.count_append]
    obtain rfl | before := inside.mp member
    · have isProcess : process = some holder := isHolder
      have noneBefore : refresh.own.count (holder, made.object) = 0 := by
        rw [List.count_eq_zero]
        exact fun isOwn => absurd (state.ownMade _ isOwn) (Nat.lt_irrefl _)
      rw [noneBefore, isProcess]
      simp [Entry.object, isMade, UpdateDynamicData, InitStaticData]
    · have notNew : (process.toList.map (fun process => (process, refresh.next))).count (holder, entry.object) = 0 := by
        rw [List.count_eq_zero]
        intro isNew
        obtain ⟨other, -, same⟩ := List.mem_map.mp isNew
        exact older before (Prod.mk.inj same).2.symm
      rw [notNew, Nat.zero_add]
      exact state.owned entry before holder isHolder
  · intro pair member
    obtain isNew | before := List.mem_append.mp member
    · obtain ⟨other, -, rfl⟩ := List.mem_map.mp isNew
      exact Nat.lt_succ_self _
    · exact Nat.lt_succ_of_lt (state.ownMade pair before)

theorem Assigned.step (state : Assigned first taken refresh assigned) (formed : Formed first) {rest : List Sample} (processOf : Nat → Option Nat)
    (unmarked : ∀ entry ∈ first.list, entry.socket.stamp ≠ 0 →
      ¬ Found ((taken ++ sample :: rest).map connection_of) ⟨first.list.map Entry.socket, first.next⟩ entry.socket) :
    ∃ assigned, Assigned first (taken ++ [sample]) (take_entry processOf refresh sample) assigned := by
  rw [take_entry, is_entry_eq]
  cases isFound : refresh.old.find? (fun entry => Socket.is (connection_of sample).identity entry.socket) with
  | some found =>
    have isFirst : found ∈ first.list := state.old.subset (List.mem_of_find?_eq_some isFound)
    have isUnmarked : found.socket.stamp = 0 := by
      by_contra marked
      exact unmarked found isFirst marked (state.found isFound)
    exact ⟨_, state.known formed isFound isUnmarked⟩
  | none => exact ⟨_, state.added isFound _⟩

theorem Assigned.all_taken (formed : Formed first) (processOf : Nat → Option Nat) {rest : List Sample}
    (unmarked : ∀ entry ∈ first.list, entry.socket.stamp ≠ 0 →
      ¬ Found ((taken ++ rest).map connection_of) ⟨first.list.map Entry.socket, first.next⟩ entry.socket)
    (state : Assigned first taken refresh assigned) :
    ∃ assigned, Assigned first (taken ++ rest) (rest.foldl (take_entry processOf) refresh) assigned := by
  induction rest generalizing taken refresh assigned with
  | nil => exact ⟨assigned, by simpa using state⟩
  | cons sample rest ih =>
    obtain ⟨further, next⟩ := state.step formed processOf unmarked
    have result := ih (by simpa using unmarked) next
    simpa using result

end

/-! ## Purging -/

/-- What the purge makes of an entry that was not found again. -/
structure Purged (list : List Entry) (old : List Entry) (sockets : Sockets) : Prop where
  objects : (sockets.list.map Entry.object).Sublist (list.map Entry.object)
  kept : ∀ entry ∈ list, entry.object ∉ old.map Entry.object → entry ∈ sockets.list
  only : ∀ entry ∈ sockets.list, (entry ∈ list ∧ entry.object ∉ old.map Entry.object) ∨ (entry.socket.stamp ≠ 0 ∧ entry.object ∈ old.map Entry.object)
  owned : Owned sockets.list sockets.own

theorem close_marked {now : Nat} {entry : Entry} (mark : entry.socket.stamp = 0 → now ≠ 0) : (close_entry now entry).socket.stamp ≠ 0 := by
  simp only [close_entry, closing]
  split_ifs with unmarked
  · exact mark unmarked
  · exact unmarked

theorem Purged.step {persistence now : Nat} {list old : List Entry} (purged : Purged list old sockets)
    (objects : (list.map Entry.object).Nodup) {left : Entry} (inside : left ∈ list)
    (mark : left.socket.stamp = 0 → now ≠ 0) :
    Purged list (old ++ [left]) (purge_entry persistence now sockets left) := by
  have listed (entry : Entry) : entry.object ∈ (old ++ [left]).map Entry.object ↔ entry.object ∈ old.map Entry.object ∨ entry.object = left.object := by
    simp
  rw [purge_entry]
  split_ifs with expired
  · refine ⟨(List.filter_sublist.map _).trans purged.objects, ?_, ?_, ?_⟩
    · intro entry member absent
      rw [listed, not_or] at absent
      exact List.mem_filter.mpr ⟨purged.kept entry member absent.1, by simpa using absent.2⟩
    · intro entry member
      obtain ⟨before, differ⟩ := List.mem_filter.mp member
      simp only [ne_eq, decide_not, Bool.not_eq_eq_eq_not, Bool.not_true, decide_eq_false_iff_not] at differ
      obtain ⟨isListed, absent⟩ | ⟨marked, isOld⟩ := purged.only entry before
      · exact .inl ⟨isListed, by rw [listed, not_or]; exact ⟨absent, differ⟩⟩
      · exact .inr ⟨marked, (listed entry).mpr (.inl isOld)⟩
    · intro entry member process isProcess
      obtain ⟨before, differ⟩ := List.mem_filter.mp member
      simp only [ne_eq, decide_not, Bool.not_eq_eq_eq_not, Bool.not_true, decide_eq_false_iff_not] at differ
      rw [List.count_filter (by simp [differ])]
      exact purged.owned entry before process isProcess
  · set touched : Entry → Entry := fun entry => if entry.object = left.object then close_entry now entry else entry with isTouched
    have object (entry : Entry) : (touched entry).object = entry.object := by
      simp only [isTouched]
      split_ifs <;> rfl
    have process (entry : Entry) : (touched entry).process = entry.process := by
      simp only [isTouched]
      split_ifs <;> rfl
    have other {entry : Entry} (differ : entry.object ≠ left.object) : touched entry = entry := by simp [isTouched, differ]
    refine ⟨?_, ?_, ?_, ?_⟩
    · have same : (sockets.list.map touched).map Entry.object = sockets.list.map Entry.object := by
        rw [List.map_map]
        exact List.map_congr_left (fun entry _ => object entry)
      dsimp only
      rw [same]
      exact purged.objects
    · intro entry member absent
      rw [listed, not_or] at absent
      exact List.mem_map.mpr ⟨entry, purged.kept entry member absent.1, other absent.2⟩
    · intro entry member
      obtain ⟨before, among, rfl⟩ := List.mem_map.mp member
      by_cases here : before.object = left.object
      · refine .inr ⟨?_, by rw [listed, object]; exact .inr here⟩
        simp only [isTouched, here, if_true]
        apply close_marked
        obtain ⟨isListed, -⟩ | ⟨marked, -⟩ := purged.only before among
        · rw [entry_inj objects isListed inside here]
          exact mark
        · exact fun unmarked => absurd unmarked marked
      · rw [other here]
        obtain ⟨isListed, absent⟩ | ⟨marked, isOld⟩ := purged.only before among
        · exact .inl ⟨isListed, by rw [listed, not_or]; exact ⟨absent, here⟩⟩
        · exact .inr ⟨marked, (listed before).mpr (.inl isOld)⟩
    · intro entry member holder isHolder
      obtain ⟨before, among, rfl⟩ := List.mem_map.mp member
      rw [process] at isHolder
      rw [object]
      exact purged.owned before among holder isHolder

theorem purge_all {persistence now : Nat} {list old : List Entry} {next : Nat} {own : List (Nat × Nat)} (objects : (list.map Entry.object).Nodup)
    (owned : Owned list own) (inside : ∀ left ∈ old, left ∈ list) (mark : ∀ left ∈ old, left.socket.stamp = 0 → now ≠ 0) :
    Purged list old (old.foldl (purge_entry persistence now) ⟨list, next, own⟩) := by
  induction old using List.reverseRecOn with
  | nil => exact ⟨List.Sublist.refl _, fun entry member _ => member, fun entry member => .inl ⟨member, by simp⟩, owned⟩
  | append_singleton earlier last ih =>
    rw [List.foldl_append]
    have before := ih (fun left member => inside left (List.mem_append_left _ member)) (fun left member => mark left (List.mem_append_left _ member))
    exact before.step objects (inside last (by simp)) (mark last (by simp))

theorem purge_bounds (persistence now : Nat) (old : List Entry) (sockets : Sockets) :
    (old.foldl (purge_entry persistence now) sockets).next = sockets.next ∧ (old.foldl (purge_entry persistence now) sockets).own ⊆ sockets.own := by
  induction old generalizing sockets with
  | nil => exact ⟨rfl, List.Subset.refl _⟩
  | cons left rest ih =>
    obtain ⟨next, own⟩ := ih (purge_entry persistence now sockets left)
    rw [List.foldl_cons]
    have before : (purge_entry persistence now sockets left).next = sockets.next ∧ (purge_entry persistence now sockets left).own ⊆ sockets.own := by
      rw [purge_entry]
      split_ifs
      · exact ⟨rfl, List.filter_sublist.subset⟩
      · exact ⟨rfl, List.Subset.refl _⟩
    exact ⟨next.trans before.1, List.Subset.trans own before.2⟩

/-! ## Refreshes -/

theorem held_eq_samples {reading : Reading}
    (single : ∀ connection ∈ reading.connections, (values (BuildSocketInodeMap reading.descriptors) connection.Inode).Nodup) :
    held reading = reading.samples := by
  rw [held, Reading.samples, SocketHolders.samples]
  refine List.flatMap_congr (fun connection member => ?_)
  have distinct : (owners (BuildSocketInodeMap reading.descriptors) connection).Nodup := by
    rw [owners]
    split_ifs
    · simp
    · exact single connection member
  rw [holders, distinct.dedup]

theorem exists_matched {list : List Entry} {assigned : List (Nat × Sample)}
    (shown : ∀ pair ∈ assigned, ∃ entry ∈ list, entry.object = pair.1 ∧ Shows entry pair.2 ∧ entry.socket.stamp = 0) :
    ∃ matched : List (Entry × Sample), matched.map (fun pair => (pair.1.object, pair.2)) = assigned ∧
      ∀ pair ∈ matched, pair.1 ∈ list ∧ Shows pair.1 pair.2 ∧ pair.1.socket.stamp = 0 := by
  induction assigned with
  | nil => exact ⟨[], rfl, by simp⟩
  | cons pair rest ih =>
    obtain ⟨matched, isRest, facts⟩ := ih (fun other member => shown other (List.mem_cons_of_mem _ member))
    obtain ⟨entry, member, isObject, shows, unmarked⟩ := shown pair List.mem_cons_self
    refine ⟨(entry, pair.2) :: matched, by rw [List.map_cons, isRest, isObject], ?_⟩
    intro other inside
    obtain rfl | later := List.mem_cons.mp inside
    · exact ⟨member, shows, unmarked⟩
    · exact facts other later

theorem Assigned.one_to_one {first : Sockets} {taken : List Sample} {refresh : Refresh} {assigned : List (Nat × Sample)}
    (state : Assigned first taken refresh assigned) (purged : Purged refresh.list refresh.old sockets) :
    OneToOne sockets.list taken := by
  obtain ⟨matched, isAssigned, facts⟩ := exists_matched state.shown
  have objects : (matched.map Prod.fst).map Entry.object = assigned.map Prod.fst := by
    rw [← isAssigned, List.map_map, List.map_map]
    rfl
  have samples : matched.map Prod.snd = taken := by
    rw [← state.samples, ← isAssigned, List.map_map]
    rfl
  refine ⟨matched, ?_, List.Perm.of_eq samples, fun pair member => (facts pair member).2.1⟩
  refine (List.perm_ext_iff_of_nodup (List.Nodup.of_map Entry.object (objects ▸ state.once))
    ((List.Nodup.of_map _ (List.Nodup.sublist purged.objects state.objects)).filter _)).mpr ?_
  intro entry
  rw [List.mem_filter, decide_eq_true_iff]
  constructor
  · intro member
    have isObject : entry.object ∈ assigned.map Prod.fst := objects ▸ List.mem_map.mpr ⟨entry, member, rfl⟩
    obtain ⟨pair, inMatched, rfl⟩ := List.mem_map.mp member
    obtain ⟨inside, -, unmarked⟩ := facts pair inMatched
    refine ⟨purged.kept pair.1 inside (fun isOld => ?_), unmarked⟩
    obtain ⟨other, inOld, same⟩ := List.mem_map.mp isOld
    exact state.apart other inOld (same ▸ isObject)
  · rintro ⟨member, unmarked⟩
    obtain ⟨inside, absent⟩ | ⟨marked, -⟩ := purged.only entry member
    · obtain inAssigned | inOld := state.all entry inside
      · rw [← objects] at inAssigned
        obtain ⟨other, inMatched, same⟩ := List.mem_map.mp inAssigned
        obtain ⟨pair, isPair, rfl⟩ := List.mem_map.mp inMatched
        rw [← entry_inj state.objects (facts pair isPair).1 inside same]
        exact inMatched
      · exact absurd (List.mem_map.mpr ⟨entry, inOld, rfl⟩) absent
    · exact absurd unmarked marked

theorem refresh_one_to_one {reading : Reading} (formed : Formed sockets) (plain : Plain sockets reading) :
    Formed (UpdateSocketList reading sockets) ∧ OneToOne (UpdateSocketList reading sockets).list (held reading) := by
  obtain ⟨assigned, state⟩ := Assigned.all_taken formed reading.processOf plain.unmarked (assigned_start formed)
  rw [List.nil_append] at state
  rw [UpdateSocketList, held_eq_samples plain.single]
  set taken := reading.samples.foldl (take_entry reading.processOf) ⟨sockets.list, sockets.next, sockets.list, sockets.own⟩
  have purged : Purged taken.list taken.old (taken.old.foldl (purge_entry reading.persistence reading.now) ⟨taken.list, taken.next, taken.own⟩) :=
    purge_all state.objects state.owned state.inside (fun left member => plain.tick left (state.old.subset member))
  obtain ⟨next, own⟩ := purge_bounds reading.persistence reading.now taken.old ⟨taken.list, taken.next, taken.own⟩
  refine ⟨⟨List.Nodup.sublist purged.objects state.objects, ?_, purged.owned, ?_⟩, state.one_to_one purged⟩
  · intro entry member
    obtain ⟨before, inside, same⟩ := List.mem_map.mp (purged.objects.subset (List.mem_map.mpr ⟨entry, member, rfl⟩))
    rw [next, ← same]
    exact state.made before inside
  · intro pair member
    rw [next]
    exact state.ownMade pair (own member)

/-- What a refresh leaves: the entries one to one with the sockets and their holders, and each in the list of its process. -/
def Exact (reading : Reading) (sockets : Sockets) : Prop := OneToOne sockets.list (held reading) ∧ Owned sockets.list sockets.own

/-- A connection to a web server, and a port that nobody holds. -/
def webConnection (state received : Nat) : SNetConnection :=
  ⟨0x11, [10, 0, 0, 1], 50000, [10, 0, 0, 2], 443, state, 7, 1000, "", "", 0, 300, received, 3, 5, true⟩

def orphan : SNetConnection := ⟨0x11, [10, 0, 0, 1], 50001, [10, 0, 0, 2], 443, 11, 0, 0, "", "", 0, 0, 0, 0, 0, false⟩

def reading_of (now : Nat) (connections : List SNetConnection) (descriptors : Descriptors) : Reading := ⟨5000, now, connections, descriptors, some⟩

/-- Two processes hold the connection, each by one descriptor. -/
def twoHolders : Descriptors := [(10, ["/dev/null".toList, "socket:[7]".toList]), (20, ["socket:[7]".toList])]

end TaskExplorer.SocketHolders
