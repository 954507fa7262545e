import TaskExplorer.Lingering

/-!
# The socket list

Sockets have no number of their own. They are kept under a hash of their owner and
ports, several under one hash if need be, and are found again by their whole tuple. Byte
counters, names and peers are left out.
-/

namespace TaskExplorer.SocketList
open Lingering

/-- A connection as one of its owners holds it. -/
structure Connection where
  processId : Nat
  protocolType : Nat
  localAddress : List Nat
  localPort : Nat
  remoteAddress : List Nat
  remotePort : Nat
  inode : Nat
  state : Nat
deriving DecidableEq, Repr

/-- Some bit of `bits` is set. -/
def Connection.has (connection : Connection) (bits : Nat) : Bool := connection.protocolType &&& bits != 0

def networkUnix : Nat := 0x4
def protocolTcp : Nat := 0x10
def protocolUdp : Nat := 0x20

/-- `CSocketInfo::MkHash`. -/
def mk_hash (connection : Connection) : Nat :=
  let remotePort := if connection.has protocolUdp then 0 else connection.remotePort
  connection.localPort ||| (remotePort <<< 16) |||
    (((connection.processId % 2 ^ 32) ^^^ (connection.processId / 2 ^ 32)) <<< 32)

/-- The key of the list; a unix socket has neither address nor port, so its inode counts. -/
def hash_id (connection : Connection) : Nat :=
  if connection.has networkUnix then mk_hash connection ^^^ connection.inode else mk_hash connection

/-- `CSocketInfo::Match`, strictly. -/
def matches_socket (socket connection : Connection) : Bool :=
  decide (socket.processId = connection.processId) && decide (socket.protocolType = connection.protocolType) &&
    (!socket.has (protocolTcp ||| protocolUdp) || decide (socket.localPort = connection.localPort)) &&
    decide (socket.localAddress = connection.localAddress) &&
    (!socket.has (protocolTcp ||| protocolUdp) || decide (socket.remotePort = connection.remotePort)) &&
    decide (socket.remoteAddress = connection.remoteAddress)

/-- What `FindSocketEntry` accepts. -/
def is_entry (connection socket : Connection) : Bool :=
  decide (hash_id socket = hash_id connection) && matches_socket socket connection &&
    (!connection.has networkUnix || decide (socket.inode = connection.inode))

structure Socket where
  /-- Which object it is. -/
  object : Nat
  connection : Connection
  state : Nat
  stamp : Nat
deriving DecidableEq, Repr

structure Sockets where
  /-- In the order of the keys, and the newest first under each. -/
  list : List Socket
  next : Nat
deriving DecidableEq, Repr

/-- `QMultiMap::insert`. -/
def insert_socket (socket : Socket) (list : List Socket) : List Socket :=
  list.takeWhile (fun other => decide (hash_id other.connection < hash_id socket.connection)) ++
    socket :: list.dropWhile (fun other => decide (hash_id other.connection < hash_id socket.connection))

structure Taking where
  list : List Socket
  next : Nat
  /-- `OldSockets`. -/
  old : List Socket

def take_one (taking : Taking) (connection : Connection) : Taking :=
  match taking.old.find? (fun socket => is_entry connection socket.connection) with
  | some found =>
    { taking with
      list := taking.list.map (fun socket => if socket.object = found.object then { socket with state := connection.state } else socket)
      old := taking.old.eraseP (fun socket => is_entry connection socket.connection) }
  | none =>
    { taking with
      list := insert_socket ⟨taking.next, connection, connection.state, 0⟩ taking.list
      next := taking.next + 1 }

/-- `SetClosed` and `MarkForRemoval`; a state of -1 stays. -/
def closing (now : Nat) (socket : Socket) : Socket :=
  { socket with
    state := if socket.state = 2 ^ 32 - 1 then socket.state else 1
    stamp := if socket.stamp = 0 then now else socket.stamp }

structure Purging where
  list : List Socket
  removed : List Nat
deriving DecidableEq, Repr

def purge_one (persistence now : Nat) (purging : Purging) (socket : Socket) : Purging :=
  if can_be_removed persistence now socket.stamp then
    ⟨purging.list.filter (fun other => decide (other.object ≠ socket.object)), purging.removed ++ [hash_id socket.connection]⟩
  else { purging with list := purging.list.map (fun other => if other.object = socket.object then closing now other else other) }

structure Update where
  sockets : Sockets
  removed : List Nat
deriving DecidableEq, Repr

def take_all (sockets : Sockets) (sample : List Connection) : Taking := sample.foldl take_one ⟨sockets.list, sockets.next, sockets.list⟩

/-- `CLinuxAPI::UpdateSocketList`. -/
def update_socket_list (persistence now : Nat) (sample : List Connection) (sockets : Sockets) : Update :=
  let taken := take_all sockets sample
  let purged := taken.old.foldl (purge_one persistence now) ⟨taken.list, []⟩
  ⟨⟨purged.list, taken.next⟩, purged.removed⟩

/-! ## Which sockets are the same -/

/-- All that is compared. -/
structure Identity where
  hash : Nat
  processId : Nat
  protocolType : Nat
  localAddress : List Nat
  remoteAddress : List Nat
  ports : Option (Nat × Nat)
  inode : Option Nat
deriving DecidableEq, Repr

def Connection.identity (connection : Connection) : Identity where
  hash := hash_id connection
  processId := connection.processId
  protocolType := connection.protocolType
  localAddress := connection.localAddress
  remoteAddress := connection.remoteAddress
  ports := bif connection.has (protocolTcp ||| protocolUdp) then some (connection.localPort, connection.remotePort) else none
  inode := bif connection.has networkUnix then some connection.inode else none

theorem is_entry_iff (connection socket : Connection) : is_entry connection socket = true ↔ socket.identity = connection.identity := by
  obtain ⟨pid, protocol, localAddress, localPort, remoteAddress, remotePort, inode, state⟩ := socket
  obtain ⟨pid', protocol', localAddress', localPort', remoteAddress', remotePort', inode', state'⟩ := connection
  simp only [is_entry, matches_socket, Connection.identity, Bool.and_eq_true, decide_eq_true_iff, Bool.or_eq_true, Bool.not_eq_true',
    Identity.mk.injEq, Connection.has]
  constructor
  · rintro ⟨⟨hash, ⟨⟨⟨⟨rfl, rfl⟩, localPorts⟩, rfl⟩, remotePorts⟩, rfl⟩, inodes⟩
    refine ⟨hash, rfl, rfl, rfl, rfl, ?_, ?_⟩
    · cases bits : protocol &&& (protocolTcp ||| protocolUdp) != 0 with
      | false => rfl
      | true =>
        rw [bits] at localPorts remotePorts
        rw [localPorts.resolve_left (by simp), remotePorts.resolve_left (by simp)]
    · cases bits : protocol &&& networkUnix != 0 with
      | false => rfl
      | true =>
        rw [bits] at inodes
        rw [inodes.resolve_left (by simp)]
  · rintro ⟨hash, rfl, rfl, rfl, rfl, ports, inodes⟩
    have same : (protocol &&& (protocolTcp ||| protocolUdp) != 0) = false ∨ localPort = localPort' ∧ remotePort = remotePort' := by
      cases bits : protocol &&& (protocolTcp ||| protocolUdp) != 0 with
      | false => exact .inl rfl
      | true =>
        rw [bits] at ports
        cases ports
        exact .inr ⟨rfl, rfl⟩
    refine ⟨⟨hash, ⟨⟨⟨⟨rfl, rfl⟩, same.imp_right And.left⟩, rfl⟩, same.imp_right And.right⟩, rfl⟩, ?_⟩
    cases bits : protocol &&& networkUnix != 0 with
    | false => exact .inl rfl
    | true =>
      rw [bits] at inodes
      cases inodes
      exact .inr rfl

/-- The test for an identity. -/
def Socket.is (identity : Identity) (socket : Socket) : Bool := decide (socket.connection.identity = identity)

theorem is_entry_eq (connection : Connection) :
    (fun socket : Socket => is_entry connection socket.connection) = Socket.is connection.identity := by
  funext socket
  rw [Bool.eq_iff_iff, is_entry_iff, Socket.is, decide_eq_true_iff]

theorem insert_socket_perm (socket : Socket) (list : List Socket) : (insert_socket socket list).Perm (socket :: list) := by
  rw [insert_socket]
  refine List.perm_middle.trans ?_
  rw [List.takeWhile_append_dropWhile]

/-! ## The loop over the connections -/

def identities (sample : List Connection) : List Identity := sample.map Connection.identity

/-- A socket that is the same but for its state. -/
structure SameSocket (socket other : Socket) : Prop where
  object : socket.object = other.object
  connection : socket.connection = other.connection
  stamp : socket.stamp = other.stamp

/-- The sockets that are there stay, and of every identity the sample has, as many are matched as there are. -/
structure Matching (first : Sockets) (sample : List Connection) (taking : Taking) : Prop where
  objects : (taking.list.map Socket.object).Nodup
  made : ∀ socket ∈ taking.list, socket.object < taking.next
  next : first.next ≤ taking.next
  old : taking.old.Sublist first.list
  kept : ∀ socket ∈ first.list, ∃ other ∈ taking.list, SameSocket other socket
  fresh : ∀ other ∈ taking.list, (∃ socket ∈ first.list, SameSocket other socket) ∨
    (first.next ≤ other.object ∧ other.stamp = 0 ∧ other.connection.identity ∈ identities sample)
  rest : ∀ identity, taking.old.filter (Socket.is identity) =
    (first.list.filter (Socket.is identity)).drop ((identities sample).count identity)
  listed : ∀ identity, taking.list.countP (Socket.is identity) =
    max (first.list.countP (Socket.is identity)) ((identities sample).count identity)

/-- Each object is listed once and has been made. -/
structure Wellformed (sockets : Sockets) : Prop where
  objects : (sockets.list.map Socket.object).Nodup
  made : ∀ socket ∈ sockets.list, socket.object < sockets.next

theorem matching_start {first : Sockets} (formed : Wellformed first) : Matching first [] ⟨first.list, first.next, first.list⟩ where
  objects := formed.objects
  made := formed.made
  next := Nat.le_refl _
  old := List.Sublist.refl _
  kept socket member := ⟨socket, member, rfl, rfl, rfl⟩
  fresh other member := .inl ⟨other, member, rfl, rfl, rfl⟩
  rest identity := by simp [identities]
  listed identity := by simp [identities]

section
variable {first : Sockets} {sample : List Connection} {taking : Taking} {connection : Connection}

theorem identities_append : identities (sample ++ [connection]) = identities sample ++ [connection.identity] := by
  rw [identities, List.map_append]
  rfl

theorem count_identities (identity : Identity) : (identities (sample ++ [connection])).count identity =
    (identities sample).count identity + if connection.identity = identity then 1 else 0 := by
  rw [identities_append, List.count_append, List.count_singleton]
  congr 1
  simp only [beq_iff_eq]

theorem filter_erase (list : List Socket) (identity other : Identity) : (list.eraseP (Socket.is identity)).filter (Socket.is other) =
    (list.filter (Socket.is other)).drop (if identity = other then 1 else 0) := by
  induction list with
  | nil => simp
  | cons socket rest ih =>
    by_cases isSame : Socket.is identity socket = true
    · have connection : socket.connection.identity = identity := by simpa [Socket.is] using isSame
      rw [List.eraseP_cons_of_pos isSame]
      by_cases here : identity = other
      · rw [if_pos here, List.filter_cons_of_pos (by rw [← here]; exact isSame)]
        rfl
      · have differs : ¬ Socket.is other socket = true := by simpa [Socket.is, connection] using here
        rw [if_neg here, List.filter_cons_of_neg differs]
        rfl
    · rw [List.eraseP_cons_of_neg isSame]
      by_cases here : identity = other
      · subst here
        rw [List.filter_cons_of_neg isSame, List.filter_cons_of_neg isSame]
        exact ih
      · rw [if_neg here, List.drop_zero] at ih ⊢
        rw [List.filter_cons, List.filter_cons, ih]

theorem Matching.left (matching : Matching first sample taking) (identity : Identity) :
    taking.old.countP (Socket.is identity) = first.list.countP (Socket.is identity) - (identities sample).count identity := by
  rw [List.countP_eq_length_filter, List.countP_eq_length_filter, matching.rest, List.length_drop]

theorem Matching.known (matching : Matching first sample taking) {found : Socket} (isFound : taking.old.find? (Socket.is connection.identity) = some found) :
    Matching first (sample ++ [connection])
      { taking with
        list := taking.list.map (fun socket => if socket.object = found.object then { socket with state := connection.state } else socket)
        old := taking.old.eraseP (Socket.is connection.identity) } := by
  set touched : Socket → Socket := fun socket => if socket.object = found.object then { socket with state := connection.state } else socket
    with isTouched
  have same (socket : Socket) : SameSocket (touched socket) socket := by
    rw [isTouched]
    dsimp only
    split_ifs <;> exact ⟨rfl, rfl, rfl⟩
  have objects : (taking.list.map touched).map Socket.object = taking.list.map Socket.object := by
    rw [List.map_map]
    exact List.map_congr_left (fun socket _ => (same socket).object)
  have counts (identity : Identity) : (taking.list.map touched).countP (Socket.is identity) = taking.list.countP (Socket.is identity) := by
    rw [List.countP_map]
    apply List.countP_congr
    intro socket _
    rw [Function.comp_apply, Socket.is, Socket.is, (same socket).connection]
  have isSame : Socket.is connection.identity found = true := List.find?_some isFound
  have member : found ∈ taking.old := List.mem_of_find?_eq_some isFound
  have positive : 0 < taking.old.countP (Socket.is connection.identity) := List.countP_pos_iff.mpr ⟨found, member, isSame⟩
  refine ⟨?_, ?_, matching.next, ?_, ?_, ?_, ?_, ?_⟩
  · dsimp only
    rw [objects]
    exact matching.objects
  · intro socket inside
    obtain ⟨before, among, rfl⟩ := List.mem_map.mp inside
    rw [(same before).object]
    exact matching.made before among
  · exact List.eraseP_sublist.trans matching.old
  · intro socket inside
    obtain ⟨other, among, also⟩ := matching.kept socket inside
    exact ⟨touched other, List.mem_map.mpr ⟨other, among, rfl⟩, (same other).object.trans also.object,
      (same other).connection.trans also.connection, (same other).stamp.trans also.stamp⟩
  · intro other inside
    obtain ⟨before, among, rfl⟩ := List.mem_map.mp inside
    rw [(same before).object, (same before).stamp, (same before).connection]
    rcases matching.fresh before among with ⟨socket, there, also⟩ | ⟨isNew, unmarked, sampled⟩
    · exact .inl ⟨socket, there, (same before).object.trans also.object, (same before).connection.trans also.connection,
        (same before).stamp.trans also.stamp⟩
    · exact .inr ⟨isNew, unmarked, by rw [identities_append]; exact List.mem_append_left _ sampled⟩
  · intro identity
    dsimp only
    rw [filter_erase, matching.rest, List.drop_drop, count_identities]
  · intro identity
    dsimp only
    rw [counts, matching.listed identity, count_identities]
    have before := matching.left identity
    by_cases here : connection.identity = identity
    · subst here
      rw [if_pos rfl]
      omega
    · rw [if_neg here, Nat.add_zero]

theorem Matching.added (matching : Matching first sample taking) (none : taking.old.find? (Socket.is connection.identity) = none) :
    Matching first (sample ++ [connection])
      { taking with list := insert_socket ⟨taking.next, connection, connection.state, 0⟩ taking.list, next := taking.next + 1 } := by
  set made : Socket := ⟨taking.next, connection, connection.state, 0⟩ with isMade
  have perm := insert_socket_perm made taking.list
  have inside {socket : Socket} : socket ∈ insert_socket made taking.list ↔ socket = made ∨ socket ∈ taking.list := by
    rw [perm.mem_iff, List.mem_cons]
  have noOld : taking.old.countP (Socket.is connection.identity) = 0 := by
    rw [List.countP_eq_zero]
    exact List.find?_eq_none.mp none
  have counts (identity : Identity) : (insert_socket made taking.list).countP (Socket.is identity) =
      taking.list.countP (Socket.is identity) + if connection.identity = identity then 1 else 0 := by
    rw [perm.countP_eq, List.countP_cons]
    have test : (Socket.is identity made = true) ↔ connection.identity = identity := by rw [Socket.is, decide_eq_true_iff]
    rw [if_congr test rfl rfl]
  refine ⟨?_, ?_, Nat.le_succ_of_le matching.next, matching.old, ?_, ?_, ?_, ?_⟩
  · dsimp only
    rw [(perm.map Socket.object).nodup_iff, List.map_cons, List.nodup_cons]
    refine ⟨fun member => ?_, matching.objects⟩
    obtain ⟨socket, among, same⟩ := List.mem_map.mp member
    exact absurd (matching.made socket among) (by rw [same]; exact Nat.lt_irrefl _)
  · intro socket member
    rcases inside.mp member with rfl | before
    · exact Nat.lt_succ_self _
    · exact Nat.lt_succ_of_lt (matching.made socket before)
  · intro socket member
    obtain ⟨other, among, same⟩ := matching.kept socket member
    exact ⟨other, inside.mpr (.inr among), same⟩
  · intro other member
    rw [identities_append]
    rcases inside.mp member with rfl | before
    · exact .inr ⟨matching.next, rfl, List.mem_append_right _ List.mem_cons_self⟩
    · rcases matching.fresh other before with known | ⟨isNew, unmarked, sampled⟩
      · exact .inl known
      · exact .inr ⟨isNew, unmarked, List.mem_append_left _ sampled⟩
  · intro identity
    dsimp only
    rw [matching.rest, count_identities]
    by_cases here : connection.identity = identity
    · subst here
      have few := matching.left connection.identity
      rw [noOld, List.countP_eq_length_filter] at few
      rw [if_pos rfl, List.drop_eq_nil_of_le (by omega), List.drop_eq_nil_of_le (by omega)]
    · rw [if_neg here, Nat.add_zero]
  · intro identity
    have left := matching.left identity
    have listed := matching.listed identity
    dsimp only
    rw [counts, count_identities]
    by_cases here : connection.identity = identity
    · subst here
      rw [if_pos rfl]
      omega
    · rw [if_neg here]
      omega

theorem Matching.step (matching : Matching first sample taking) : Matching first (sample ++ [connection]) (take_one taking connection) := by
  rw [take_one, is_entry_eq]
  cases found : taking.old.find? (Socket.is connection.identity) with
  | some socket => exact matching.known found
  | none => exact matching.added found

theorem take_all_matching (formed : Wellformed first) (sample : List Connection) : Matching first sample (take_all first sample) := by
  induction sample using List.reverseRecOn with
  | nil => exact matching_start formed
  | append_singleton earlier last ih =>
    rw [take_all, List.foldl_append]
    exact ih.step

end

/-! ## The purge -/

/-- Of the sockets that were left over, the old ones are gone and the others marked. -/
structure Swept (persistence now : Nat) (list old : List Socket) (purging : Purging) : Prop where
  objects : (purging.list.map Socket.object).Sublist (list.map Socket.object)
  mem : ∀ socket, socket ∈ purging.list ↔
    (socket ∈ list ∧ socket.object ∉ old.map Socket.object) ∨
    ∃ before ∈ list, ∃ left ∈ old, left.object = before.object ∧ can_be_removed persistence now left.stamp = false ∧ socket = closing now before
  removed : ∀ hash, hash ∈ purging.removed ↔
    ∃ left ∈ old, can_be_removed persistence now left.stamp = true ∧ hash_id left.connection = hash

theorem swept_start (persistence now : Nat) (list : List Socket) : Swept persistence now list [] ⟨list, []⟩ :=
  ⟨List.Sublist.refl _, by simp, by simp⟩

theorem Swept.step {persistence now : Nat} {list old : List Socket} {purging : Purging} (swept : Swept persistence now list old purging)
    {left : Socket} (once : left.object ∉ old.map Socket.object) :
    Swept persistence now list (old ++ [left]) (purge_one persistence now purging left) := by
  have listed (socket : Socket) : socket.object ∉ (old ++ [left]).map Socket.object ↔
      socket.object ∉ old.map Socket.object ∧ socket.object ≠ left.object := by
    simp
  -- What was marked before is another object.
  have apart {before other : Socket} (member : other ∈ old) (same : other.object = before.object) : before.object ≠ left.object :=
    fun here => once (List.mem_map.mpr ⟨other, member, same.trans here⟩)
  rw [purge_one]
  by_cases expired : can_be_removed persistence now left.stamp = true
  · rw [if_pos expired]
    refine ⟨(List.filter_sublist.map _).trans swept.objects, ?_, ?_⟩
    · intro socket
      dsimp only
      rw [List.mem_filter, swept.mem, decide_eq_true_iff, listed]
      constructor
      · rintro ⟨⟨member, absent⟩ | ⟨before, member, other, among, same, young, rfl⟩, differs⟩
        · exact .inl ⟨member, absent, differs⟩
        · exact .inr ⟨before, member, other, List.mem_append_left _ among, same, young, rfl⟩
      · rintro (⟨member, absent, differs⟩ | ⟨before, member, other, among, same, young, rfl⟩)
        · exact ⟨.inl ⟨member, absent⟩, differs⟩
        · rcases List.mem_append.mp among with early | late
          · exact ⟨.inr ⟨before, member, other, early, same, young, rfl⟩, apart early same⟩
          · rw [List.mem_singleton.mp late, expired] at young
            cases young
    · intro hash
      dsimp only
      rw [List.mem_append, swept.removed, List.mem_singleton]
      constructor
      · rintro (⟨other, among, which⟩ | rfl)
        · exact ⟨other, List.mem_append_left _ among, which⟩
        · exact ⟨left, by simp, expired, rfl⟩
      · rintro ⟨other, among, isExpired, same⟩
        rcases List.mem_append.mp among with early | late
        · exact .inl ⟨other, early, isExpired, same⟩
        · rw [List.mem_singleton.mp late] at same
          exact .inr same.symm
  · rw [if_neg expired]
    have young : can_be_removed persistence now left.stamp = false := Bool.eq_false_iff.mpr expired
    refine ⟨?_, ?_, ?_⟩
    · dsimp only
      rw [List.map_map]
      have same : purging.list.map (Socket.object ∘ fun other => if other.object = left.object then closing now other else other) =
          purging.list.map Socket.object := by
        apply List.map_congr_left
        intro other _
        rw [Function.comp_apply]
        split_ifs <;> rfl
      rw [same]
      exact swept.objects
    · intro socket
      dsimp only
      rw [List.mem_map, listed]
      constructor
      · rintro ⟨other, member, rfl⟩
        rcases (swept.mem other).mp member with ⟨inside, absent⟩ | ⟨before, inside, another, among, same, isYoung, rfl⟩
        · split_ifs with here
          · exact .inr ⟨other, inside, left, by simp, here.symm, young, rfl⟩
          · exact .inl ⟨inside, absent, here⟩
        · rw [if_neg (show (closing now before).object ≠ left.object from apart among same)]
          exact .inr ⟨before, inside, another, List.mem_append_left _ among, same, isYoung, rfl⟩
      · rintro (⟨inside, absent, differs⟩ | ⟨before, inside, another, among, same, isYoung, rfl⟩)
        · exact ⟨socket, (swept.mem socket).mpr (.inl ⟨inside, absent⟩), by rw [if_neg differs]⟩
        · rcases List.mem_append.mp among with early | late
          · exact ⟨closing now before, (swept.mem _).mpr (.inr ⟨before, inside, another, early, same, isYoung, rfl⟩),
              by rw [if_neg (show (closing now before).object ≠ left.object from apart early same)]⟩
          · have here : before.object = left.object := by
              rw [List.mem_singleton.mp late] at same
              exact same.symm
            refine ⟨before, (swept.mem before).mpr (.inl ⟨inside, by rw [here]; exact once⟩), by rw [if_pos here]⟩
    · intro hash
      dsimp only
      rw [swept.removed]
      constructor
      · rintro ⟨other, among, which⟩
        exact ⟨other, List.mem_append_left _ among, which⟩
      · rintro ⟨other, among, isExpired, same⟩
        rcases List.mem_append.mp among with early | late
        · exact ⟨other, early, isExpired, same⟩
        · rw [List.mem_singleton.mp late] at isExpired
          exact absurd isExpired expired

theorem purge_all_swept (persistence now : Nat) (list : List Socket) {old : List Socket} (distinct : (old.map Socket.object).Nodup) :
    Swept persistence now list old (old.foldl (purge_one persistence now) ⟨list, []⟩) := by
  induction old using List.reverseRecOn with
  | nil => exact swept_start persistence now list
  | append_singleton earlier last ih =>
    rw [List.map_append, List.nodup_append] at distinct
    rw [List.foldl_append]
    exact (ih distinct.1).step (fun member => distinct.2.2 last.object member last.object (by simp) rfl)

/-! ## The marks -/

/-- The first sockets of an identity, as many as the sample has of it, are the ones that are found again. -/
def Found (sample : List Connection) (sockets : Sockets) (socket : Socket) : Prop :=
  socket ∈ (sockets.list.filter (Socket.is socket.connection.identity)).take ((identities sample).count socket.connection.identity)

instance (sample : List Connection) (sockets : Sockets) (socket : Socket) : Decidable (Found sample sockets socket) :=
  inferInstanceAs (Decidable (socket ∈ List.take _ _))

/-- The object is found again, or is made for a connection of the sample. -/
def Sampled (sample : List Connection) (sockets : Sockets) (object : Nat) : Prop :=
  sockets.next ≤ object ∨ ∃ socket ∈ sockets.list, socket.object = object ∧ Found sample sockets socket

instance (sample : List Connection) (sockets : Sockets) : DecidablePred (Sampled sample sockets) :=
  fun object => inferInstanceAs (Decidable (sockets.next ≤ object ∨ ∃ socket ∈ sockets.list, socket.object = object ∧ Found sample sockets socket))

def marks (sockets : Sockets) (object : Nat) : Option Nat :=
  (sockets.list.find? (fun socket => decide (socket.object = object))).map Socket.stamp

theorem object_inj {list : List Socket} (objects : (list.map Socket.object).Nodup) {socket other : Socket} (member : socket ∈ list)
    (also : other ∈ list) (same : socket.object = other.object) : socket = other :=
  List.inj_on_of_nodup_map objects member also same

theorem marks_eq {sockets : Sockets} (objects : (sockets.list.map Socket.object).Nodup) {object stamp : Nat} :
    marks sockets object = some stamp ↔ ∃ socket ∈ sockets.list, socket.object = object ∧ socket.stamp = stamp := by
  constructor
  · intro found
    obtain ⟨socket, isFound, rfl⟩ := Option.map_eq_some_iff.mp found
    exact ⟨socket, List.mem_of_find?_eq_some isFound, by simpa using List.find?_some isFound, rfl⟩
  · rintro ⟨socket, member, rfl, rfl⟩
    rw [marks, Option.map_eq_some_iff]
    cases found : sockets.list.find? (fun other => decide (other.object = socket.object)) with
    | none => exact absurd (decide_eq_true rfl) (List.find?_eq_none.mp found socket member)
    | some other =>
      have same : other.object = socket.object := by simpa using List.find?_some found
      exact ⟨other, rfl, by rw [object_inj objects (List.mem_of_find?_eq_some found) member same]⟩

theorem marks_none {sockets : Sockets} {object : Nat} : marks sockets object = none ↔ ∀ socket ∈ sockets.list, socket.object ≠ object := by
  rw [marks, Option.map_eq_none_iff, List.find?_eq_none]
  simp

section
variable {sockets : Sockets} (formed : Wellformed sockets) (persistence now : Nat) (sample : List Connection)
include formed

theorem Wellformed.mem_old {socket : Socket} : socket ∈ (take_all sockets sample).old ↔ socket ∈ sockets.list ∧ ¬ Found sample sockets socket := by
  have matching := take_all_matching formed sample
  have distinct : (sockets.list.filter (Socket.is socket.connection.identity)).Nodup := (List.Nodup.of_map _ formed.objects).filter _
  have here : Socket.is socket.connection.identity socket = true := by rw [Socket.is, decide_eq_true_iff]
  have inOld : socket ∈ (take_all sockets sample).old ↔ socket ∈ (take_all sockets sample).old.filter (Socket.is socket.connection.identity) := by
    rw [List.mem_filter, and_iff_left here]
  have inList : socket ∈ sockets.list ↔ socket ∈ sockets.list.filter (Socket.is socket.connection.identity) := by
    rw [List.mem_filter, and_iff_left here]
  rw [inOld, inList, matching.rest, Found]
  set whole := sockets.list.filter (Socket.is socket.connection.identity)
  set many := (identities sample).count socket.connection.identity
  rw [← List.take_append_drop many whole, List.nodup_append] at distinct
  constructor
  · intro late
    exact ⟨List.mem_of_mem_drop late, fun early => distinct.2.2 socket early socket late rfl⟩
  · rintro ⟨inside, notEarly⟩
    rw [← List.take_append_drop many whole, List.mem_append] at inside
    exact inside.resolve_left notEarly

theorem Wellformed.swept : Swept persistence now (take_all sockets sample).list (take_all sockets sample).old
    ⟨(update_socket_list persistence now sample sockets).sockets.list, (update_socket_list persistence now sample sockets).removed⟩ :=
  purge_all_swept persistence now _ (List.Nodup.sublist ((take_all_matching formed sample).old.map _) formed.objects)

theorem Wellformed.update_socket_list : Wellformed (update_socket_list persistence now sample sockets).sockets where
  objects := List.Nodup.sublist (formed.swept persistence now sample).objects (take_all_matching formed sample).objects
  made socket member := by
    have matching := take_all_matching formed sample
    have among := (formed.swept persistence now sample).objects.subset (List.mem_map.mpr ⟨socket, member, rfl⟩)
    obtain ⟨before, inside, same⟩ := List.mem_map.mp among
    rw [← same]
    exact matching.made before inside

theorem Wellformed.left_over {socket : Socket} (member : socket ∈ sockets.list) :
    socket.object ∈ (take_all sockets sample).old.map Socket.object ↔ ¬ Found sample sockets socket := by
  rw [List.mem_map]
  constructor
  · rintro ⟨other, among, same⟩
    obtain ⟨inside, absent⟩ := (formed.mem_old sample).mp among
    rw [← object_inj formed.objects inside member same]
    exact absent
  · intro absent
    exact ⟨socket, (formed.mem_old sample).mpr ⟨member, absent⟩, rfl⟩

theorem Wellformed.sampled {socket : Socket} (member : socket ∈ sockets.list) : Sampled sample sockets socket.object ↔ Found sample sockets socket := by
  constructor
  · rintro (isNew | ⟨other, among, same, found⟩)
    · exact absurd (formed.made socket member) (Nat.not_lt.mpr isNew)
    · rw [← object_inj formed.objects among member same]
      exact found
  · intro found
    exact .inr ⟨socket, member, rfl, found⟩

theorem Wellformed.refreshed : Refreshed persistence now (Sampled sample sockets) (marks sockets)
    (marks (SocketList.update_socket_list persistence now sample sockets).sockets) := by
  have matching := take_all_matching formed sample
  have swept := formed.swept persistence now sample
  have objects := (formed.update_socket_list persistence now sample).objects
  refine ⟨?_, ?_, ?_, ?_⟩
  · intro object stamp sampled found
    obtain ⟨socket, member, rfl, rfl⟩ := (marks_eq formed.objects).mp found
    obtain ⟨other, among, same⟩ := matching.kept socket member
    have notLeft : other.object ∉ (take_all sockets sample).old.map Socket.object := by
      rw [same.object, formed.left_over sample member, not_not]
      exact (formed.sampled sample member).mp sampled
    exact ⟨socket.stamp, (marks_eq objects).mpr ⟨other, (swept.mem other).mpr (.inl ⟨among, notLeft⟩), same.object, same.stamp⟩, .inl rfl⟩
  · intro object stamp absent found
    rw [marks_none] at absent
    obtain ⟨socket, member, rfl, rfl⟩ := (marks_eq objects).mp found
    rcases (swept.mem socket).mp member with ⟨inside, -⟩ | ⟨before, -, left, among, same, -, rfl⟩
    · rcases matching.fresh socket inside with ⟨known, there, same⟩ | ⟨isNew, unmarked, -⟩
      · exact absurd same.object.symm (absent known there)
      · exact ⟨.inl isNew, unmarked⟩
    · exact absurd same (absent left ((formed.mem_old sample).mp among).1)
  · intro object absent found
    obtain ⟨socket, member, rfl, zero⟩ := (marks_eq formed.objects).mp found
    rw [formed.sampled sample member] at absent
    have left := (formed.mem_old sample).mpr ⟨member, absent⟩
    obtain ⟨other, among, same⟩ := matching.kept socket member
    refine (marks_eq objects).mpr ⟨closing now other, (swept.mem _).mpr (.inr ⟨other, among, socket, left, same.object.symm, ?_, rfl⟩), ?_, ?_⟩
    · rw [can_be_removed, zero]
      rfl
    · exact same.object
    · rw [closing, same.stamp, zero, if_pos rfl]
  · intro object stamp absent found nonzero
    obtain ⟨socket, member, rfl, rfl⟩ := (marks_eq formed.objects).mp found
    rw [formed.sampled sample member] at absent
    have left := (formed.mem_old sample).mpr ⟨member, absent⟩
    obtain ⟨other, among, same⟩ := matching.kept socket member
    by_cases expired : can_be_removed persistence now socket.stamp = true
    · refine .inr ⟨marks_none.mpr ?_, expired⟩
      intro later there here
      rcases (swept.mem later).mp there with ⟨-, notLeft⟩ | ⟨before, -, another, isLeft, isBefore, young, rfl⟩
      · exact notLeft (here ▸ (formed.left_over sample member).mpr absent)
      · have isSocket := object_inj formed.objects ((formed.mem_old sample).mp isLeft).1 member (isBefore.trans here)
        rw [isSocket, expired] at young
        cases young
    · refine .inl ((marks_eq objects).mpr ⟨closing now other,
        (swept.mem _).mpr (.inr ⟨other, among, socket, left, same.object.symm, Bool.eq_false_iff.mpr expired, rfl⟩), same.object, ?_⟩)
      rw [closing, same.stamp, if_neg nonzero]

theorem Wellformed.countP_kept (identity : Identity) :
    (take_all sockets sample).list.countP
      (fun socket => Socket.is identity socket && decide (socket.object ∉ (take_all sockets sample).old.map Socket.object)) =
    (identities sample).count identity := by
  have matching := take_all_matching formed sample
  set taken := take_all sockets sample
  have oldObjects : (taken.old.map Socket.object).Nodup := List.Nodup.sublist (matching.old.map _) formed.objects
  -- The sockets that were left over are on the list under the same objects.
  have objects : (taken.list.filter (fun socket => Socket.is identity socket && decide (socket.object ∈ taken.old.map Socket.object))).map Socket.object
      |>.Perm ((taken.old.filter (Socket.is identity)).map Socket.object) := by
    refine (List.perm_ext_iff_of_nodup (List.Nodup.sublist (List.filter_sublist.map _) matching.objects)
      (List.Nodup.sublist (List.filter_sublist.map _) oldObjects)).mpr ?_
    intro object
    simp only [List.mem_map, List.mem_filter, Bool.and_eq_true, decide_eq_true_iff, Socket.is]
    constructor
    · rintro ⟨socket, ⟨member, isSame, left, among, same⟩, rfl⟩
      obtain ⟨other, there, also⟩ := matching.kept left (matching.old.subset among)
      have isOther := object_inj matching.objects there member (also.object.trans same)
      subst isOther
      exact ⟨left, ⟨among, by rw [← also.connection]; exact isSame⟩, same⟩
    · rintro ⟨left, ⟨among, isSame⟩, rfl⟩
      obtain ⟨other, there, also⟩ := matching.kept left (matching.old.subset among)
      exact ⟨other, ⟨there, by rw [also.connection]; exact isSame, left, among, also.object.symm⟩, also.object⟩
  have leftOver : taken.list.countP (fun socket => Socket.is identity socket && decide (socket.object ∈ taken.old.map Socket.object)) =
      taken.old.countP (Socket.is identity) := by
    rw [List.countP_eq_length_filter, List.countP_eq_length_filter, ← List.length_map Socket.object, objects.length_eq, List.length_map]
  have split := List.countP_eq_countP_filter_add taken.list (Socket.is identity) (fun socket => decide (socket.object ∈ taken.old.map Socket.object))
  rw [List.countP_filter, List.countP_filter, leftOver] at split
  have negated : (fun socket : Socket => Socket.is identity socket && decide (socket.object ∉ taken.old.map Socket.object)) =
      (fun socket => Socket.is identity socket && !decide (socket.object ∈ taken.old.map Socket.object)) := by
    funext socket
    rw [decide_not]
  rw [negated]
  have listed := matching.listed identity
  have left := matching.left identity
  omega

theorem Wellformed.unmarked (steady : Steady now (Sampled sample sockets) (marks sockets)) (identity : Identity) :
    (SocketList.update_socket_list persistence now sample sockets).sockets.list.countP
      (fun socket => Socket.is identity socket && decide (socket.stamp = 0)) = (identities sample).count identity := by
  have matching := take_all_matching formed sample
  have swept := formed.swept persistence now sample
  have objects := (formed.update_socket_list persistence now sample).objects
  rw [← formed.countP_kept sample identity, List.countP_eq_length_filter, List.countP_eq_length_filter]
  apply List.Perm.length_eq
  refine (List.perm_ext_iff_of_nodup ((List.Nodup.of_map _ objects).filter _) ((List.Nodup.of_map _ matching.objects).filter _)).mpr ?_
  intro socket
  simp only [List.mem_filter, Bool.and_eq_true, decide_eq_true_iff]
  constructor
  · rintro ⟨member, isSame, zero⟩
    rcases (swept.mem socket).mp member with ⟨inside, notLeft⟩ | ⟨before, inside, left, among, same, -, rfl⟩
    · exact ⟨inside, isSame, notLeft⟩
    · exfalso
      obtain ⟨known, absent⟩ := (formed.mem_old sample).mp among
      obtain ⟨other, there, also⟩ := matching.kept left known
      have isOther := object_inj matching.objects there inside (also.object.trans same)
      subst isOther
      rw [closing] at zero
      dsimp only at zero
      split_ifs at zero with unmarked
      · have isZero : left.stamp = 0 := also.stamp.symm.trans unmarked
        refine steady.tick left.object ?_ ((marks_eq formed.objects).mpr ⟨left, known, rfl, isZero⟩) zero
        rw [formed.sampled sample known]
        exact absent
      · exact unmarked zero
  · rintro ⟨inside, isSame, notLeft⟩
    refine ⟨(swept.mem socket).mpr (.inl ⟨inside, notLeft⟩), isSame, ?_⟩
    rcases matching.fresh socket inside with ⟨known, there, same⟩ | ⟨-, zero, -⟩
    · rw [same.object, formed.left_over sample there, not_not] at notLeft
      rw [same.stamp]
      exact steady.back known.object known.stamp ((formed.sampled sample there).mpr notLeft) ((marks_eq formed.objects).mpr ⟨known, there, rfl, rfl⟩)
    · exact zero

omit formed in
/-- No socket that is about to go shares its hash with one that stays. -/
def Unshared (persistence now : Nat) (sample : List Connection) (sockets : Sockets) : Prop :=
  ∀ socket ∈ sockets.list, ¬ Found sample sockets socket → can_be_removed persistence now socket.stamp = true →
    (∀ connection ∈ sample, hash_id connection ≠ hash_id socket.connection) ∧
    ∀ other ∈ sockets.list, hash_id other.connection = hash_id socket.connection → can_be_removed persistence now other.stamp = true

theorem Wellformed.reported (unshared : Unshared persistence now sample sockets) {hash : Nat}
    (reported : hash ∈ (SocketList.update_socket_list persistence now sample sockets).removed) :
    ∀ socket ∈ (SocketList.update_socket_list persistence now sample sockets).sockets.list, hash_id socket.connection ≠ hash := by
  have matching := take_all_matching formed sample
  have swept := formed.swept persistence now sample
  obtain ⟨left, among, expired, rfl⟩ := (swept.removed hash).mp reported
  obtain ⟨known, absent⟩ := (formed.mem_old sample).mp among
  obtain ⟨noSample, others⟩ := unshared left known absent expired
  -- A socket that was found again has the hash of a connection of the sample.
  have notSampled {identity : Identity} (sampled : identity ∈ identities sample) : identity.hash ≠ hash_id left.connection := by
    obtain ⟨connection, inside, rfl⟩ := List.mem_map.mp sampled
    exact noSample connection inside
  intro socket member same
  rcases (swept.mem socket).mp member with ⟨inside, notLeft⟩ | ⟨before, inside, another, isLeft, isBefore, young, rfl⟩
  · rcases matching.fresh socket inside with ⟨first, there, also⟩ | ⟨-, -, sampled⟩
    · rw [also.object, formed.left_over sample there, not_not] at notLeft
      have positive : (identities sample).count first.connection.identity ≠ 0 := by
        intro zero
        rw [Found, zero, List.take_zero] at notLeft
        cases notLeft
      refine notSampled (List.count_pos_iff.mp (Nat.pos_of_ne_zero positive)) ?_
      rw [also.connection] at same
      exact same
    · exact notSampled sampled same
  · obtain ⟨isKnown, -⟩ := (formed.mem_old sample).mp isLeft
    obtain ⟨other, there, also⟩ := matching.kept another isKnown
    have isOther := object_inj matching.objects there inside (also.object.trans isBefore)
    subst isOther
    have gone := others another isKnown (by rw [← also.connection]; exact same)
    rw [gone] at young
    cases young

end

end TaskExplorer.SocketList
