import TaskExplorer.OrderedMap
import TaskExplorer.Transition

/-!
# The DNS cache

`CDnsResolver` keeps every entry in `m_DnsCache` under its host name, and once more in `m_AddressCache` under
its address or in `m_RedirectionCache` under its resolved name. Entries come from the resolver table of the system
and from reverse lookups; a multimap is a list with the newest pair in front.
-/

namespace TaskExplorer.DnsCache
open OrderedMap Transition

abbrev Name := List Char

/-- `QHostAddress`; `any` is the address that stands for both protocols. -/
inductive HostAddress where
  | null
  | any
  | ipv4 (value : UInt32)
  | ipv6 (value : BitVec 128)
deriving DecidableEq, Repr

def LocalHost : HostAddress := .ipv4 0x7F000001

def LocalHostIPv6 : HostAddress := .ipv6 1

def DNS_TYPE_A : UInt16 := 1
def DNS_TYPE_CNAME : UInt16 := 5
def DNS_TYPE_PTR : UInt16 := 12
def DNS_TYPE_MX : UInt16 := 15
def DNS_TYPE_AAAA : UInt16 := 28
def DNS_TYPE_SRV : UInt16 := 33

inductive Data where
  | a (ip : UInt32)
  | aaaa (ip : BitVec 128)
  | ptr (name : Name)
  | cname (name : Name)
  | srv (target : Name) (port : UInt16)
  | mx (name : Name)
  | other
deriving DecidableEq, Repr

structure Record where
  host : Name
  data : Data
  ttl : UInt32
deriving DecidableEq, Repr

/-- What of a `CDnsCacheEntry` never changes, and which object it is. -/
structure Entry where
  object : Nat
  host : Name
  type : UInt16
  address : HostAddress
  resolved : Name
deriving DecidableEq, Repr

structure Life where
  ttl : Int
  queryCounter : Nat
  removeTimeStamp : Nat
deriving DecidableEq, Repr

structure Cache where
  entries : List (Name × Entry)
  addresses : List (HostAddress × Entry)
  redirections : List (Name × Entry)
  lives : OrdMap Nat Life
  next : Nat
  lastTraverse : Nat

def initial : Cache := ⟨[], [], [], OrdMap.empty, 0, 0⟩

/-! ## Reverse names -/

/-- A place marker has a number of one or two digits. -/
def marker_number : Name → Option (Nat × Name)
  | [] => none
  | [tens] => if tens.isDigit then some (tens.toNat - '0'.toNat, []) else none
  | tens :: ones :: rest =>
    if tens.isDigit then
      if ones.isDigit then some (10 * (tens.toNat - '0'.toNat) + (ones.toNat - '0'.toNat), rest)
      else some (tens.toNat - '0'.toNat, ones :: rest)
    else none

/-- The place marker that a text begins with, as its number and what comes behind it. -/
def marker : Name → Option (Nat × Name)
  | '%' :: 'L' :: rest => marker_number rest
  | '%' :: rest => marker_number rest
  | _ => none

/-- Every place marker of a number is replaced; what belongs to a marker is skipped. -/
def replace_markers (number : Nat) (value : Name) : Nat → Name → Name
  | _, [] => []
  | skip + 1, _ :: rest => replace_markers number value skip rest
  | 0, letter :: rest =>
    match marker (letter :: rest) with
    | some (found, more) =>
      if found = number then value ++ replace_markers number value (rest.length - more.length) rest
      else letter :: replace_markers number value 0 rest
    | none => letter :: replace_markers number value 0 rest

/-- `QString::arg` replaces the place markers with the lowest number. -/
def arg (text value : Name) : Name :=
  match (text.tails.filterMap marker).map Prod.fst |>.min? with
  | some number => replace_markers number value 0 text
  | none => text

/-- The labels of a reverse name, each as a text that `QHostAddress` reads. The labels of an IPv4 address are put in one after the other. -/
def RevDnsHost2Address (parse : Name → HostAddress) (host : Name) : HostAddress :=
  let labels := host.splitOn '.'
  if labels.length ≥ 32 + 2 ∧ labels[32]? = some "ip6".toList ∧ labels[33]? = some "arpa".toList then
    let digits := (labels.take 32).reverse
    let groups := (List.range 8).map (fun group => ((digits.drop (4 * group)).take 4).flatten)
    parse ([':'].intercalate groups)
  else if labels.length ≥ 4 + 2 ∧ labels[4]? = some "in-addr".toList ∧ labels[5]? = some "arpa".toList then
    parse ((labels.take 4).reverse.foldl arg "%1.%2.%3.%4".toList)
  else .null

def decimal (number : Nat) : Name := Nat.toDigits 10 number

def hexadecimal (number : Nat) : Name := Nat.toDigits 16 number

/-- `AddressReverse` of a job. -/
def reverse_name : HostAddress → Name
  | .ipv4 value =>
    ((List.range 4).map (fun i => decimal (value.toNat / 256 ^ i % 256) ++ ['.'])).flatten ++ "in-addr.arpa".toList
  | .ipv6 value =>
    ((List.range 16).map (fun i =>
      hexadecimal (value.toNat / 256 ^ i % 16) ++ ['.'] ++ hexadecimal (value.toNat / 256 ^ i / 16 % 16) ++ ['.'])).flatten ++ "ip6.arpa".toList
  | .null | .any => []

/-! ## Lives -/

def life (cache : Cache) (entry : Entry) : Life := (cache.lives.get entry.object).getD ⟨0, 0, 0⟩

def with_life (cache : Cache) (entry : Entry) (change : Life → Life) : Cache :=
  { cache with lives := cache.lives.insert entry.object (change (life cache entry)) }

def SetTTL (ttl : Nat) (life : Life) : Life :=
  if life.ttl ≤ 0 then ⟨ttl, life.queryCounter + 1, 0⟩ else { life with ttl := ttl }

def SubtractTTL (delta : Nat) (life : Life) : Life := { life with ttl := (if life.ttl > 0 then 0 else life.ttl) - delta }

def GetDeadTime (life : Life) : Nat := if life.ttl < 0 then (-life.ttl).toNat else 0

def CanBeRemoved (now persistence : Nat) (life : Life) : Bool := life.removeTimeStamp ≠ 0 && decide (now - life.removeTimeStamp > persistence)

/-- `dwTtl * 1000`, in 32 bits. -/
def milliseconds (ttl : UInt32) : Nat := (ttl * 1000).toNat

/-! ## Filing -/

/-- `FindDnsEntry`, by the address or by the type and the resolved name. -/
def FindDnsEntry (entries : List (Name × Entry)) (host : Name) (fits : Entry → Bool) : Option (Name × Entry) :=
  entries.find? (fun pair => pair.1 == host && fits pair.2)

def has_address (address : HostAddress) (entry : Entry) : Bool := entry.address == address

def has_data (type : UInt16) (resolved : Name) (entry : Entry) : Bool := entry.type == type && entry.resolved == resolved

def new_entry (cache : Cache) (host : Name) (type : UInt16) (address : HostAddress) (resolved : Name) : Entry :=
  ⟨cache.next, host, type, address, resolved⟩

/-- `insertMulti` into the cache and one of its indexes. -/
def insert_entry (cache : Cache) (entry : Entry) (addressed : Bool) : Cache :=
  { cache with
    entries := (entry.host, entry) :: cache.entries
    addresses := bif addressed then (entry.address, entry) :: cache.addresses else cache.addresses
    redirections := bif addressed then cache.redirections else (entry.resolved, entry) :: cache.redirections
    next := cache.next + 1 }

/-- A record of the table: an old entry is found again, a duplicate is passed over, else there is a new entry. -/
def file_record (cache : Cache) (old : List (Name × Entry)) (record : Record) (type : UInt16) (address : HostAddress) (resolved : Name)
    (fits : Entry → Bool) : Cache × List (Name × Entry) :=
  match FindDnsEntry old record.host fits with
  | some pair => (with_life cache pair.2 (SetTTL (milliseconds record.ttl)), old.erase pair)
  | none =>
    match FindDnsEntry cache.entries record.host fits with
    | some _ => (cache, old)
    | none =>
      let entry := new_entry cache record.host type address resolved
      (with_life (insert_entry cache entry (address != .null)) entry (SetTTL (milliseconds record.ttl)), old)

/-- A PTR record leaves the switch before its address is found. -/
def take_record (toText : HostAddress → Name) (state : Cache × List (Name × Entry)) (record : Record) : Cache × List (Name × Entry) :=
  let addressed (type : UInt16) (address : HostAddress) :=
    if address = LocalHost ∨ address = LocalHostIPv6 then state
    else file_record state.1 state.2 record type address (toText address) (has_address address)
  let named (type : UInt16) (resolved : Name) := file_record state.1 state.2 record type .null resolved (has_data type resolved)
  match record.data with
  | .a ip => addressed DNS_TYPE_A (.ipv4 ip)
  | .aaaa ip => addressed DNS_TYPE_AAAA (.ipv6 ip)
  | .ptr name => named DNS_TYPE_PTR name
  | .cname name => named DNS_TYPE_CNAME name
  | .srv target port => named DNS_TYPE_SRV (target ++ [':'] ++ decimal port.toNat)
  | .mx name => named DNS_TYPE_MX name
  | .other => state

/-- `remove` of a pair takes out all of them. -/
def remove_entry (cache : Cache) (key : Name) (entry : Entry) : Cache :=
  { cache with
    entries := cache.entries.filter (· ≠ (key, entry))
    addresses := bif entry.address != .null then cache.addresses.filter (· ≠ (entry.address, entry)) else cache.addresses
    redirections := bif entry.address != .null then cache.redirections else cache.redirections.filter (· ≠ (entry.resolved, entry)) }

/-- An entry that was not found again stays for a while, is marked, or goes. -/
def drop_old (now persistence delta keep : Nat) (cache : Cache) (pair : Name × Entry) : Cache :=
  if GetDeadTime (life cache pair.2) < keep then with_life cache pair.2 (SubtractTTL delta)
  else if CanBeRemoved now persistence (life cache pair.2) then remove_entry cache pair.1 pair.2
  else if (life cache pair.2).removeTimeStamp = 0 then with_life cache pair.2 (fun life => { life with removeTimeStamp := now })
  else cache

/-- `keep` is the option `DnsPersistenceTime`. -/
def UpdateDnsCache (toText : HostAddress → Name) (table : List Record) (now persistence keep : Nat) (cache : Cache) : Cache :=
  let taken := table.foldl (take_record toText) (cache, cache.entries)
  taken.2.foldl (drop_old now persistence (now - cache.lastTraverse) keep) { taken.1 with lastTraverse := now }

/-- A result of a reverse lookup. -/
def add_result (parse : Name → HostAddress) (address : HostAddress) (cache : Cache) (result : Name × UInt32) : Cache :=
  match FindDnsEntry cache.entries (reverse_name address) (has_data DNS_TYPE_PTR result.1) with
  | some pair => with_life cache pair.2 (SetTTL (milliseconds result.2))
  | none =>
    let entry := new_entry cache (reverse_name address) DNS_TYPE_PTR (RevDnsHost2Address parse (reverse_name address)) result.1
    with_life (insert_entry cache entry true) entry (SetTTL (milliseconds result.2))

def complete_job (parse : Name → HostAddress) (address : HostAddress) (results : List (Name × UInt32)) (cache : Cache) : Cache :=
  results.foldl (add_result parse address) cache

def FlushDnsCache (cache : Cache) : Cache := { cache with entries := [], addresses := [], redirections := [] }

inductive Call where
  | update (table : List Record) (now persistence keep : Nat)
  | job (address : HostAddress) (results : List (Name × UInt32))
  | flush

def step (parse : Name → HostAddress) (toText : HostAddress → Name) (cache : Cache) : Call → Option Cache
  | .update table now persistence keep => some (UpdateDnsCache toText table now persistence keep cache)
  | .job address results => some (complete_job parse address results cache)
  | .flush => some (FlushDnsCache cache)

/-- An entry whose time is up is not a valid answer any more. -/
def is_expired (life : Life) : Bool :=
  life.ttl ≤ 0 && decide (GetDeadTime life > min (10 * 1000 * (life.queryCounter + 2 ^ 64 - 1) % 2 ^ 64) (300 * 1000))

/-- The names that `GetHostName` finds for an address. -/
def rev_host_names (cache : Cache) (address : HostAddress) : List Name :=
  (cache.addresses.filter (fun pair => pair.1 == address && pair.2.type == DNS_TYPE_PTR && !is_expired (life cache pair.2))).map
    (fun pair => pair.2.resolved)

/-! ## The property -/

section
variable (parse : Name → HostAddress) (toText : HostAddress → Name)

/-- The address of an entry: that of an A or AAAA record, and that of the host name of a PTR record. -/
def own_address (entry : Entry) : HostAddress :=
  if entry.type = DNS_TYPE_A ∨ entry.type = DNS_TYPE_AAAA then entry.address
  else if entry.type = DNS_TYPE_PTR then RevDnsHost2Address parse entry.host
  else .null

/-- The data of the record that an entry is for. -/
def Entry.data (entry : Entry) : HostAddress ⊕ Name :=
  if entry.type = DNS_TYPE_A ∨ entry.type = DNS_TYPE_AAAA then .inl entry.address else .inr entry.resolved

/-- Every entry is in the cache once and in one of the indexes, under its address or else under its resolved name. -/
structure Agrees (cache : Cache) : Prop where
  keyed : ∀ pair ∈ cache.entries, pair.1 = pair.2.host
  once : (cache.entries.map (fun pair => pair.2.object)).Nodup
  distinct : cache.entries.Pairwise (fun one other => ¬ (one.2.host = other.2.host ∧ one.2.type = other.2.type ∧ one.2.data = other.2.data))
  addressed : ∀ address entry, (address, entry) ∈ cache.addresses ↔
    (entry.host, entry) ∈ cache.entries ∧ own_address parse entry = address ∧ address ≠ .null
  redirected : ∀ name entry, (name, entry) ∈ cache.redirections ↔
    (entry.host, entry) ∈ cache.entries ∧ own_address parse entry = .null ∧ entry.resolved = name
  addressedOnce : cache.addresses.Nodup
  redirectedOnce : cache.redirections.Nodup

/-- The entries are filed where they say. -/
structure Sound (cache : Cache) : Prop where
  agrees : Agrees parse cache
  own : ∀ pair ∈ cache.entries, pair.2.address = own_address parse pair.2
  fresh : ∀ pair ∈ cache.entries, pair.2.object < cache.next

/-- The record is one of a valid reverse name. -/
def IsReverse (record : Record) (name : Name) : Prop := record.data = .ptr name ∧ RevDnsHost2Address parse record.host ≠ .null

/-- Every PTR record of a table that has a valid reverse name is in the cache already, and reverse lookups are for addresses that have one. -/
def Known (cache : Cache) : Call → Prop
  | .update table _ _ _ => ∀ record ∈ table, ∀ name, IsReverse parse record name →
    ∃ pair ∈ cache.entries, pair.1 = record.host ∧ pair.2.type = DNS_TYPE_PTR ∧ pair.2.resolved = name
  | .job address results => results ≠ [] → RevDnsHost2Address parse (reverse_name address) ≠ .null
  | .flush => True

/-! ## One entry more or less -/

variable {parse}

theorem initial_sound : Sound parse initial := by
  refine ⟨⟨?_, List.nodup_nil, List.Pairwise.nil, ?_, ?_, List.nodup_nil, List.nodup_nil⟩, ?_, ?_⟩ <;> simp [initial]

variable {cache : Cache}

theorem Sound.with_life (sound : Sound parse cache) (entry : Entry) (change : Life → Life) :
    Sound parse (with_life cache entry change) := by
  obtain ⟨⟨keyed, once, distinct, addressed, redirected, addressedOnce, redirectedOnce⟩, own, fresh⟩ := sound
  exact ⟨⟨keyed, once, distinct, addressed, redirected, addressedOnce, redirectedOnce⟩, own, fresh⟩

theorem Sound.insert {cache : Cache} (sound : Sound parse cache) {entry : Entry} (isNew : entry.object = cache.next)
    (isOwn : entry.address = own_address parse entry)
    (distinct : ∀ pair ∈ cache.entries, ¬ (entry.host = pair.2.host ∧ entry.type = pair.2.type ∧ entry.data = pair.2.data)) :
    Sound parse (insert_entry cache entry (entry.address != .null)) := by
  obtain ⟨agrees, own, fresh⟩ := sound
  have absent : ∀ key, (key, entry) ∉ cache.entries := fun key member => absurd (fresh _ member) (by simp [isNew])
  have notAddressed : ∀ address, (address, entry) ∉ cache.addresses := fun address member => absent _ ((agrees.addressed _ _).mp member).1
  have notRedirected : ∀ name, (name, entry) ∉ cache.redirections := fun name member => absent _ ((agrees.redirected _ _).mp member).1
  refine ⟨⟨?_, ?_, ?_, ?_, ?_, ?_, ?_⟩, ?_, ?_⟩
  · rintro pair (_ | ⟨_, member⟩)
    · rfl
    · exact agrees.keyed pair member
  · refine List.nodup_cons.mpr ⟨?_, agrees.once⟩
    intro member
    obtain ⟨pair, isPair, same⟩ := List.mem_map.mp member
    have smaller := fresh pair isPair
    simp only [isNew] at same
    omega
  · exact List.pairwise_cons.mpr ⟨distinct, agrees.distinct⟩
  · intro address other
    by_cases isAddress : entry.address = .null
    · simp only [insert_entry, isAddress, bne_self_eq_false, cond_false, List.mem_cons, Prod.mk.injEq, agrees.addressed]
      constructor
      · rintro ⟨member, rest⟩
        exact ⟨.inr member, rest⟩
      · rintro ⟨⟨-, rfl⟩ | member, isOther, notNull⟩
        · rw [← isOwn, isAddress] at isOther
          exact absurd isOther.symm notNull
        · exact ⟨member, isOther, notNull⟩
    · have flag : (entry.address != .null) = true := by simpa using isAddress
      simp only [insert_entry, flag, cond_true, List.mem_cons, Prod.mk.injEq, agrees.addressed]
      constructor
      · rintro (⟨rfl, rfl⟩ | ⟨member, rest⟩)
        · exact ⟨.inl ⟨rfl, rfl⟩, isOwn.symm, isAddress⟩
        · exact ⟨.inr member, rest⟩
      · rintro ⟨⟨-, rfl⟩ | member, isOther, notNull⟩
        · exact .inl ⟨isOther.symm.trans isOwn.symm, rfl⟩
        · exact .inr ⟨member, isOther, notNull⟩
  · intro name other
    by_cases isAddress : entry.address = .null
    · simp only [insert_entry, isAddress, bne_self_eq_false, cond_false, List.mem_cons, Prod.mk.injEq, agrees.redirected]
      constructor
      · rintro (⟨rfl, rfl⟩ | ⟨member, rest⟩)
        · exact ⟨.inl ⟨rfl, rfl⟩, isOwn.symm.trans isAddress, rfl⟩
        · exact ⟨.inr member, rest⟩
      · rintro ⟨⟨-, rfl⟩ | member, isOther, isName⟩
        · exact .inl ⟨isName.symm, rfl⟩
        · exact .inr ⟨member, isOther, isName⟩
    · have flag : (entry.address != .null) = true := by simpa using isAddress
      simp only [insert_entry, flag, cond_true, List.mem_cons, Prod.mk.injEq, agrees.redirected]
      constructor
      · rintro ⟨member, rest⟩
        exact ⟨.inr member, rest⟩
      · rintro ⟨⟨-, rfl⟩ | member, isOther, isName⟩
        · exact absurd (isOwn.trans isOther) isAddress
        · exact ⟨member, isOther, isName⟩
  · rw [insert_entry]
    cases entry.address != .null with
    | true => exact List.nodup_cons.mpr ⟨notAddressed _, agrees.addressedOnce⟩
    | false => exact agrees.addressedOnce
  · rw [insert_entry]
    cases entry.address != .null with
    | true => exact agrees.redirectedOnce
    | false => exact List.nodup_cons.mpr ⟨notRedirected _, agrees.redirectedOnce⟩
  · rintro pair (_ | ⟨_, member⟩)
    · exact isOwn
    · exact own pair member
  · rintro pair (_ | ⟨_, member⟩)
    · simp [insert_entry, isNew]
    · exact (fresh pair member).trans (Nat.lt_succ_self _)

theorem Sound.remove (sound : Sound parse cache) {key : Name} {entry : Entry} (member : (key, entry) ∈ cache.entries) :
    Sound parse (remove_entry cache key entry) := by
  obtain ⟨agrees, own, fresh⟩ := sound
  have isKey : key = entry.host := agrees.keyed _ member
  have isOwn : entry.address = own_address parse entry := own _ member
  have among : ∀ {pair}, pair ∈ (remove_entry cache key entry).entries → pair ∈ cache.entries := fun isPair => (List.mem_filter.mp isPair).1
  have kept : ∀ other : Entry, (other.host, other) ∈ (remove_entry cache key entry).entries ↔ (other.host, other) ∈ cache.entries ∧ other ≠ entry := by
    intro other
    simp only [remove_entry, List.mem_filter, decide_eq_true_eq, ne_eq, Prod.mk.injEq, not_and]
    constructor
    · rintro ⟨isOther, differ⟩
      exact ⟨isOther, fun same => differ (by rw [same, isKey]) same⟩
    · exact fun ⟨isOther, differ⟩ => ⟨isOther, fun _ => differ⟩
  refine ⟨⟨fun pair isPair => agrees.keyed pair (among isPair), ?_, agrees.distinct.filter _, ?_, ?_, ?_, ?_⟩,
    fun pair isPair => own pair (among isPair), fun pair isPair => fresh pair (among isPair)⟩
  · exact agrees.once.sublist (List.filter_sublist.map _)
  · intro address other
    rw [kept]
    by_cases isAddress : entry.address = .null
    · simp only [remove_entry, isAddress, bne_self_eq_false, cond_false, agrees.addressed]
      constructor
      · rintro ⟨isOther, isThere, notNull⟩
        refine ⟨⟨isOther, ?_⟩, isThere, notNull⟩
        rintro rfl
        exact notNull (isThere.symm.trans (isOwn.symm.trans isAddress))
      · rintro ⟨⟨isOther, -⟩, rest⟩
        exact ⟨isOther, rest⟩
    · have flag : (entry.address != .null) = true := by simpa using isAddress
      simp only [remove_entry, flag, cond_true, List.mem_filter, agrees.addressed, decide_eq_true_eq, ne_eq, Prod.mk.injEq, not_and]
      constructor
      · rintro ⟨⟨isOther, isThere, notNull⟩, differ⟩
        refine ⟨⟨isOther, ?_⟩, isThere, notNull⟩
        rintro rfl
        exact differ (isThere.symm.trans isOwn.symm) rfl
      · rintro ⟨⟨isOther, differ⟩, rest⟩
        exact ⟨⟨isOther, rest⟩, fun _ => differ⟩
  · intro name other
    rw [kept]
    by_cases isAddress : entry.address = .null
    · simp only [remove_entry, isAddress, bne_self_eq_false, cond_false, List.mem_filter, agrees.redirected, decide_eq_true_eq, ne_eq, Prod.mk.injEq,
        not_and]
      constructor
      · rintro ⟨⟨isOther, isThere, isName⟩, differ⟩
        refine ⟨⟨isOther, ?_⟩, isThere, isName⟩
        rintro rfl
        exact differ isName.symm rfl
      · rintro ⟨⟨isOther, differ⟩, rest⟩
        exact ⟨⟨isOther, rest⟩, fun _ => differ⟩
    · have flag : (entry.address != .null) = true := by simpa using isAddress
      simp only [remove_entry, flag, cond_true, agrees.redirected]
      constructor
      · rintro ⟨isOther, isThere, isName⟩
        refine ⟨⟨isOther, ?_⟩, isThere, isName⟩
        rintro rfl
        exact isAddress (isOwn.trans isThere)
      · rintro ⟨⟨isOther, -⟩, rest⟩
        exact ⟨isOther, rest⟩
  · rw [remove_entry]
    cases entry.address != .null with
    | true => exact agrees.addressedOnce.filter _
    | false => exact agrees.addressedOnce
  · rw [remove_entry]
    cases entry.address != .null with
    | true => exact agrees.redirectedOnce
    | false => exact agrees.redirectedOnce.filter _

/-! ## A table -/

theorem find_entry {entries : List (Name × Entry)} {host : Name} {fits : Entry → Bool} {pair : Name × Entry}
    (found : FindDnsEntry entries host fits = some pair) : pair ∈ entries ∧ pair.1 = host ∧ fits pair.2 = true := by
  have passes := List.find?_some found
  rw [Bool.and_eq_true, beq_iff_eq] at passes
  exact ⟨List.mem_of_find?_eq_some found, passes⟩

theorem find_entry_none {entries : List (Name × Entry)} {host : Name} {fits : Entry → Bool} (absent : FindDnsEntry entries host fits = none)
    {pair : Name × Entry} (member : pair ∈ entries) (isHost : pair.1 = host) : fits pair.2 = false := by
  have fails := List.find?_eq_none.mp absent pair member
  simpa [isHost] using fails

/-- While the table is gone through: the entries of `old` are in the cache, and none has gone. -/
structure Taking (parse : Name → HostAddress) (first : Cache) (state : Cache × List (Name × Entry)) : Prop where
  sound : Sound parse state.1
  old : state.2 ⊆ state.1.entries
  once : state.2.Nodup
  kept : first.entries ⊆ state.1.entries

/-- The record has an entry, and it was found again. -/
def Found (state : Cache × List (Name × Entry)) (host : Name) (fits : Entry → Bool) : Prop :=
  ∃ pair ∈ state.1.entries, pair ∉ state.2 ∧ pair.1 = host ∧ fits pair.2 = true

/-- What a record leaves of what was found before. -/
def Keeps (state later : Cache × List (Name × Entry)) : Prop := state.1.entries ⊆ later.1.entries ∧ later.2 ⊆ state.2

variable {state : Cache × List (Name × Entry)}

theorem Found.keeps {later : Cache × List (Name × Entry)} (keeps : Keeps state later) {host : Name}
    {fits : Entry → Bool} (found : Found state host fits) : Found later host fits := by
  obtain ⟨pair, member, notOld, rest⟩ := found
  exact ⟨pair, keeps.1 member, fun isOld => notOld (keeps.2 isOld), rest⟩

theorem Taking.file {first : Cache} {state : Cache × List (Name × Entry)} (taking : Taking parse first state) (record : Record) (type : UInt16)
    (address : HostAddress) (resolved : Name) {fits : Entry → Bool} (itself : fits (new_entry state.1 record.host type address resolved) = true)
    (isOwn : FindDnsEntry state.1.entries record.host fits = none → address = own_address parse (new_entry state.1 record.host type address resolved))
    (complete : ∀ entry : Entry, entry.type = type → entry.data = (new_entry state.1 record.host type address resolved).data → fits entry = true) :
    Taking parse first (file_record state.1 state.2 record type address resolved fits) ∧
      Keeps state (file_record state.1 state.2 record type address resolved fits) ∧
      Found (file_record state.1 state.2 record type address resolved fits) record.host fits := by
  obtain ⟨sound, old, once, kept⟩ := taking
  rw [file_record]
  cases again : FindDnsEntry state.2 record.host fits with
  | some pair =>
    obtain ⟨member, isHost, passes⟩ := find_entry again
    refine ⟨⟨sound.with_life _ _, fun other isOther => old (List.mem_of_mem_erase isOther), once.erase _, kept⟩,
      ⟨fun other isOther => isOther, fun other isOther => List.mem_of_mem_erase isOther⟩, pair, old member, once.not_mem_erase, isHost, passes⟩
  | none =>
    cases there : FindDnsEntry state.1.entries record.host fits with
    | some pair =>
      obtain ⟨member, isHost, passes⟩ := find_entry there
      refine ⟨⟨sound, old, once, kept⟩, ⟨fun other isOther => isOther, fun other isOther => isOther⟩, pair, member, ?_, isHost, passes⟩
      intro isOld
      rw [find_entry_none again isOld isHost] at passes
      cases passes
    | none =>
      have inserted : Sound parse (insert_entry state.1 (new_entry state.1 record.host type address resolved) (address != .null)) := by
        refine sound.insert rfl (isOwn there) ?_
        rintro pair member ⟨sameHost, sameType, sameData⟩
        have isHost : pair.1 = record.host := (sound.agrees.keyed pair member).trans sameHost.symm
        have passes := complete pair.2 sameType.symm sameData.symm
        rw [find_entry_none there member isHost] at passes
        cases passes
      refine ⟨⟨inserted.with_life _ _, fun other isOther => List.mem_cons_of_mem _ (old isOther), once, fun other isOther =>
        List.mem_cons_of_mem _ (kept isOther)⟩, ⟨fun other isOther => List.mem_cons_of_mem _ isOther, fun other isOther => isOther⟩,
        (record.host, new_entry state.1 record.host type address resolved), List.mem_cons_self, ?_, rfl, itself⟩
      intro isOld
      exact absurd (sound.fresh _ (old isOld)) (by simp [new_entry])

theorem Taking.take {first : Cache} (taking : Taking parse first state) (record : Record)
    (known : ∀ name, IsReverse parse record name → ∃ pair ∈ first.entries, pair.1 = record.host ∧ pair.2.type = DNS_TYPE_PTR ∧ pair.2.resolved = name)
    :
    Taking parse first (take_record toText state record) ∧ Keeps state (take_record toText state record) ∧
      ∀ name, record.data = .ptr name → Found (take_record toText state record) record.host (has_data DNS_TYPE_PTR name) := by
  have same : Taking parse first state ∧ Keeps state state := ⟨taking, fun other isOther => isOther, fun other isOther => isOther⟩
  have addressed : ∀ type address, type = DNS_TYPE_A ∨ type = DNS_TYPE_AAAA →
      Taking parse first (if address = LocalHost ∨ address = LocalHostIPv6 then state
        else file_record state.1 state.2 record type address (toText address) (has_address address)) ∧
      Keeps state (if address = LocalHost ∨ address = LocalHostIPv6 then state
        else file_record state.1 state.2 record type address (toText address) (has_address address)) := by
    intro type address isType
    split_ifs
    · exact same
    · have complete : ∀ entry : Entry, entry.type = type →
          entry.data = (new_entry state.1 record.host type address (toText address)).data → has_address address entry = true := by
        intro entry sameType sameData
        simp only [Entry.data, sameType, new_entry, isType, if_true, Sum.inl.injEq] at sameData
        simp [has_address, sameData]
      have filed := @Taking.file parse _ _ taking record type address (toText address) (has_address address) (by simp [has_address, new_entry])
        (fun _ => by simp [own_address, new_entry, isType]) complete
      exact ⟨filed.1, filed.2.1⟩
  have named : ∀ type resolved, type ≠ DNS_TYPE_A → type ≠ DNS_TYPE_AAAA →
      (type = DNS_TYPE_PTR → record.data = .ptr resolved) →
      Taking parse first (file_record state.1 state.2 record type .null resolved (has_data type resolved)) ∧
      Keeps state (file_record state.1 state.2 record type .null resolved (has_data type resolved)) ∧
      Found (file_record state.1 state.2 record type .null resolved (has_data type resolved)) record.host (has_data type resolved) := by
    intro type resolved notA notAaaa isPtr
    refine taking.file record type .null resolved (by simp [has_data, new_entry]) ?_ ?_
    · intro absent
      simp only [own_address, new_entry, notA, notAaaa, or_self, if_false]
      by_cases isType : type = DNS_TYPE_PTR
      · by_contra notNull
        simp only [isType, if_true] at notNull
        obtain ⟨pair, member, isHost, pairType, pairName⟩ := known resolved ⟨isPtr isType, fun none => notNull none.symm⟩
        have fails := find_entry_none absent (taking.kept member) isHost
        simp [has_data, pairType, pairName, isType] at fails
      · simp only [isType, if_false]
    · intro entry sameType sameData
      simp only [Entry.data, sameType, new_entry, notA, notAaaa, or_self, if_false, Sum.inr.injEq] at sameData
      simp [has_data, sameType, sameData]
  rw [take_record]
  cases isData : record.data with
  | a ip => exact ⟨(addressed _ _ (.inl rfl)).1, (addressed _ _ (.inl rfl)).2, fun name isName => by cases isName⟩
  | aaaa ip => exact ⟨(addressed _ _ (.inr rfl)).1, (addressed _ _ (.inr rfl)).2, fun name isName => by cases isName⟩
  | ptr host =>
    obtain ⟨taken, keeps, found⟩ := named DNS_TYPE_PTR host (by decide) (by decide) (fun _ => isData)
    refine ⟨taken, keeps, ?_⟩
    rintro name ⟨⟩
    exact found
  | cname host =>
    have filed := named DNS_TYPE_CNAME host (by decide) (by decide) (fun impossible => absurd impossible (by decide))
    exact ⟨filed.1, filed.2.1, fun name isName => by cases isName⟩
  | srv target port =>
    have filed := named DNS_TYPE_SRV (target ++ [':'] ++ decimal port.toNat) (by decide) (by decide) (fun impossible => absurd impossible (by decide))
    exact ⟨filed.1, filed.2.1, fun name isName => by cases isName⟩
  | mx host =>
    have filed := named DNS_TYPE_MX host (by decide) (by decide) (fun impossible => absurd impossible (by decide))
    exact ⟨filed.1, filed.2.1, fun name isName => by cases isName⟩
  | other => exact ⟨same.1, same.2, fun name isName => by cases isName⟩

theorem Taking.all {first : Cache} {table : List Record} (taking : Taking parse first state)
    (known : ∀ record ∈ table, ∀ name, IsReverse parse record name → ∃ pair ∈ first.entries, pair.1 = record.host ∧ pair.2.type = DNS_TYPE_PTR ∧ pair.2.resolved = name)
    :
    Taking parse first (table.foldl (take_record toText) state) ∧ Keeps state (table.foldl (take_record toText) state) ∧
      ∀ record ∈ table, ∀ name, record.data = .ptr name → Found (table.foldl (take_record toText) state) record.host (has_data DNS_TYPE_PTR name) := by
  induction table generalizing state with
  | nil => exact ⟨taking, ⟨fun other isOther => isOther, fun other isOther => isOther⟩, by simp⟩
  | cons record rest ih =>
    obtain ⟨taken, keeps, found⟩ := taking.take toText record (known record List.mem_cons_self)
    obtain ⟨after, keepsAfter, foundAfter⟩ := ih taken (fun other later => known other (List.mem_cons_of_mem _ later))
    refine ⟨after, ⟨fun other isOther => keepsAfter.1 (keeps.1 isOther), fun other isOther => keeps.2 (keepsAfter.2 isOther)⟩, ?_⟩
    intro other isOther name isName
    rcases List.mem_cons.mp isOther with rfl | later
    · exact (found name isName).keeps keepsAfter
    · exact foundAfter other later name isName

theorem Sound.drop {old : List (Name × Entry)} (now persistence delta keep : Nat) (sound : Sound parse cache)
    (once : old.Nodup) (there : old ⊆ cache.entries) :
    Sound parse (old.foldl (drop_old now persistence delta keep) cache) ∧
      ∀ pair ∈ cache.entries, pair ∉ old → pair ∈ (old.foldl (drop_old now persistence delta keep) cache).entries := by
  induction old generalizing cache with
  | nil => exact ⟨sound, fun pair member _ => member⟩
  | cons first rest ih =>
    obtain ⟨notRest, onceRest⟩ := List.nodup_cons.mp once
    have cases : Sound parse (drop_old now persistence delta keep cache first) ∧
        ∀ pair ∈ cache.entries, pair ≠ first → pair ∈ (drop_old now persistence delta keep cache first).entries := by
      rw [drop_old]
      split_ifs
      · exact ⟨sound.with_life _ _, fun pair member _ => member⟩
      · refine ⟨sound.remove (there List.mem_cons_self), fun pair member differ => ?_⟩
        exact List.mem_filter.mpr ⟨member, by simpa using differ⟩
      · exact ⟨sound.with_life _ _, fun pair member _ => member⟩
      · exact ⟨sound, fun pair member _ => member⟩
    have thereRest : rest ⊆ (drop_old now persistence delta keep cache first).entries := by
      intro pair member
      refine cases.2 pair (there (List.mem_cons_of_mem _ member)) ?_
      rintro rfl
      exact notRest member
    obtain ⟨after, stays⟩ := ih cases.1 onceRest thereRest
    refine ⟨after, ?_⟩
    intro pair member notOld
    rw [List.mem_cons, not_or] at notOld
    exact stays pair (cases.2 pair member notOld.1) notOld.2

theorem Sound.update (sound : Sound parse cache) {table : List Record} (now persistence keep : Nat)
    (known : Known parse cache (.update table now persistence keep)) :
    Sound parse (UpdateDnsCache toText table now persistence keep cache) ∧
      ∀ record ∈ table, ∀ name, record.data = .ptr name → ∃ pair ∈ (UpdateDnsCache toText table now persistence keep cache).entries,
        pair.1 = record.host ∧ pair.2.type = DNS_TYPE_PTR ∧ pair.2.resolved = name := by
  have start : Taking parse cache (cache, cache.entries) := by
    refine ⟨sound, fun other isOther => isOther, ?_, fun other isOther => isOther⟩
    exact List.Nodup.of_map _ sound.agrees.once
  obtain ⟨taking, -, found⟩ := start.all toText known
  obtain ⟨⟨keyed, once, distinct, addressed, redirected, addressedOnce, redirectedOnce⟩, own, fresh⟩ := taking.sound
  have traversed : Sound parse { (table.foldl (take_record toText) (cache, cache.entries)).1 with lastTraverse := now } :=
    ⟨⟨keyed, once, distinct, addressed, redirected, addressedOnce, redirectedOnce⟩, own, fresh⟩
  obtain ⟨after, stays⟩ := traversed.drop now persistence (now - cache.lastTraverse) keep taking.once taking.old
  refine ⟨after, ?_⟩
  intro record member name isName
  obtain ⟨pair, isPair, notOld, isHost, passes⟩ := found record member name isName
  simp only [has_data, Bool.and_eq_true, beq_iff_eq] at passes
  exact ⟨pair, stays pair isPair notOld, isHost, passes⟩

/-! ## Lookups -/

theorem Sound.add (sound : Sound parse cache) {address : HostAddress}
    (valid : RevDnsHost2Address parse (reverse_name address) ≠ .null) (result : Name × UInt32) :
    Sound parse (add_result parse address cache result) := by
  rw [add_result]
  cases there : FindDnsEntry cache.entries (reverse_name address) (has_data DNS_TYPE_PTR result.1) with
  | some pair => exact sound.with_life _ _
  | none =>
    have flag : (RevDnsHost2Address parse (reverse_name address) != .null) = true := by simpa using valid
    have inserted := @Sound.insert parse cache sound
      (new_entry cache (reverse_name address) DNS_TYPE_PTR (RevDnsHost2Address parse (reverse_name address)) result.1) rfl
      (by simp [own_address, new_entry, DNS_TYPE_PTR, DNS_TYPE_A, DNS_TYPE_AAAA]) (by
        rintro pair member ⟨sameHost, sameType, sameData⟩
        have isHost : pair.1 = reverse_name address := (sound.agrees.keyed pair member).trans sameHost.symm
        have fails := find_entry_none there member isHost
        simp [Entry.data, ← sameType, new_entry, DNS_TYPE_PTR, DNS_TYPE_A, DNS_TYPE_AAAA] at sameData
        simp [has_data, ← sameType, ← sameData, new_entry] at fails)
    rw [show (new_entry cache (reverse_name address) DNS_TYPE_PTR (RevDnsHost2Address parse (reverse_name address)) result.1).address =
      RevDnsHost2Address parse (reverse_name address) from rfl, flag] at inserted
    exact inserted.with_life _ _

theorem Sound.job (sound : Sound parse cache) {address : HostAddress} {results : List (Name × UInt32)}
    (known : Known parse cache (.job address results)) : Sound parse (complete_job parse address results cache) := by
  rw [complete_job]
  cases results with
  | nil => exact sound
  | cons first rest =>
    have valid := known (by simp)
    generalize first :: rest = results
    induction results generalizing cache with
    | nil => exact sound
    | cons result results ih => exact ih (sound.add valid result) (fun _ => valid)

theorem flush_sound (cache : Cache) : Sound parse (FlushDnsCache cache) := by
  refine ⟨⟨?_, List.nodup_nil, List.Pairwise.nil, ?_, ?_, List.nodup_nil, List.nodup_nil⟩, ?_, ?_⟩ <;> simp [FlushDnsCache]

theorem Sound.step {later : Cache} {call : Call} (sound : Sound parse cache) (known : Known parse cache call)
    (moved : step parse toText cache call = some later) : Sound parse later := by
  cases call with
  | update table now persistence keep =>
    cases moved
    exact (sound.update toText now persistence keep known).1
  | job address results =>
    cases moved
    exact sound.job known
  | flush =>
    cases moved
    exact flush_sound cache

/-- The name of a PTR record is found for the address of its host name, as long as it has not expired. -/
def NamesFound (parse : Name → HostAddress) (table : List Record) (later : Cache) : Prop :=
  ∀ record ∈ table, ∀ name, IsReverse parse record name →
    ∃ entry, (RevDnsHost2Address parse record.host, entry) ∈ later.addresses ∧ entry.type = DNS_TYPE_PTR ∧ entry.resolved = name ∧
      (is_expired (life later entry) = false → name ∈ rev_host_names later (RevDnsHost2Address parse record.host))

theorem Sound.names_found (sound : Sound parse cache) {table : List Record} (now persistence keep : Nat)
    (known : Known parse cache (.update table now persistence keep)) :
    NamesFound parse table (UpdateDnsCache toText table now persistence keep cache) := by
  obtain ⟨after, found⟩ := sound.update toText now persistence keep known
  rintro record member name ⟨isName, valid⟩
  obtain ⟨⟨key, entry⟩, isPair, isHost, isPtr, isResolved⟩ := found record member name isName
  dsimp only at isHost isPtr isResolved
  have sameHost : entry.host = record.host := (after.agrees.keyed _ isPair).symm.trans isHost
  have isAddress : own_address parse entry = RevDnsHost2Address parse record.host := by
    simp [own_address, isPtr, sameHost, DNS_TYPE_PTR, DNS_TYPE_A, DNS_TYPE_AAAA]
  have filed := (after.agrees.addressed (RevDnsHost2Address parse record.host) entry).mpr ⟨by rwa [sameHost, ← isHost], isAddress, valid⟩
  refine ⟨entry, filed, isPtr, isResolved, fun lives => ?_⟩
  rw [rev_host_names, List.mem_map]
  exact ⟨_, List.mem_filter.mpr ⟨filed, by simp [isPtr, lives]⟩, isResolved⟩

end

/-- `QHostAddress` of a text with dots. -/
def dotted_address (text : Name) : HostAddress :=
  match text.splitOn '.' with
  | [one, two, three, four] =>
    let number (digits : Name) : Nat := digits.foldl (fun value digit => 10 * value + (digit.toNat - '0'.toNat)) 0
    .ipv4 (UInt32.ofNat (((number one * 256 + number two) * 256 + number three) * 256 + number four))
  | _ => .null

/-- `toString` of an IPv4 address. -/
def address_dotted : HostAddress → Name
  | .ipv4 value => ['.'].intercalate ((List.range 4).reverse.map (fun i => decimal (value.toNat / 256 ^ i % 256)))
  | _ => []

/-- Whether the name of a PTR record is in the cache. -/
def knows (cache : Cache) (record : Record) : Bool :=
  match record.data with
  | .ptr name => cache.entries.any (fun pair => pair.1 == record.host && pair.2.type == DNS_TYPE_PTR && pair.2.resolved == name)
  | _ => true

theorem known_of_knows {parse : Name → HostAddress} {cache : Cache} {table : List Record} (all : table.all (knows cache) = true)
    (now persistence keep : Nat) : Known parse cache (.update table now persistence keep) := by
  rintro record member name ⟨isName, -⟩
  have known := List.all_eq_true.mp all record member
  simp only [knows, isName, List.any_eq_true, Bool.and_eq_true, beq_iff_eq] at known
  obtain ⟨pair, isPair, ⟨isHost, isPtr⟩, isResolved⟩ := known
  exact ⟨pair, isPair, isHost, isPtr, isResolved⟩

end TaskExplorer.DnsCache
