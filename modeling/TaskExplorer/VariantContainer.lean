import TaskExplorer.VariantFormat

/-!
# Containers in a payload

A MAP, INDEX or LIST payload is a row of packets, each behind its key: a name
with a length byte, an index of four bytes, or nothing. `raw_entries` is the
loop that `SVariant::Map`, `List` and `IMap` share with `ReadRawMap`,
`ReadRawList` and `ReadRawIMap`; `parse` is what the first three keep of it.
-/

namespace TaskExplorer.VariantContainer
open Codec OrderedMap VariantFormat
set_option linter.unusedSimpArgs false

inductive Kind where
  | map
  | list
  | index
deriving DecidableEq, Repr

def Kind.type : Kind → VarType
  | .map => VAR_TYPE_MAP
  | .list => VAR_TYPE_LIST
  | .index => VAR_TYPE_INDEX

def kindOf (type : VarType) : Option Kind :=
  if type = VAR_TYPE_MAP then some .map
  else if type = VAR_TYPE_LIST then some .list
  else if type = VAR_TYPE_INDEX then some .index
  else none

/-- What an entry is kept under; the items of a list have only their place. -/
inductive Key where
  | name (text : Bytes)
  | id (value : UInt32)
  | item
deriving DecidableEq, Repr

/-- Names before indices, names by their bytes and indices by their value. -/
private def rank : Key → ℕ ×ₗ List UInt8 ×ₗ ℕ
  | .name text => toLex (0, toLex (text, 0))
  | .id value => toLex (1, toLex ([], value.toNat))
  | .item => toLex (2, toLex ([], 0))

private theorem rank_injective : Function.Injective rank := by
  intro left right same
  cases left <;> cases right <;> simp_all [rank, UInt32.toNat_inj]

instance : LinearOrder Key := LinearOrder.lift' rank rank_injective

/-- A `std::string` built from `Name.c_str()` ends at the first NUL. -/
def c_str (name : Bytes) : Bytes := name.takeWhile (· ≠ 0)

theorem c_str_of_plain {name : Bytes} (plain : (0 : UInt8) ∉ name) : c_str name = name := by
  rw [c_str, List.takeWhile_eq_self_iff]
  intro byte member
  have nonzero : byte ≠ 0 := fun zero => plain (zero ▸ member)
  simpa using nonzero

def Key.stored : Key → Key
  | .name text => .name (c_str text)
  | key => key

/-! ## Reading entries -/

def read_key (kind : Kind) (buffer : Cursor) : Except CException (Key × Cursor) :=
  match kind with
  | .map => do
    let (length, buffer) ← read_value 1 buffer
    if buffer.left.length < length then throw { line := "invalid variant name" }
    let (name, buffer) ← read_data length buffer
    return (.name name, buffer)
  | .list => return (.item, buffer)
  | .index => do
    let (id, buffer) ← read_value 4 buffer
    return (.id (UInt32.ofNat id), buffer)

def read_entry (kind : Kind) (buffer : Cursor) : Except CException ((Key × Packed) × Cursor) := do
  let (key, buffer) ← read_key kind buffer
  let (variant, buffer) ← from_packet buffer
  return ((key, variant), buffer)

/-- One turn of the loop over a payload. -/
def entry (kind : Kind) : Decoder CException (Key × Packed) := fun bytes =>
  if bytes = [] then .more
  else
    match read_entry kind ⟨bytes, 0⟩ with
    | .error raised => .fail raised
    | .ok (pair, after) => .item pair after.left

/-- The entries of a payload in its own order, up to the first that cannot be
    read; what was left there is the exception the loop raises. -/
def raw_entries (kind : Kind) (payload : Bytes) : List (Key × Packed) × Tail CException := run (entry kind) payload

/-- `Find` on a payload: the loop is left at the first entry under the key. -/
def find_raw (kind : Kind) (payload : Bytes) (key : Key) : Except CException (Option Packed) :=
  match (raw_entries kind payload).1.find? (fun pair => pair.1 = key) with
  | some pair => .ok (some pair.2)
  | none =>
    match (raw_entries kind payload).2 with
    | .pending _ => .ok none
    | .failed raised => .error raised

/-! ## Keeping entries -/

section Keep
variable {α : Type}

/-- A list grows at its end; a `std::map` refuses a key it already has. -/
def insert_entry (kind : Kind) (entries : List (Key × α)) (key : Key) (value : α) : List (Key × α) :=
  match kind with
  | .list => entries ++ [(key, value)]
  | _ => add key value entries

def collect (kind : Kind) (pairs : List (Key × α)) : List (Key × α) :=
  pairs.foldl (fun entries pair => insert_entry kind entries pair.1.stored pair.2) []

end Keep

/-- What is in the container when the loop ends, and the exception it ended
    with. The container is kept even then. -/
def parse (kind : Kind) (payload : Bytes) : List (Key × Packed) × Option CException :=
  match raw_entries kind payload with
  | (pairs, .pending _) => (collect kind pairs, none)
  | (pairs, .failed raised) => (collect kind pairs, some raised)

/-! ## Writing entries -/

/-- The length byte holds the low eight bits, and that many bytes follow it. -/
def write_key : Key → Bytes
  | .name text => UInt8.ofNat text.length :: text.take (text.length % 256)
  | .id value => leBytes 4 value.toNat
  | .item => []

def write_entry (pair : Key × Packed) : Bytes := write_key pair.1 ++ to_packet pair.2

/-! ## What the two agree on -/

/-- Keys that the wire spells in full. -/
def KeyFits (kind : Kind) (key : Key) : Prop :=
  match kind, key with
  | .map, .name text => text.length < 256
  | .index, .id _ => True
  | .list, .item => True
  | _, _ => False

@[simp] theorem kindOf_type (kind : Kind) : kindOf kind.type = some kind := by
  cases kind <;> decide

theorem type_of_kindOf {type : VarType} {kind : Kind} (known : kindOf type = some kind) : type = kind.type := by
  unfold kindOf at known
  split_ifs at known <;> cases known <;> assumption

theorem kind_type_ne_empty (kind : Kind) : kind.type ≠ VAR_TYPE_EMPTY := by
  cases kind <;> decide

/-- A key is read exactly when its spelling stands in front. -/
theorem read_key_ok_iff {kind : Kind} {buffer after : Cursor} {key : Key} :
    read_key kind buffer = .ok (key, after) ↔
      KeyFits kind key ∧ buffer.left = write_key key ++ after.left ∧
        after.position = buffer.position + (write_key key).length := by
  obtain ⟨left, position⟩ := buffer
  obtain ⟨afterLeft, afterPosition⟩ := after
  cases kind with
  | list =>
    simp only [read_key, pure, Except.pure, Except.ok.injEq, Prod.mk.injEq, Cursor.mk.injEq]
    constructor
    · rintro ⟨rfl, rfl, rfl⟩
      exact ⟨trivial, rfl, rfl⟩
    · rintro ⟨fits, split, moved⟩
      cases key with
      | item => exact ⟨rfl, split, moved.symm⟩
      | name text => exact fits.elim
      | id value => exact fits.elim
  | map =>
    constructor
    · intro success
      cases first : read_value 1 ⟨left, position⟩ with
      | error raised => simp [read_key, first, bind, Except.bind] at success
      | ok sized =>
        obtain ⟨length, behind⟩ := sized
        obtain ⟨bytes, one, lengthSplit, lengthPosition, rfl⟩ := read_value_ok_iff.mp first
        obtain ⟨byte, rfl⟩ := List.length_eq_one_iff.mp one
        have small : byte.toNat < 256 := byte.toNat_lt
        have value : leNat [byte] = byte.toNat := by simp [leNat]
        rw [value] at first
        by_cases incomplete : behind.left.length < byte.toNat
        · simp [read_key, first, incomplete, bind, Except.bind, throw, throwThe, MonadExceptOf.throw] at success
        · cases second : read_data byte.toNat behind with
          | error raised => simp [read_key, first, incomplete, second, bind, Except.bind, pure, Except.pure] at success
          | ok named =>
            obtain ⟨name, behindName⟩ := named
            obtain ⟨size, nameSplit, namePosition⟩ := read_data_ok_iff.mp second
            simp [read_key, first, incomplete, second, bind, Except.bind, pure, Except.pure] at success
            obtain ⟨rfl, rfl⟩ := success
            have whole : name.take (name.length % 256) = name := by
              rw [size, Nat.mod_eq_of_lt small, ← size, List.take_length]
            have spelled : write_key (.name name) = byte :: name := by
              rw [write_key, whole, size, UInt8.ofNat_toNat]
            have short : name.length < 256 := size ▸ small
            refine ⟨short, ?_, ?_⟩
            · rw [nameSplit] at lengthSplit
              simpa [spelled] using lengthSplit
            · simp only at lengthPosition namePosition
              simp only [spelled, List.length_cons, size]
              omega
    · rintro ⟨fits, split, moved⟩
      cases key with
      | item => exact fits.elim
      | id value => exact fits.elim
      | name text =>
        have short : text.length < 256 := fits
        have whole : text.take (text.length % 256) = text := by
          rw [Nat.mod_eq_of_lt short, List.take_length]
        have spelled : write_key (.name text) = UInt8.ofNat text.length :: text := by rw [write_key, whole]
        rw [spelled] at split moved
        simp only [List.length_cons] at moved
        have first : read_value 1 ⟨left, position⟩ = .ok (text.length, ⟨text ++ afterLeft, position + 1⟩) :=
          read_value_ok_iff.mpr ⟨[UInt8.ofNat text.length], rfl, split, rfl, by
            simp [leNat, Nat.mod_eq_of_lt short]⟩
        have second : read_data text.length ⟨text ++ afterLeft, position + 1⟩ = .ok (text, ⟨afterLeft, afterPosition⟩) :=
          read_data_ok_iff.mpr ⟨rfl, rfl, by simp only [moved]; omega⟩
        simp [read_key, first, second, bind, Except.bind, pure, Except.pure]
  | index =>
    constructor
    · intro success
      cases first : read_value 4 ⟨left, position⟩ with
      | error raised => simp [read_key, first, bind, Except.bind] at success
      | ok named =>
        obtain ⟨id, behind⟩ := named
        obtain ⟨bytes, four, split, moved, rfl⟩ := read_value_ok_iff.mp first
        simp [read_key, first, bind, Except.bind, pure, Except.pure] at success
        obtain ⟨rfl, rfl⟩ := success
        have small : leNat bytes < 2 ^ 32 := by
          have bound := leNat_lt bytes
          rw [four] at bound
          omega
        have spelled : write_key (.id (UInt32.ofNat (leNat bytes))) = bytes := by
          rw [write_key, UInt32.toNat_ofNat_of_lt' small, ← four, leBytes_leNat]
        exact ⟨trivial, by rw [spelled]; exact split, by rw [spelled, four]; exact moved⟩
    · rintro ⟨fits, split, moved⟩
      cases key with
      | item => exact fits.elim
      | name text => exact fits.elim
      | id value =>
        have small : value.toNat < 256 ^ 4 := value.toNat_lt
        have first : read_value 4 ⟨left, position⟩ = .ok (value.toNat, ⟨afterLeft, afterPosition⟩) :=
          read_value_ok_iff.mpr ⟨leBytes 4 value.toNat, leBytes_length .., split, by simpa [write_key] using moved,
            (leNat_leBytes_of_lt small).symm⟩
        simp [read_key, first, bind, Except.bind, pure, Except.pure]

theorem entry_item_iff {kind : Kind} {bytes rest : Bytes} {pair : Key × Packed} :
    entry kind bytes = .item pair rest ↔
      KeyFits kind pair.1 ∧ ∃ header, HeaderOf header pair.2.type pair.2.payload.length ∧
        bytes = write_key pair.1 ++ (header ++ pair.2.payload ++ rest) := by
  obtain ⟨key, variant⟩ := pair
  unfold entry read_entry
  constructor
  · intro found
    by_cases empty : bytes = []
    · simp [empty] at found
    · cases first : read_key kind ⟨bytes, 0⟩ with
      | error raised => simp [empty, first, bind, Except.bind] at found
      | ok keyed =>
        obtain ⟨other, behind⟩ := keyed
        cases second : from_packet behind with
        | error raised => simp [empty, first, second, bind, Except.bind] at found
        | ok loaded =>
          obtain ⟨packed, after⟩ := loaded
          simp [empty, first, second, bind, Except.bind, pure, Except.pure] at found
          obtain ⟨⟨rfl, rfl⟩, rfl⟩ := found
          obtain ⟨fits, keySplit, -⟩ := read_key_ok_iff.mp first
          obtain ⟨header, valid, packetSplit, -⟩ := from_packet_ok_iff.mp second
          exact ⟨fits, header, valid, by rw [← packetSplit]; exact keySplit⟩
  · rintro ⟨fits, header, valid, rfl⟩
    have nonempty : write_key key ++ (header ++ variant.payload ++ rest) ≠ [] := by
      obtain ⟨byte, field, rfl, -⟩ := valid
      simp
    have first : read_key kind ⟨write_key key ++ (header ++ variant.payload ++ rest), 0⟩ =
        .ok (key, ⟨header ++ variant.payload ++ rest, 0 + (write_key key).length⟩) :=
      read_key_ok_iff.mpr ⟨fits, rfl, rfl⟩
    have second : from_packet ⟨header ++ variant.payload ++ rest, 0 + (write_key key).length⟩ =
        .ok (variant, ⟨rest, 0 + (write_key key).length + header.length + variant.payload.length⟩) :=
      from_packet_ok_iff.mpr ⟨header, valid, rfl, rfl⟩
    simp only [nonempty, first, second, bind, Except.bind, pure, Except.pure, ↓reduceIte]

theorem entry_productive (kind : Kind) : Productive (entry kind) where
  idle := by simp [entry]
  splits bytes pair rest found := by
    obtain ⟨-, header, ⟨byte, field, rfl, -⟩, rfl⟩ := entry_item_iff.mp found
    exact ⟨write_key pair.1 ++ (byte :: field) ++ pair.2.payload, by simp, by simp⟩

theorem raw_entries_pending {kind : Kind} {payload rest : Bytes} (ended : (raw_entries kind payload).2 = .pending rest) :
    rest = [] := by
  have stopped := run_pending (entry_productive kind) payload rest ended
  unfold entry at stopped
  by_cases empty : rest = []
  · exact empty
  · rw [if_neg empty] at stopped
    cases read : read_entry kind ⟨rest, 0⟩ <;> simp [read] at stopped

theorem raw_entries_written (kind : Kind) (pairs : List (Key × Packed))
    (fits : ∀ pair ∈ pairs, KeyFits kind pair.1 ∧ Encodable pair.2) :
    raw_entries kind (pairs.flatMap write_entry) = (pairs, .pending []) := by
  have inverse : ∀ pair ∈ pairs, ∀ rest, entry kind (write_entry pair ++ rest) = .item pair rest := by
    intro pair member rest
    obtain ⟨keyFits, encodable⟩ := fits pair member
    refine entry_item_iff.mpr ⟨keyFits, _, packet_header_correct pair.2 encodable, ?_⟩
    simp [write_entry, to_packet]
  have walked := run_encoded (entry_productive kind) write_entry pairs inverse []
  have ended : run (entry kind) [] = ([], .pending []) := run_more (entry_productive kind).idle
  simpa [raw_entries, ended] using walked

theorem raw_entries_snoc {kind : Kind} {payload : Bytes} {pairs : List (Key × Packed)}
    (parsed : raw_entries kind payload = (pairs, .pending [])) {key : Key} {variant : Packed} {header : Bytes}
    (fits : KeyFits kind key) (valid : HeaderOf header variant.type variant.payload.length) :
    raw_entries kind (payload ++ (write_key key ++ (header ++ variant.payload))) = (pairs ++ [(key, variant)], .pending []) := by
  have stable : ∀ bytes pair rest more, entry kind bytes = .item pair rest → entry kind (bytes ++ more) = .item pair (rest ++ more) := by
    intro bytes pair rest more found
    obtain ⟨keyFits, front, frontValid, rfl⟩ := entry_item_iff.mp found
    exact entry_item_iff.mpr ⟨keyFits, front, frontValid, by simp⟩
  have last : entry kind (write_key key ++ (header ++ variant.payload)) = .item (key, variant) [] :=
    entry_item_iff.mpr ⟨fits, header, valid, by simp⟩
  have ended : run (entry kind) [] = ([], .pending []) := run_more (entry_productive kind).idle
  rw [raw_entries] at parsed ⊢
  rw [run_append_of_pending (entry_productive kind) stable parsed, List.nil_append, run_item (entry_productive kind) last, ended]

/-! ## What a container keeps -/

section Kept
variable {α β : Type}

/-- The order and the keys of a container in memory. -/
structure Arranged (kind : Kind) (entries : List (Key × α)) : Prop where
  fits : ∀ pair ∈ entries, KeyFits kind pair.1 ∧ pair.1.stored = pair.1
  sorted : kind ≠ .list → Sorted entries

theorem stored_stored (key : Key) : key.stored.stored = key.stored := by
  cases key with
  | name text => simp [Key.stored, c_str, List.takeWhile_idem]
  | id value => rfl
  | item => rfl

variable {kind : Kind} {entries : List (Key × α)}

theorem keyFits_stored {key : Key} (fits : KeyFits kind key) : KeyFits kind key.stored := by
  cases key with
  | name text =>
    cases kind with
    | map =>
      have shorter : (c_str text).length ≤ text.length := (List.takeWhile_prefix _).length_le
      exact Nat.lt_of_le_of_lt shorter fits
    | list => exact fits.elim
    | index => exact fits.elim
  | id value => exact fits
  | item => exact fits

private theorem mem_insert_entry {key : Key} {value : α} {pair : Key × α}
    (member : pair ∈ insert_entry kind entries key value) : pair = (key, value) ∨ pair ∈ entries := by
  have grown (unordered : pair ∈ add key value entries) : pair = (key, value) ∨ pair ∈ entries := by
    unfold add at unordered
    split_ifs at unordered
    · exact Or.inr unordered
    · exact mem_put unordered
  cases kind with
  | list =>
    rcases List.mem_append.mp member with before | last
    · exact Or.inr before
    · exact Or.inl (List.mem_singleton.mp last)
  | map => exact grown member
  | index => exact grown member

private theorem arranged_insert_entry {key : Key} {value : α} (arranged : Arranged kind entries)
    (fits : KeyFits kind key) (stored : key.stored = key) :
    Arranged kind (insert_entry kind entries key value) where
  fits pair member := by
    rcases mem_insert_entry member with rfl | before
    · exact ⟨fits, stored⟩
    · exact arranged.fits pair before
  sorted ordered := by
    cases kind with
    | list => exact absurd rfl ordered
    | map => exact sorted_add (arranged.sorted ordered)
    | index => exact sorted_add (arranged.sorted ordered)

theorem collect_arranged (pairs : List (Key × α)) (fits : ∀ pair ∈ pairs, KeyFits kind pair.1) :
    Arranged kind (collect kind pairs) := by
  have grow (entries : List (Key × α)) (arranged : Arranged kind entries) :
      Arranged kind (pairs.foldl (fun entries pair => insert_entry kind entries pair.1.stored pair.2) entries) := by
    induction pairs generalizing entries with
    | nil => exact arranged
    | cons pair rest ih =>
      refine ih (fun other member => fits other (List.mem_cons_of_mem _ member)) _ ?_
      exact arranged_insert_entry arranged (keyFits_stored (fits pair (by simp))) (stored_stored _)
  exact grow [] ⟨by simp, fun _ => List.Pairwise.nil⟩

theorem arranged_last {before : List (Key × α)} {key : Key} {value : α}
    (whole : Arranged kind (before ++ [(key, value)])) :
    key.stored = key ∧ (kind ≠ .list → find key before = none) ∧
      (kind ≠ .list → put key value before = before ++ [(key, value)]) := by
  refine ⟨(whole.fits (key, value) (by simp)).2, ?_, ?_⟩
  · intro ordered
    have sorted := whole.sorted ordered
    cases present : find key before with
    | none => rfl
    | some old =>
      exact absurd ((List.pairwise_append.mp sorted).2.2 _ (find_mem present) (key, value) (by simp)) (lt_irrefl _)
  · intro ordered
    exact put_append (fun other member => (List.pairwise_append.mp (whole.sorted ordered)).2.2 other member (key, value) (by simp))

theorem arranged_front {before after : List (Key × α)} (whole : Arranged kind (before ++ after)) :
    Arranged kind before where
  fits pair member := whole.fits pair (List.mem_append_left _ member)
  sorted ordered := (List.pairwise_append.mp (whole.sorted ordered)).1

theorem foldl_of_arranged {step : List (Key × α) → Key × α → List (Key × α)}
    (last : ∀ before pair, pair ∈ entries → Arranged kind (before ++ [pair]) → step before pair = before ++ [pair])
    (arranged : Arranged kind entries) : entries.foldl step [] = entries := by
  have grow (before after : List (Key × α)) (members : ∀ pair ∈ after, pair ∈ entries) (whole : Arranged kind (before ++ after)) :
      after.foldl step before = before ++ after := by
    induction after generalizing before with
    | nil => simp
    | cons pair rest ih =>
      have regrouped : before ++ pair :: rest = (before ++ [pair]) ++ rest := by simp
      rw [regrouped] at whole ⊢
      rw [List.foldl_cons, last before pair (members pair (by simp)) (arranged_front whole)]
      exact ih _ (fun other member => members other (List.mem_cons_of_mem _ member)) whole
  exact grow [] entries (fun _ member => member) arranged

theorem collect_of_arranged (arranged : Arranged kind entries) : collect kind entries = entries := by
  refine foldl_of_arranged ?_ arranged
  rintro before ⟨key, value⟩ - whole
  obtain ⟨stored, absent, placed⟩ := arranged_last whole
  simp only [stored]
  cases kind with
  | list => rfl
  | map => simp [insert_entry, add, absent, placed]
  | index => simp [insert_entry, add, absent, placed]

/-- A `std::map` keeps the first entry under a key. -/
theorem find_collect (keyed : kind ≠ .list) (pairs : List (Key × α)) (key : Key) :
    find key (collect kind pairs) = (pairs.find? (fun pair => pair.1.stored = key)).map Prod.snd := by
  have grow (entries : List (Key × α)) :
      find key (pairs.foldl (fun entries pair => insert_entry kind entries pair.1.stored pair.2) entries) =
        (find key entries).or ((pairs.find? (fun pair => pair.1.stored = key)).map Prod.snd) := by
    induction pairs generalizing entries with
    | nil => simp
    | cons pair rest ih =>
      have added : insert_entry kind entries pair.1.stored pair.2 = add pair.1.stored pair.2 entries := by
        cases kind with
        | list => exact absurd rfl keyed
        | map => rfl
        | index => rfl
      rw [List.foldl_cons, ih, added, List.find?_cons, find_add]
      by_cases same : pair.1.stored = key
      · cases present : find key entries with
        | some old => simp [same, present]
        | none => simp [same, present]
      · simp [same, Ne.symm same]
  rw [collect, grow]
  rfl

theorem mem_collect {pairs : List (Key × α)} {pair : Key × α} (member : pair ∈ collect kind pairs) :
    ∃ key, (key, pair.2) ∈ pairs ∧ pair.1 = key.stored := by
  have grow (entries : List (Key × α)) :
      pair ∈ pairs.foldl (fun entries pair => insert_entry kind entries pair.1.stored pair.2) entries →
        pair ∈ entries ∨ ∃ key, (key, pair.2) ∈ pairs ∧ pair.1 = key.stored := by
    clear member
    induction pairs generalizing entries with
    | nil => exact Or.inl
    | cons head rest ih =>
      intro member
      rcases ih _ member with kept | ⟨key, found, named⟩
      · rcases mem_insert_entry kept with rfl | before
        · exact Or.inr ⟨head.1, by simp, rfl⟩
        · exact Or.inl before
      · exact Or.inr ⟨key, List.mem_cons_of_mem _ found, named⟩
  rcases grow [] member with impossible | found
  · simp at impossible
  · exact found

private theorem put_cost (cost : Key × α → Nat) (key : Key) (value : α) (entries : List (Key × α)) :
    ((put key value entries).map cost).sum ≤ (entries.map cost).sum + cost (key, value) := by
  induction entries with
  | nil => simp [put]
  | cons head rest ih =>
    obtain ⟨other, old⟩ := head
    rw [put]
    split_ifs
    · simp only [List.map_cons, List.sum_cons]
      omega
    · simp only [List.map_cons, List.sum_cons]
      omega
    · simp only [List.map_cons, List.sum_cons]
      omega

theorem collect_cost (kind : Kind) (cost : Key × α → Nat) (pairs : List (Key × α)) :
    ((collect kind pairs).map cost).sum ≤ (pairs.map (fun pair => cost (pair.1.stored, pair.2))).sum := by
  have grow (entries : List (Key × α)) :
      ((pairs.foldl (fun entries pair => insert_entry kind entries pair.1.stored pair.2) entries).map cost).sum ≤
        (entries.map cost).sum + (pairs.map (fun pair => cost (pair.1.stored, pair.2))).sum := by
    induction pairs generalizing entries with
    | nil => simp
    | cons pair rest ih =>
      have placed : ((insert_entry kind entries pair.1.stored pair.2).map cost).sum ≤
          (entries.map cost).sum + cost (pair.1.stored, pair.2) := by
        have added : ((add pair.1.stored pair.2 entries).map cost).sum ≤
            (entries.map cost).sum + cost (pair.1.stored, pair.2) := by
          unfold add
          split_ifs
          · omega
          · exact put_cost ..
        cases kind with
        | list => simp [insert_entry]
        | map => exact added
        | index => exact added
      have later := ih (insert_entry kind entries pair.1.stored pair.2)
      simp only [List.foldl_cons, List.map_cons, List.sum_cons]
      omega
  simpa [collect] using grow []

end Kept

theorem raw_entries_fit (kind : Kind) (payload : Bytes) :
    ∀ pair ∈ (raw_entries kind payload).1, KeyFits kind pair.1 ∧ pair.2.payload.length < 2 ^ 32 :=
  run_forall (entry_productive kind) (fun bytes pair rest found => by
    obtain ⟨fits, header, valid, -⟩ := entry_item_iff.mp found
    exact ⟨fits, header_size_lt valid⟩) payload

theorem write_key_stored_length {kind : Kind} (key : Key) (fits : KeyFits kind key) :
    (write_key key.stored).length ≤ (write_key key).length := by
  cases key with
  | name text =>
    cases kind with
    | map =>
      have short : text.length < 256 := fits
      have shorter : (c_str text).length ≤ text.length := (List.takeWhile_prefix _).length_le
      simp only [Key.stored, write_key, List.length_cons, List.length_take]
      rw [Nat.mod_eq_of_lt short, Nat.mod_eq_of_lt (by omega)]
      omega
    | list => exact fits.elim
    | index => exact fits.elim
  | id value => rfl
  | item => rfl

/-- The byte an EMPTY with a payload is written short: the length field its
    header would need. -/
def surplus (variant : Packed) : Nat := if variant.type = VAR_TYPE_EMPTY ∧ variant.payload ≠ [] then 1 else 0

/-- The bytes an entry takes in a payload, at least. -/
def weight (pair : Key × Packed) : Nat := (write_entry pair).length + surplus pair.2

theorem raw_entries_cost (kind : Kind) (payload : Bytes) :
    ((raw_entries kind payload).1.map (fun pair => weight (pair.1.stored, pair.2))).sum ≤ payload.length :=
  run_cost (entry_productive kind) _ (fun bytes pair rest found => by
    obtain ⟨fits, header, valid, rfl⟩ := entry_item_iff.mp found
    have shortest := packet_header_shortest valid
    have keyBytes := write_key_stored_length pair.1 fits
    have headerBytes : (packet_header pair.2.type pair.2.payload.length).length + surplus pair.2 ≤ header.length := by
      unfold surplus
      split_ifs with carries
      · obtain ⟨empty, nonempty⟩ := carries
        have two : 2 ≤ header.length :=
          empty_header_length (empty ▸ valid) (fun none => nonempty (List.length_eq_zero_iff.mp none))
        have one : (packet_header pair.2.type pair.2.payload.length).length = 1 := by
          rw [packet_header_length, if_pos (Or.inl empty)]
        omega
      · exact shortest
    simp only [weight, write_entry, to_packet, List.length_append]
    omega) payload

theorem raw_entries_shorter (kind : Kind) (payload : Bytes) :
    ∀ pair ∈ (raw_entries kind payload).1, pair.2.payload.length < payload.length := by
  intro pair member
  have total := raw_entries_cost kind payload
  have single : weight (pair.1.stored, pair.2) ≤
      ((raw_entries kind payload).1.map (fun pair => weight (pair.1.stored, pair.2))).sum :=
    List.single_le_sum (fun _ _ => Nat.zero_le _) _ (List.mem_map.mpr ⟨pair, member, rfl⟩)
  have bounded := single.trans total
  have header : 0 < (packet_header pair.2.type pair.2.payload.length).length := by
    rw [packet_header_length]
    split_ifs <;> omega
  simp only [weight, write_entry, to_packet, List.length_append] at bounded
  omega

theorem payload_lt_flatMap {pairs : List (Key × Packed)} {pair : Key × Packed} (member : pair ∈ pairs) :
    pair.2.payload.length < (pairs.flatMap write_entry).length := by
  obtain ⟨before, after, rfl⟩ := List.append_of_mem member
  have header := packet_header_length pair.2.type pair.2.payload.length
  have byte : 0 < (packet_header pair.2.type pair.2.payload.length).length := by
    rw [header]
    split_ifs <;> decide
  simp only [List.flatMap_append, List.flatMap_cons, List.length_append, write_entry, to_packet]
  omega

end TaskExplorer.VariantContainer
